/-
Reading the pages behind a cursor (`drainLogPages` in
frontend/src/components/shared/log-viewer/logUtils.ts).

# The log and its server

A log is a list of lines whose timestamps come one after another, in some
strict order (`TimeOrder`): how timestamps are compared does not matter to
the code, which compares them only for being the same. A server may answer
each request as it likes, as long as the page is a beginning of what is
behind the cursor (`Serves`).

# The argument

When the loop comes to its top, what was read is a beginning of the lines
behind the first cursor, and what is behind the cursor now is the rest of
them (`after_stamp`). No entry is dropped as known, since no two lines have
one timestamp (`appendUnique_eq`).
-/
import Kubikles.LogView.Lines

namespace LogPages

open LogView

-- ======== the program

/-- What `drainLogPages` returns, and how many pages it asked for. -/
structure Drained where
  entries : List LogEntry
  cursor : String
  truncated : Bool
  requests : Nat
deriving DecidableEq

/-- The loop of `drainLogPages`, with so many pages still to be read. The
page that it gets may depend on the number of the request. -/
def drainFrom (fetchPage : Nat → String → Page) :
    Nat → Nat → String → List LogEntry → Drained
  | 0, page, cursor, entries => ⟨entries, cursor, true, page⟩
  | left + 1, page, cursor, entries =>
    let result := fetchPage page cursor
    let pageEntries :=
      if result.hasText then parseLogLines result.logs .poll else []
    if pageEntries = [] then ⟨entries, cursor, false, page + 1⟩
    else
      let entries := appendUniqueLogEntries entries pageEntries
      let nextCursor := lastTimestamp pageEntries
      if nextCursor = "" ∨ nextCursor = cursor ∨ ¬ result.hasMore then
        ⟨entries, if nextCursor = "" then cursor else nextCursor, false,
          page + 1⟩
      else drainFrom fetchPage left (page + 1) nextCursor entries

def drainLogPages (fetchPage : Nat → String → Page)
    (initialCursor : String) (maxPages : Nat) : Drained :=
  drainFrom fetchPage maxPages 0 initialCursor []

-- ======== the log

structure TimeOrder where
  before : String → String → Bool
  irrefl : ∀ t, before t t = false
  trans : ∀ s t u, before s t = true → before t u = true →
    before s u = true

def entry (line : List Char) : LogEntry := parseLine .poll line

def stamp (line : List Char) : String := (entry line).timestamp

/-- A log: lines with timestamps of the accepted format, one after
another. -/
structure Log (order : TimeOrder) where
  lines : List (List Char)
  stamped : ∀ line ∈ lines, (timestampLength line).isSome = true
  whole : ∀ line ∈ lines, '\n' ∉ line
  ordered : lines.Pairwise fun line line' =>
    order.before (stamp line) (stamp line') = true

variable {order : TimeOrder} {log : Log order}

def Log.after (log : Log order) (cursor : String) : List (List Char) :=
  log.lines.filter fun line => order.before cursor (stamp line)

def joined (lines : List (List Char)) : List Char :=
  ['\n'].intercalate lines

/-- A page is a beginning of the lines behind the cursor, not an empty one
if there are any, and says whether there are more. The last line may have
its end or not. -/
def Serves (log : Log order) (cursor : String) (page : Page) : Prop :=
  ∃ n, (log.after cursor ≠ [] → 0 < n)
    ∧ (page.logs.toList = joined ((log.after cursor).take n)
      ∨ page.logs.toList = joined ((log.after cursor).take n) ++ ['\n'])
    ∧ page.hasMore = decide (n < (log.after cursor).length)

structure DrainedRight (log : Log order) (initialCursor : String)
    (maxPages : Nat) (d : Drained) : Prop where
  /-- The entries are the first lines behind the cursor. -/
  entries : d.entries
    = ((log.after initialCursor).take d.entries.length).map entry
  /-- The new cursor is the timestamp of the last of them. -/
  cursor : d.cursor
    = (d.entries.getLast?.map LogEntry.timestamp).getD initialCursor
  /-- What is behind it are the other lines. -/
  behind : log.after d.cursor
    = (log.after initialCursor).drop d.entries.length
  /-- It is truncated exactly if there are any. -/
  truncated : d.truncated = true ↔ log.after d.cursor ≠ []
  /-- Then as many pages were asked for as may be. -/
  requests : d.truncated = true → d.requests = maxPages

-- ======== the lines

theorem after_stamp {cursor : String} {front rest : List (List Char)}
    {line : List Char} (h : log.after cursor = front ++ line :: rest) :
    log.after (stamp line) = rest := by
  obtain ⟨lines₁, lines₂, hlines, -, hrest⟩ :=
    List.filter_eq_append_iff.mp h
  obtain ⟨skipped, lines₃, rfl, -, hcursor, rfl⟩ :=
    List.filter_eq_cons_iff.mp hrest
  have hordered := log.ordered
  rw [hlines, ← List.append_assoc] at hordered
  obtain ⟨-, hbehind, hbefore⟩ := List.pairwise_append.mp hordered
  obtain ⟨hlater, -⟩ := List.pairwise_cons.mp hbehind
  have hnone : (lines₁ ++ skipped).filter
      (fun other => order.before (stamp line) (stamp other)) = [] := by
    refine List.filter_eq_nil_iff.mpr fun other hother hafter => ?_
    have hearlier := hbefore other hother line (List.mem_cons_self ..)
    have hself := order.trans _ _ _ hearlier hafter
    rw [order.irrefl] at hself
    cases hself
  have hall : lines₃.filter
      (fun other => order.before (stamp line) (stamp other)) = lines₃ :=
    List.filter_eq_self.mpr hlater
  have hfrom : lines₃.filter
      (fun other => order.before cursor (stamp other)) = lines₃ :=
    List.filter_eq_self.mpr fun other hother =>
      order.trans _ _ _ hcursor (hlater other hother)
  unfold Log.after
  rw [hlines, ← List.append_assoc, List.filter_append, hnone,
    List.filter_cons_of_neg (by rw [order.irrefl]; exact Bool.false_ne_true),
    hall, hfrom, List.nil_append]

theorem after_ordered (log : Log order) (cursor : String) :
    (log.after cursor).Pairwise fun line line' =>
      order.before (stamp line) (stamp line') = true :=
  log.ordered.filter _

theorem mem_after {cursor : String} {line : List Char}
    (h : line ∈ log.after cursor) :
    line ∈ log.lines ∧ order.before cursor (stamp line) = true :=
  List.mem_filter.mp h

theorem not_whitespace {c : Char} (h : c.isDigit = true) :
    whitespace c = false := by
  simp only [Char.isDigit, Bool.and_eq_true, decide_eq_true_eq] at h
  obtain ⟨hlow, hhigh⟩ := h
  have hne : ∀ d : Char, (d.val < 48 ∨ 57 < d.val) → c ≠ d := by
    rintro d hd rfl
    rcases hd with hd | hd
    · exact absurd hlow (UInt32.not_le.mpr hd)
    · exact absurd hhigh (UInt32.not_le.mpr hd)
  have hrange : ¬ '\u2000' ≤ c := fun hle =>
    absurd (UInt32.le_trans hle hhigh) (by decide)
  unfold whitespace
  simp only [hne _ (.inl (by decide : (' ' : Char).val < 48)),
    hne _ (.inl (by decide : ('\t' : Char).val < 48)),
    hne _ (.inl (by decide : ('\n' : Char).val < 48)),
    hne _ (.inl (by decide : ('\x0b' : Char).val < 48)),
    hne _ (.inl (by decide : ('\x0c' : Char).val < 48)),
    hne _ (.inl (by decide : ('\r' : Char).val < 48)),
    hne _ (.inr (by decide : 57 < ('\u00a0' : Char).val)),
    hne _ (.inr (by decide : 57 < ('\ufeff' : Char).val)),
    hne _ (.inr (by decide : 57 < ('\u1680' : Char).val)),
    hne _ (.inr (by decide : 57 < ('\u2028' : Char).val)),
    hne _ (.inr (by decide : 57 < ('\u2029' : Char).val)),
    hne _ (.inr (by decide : 57 < ('\u202f' : Char).val)),
    hne _ (.inr (by decide : 57 < ('\u205f' : Char).val)),
    hne _ (.inr (by decide : 57 < ('\u3000' : Char).val)), hrange]
  rfl

theorem exists_digit {line : List Char}
    (h : (timestampLength line).isSome = true) :
    ∃ c rest n, line = c :: rest ∧ c.isDigit = true
      ∧ timestampLength line = some (n + 1) := by
  have hpattern : timestampPattern
      = '0' :: "000-00-00T00:00:00.".toList := by decide
  unfold timestampLength at h ⊢
  cases hmatch : matchFront timestampPattern line with
  | none =>
    rw [hmatch] at h
    cases h
  | some behind =>
    rw [hmatch] at h
    dsimp only at h ⊢
    split at h
    next hfraction =>
      rw [if_pos hfraction]
      rw [hpattern] at hmatch
      cases line with
      | nil => cases hmatch
      | cons c rest =>
        rw [matchFront, if_pos rfl] at hmatch
        split at hmatch
        next hdigit => exact ⟨c, rest, _, rfl, hdigit, rfl⟩
        next => cases hmatch
    next => cases h

theorem hasText_of_stamped {line : List Char}
    (h : (timestampLength line).isSome = true) :
    LogView.hasText line = true := by
  obtain ⟨c, rest, -, rfl, hdigit, -⟩ := exists_digit h
  unfold LogView.hasText
  rw [List.any_cons, not_whitespace hdigit]
  rfl

theorem stamp_ne_empty {line : List Char}
    (h : (timestampLength line).isSome = true) : stamp line ≠ "" := by
  obtain ⟨c, rest, n, rfl, -, hlength⟩ := exists_digit h
  unfold stamp entry parseLine
  rw [hlength]
  intro hempty
  have hnil := congrArg String.toList hempty
  rw [String.toList_ofList] at hnil
  cases hnil

-- ======== a page

theorem joined_end {lines : List (List Char)} (h : lines ≠ []) :
    joined lines ++ ['\n'] = joined (lines ++ [[]]) := by
  unfold joined
  induction lines with
  | nil => exact absurd rfl h
  | cons line lines ih =>
    cases lines with
    | nil => simp [List.intercalate_cons_cons]
    | cons line' lines =>
      rw [List.intercalate_cons_cons, List.append_assoc,
        ih (List.cons_ne_nil _ _)]
      exact List.intercalate_cons_cons.symm

theorem lines_of_joined {lines : List (List Char)} {text : List Char}
    (hwhole : ∀ line ∈ lines, '\n' ∉ line)
    (htext : ∀ line ∈ lines, LogView.hasText line = true)
    (h : text = joined lines ∨ text = joined lines ++ ['\n']) :
    (text.splitOn '\n').filter LogView.hasText = lines := by
  have hkept : lines.filter LogView.hasText = lines :=
    List.filter_eq_self.mpr htext
  by_cases hnil : lines = []
  · subst hnil
    rcases h with rfl | rfl
    · decide
    · decide
  · rcases h with rfl | rfl
    · unfold joined
      rw [List.splitOn_intercalate '\n' hwhole hnil, hkept]
    · rw [joined_end hnil]
      unfold joined
      rw [List.splitOn_intercalate '\n' _ (by simp), List.filter_append,
        hkept]
      · exact List.append_nil _
      · intro line hline
        rcases List.mem_append.mp hline with hline | hline
        · exact hwhole line hline
        · rw [List.mem_singleton.mp hline]
          exact List.not_mem_nil

theorem hasText_joined {line : List Char} (lines : List (List Char))
    (tail : List Char) (h : LogView.hasText line = true) :
    LogView.hasText (joined (line :: lines) ++ tail) = true := by
  have hfront : ∃ rest, joined (line :: lines) ++ tail = line ++ rest := by
    unfold joined
    cases lines with
    | nil => exact ⟨tail, by rw [List.intercalate_singleton]⟩
    | cons line' lines =>
      rw [List.intercalate_cons_cons, List.append_assoc, List.append_assoc]
      exact ⟨_, rfl⟩
  obtain ⟨rest, hrest⟩ := hfront
  unfold LogView.hasText at h ⊢
  rw [hrest, List.any_append, h, Bool.true_or]

theorem entries_of_page {lines : List (List Char)} {page : Page}
    (hlog : ∀ line ∈ lines, line ∈ log.lines)
    (h : page.logs.toList = joined lines
      ∨ page.logs.toList = joined lines ++ ['\n']) :
    (if page.hasText then parseLogLines page.logs .poll else [])
      = lines.map entry := by
  have htext : ∀ line ∈ lines, LogView.hasText line = true :=
    fun line hline => hasText_of_stamped (log.stamped line (hlog line hline))
  have hlines := lines_of_joined
    (fun line hline => log.whole line (hlog line hline)) htext h
  have hparsed : parseLogLines page.logs .poll = lines.map entry := by
    unfold parseLogLines
    rw [hlines]
    rfl
  cases lines with
  | nil =>
    rw [hparsed]
    exact ite_self _
  | cons line lines =>
    have hpage : page.hasText = true := by
      unfold Page.hasText
      have hline := htext line (List.mem_cons_self ..)
      rcases h with h | h
      · rw [h, ← List.append_nil (joined _)]
        exact hasText_joined lines [] hline
      · rw [h]
        exact hasText_joined lines ['\n'] hline
    rw [if_pos hpage, hparsed]

theorem appendUnique_eq {existing incoming : List LogEntry}
    (h : (existing ++ incoming).Pairwise fun e e' =>
      e.timestamp ≠ e'.timestamp) :
    appendUniqueLogEntries existing incoming = existing ++ incoming := by
  unfold appendUniqueLogEntries appendUnique
  induction incoming generalizing existing with
  | nil => exact (List.append_nil _).symm
  | cons e incoming ih =>
    have hnew : (existing.any fun e' => SameKey (id e') (id e)) = false := by
      refine List.any_eq_false.mpr fun e' he' hsame => ?_
      obtain ⟨-, -, hne⟩ := List.pairwise_append.mp h
      exact hne e' he' e (List.mem_cons_self ..)
        (of_decide_eq_true hsame).1
    rw [List.append_cons] at h ⊢
    rw [List.foldl_cons, hnew]
    exact ih h

theorem lastTimestamp_entries (front : List (List Char)) {line : List Char}
    (h : stamp line ≠ "") :
    lastTimestamp ((front ++ [line]).map entry) = stamp line := by
  unfold lastTimestamp firstTimestamp
  rw [List.map_append, List.reverse_append]
  show ((entry line :: (front.map entry).reverse).find? _ |>.map _).getD ""
    = stamp line
  have hthis : decide ((entry line).timestamp ≠ "") = true :=
    decide_eq_true h
  rw [List.find?_cons, hthis]
  rfl

-- ======== the loop

/-- What was read when the loop comes to its top: these lines. -/
structure Read (log : Log order) (initialCursor : String)
    (done : List (List Char)) (cursor : String)
    (entries : List LogEntry) : Prop where
  lines : entries = done.map entry
  last : cursor
    = (entries.getLast?.map LogEntry.timestamp).getD initialCursor
  behind : log.after initialCursor = done ++ log.after cursor

variable {initialCursor cursor : String} {entries : List LogEntry}
variable {done front rest : List (List Char)} {line : List Char}
variable {fetchPage : Nat → String → Page}

theorem read_start (log : Log order) (initialCursor : String) :
    Read log initialCursor [] initialCursor [] :=
  ⟨rfl, rfl, rfl⟩

theorem Read.next (h : Read log initialCursor done cursor entries)
    (hafter : log.after cursor = front ++ line :: rest) :
    Read log initialCursor (done ++ (front ++ [line])) (stamp line)
      (entries ++ (front ++ [line]).map entry) where
  lines := by rw [h.lines, ← List.map_append]
  last := by
    rw [List.map_append, ← List.append_assoc, List.map_singleton,
      List.getLast?_concat]
    rfl
  behind := by
    rw [after_stamp hafter, h.behind, hafter]
    simp

theorem Read.new (h : Read log initialCursor done cursor entries)
    (hafter : log.after cursor = front ++ line :: rest) :
    (entries ++ (front ++ [line]).map entry).Pairwise fun e e' =>
      e.timestamp ≠ e'.timestamp := by
  rw [h.lines, ← List.map_append, List.pairwise_map]
  have hall := after_ordered log initialCursor
  rw [h.behind, hafter, List.append_cons, ← List.append_assoc] at hall
  refine (List.pairwise_append.mp hall).1.imp fun {l l'} hbefore heq => ?_
  rw [show stamp l = stamp l' from heq, order.irrefl] at hbefore
  cases hbefore

theorem Read.right (h : Read log initialCursor done cursor entries)
    {truncated : Bool} {requests maxPages : Nat}
    (htruncated : truncated = true ↔ log.after cursor ≠ [])
    (hrequests : truncated = true → requests = maxPages) :
    DrainedRight log initialCursor maxPages
      ⟨entries, cursor, truncated, requests⟩ where
  entries := by
    dsimp only
    rw [h.lines, List.length_map, h.behind, List.take_left]
  cursor := h.last
  behind := by
    dsimp only
    rw [h.lines, List.length_map, h.behind, List.drop_left]
  truncated := htruncated
  requests := hrequests

/-- The loop, from wherever it comes to its top. -/
theorem drainFrom_right
    (hserves : ∀ i cursor, Serves log cursor (fetchPage i cursor))
    (left page : Nat) (h : Read log initialCursor done cursor entries)
    (hmore : left = 0 → log.after cursor ≠ []) :
    DrainedRight log initialCursor (page + left)
      (drainFrom fetchPage left page cursor entries) := by
  induction left generalizing done page cursor entries with
  | zero =>
    exact h.right ⟨fun _ => hmore rfl, fun _ => rfl⟩ fun _ => rfl
  | succ left ih =>
    obtain ⟨n, hpos, hlogs, hhas⟩ := hserves page cursor
    have hmem : ∀ line ∈ (log.after cursor).take n, line ∈ log.lines :=
      fun line hline => (mem_after (List.mem_of_mem_take hline)).1
    unfold drainFrom
    dsimp only
    rw [entries_of_page hmem hlogs]
    by_cases hnone : log.after cursor = []
    · have hnil : (log.after cursor).take n = [] := by
        rw [hnone, List.take_nil]
      rw [hnil, if_pos List.map_nil]
      exact h.right ⟨nofun, fun hne => absurd hnone hne⟩ nofun
    · -- the page ends with a line, which is behind the cursor
      have htake : (log.after cursor).take n ≠ [] := fun hnil =>
        (List.take_eq_nil_iff.mp hnil).elim (hpos hnone).ne' hnone
      obtain ⟨front, line, hpage⟩ :=
        (List.eq_nil_or_concat _).resolve_left htake
      rw [List.concat_eq_append] at hpage
      have hafter : log.after cursor
          = front ++ line :: (log.after cursor).drop n := by
        rw [List.append_cons, ← hpage, List.take_append_drop]
      have hmem : line ∈ log.after cursor := by
        rw [hafter]
        exact List.mem_append_right _ (List.mem_cons_self ..)
      have hline := mem_after hmem
      have hstamp := stamp_ne_empty (log.stamped line hline.1)
      have hnew : stamp line ≠ cursor := by
        intro heq
        have hbefore := hline.2
        rw [heq, order.irrefl] at hbefore
        cases hbefore
      rw [hpage, if_neg (by simp), lastTimestamp_entries front hstamp,
        appendUnique_eq (h.new hafter), hhas]
      have hnext := h.next hafter
      have hrest := after_stamp hafter
      by_cases hlong : n < (log.after cursor).length
      · rw [if_neg (by simp [hstamp, hnew, hlong])]
        rw [show page + (left + 1) = page + 1 + left by omega]
        refine ih (page + 1) hnext fun _ => ?_
        rw [hrest]
        exact fun hnil => absurd (List.drop_eq_nil_iff.mp hnil)
          (Nat.not_le.mpr hlong)
      · rw [if_pos (by simp [hlong]), if_neg hstamp]
        refine hnext.right ⟨nofun, fun hne => absurd ?_ hne⟩ nofun
        rw [hrest]
        exact List.drop_eq_nil_of_le (Nat.le_of_not_lt hlong)

-- ======== the result

/-- What is drained is right, and draining again from the new cursor goes on
where it ended. -/
theorem drainLogPages_right (log : Log order)
    (fetchPage : Nat → String → Page)
    (hserves : ∀ i cursor, Serves log cursor (fetchPage i cursor))
    (initialCursor : String) (maxPages : Nat) (hpos : 1 ≤ maxPages) :
    let d := drainLogPages fetchPage initialCursor maxPages
    DrainedRight log initialCursor maxPages d
      ∧ ∀ (fetchPage' : Nat → String → Page),
        (∀ i cursor, Serves log cursor (fetchPage' i cursor)) →
          ∀ maxPages', 1 ≤ maxPages' →
            let d' := drainLogPages fetchPage' d.cursor maxPages'
            d.entries ++ d'.entries
              = ((log.after initialCursor).take
                (d.entries.length + d'.entries.length)).map entry := by
  have hright : ∀ (fetchPage : Nat → String → Page),
      (∀ i cursor, Serves log cursor (fetchPage i cursor)) →
        ∀ initialCursor maxPages, 1 ≤ maxPages →
          DrainedRight log initialCursor maxPages
            (drainLogPages fetchPage initialCursor maxPages) := by
    intro fetchPage hserves initialCursor maxPages hpos
    have h := drainFrom_right hserves maxPages 0
      (read_start log initialCursor) (by omega)
    rwa [Nat.zero_add] at h
  intro d
  have hd := hright fetchPage hserves initialCursor maxPages hpos
  refine ⟨hd, fun fetchPage' hserves' maxPages' hpos' => ?_⟩
  intro d'
  have hd' := hright fetchPage' hserves' d.cursor maxPages' hpos'
  rw [List.take_add, List.map_append, ← hd.behind, ← hd.entries,
    ← hd'.entries]

/-- Timestamps that are compared as strings. -/
def byString : TimeOrder where
  before s t := s < t
  irrefl t := decide_eq_false (String.lt_irrefl t)
  trans _ _ _ hst htu := decide_eq_true
    (String.lt_trans (of_decide_eq_true hst) (of_decide_eq_true htu))

def threeLines : Log byString where
  lines := ["2024-11-26T14:30:00.1Z start".toList,
    "2024-11-26T14:30:00.2Z work".toList,
    "2024-11-26T14:30:01.0Z stop".toList]
  stamped := by decide
  whole := by decide
  ordered := by decide

/-- A server that gives one line at a time. -/
def oneByOne (log : Log order) (_ : Nat) (cursor : String) : Page where
  logs := String.ofList (joined ((log.after cursor).take 1))
  hasMore := 1 < (log.after cursor).length

theorem oneByOne_serves (log : Log order) (i : Nat) (cursor : String) :
    Serves log cursor (oneByOne log i cursor) :=
  ⟨1, fun _ => Nat.one_pos, .inl String.toList_ofList, rfl⟩

/-- Two pages of them. -/
theorem drainLogPages_right_threeLines :
    DrainedRight threeLines "" 2
      (drainLogPages (oneByOne threeLines) "" 2) :=
  (drainLogPages_right threeLines (oneByOne threeLines)
    (oneByOne_serves threeLines) "" 2 (by decide)).1

/-- There is one more. -/
example : (drainLogPages (oneByOne threeLines) "" 2).truncated = true := by
  decide

-- ======== pages that came

/-- Of pages that come one after another, the entries are those that the
view is given. -/
theorem drainFrom_pages (pages : List Page) (left page : Nat)
    (cursor : String) (entries : List LogEntry) :
    (drainFrom (fun i _ => pages.getD i ⟨"", false⟩) left page cursor
        entries).entries
      = LogView.drainLogPages left (pages.drop page) cursor entries := by
  induction left generalizing page cursor entries with
  | zero => rfl
  | succ left ih =>
    rw [drainFrom, List.getD_eq_getElem?_getD]
    dsimp only
    cases hpage : pages[page]? with
    | none =>
      rw [List.drop_eq_nil_of_le (List.getElem?_eq_none_iff.mp hpage)]
      rfl
    | some p =>
      obtain ⟨hlt, rfl⟩ := List.getElem?_eq_some_iff.mp hpage
      rw [List.drop_eq_getElem_cons hlt, LogView.drainLogPages,
        Option.getD_some]
      dsimp only
      generalize (if pages[page].hasText = true then
        parseLogLines pages[page].logs .poll else []) = pageEntries
      by_cases hnone : pageEntries = []
      · rw [if_pos hnone, if_pos hnone]
      · rw [if_neg hnone, if_neg hnone]
        split
        · rfl
        · exact ih ..

end LogPages
