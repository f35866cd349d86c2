/-
Paging forward through the merge of several logs.

# The argument

Nothing skips the lines that the server repeats here. The timestamps of a
merged page are the first of all that the server sends for any of the
logs (`page_timestamps`), in whatever order the logs come in, so a
repeated line of any of them is at the front of the page. Without one the
page is the first lines behind its cursor, the last of them is later than
the cursor, and paging goes on from there with fewer lines left.
-/
import Kubikles.PodLog.Proofs.After

namespace PodLog

open Rfc3339 (Time secondOf)
open Text (newline space unlines split)
open StableSort (Ordered sortBy)

variable {c : Client} {ns : Text} {previous : Bool} {fetches : List Fetch}
variable {logs : Fetch → List LogLine} {cursor : Text} {t : Time}
variable {instant : Int} {lineLimit : Int}

-- ======== the logs

/-- The timestamp is the text Kubernetes writes: all nine digits of the
fraction, in UTC. -/
def LogLine.Canonical (l : LogLine) : Prop :=
  l.timestamp = Rfc3339.stamp l.time ∧ l.time.year < 10000
    ∧ l.time.offset = 0

/-- The server has a log for each fetch. -/
structure ServesAll (c : Client) (ns : Text) (previous : Bool)
    (fetches : List Fetch) (logs : Fetch → List LogLine) : Prop where
  cluster : c.debugCluster = false
  clientset : c.clientset = none
  serves : ∀ f ∈ fetches,
    Serves c ns f.podName f.containerName previous (logs f)
  canonical : ∀ f ∈ fetches, ∀ l ∈ logs f, l.Canonical
  tag : ∀ f ∈ fetches, newline ∉ f.tag

def mergedLog (fetches : List Fetch) (logs : Fetch → List LogLine) :
    List LogLine :=
  sortBy LogLine.instant (fetches.flatMap logs)

theorem mergedLog_inOrder (fetches : List Fetch)
    (logs : Fetch → List LogLine) : InOrder (mergedLog fetches logs) :=
  StableSort.sortBy_ordered _

theorem timestamp_le_iff {l l' : LogLine} (h : l.Canonical)
    (h' : l'.Canonical) :
    l.timestamp ≤ l'.timestamp ↔ l.instant ≤ l'.instant := by
  rw [← not_lt, ← not_lt, h.1, h'.1]
  exact not_congr
    (Rfc3339.stamp_lt_iff h'.2.1 h.2.1 h'.2.2 h.2.2)

theorem ServesAll.canonical_merged (h : ServesAll c ns previous fetches logs)
    {l : LogLine} (hl : l ∈ mergedLog fetches logs) : l.Canonical := by
  have hmem := (StableSort.sortBy_perm _).mem_iff.mp hl
  obtain ⟨f, hf, hlf⟩ := List.mem_flatMap.mp hmem
  exact h.canonical f hf l hlf

-- ======== the page

theorem hasTimestamp_text (l : LogLine) : HasTimestamp l.text := by
  have hthirty := l.thirty
  unfold HasTimestamp LogLine.text
  refine ⟨?_, ?_⟩
  · rw [List.length_append, hthirty, List.length_cons]
    omega
  · rw [List.getElem?_append_right hthirty.le, hthirty]
    rfl

theorem take_text (l : LogLine) : l.text.take 30 = l.timestamp := by
  unfold LogLine.text
  rw [← l.thirty, List.take_left]

/-- What a server sends for each log, as far as the merge is concerned. -/
theorem ServesAll.family (h : ServesAll c ns previous fetches logs)
    (hc : IsCursor cursor t) (maxLines : Int) :
    Family c ns previous (nextLogSinceTime cursor) maxLines fetches
      fun f => (since (logs f) (t.instant + 1)).map LogLine.text := by
  obtain ⟨hnext, hparse⟩ := hc.next
  have hne : Rfc3339.format t.next ≠ [] := by
    intro hnil
    rw [hnil] at hparse
    cases hparse
  have hsince : sinceOption (Rfc3339.format t.next) = some t.next := by
    rw [sinceOption, if_neg hne, hparse]
  rw [hnext, ← Rfc3339.Time.instant_next]
  have hmem : ∀ f ∈ fetches,
      ∀ l ∈ (since (logs f) t.next.instant).map LogLine.text,
        ∃ l' ∈ logs f, l = LogLine.text l' := by
    intro f hf l hl
    obtain ⟨l', hl', rfl⟩ := List.mem_map.mp hl
    exact ⟨l', (List.mem_filter.mp hl').1, rfl⟩
  exact {
    cluster := h.cluster
    clientset := h.clientset
    stream := by
      intro f hf
      rw [hsince]
      exact (h.serves f hf).stream t.next
    tail := fun hnil => absurd hnil hne
    line := by
      intro f hf l hl
      obtain ⟨l', -, rfl⟩ := hmem f hf l hl
      exact newline_notMem_text l'
    timestamp := by
      intro f hf l hl
      obtain ⟨l', -, rfl⟩ := hmem f hf l hl
      exact hasTimestamp_text l'
    ordered := by
      intro f hf
      refine List.pairwise_map.mpr ?_
      have hlog := (h.serves f hf).inOrder
      refine List.Pairwise.imp_of_mem ?_ (List.Pairwise.filter _ hlog)
      intro l l' hl hl' hle
      show l.text.take 30 ≤ l'.text.take 30
      rw [take_text, take_text]
      refine (timestamp_le_iff ?_ ?_).mpr hle
      · exact h.canonical f hf l (List.mem_filter.mp hl).1
      · exact h.canonical f hf l' (List.mem_filter.mp hl').1
    fits := by
      intro f hf
      rw [window, if_neg hne]
      have hsub : (((since (logs f) t.next.instant).map
          LogLine.text).take maxLines.toNat).Sublist
            ((logs f).map LogLine.text) :=
        (List.take_sublist _ _).trans (List.filter_sublist.map _)
      exact (hsub.flatMap _).length_le.trans (h.serves f hf).fits }

theorem timestamped_text (tag : Text) (l : LogLine) :
    timestamped tag l.text = ⟨l.timestamp, l.timestamp
      ++ Text.ofString " [" ++ tag ++ Text.ofString "] " ++ l.content⟩ := by
  have hdrop : l.text.drop 31 = l.content := by
    unfold LogLine.text
    rw [← List.singleton_append, ← List.append_assoc]
    refine List.drop_left' ?_
    rw [List.length_append, l.thirty, List.length_singleton]
  have hsplit : splitTimestamp l.text = (l.timestamp, l.content) := by
    obtain ⟨hlong, hspace⟩ := hasTimestamp_text l
    unfold splitTimestamp
    rw [if_pos ⟨hlong, hspace⟩, take_text, hdrop]
  have hne : l.timestamp ≠ [] := by
    intro hnil
    have := l.thirty
    rw [hnil] at this
    exact absurd this (by decide)
  unfold timestamped mergedLine
  simp only [hsplit]
  rw [if_pos hne]

theorem firstWord_merged (tag : Text) (l : LogLine) :
    firstWord (timestamped tag l.text).content = l.timestamp := by
  have hword : ∀ b ∈ l.timestamp, decide (b ≠ space) = true := by
    intro b hb
    rw [decide_eq_true_eq]
    rintro rfl
    exact l.word.1 hb
  rw [timestamped_text]
  unfold firstWord
  rw [List.append_assoc, List.append_assoc, List.append_assoc,
    List.takeWhile_append_of_pos hword]
  show l.timestamp ++ [] = _
  rw [List.append_nil]

theorem newline_notMem_merged {tag : Text} (htag : newline ∉ tag)
    (l : LogLine) : newline ∉ (timestamped tag l.text).content := by
  rw [timestamped_text]
  intro h
  simp only [List.mem_append] at h
  rcases h with (((h | h) | h) | h) | h
  · exact l.word.2 h
  · exact absurd h (by decide)
  · exact htag h
  · exact absurd h (by decide)
  · exact l.whole h

theorem merged_ne_nil (tag : Text) (l : LogLine) :
    (timestamped tag l.text).content ≠ [] := by
  intro hnil
  have hlength := congrArg List.length hnil
  have hthirty := l.thirty
  rw [timestamped_text] at hlength
  simp only [List.length_append, List.length_nil] at hlength
  omega

def sent (logs : Fetch → List LogLine) (instant : Int)
    (arrivals : List Arrival) : List TimestampedLogLine :=
  (arrived arrivals fun f =>
    (since (logs f) instant).map LogLine.text).flatten

theorem mem_sent {arrivals : List Arrival} {x : TimestampedLogLine}
    (hx : x ∈ sent logs instant arrivals) :
    ∃ a ∈ arrivals, ∃ l ∈ logs a.fetch, x = timestamped a.fetch.tag l.text := by
  obtain ⟨lines, hlines, hx⟩ := List.mem_flatten.mp hx
  obtain ⟨a, ha, rfl⟩ := List.mem_map.mp hlines
  obtain ⟨text, htext, rfl⟩ := List.mem_map.mp hx
  obtain ⟨l, hl, rfl⟩ := List.mem_map.mp htext
  exact ⟨a, ha, l, (List.mem_filter.mp hl).1, rfl⟩

theorem sent_timestamps (arrivals : List Arrival) :
    (sent logs instant arrivals).map (·.timestamp)
      = ((arrivals.map (·.fetch)).flatMap fun f =>
          since (logs f) instant).map LogLine.timestamp := by
  unfold sent arrived
  induction arrivals with
  | nil => rfl
  | cons a arrivals ih =>
    have hhead : (((since (logs a.fetch) instant).map LogLine.text).map
        (timestamped a.fetch.tag)).map (·.timestamp)
          = (since (logs a.fetch) instant).map LogLine.timestamp := by
      rw [List.map_map, List.map_map]
      refine List.map_congr_left fun l _ => ?_
      show (timestamped a.fetch.tag l.text).timestamp = _
      rw [timestamped_text]
    rw [List.map_cons, List.flatten_cons, List.map_append, ih, hhead,
      List.map_cons, List.flatMap_cons, List.map_append]

theorem sortLines_timestamps (h : ServesAll c ns previous fetches logs)
    (arrivals : Arrivals fetches) (instant : Int) :
    (sortLines (sent logs instant arrivals.list)).map (·.timestamp)
      = (since (mergedLog fetches logs) instant).map LogLine.timestamp := by
  have hsent : ((sortLines (sent logs instant arrivals.list)).map
      (·.timestamp)).Pairwise (· ≤ ·) :=
    List.pairwise_map.mpr (StableSort.sortBy_ordered _)
  have hmerged : ((since (mergedLog fetches logs) instant).map
      LogLine.timestamp).Pairwise (· ≤ ·) := by
    refine List.pairwise_map.mpr ?_
    refine List.Pairwise.imp_of_mem ?_
      (List.Pairwise.filter _ (mergedLog_inOrder fetches logs))
    intro l l' hl hl' hle
    refine (timestamp_le_iff ?_ ?_).mpr hle
    · exact h.canonical_merged (List.mem_filter.mp hl).1
    · exact h.canonical_merged (List.mem_filter.mp hl').1
  refine List.Perm.eq_of_pairwise' hsent hmerged ?_
  have hlogs : (since (fetches.flatMap logs) instant)
      = fetches.flatMap fun f => since (logs f) instant :=
    List.filter_flatMap ..
  calc (sortLines (sent logs instant arrivals.list)).map (·.timestamp)
    _ |>.Perm ((sent logs instant arrivals.list).map (·.timestamp)) :=
      (StableSort.sortBy_perm _).map _
    _ |>.Perm ((fetches.flatMap fun f =>
        since (logs f) instant).map LogLine.timestamp) := by
      rw [sent_timestamps]
      exact (arrivals.perm.flatMap_right _).map _
    _ |>.Perm ((since (mergedLog fetches logs) instant).map
        LogLine.timestamp) := by
      rw [← hlogs]
      exact ((StableSort.sortBy_perm _).symm.filter _).map _

theorem cutPage_join (hpos : 1 ≤ lineLimit) {texts : List Text}
    (htexts : ∀ x ∈ texts, newline ∉ x ∧ x ≠ []) (cursor : Text)
    (more : Bool) :
    (Page.mk cursor (cutPage true lineLimit
        (split (Text.join texts))).1 more).lines
        = texts.take lineLimit.toNat
      ∧ (cutPage true lineLimit (split (Text.join texts))).2
        = decide (lineLimit.toNat < texts.length) := by
  by_cases hnil : texts = []
  · subst hnil
    have htake : ([[]] : List Text).take lineLimit.toNat = [[]] :=
      List.take_of_length_le (show 1 ≤ lineLimit.toNat by omega)
    refine ⟨?_, ?_⟩
    · show (split (Text.join (([[]] : List Text).take _))).filter _ = _
      rw [htake, List.take_nil]
      rfl
    · refine decide_eq_decide.mpr ?_
      show lineLimit.toNat < 1 ↔ lineLimit.toNat < 0
      omega
  · have hsplit := Text.split_join (fun x hx => (htexts x hx).1) hnil
    refine ⟨?_, ?_⟩
    · have hne : texts.take lineLimit.toNat ≠ [] := by
        intro h
        rcases List.take_eq_nil_iff.mp h with h | h
        · omega
        · exact hnil h
      show (split (Text.join ((split (Text.join texts)).take _))).filter _ = _
      rw [hsplit, Text.split_join
        (fun x hx => (htexts x (List.mem_of_mem_take hx)).1) hne]
      refine List.filter_eq_self.mpr fun x hx => ?_
      simpa using (htexts x (List.mem_of_mem_take hx)).2
    · show decide (lineLimit.toNat < (split (Text.join texts)).length) = _
      rw [hsplit]

/-- The lines that are merged for a page. -/
theorem merged_texts (h : ServesAll c ns previous fetches logs)
    (hpos : 1 ≤ lineLimit) (hc : IsCursor cursor t)
    (arrivals : Arrivals fetches) :
    ∃ texts,
      c.merged ns true previous (nextLogSinceTime cursor) (lineLimit + 1)
          arrivals = .ok (Text.join texts)
        ∧ (∀ x ∈ texts, newline ∉ x ∧ x ≠ [])
        ∧ texts.map firstWord
          = ((since (mergedLog fetches logs) (t.instant + 1)).take
              (lineLimit.toNat + 1)).map LogLine.timestamp := by
  obtain ⟨hnext, hparse⟩ := hc.next
  have hne : nextLogSinceTime cursor ≠ [] := by
    intro hnil
    rw [hnext] at hnil
    rw [hnil] at hparse
    cases hparse
  have hlimit : (lineLimit + 1).toNat = lineLimit.toNat + 1 := by omega
  have hfamily := h.family hc (lineLimit + 1)
  have hmem : ∀ a ∈ arrivals.list, a.fetch ∈ fetches := fun a ha =>
    arrivals.perm.mem_iff.mp (List.mem_map_of_mem ha)
  obtain ⟨merged, hmerged, hpage⟩ :=
    merged_window true hfamily (by omega) arrivals
  rw [resultLines_arrived arrivals fun a ha l hl =>
    ⟨hfamily.line _ (hmem a ha) l hl,
      (hfamily.timestamp _ (hmem a ha) l hl).ne_nil⟩] at hmerged
  cases hmerged
  rw [window, if_neg hne, ← List.map_take, hlimit] at hpage
  -- the lines of the merge that are kept
  generalize hlines : (sortLines (sent logs (t.instant + 1)
    arrivals.list)).take (lineLimit.toNat + 1) = lines
  have hfrom : ∀ x ∈ lines, ∃ a ∈ arrivals.list, ∃ l ∈ logs a.fetch,
      x = timestamped a.fetch.tag l.text := by
    intro x hx
    rw [← hlines] at hx
    exact mem_sent ((StableSort.sortBy_perm _).mem_iff.mp
      (List.mem_of_mem_take hx))
  refine ⟨lines.map (·.content), ?_, fun x hx => ?_, ?_⟩
  · rw [hpage, ← hlines]
    rfl
  · obtain ⟨y, hy, rfl⟩ := List.mem_map.mp hx
    obtain ⟨a, ha, l, hl, rfl⟩ := hfrom y hy
    exact ⟨newline_notMem_merged (h.tag _ (hmem a ha)) l,
      merged_ne_nil _ l⟩
  · rw [List.map_map, List.map_take, ← sortLines_timestamps h arrivals,
      ← List.map_take, hlines]
    refine List.map_congr_left fun x hx => ?_
    obtain ⟨a, ha, l, hl, rfl⟩ := hfrom x hx
    show firstWord (timestamped a.fetch.tag l.text).content = _
    rw [firstWord_merged, timestamped_text]

/-- A page that is merged: the timestamps of its lines, and whether there
are more. -/
structure MergedPage (log : List LogLine) (lineLimit : Nat) (instant : Int)
    (lines : List Text) (more : Bool) : Prop where
  timestamps : lines.map firstWord
    = ((since log (instant + 1)).take lineLimit).map LogLine.timestamp
  more_iff : more = true ↔ lineLimit < (since log (instant + 1)).length

theorem mergedAfter_page (h : ServesAll c ns previous fetches logs)
    (hpos : 1 ≤ lineLimit) (hc : IsCursor cursor t)
    (arrivals : Arrivals fetches) :
    ∃ answer,
      c.mergedAfter ns true previous cursor lineLimit arrivals = .ok answer
        ∧ MergedPage (mergedLog fetches logs) lineLimit.toNat t.instant
          (Page.mk cursor answer.1 answer.2).lines answer.2 := by
  obtain ⟨texts, hmerged, htexts, hwords⟩ :=
    merged_texts h hpos hc arrivals
  have hcount : texts.length = min (lineLimit.toNat + 1)
      (since (mergedLog fetches logs) (t.instant + 1)).length := by
    have hlength := congrArg List.length hwords
    rwa [List.length_map, List.length_map, List.length_take] at hlength
  have hdefault : orDefault lineLimit = lineLimit := if_neg (by omega)
  have hcut := cutPage_join hpos htexts cursor
  refine ⟨cutPage true lineLimit (split (Text.join texts)), ?_, ?_, ?_⟩
  · unfold Client.mergedAfter
    simp only [hdefault, hmerged, bind, Except.bind]
    rfl
  · rw [(hcut _).1, List.map_take, hwords, ← List.map_take, List.take_take,
      Nat.min_eq_left (Nat.le_succ _)]
  · rw [(hcut true).2, decide_eq_true_eq]
    omega

-- ======== the paging

def Behind (cursor line : Text) : Prop :=
  ∃ t u, Rfc3339.parse cursor = some t
    ∧ Rfc3339.parse (firstWord line) = some u ∧ t.instant < u.instant

def PageBehind (answers : Text → Text × Bool → Prop) (cursor : Text) :
    Prop :=
  ∀ answer, answers cursor answer →
    ∀ line ∈ (Page.mk cursor answer.1 answer.2).lines, Behind cursor line

/-- However the calls are answered: each page is behind its cursor, no
line of a page is on a later one, and paging is over some time. -/
structure Progress (answers : Text → Text × Bool → Prop)
    (cursor : Text) : Prop where
  behind : ∀ pages ended, Paging answers cursor pages ended →
    ∀ p ∈ pages, ∀ line ∈ p.lines, Behind p.cursor line
  once : ∀ pages ended, Paging answers cursor pages ended →
    pages.Pairwise fun p q => ∀ line ∈ p.lines, line ∉ q.lines
  ended : ∃ pages, Paging answers cursor pages true
  bounded : ∃ n, ∀ pages ended, Paging answers cursor pages ended →
    pages.length ≤ n

structure AnswersPages (answers : Text → Text × Bool → Prop)
    (log : List LogLine) (lineLimit : Nat) : Prop where
  ordered : InOrder log
  answer : ∀ {cursor t}, IsCursor cursor t → ∃ answer, answers cursor answer
  page : ∀ {cursor t answer}, IsCursor cursor t → answers cursor answer →
    MergedPage log lineLimit t.instant
      (Page.mk cursor answer.1 answer.2).lines answer.2

section

variable {answers : Text → Text × Bool → Prop} {log : List LogLine}
variable {limit : Nat} {lines : List Text} {more : Bool}

theorem MergedPage.line (h : MergedPage log limit instant lines more)
    {line : Text} (hline : line ∈ lines) :
    ∃ l ∈ (since log (instant + 1)).take limit,
      firstWord line = l.timestamp := by
  have hword : firstWord line ∈ lines.map firstWord :=
    List.mem_map_of_mem hline
  rw [h.timestamps] at hword
  obtain ⟨l, hl, heq⟩ := List.mem_map.mp hword
  exact ⟨l, hl, heq.symm⟩

/-- A page that says that there are more ends in the last of the lines
that it has room for. -/
theorem MergedPage.last (h : MergedPage log limit instant lines true)
    (hpos : 1 ≤ limit) :
    ∃ line l, lines.getLast? = some line
      ∧ (since log (instant + 1))[limit - 1]? = some l
      ∧ firstWord line = l.timestamp := by
  have hmore := h.more_iff.mp rfl
  have hlt : limit - 1 < limit := by omega
  have hlast : (lines.map firstWord).getLast?
      = some (since log (instant + 1))[limit - 1].timestamp := by
    rw [h.timestamps, List.getLast?_map, List.getLast?_eq_getElem?,
      List.length_take, Nat.min_eq_left hmore.le,
      List.getElem?_take_of_lt hlt, List.getElem?_eq_getElem]
    rfl
  rw [List.getLast?_map, Option.map_eq_some_iff] at hlast
  obtain ⟨line, hline, hword⟩ := hlast
  exact ⟨line, _, hline, List.getElem?_eq_getElem _, hword⟩

variable (h : AnswersPages answers log limit) (hpos : 1 ≤ limit)

include h hpos

/-- A page is behind its cursor if and only if nothing is repeated. -/
theorem pageBehind_iff (hc : IsCursor cursor t) :
    PageBehind answers cursor ↔ repeated log t.instant = [] := by
  constructor
  · intro hbehind
    obtain ⟨answer, hanswer⟩ := h.answer hc
    have hpage := h.page hc hanswer
    cases hrepeated : repeated log t.instant with
    | nil => rfl
    | cons r rest =>
      -- the first line that is repeated is the first of the page
      have htimestamps := hpage.timestamps
      rw [h.ordered.since_eq, hrepeated] at htimestamps
      obtain ⟨n, rfl⟩ := Nat.exists_eq_add_of_le' hpos
      cases hlines : (Page.mk cursor answer.1 answer.2).lines with
      | nil =>
        rw [hlines] at htimestamps
        cases htimestamps
      | cons line lines =>
        obtain ⟨t', u, ht, hu, hlt⟩ := hbehind answer hanswer line
          (hlines ▸ List.mem_cons_self ..)
        rw [hlines] at htimestamps
        have hword : firstWord line = r.timestamp :=
          (List.cons.inj htimestamps).1
        rw [hword, r.cursor.reads] at hu
        rw [hc.reads] at ht
        cases ht
        cases hu
        have hr : r ∈ repeated log t.instant :=
          hrepeated ▸ List.mem_cons_self ..
        have hle := (List.mem_filter.mp hr).2
        rw [decide_eq_true_eq] at hle
        exact absurd hlt (not_lt.mpr hle)
  · intro hrepeated answer hanswer line hline
    obtain ⟨l, hl, hword⟩ := (h.page hc hanswer).line hline
    have hmem := List.mem_of_mem_take hl
    rw [h.ordered.since_eq, hrepeated, List.nil_append] at hmem
    exact ⟨t, l.time, hc.reads, hword ▸ l.cursor.reads,
      lt_of_mem_after hmem⟩

/-- Where nothing is repeated, paging goes on behind the last line of a
page. -/
theorem page_last (hc : IsCursor cursor t)
    (hrepeated : repeated log t.instant = []) {text : Text}
    (hanswer : answers cursor (text, true)) :
    ∃ line l, (Page.mk cursor text true).lines.getLast? = some line
      ∧ firstWord line = l.timestamp
      ∧ (after log t.instant)[limit - 1]? = some l
      ∧ limit < (after log t.instant).length := by
  have hpage := h.page hc hanswer
  have hsince : since log (t.instant + 1) = after log t.instant := by
    rw [h.ordered.since_eq, hrepeated, List.nil_append]
  obtain ⟨line, l, hline, hl, hword⟩ := hpage.last hpos
  have hmore := hpage.more_iff.mp rfl
  rw [hsince] at hl hmore
  exact ⟨line, l, hline, hword, hl, hmore⟩

/-- Paging where nothing is repeated: what is on the pages is behind the
cursor, no line is on two of them, and there is one more page than lines
at most. -/
theorem paging_behind {pages : List Page} {ended : Bool}
    (hpaging : Paging answers cursor pages ended) (hc : IsCursor cursor t)
    (hnone : ∀ instant, Reaches log limit t.instant instant →
      repeated log instant = []) :
    (∀ p ∈ pages, ∀ line ∈ p.lines,
        Behind p.cursor line ∧ Behind cursor line)
      ∧ (pages.Pairwise fun p q => ∀ line ∈ p.lines, line ∉ q.lines)
      ∧ pages.length ≤ (after log t.instant).length + 1 := by
  induction hpaging generalizing t with
  | stop => exact ⟨(fun _ h => nomatch h), .nil, Nat.zero_le _⟩
  | @last cursor text hanswer =>
    have hbehind :=
      (pageBehind_iff h hpos hc).mpr (hnone _ (.here _)) _ hanswer
    refine ⟨fun p hp line hline => ?_, List.pairwise_singleton _ _,
      Nat.le_add_left ..⟩
    rw [List.mem_singleton.mp hp] at hline ⊢
    exact ⟨hbehind line hline, hbehind line hline⟩
  | @more cursor text line pages ended hanswer hlast rest ih =>
    have hrepeated := hnone _ (.here _)
    have hbehind := (pageBehind_iff h hpos hc).mpr hrepeated _ hanswer
    obtain ⟨line', l, hlast', hword, hl, hmore⟩ :=
      page_last h hpos hc hrepeated hanswer
    cases hlast'.symm.trans hlast
    have hlater := lt_of_mem_after (List.mem_of_getElem? hl)
    obtain ⟨hrest, hpairwise, hlength⟩ := ih (hword ▸ l.cursor)
      fun instant hreaches => hnone instant (.next hl hmore hreaches)
    refine ⟨fun p hp x hx => ?_, List.pairwise_cons.mpr ⟨?_, hpairwise⟩,
      ?_⟩
    · rcases List.mem_cons.mp hp with rfl | hp
      · exact ⟨hbehind x hx, hbehind x hx⟩
      · obtain ⟨hown, l', u, hl', hu, hlt⟩ := hrest p hp x hx
        rw [hword, l.cursor.reads] at hl'
        cases hl'
        exact ⟨hown, t, u, hc.reads, hu, hlater.trans hlt⟩
    · -- a line of this page is not behind the last line of it
      intro q hq x hx hxq
      obtain ⟨-, l', u, hl', hu, hlt⟩ := hrest q hq x hxq
      rw [hword, l.cursor.reads] at hl'
      cases hl'
      obtain ⟨m, hm, hmword⟩ := (h.page hc hanswer).line hx
      rw [hmword, m.cursor.reads] at hu
      cases hu
      rw [h.ordered.since_eq, hrepeated, List.nil_append] at hm
      obtain ⟨n, rfl⟩ := Nat.exists_eq_add_of_le' hpos
      have hordered : InOrder (after log t.instant) :=
        List.Pairwise.filter _ h.ordered
      exact absurd hlt (not_lt.mpr (hordered.le_of_mem_take hl hm))
    · have hless := h.ordered.after_length hl
      rw [List.length_cons]
      unfold LogLine.instant at hless
      omega

theorem exists_paging (hc : IsCursor cursor t)
    (hnone : ∀ instant, Reaches log limit t.instant instant →
      repeated log instant = []) :
    ∃ pages, Paging answers cursor pages true := by
  induction hn : (after log t.instant).length using Nat.strong_induction_on
    generalizing cursor t with
  | _ n ih =>
    obtain ⟨⟨text, more⟩, hanswer⟩ := h.answer hc
    cases more with
    | false => exact ⟨_, .last hanswer⟩
    | true =>
      obtain ⟨line, l, hlast, hword, hl, hmore⟩ :=
        page_last h hpos hc (hnone _ (.here _)) hanswer
      have hless := h.ordered.after_length hl
      obtain ⟨pages, hpages⟩ := ih _ (hn ▸ hless) l.cursor
        (fun instant hreaches =>
          hnone instant (.next hl hmore hreaches)) rfl
      exact ⟨_, .more hanswer hlast (hword ▸ hpages)⟩

theorem Progress.pageBehind (hprogress : Progress answers cursor)
    (hc : IsCursor cursor t) : PageBehind answers cursor := by
  rintro ⟨text, more⟩ hanswer
  cases more with
  | false =>
    exact hprogress.behind _ _ (.last hanswer) _ (List.mem_cons_self ..)
  | true =>
    obtain ⟨line, l, hlast, -, -⟩ := (h.page hc hanswer).last hpos
    exact hprogress.behind _ _ (.more hanswer hlast (.stop _)) _
      (List.mem_cons_self ..)

theorem Progress.next (hprogress : Progress answers cursor)
    (hc : IsCursor cursor t) (hrepeated : repeated log t.instant = [])
    {l : LogLine} (hl : (after log t.instant)[limit - 1]? = some l)
    (hmore : limit < (after log t.instant).length) :
    Progress answers l.timestamp := by
  have hnext : ∀ {text line},
      answers cursor (text, true) →
      (Page.mk cursor text true).lines.getLast? = some line →
      firstWord line = l.timestamp := by
    intro text line hanswer hlast
    obtain ⟨line', l', hlast', hword, hl', -⟩ :=
      page_last h hpos hc hrepeated hanswer
    cases hlast.symm.trans hlast'
    cases hl.symm.trans hl'
    exact hword
  have hsays : ∀ {text more}, answers cursor (text, more) → more = true := by
    intro text more hanswer
    refine (h.page hc hanswer).more_iff.mpr ?_
    rwa [h.ordered.since_eq, hrepeated, List.nil_append]
  obtain ⟨⟨text, more⟩, hanswer⟩ := h.answer hc
  cases hsays hanswer
  obtain ⟨line, -, hlast, -, -, -⟩ :=
    page_last h hpos hc hrepeated hanswer
  have hextend : ∀ {pages ended}, Paging answers l.timestamp pages ended →
      Paging answers cursor (⟨cursor, text, true⟩ :: pages) ended := by
    intro pages ended hpaging
    rw [← hnext hanswer hlast] at hpaging
    exact .more hanswer hlast hpaging
  obtain ⟨n, hbounded⟩ := hprogress.bounded
  refine ⟨fun pages ended hpaging p hp => ?_, fun pages ended hpaging => ?_,
    ?_, n, fun pages ended hpaging => ?_⟩
  · exact hprogress.behind _ _ (hextend hpaging) p
      (List.mem_cons_of_mem _ hp)
  · exact (List.pairwise_cons.mp
      (hprogress.once _ _ (hextend hpaging))).2
  · obtain ⟨pages, hpages⟩ := hprogress.ended
    cases hpages with
    | last hanswer' => cases hsays hanswer'
    | more hanswer' hlast' rest =>
      rw [hnext hanswer' hlast'] at rest
      exact ⟨_, rest⟩
  · have hlength := hbounded _ _ (hextend hpaging)
    rw [List.length_cons] at hlength
    omega

/-- Paging makes progress if and only if nothing is repeated at any cursor
that it comes to. -/
theorem progress_iff (hc : IsCursor cursor t) :
    Progress answers cursor
      ↔ ∀ instant, Reaches log limit t.instant instant →
          repeated log instant = [] := by
  constructor
  · intro hprogress instant hreaches
    generalize hstart : t.instant = start at hreaches
    induction hreaches generalizing cursor t with
    | here start =>
      subst hstart
      exact (pageBehind_iff h hpos hc).mp (hprogress.pageBehind h hpos hc)
    | @next start instant l hlast hmore rest ih =>
      subst hstart
      have hrepeated := (pageBehind_iff h hpos hc).mp
        (hprogress.pageBehind h hpos hc)
      exact ih l.cursor
        (hprogress.next h hpos hc hrepeated hlast hmore) rfl
  · intro hnone
    refine ⟨fun pages ended hpaging p hp line hline => ?_,
      fun pages ended hpaging => ?_, exists_paging h hpos hc hnone,
      ⟨(after log t.instant).length + 1, fun pages ended hpaging => ?_⟩⟩
    · exact ((paging_behind h hpos hpaging hc hnone).1 p hp line hline).1
    · exact (paging_behind h hpos hpaging hc hnone).2.1
    · exact (paging_behind h hpos hpaging hc hnone).2.2

end

-- ======== the results

def answersContainers (c : Client) (ns podName : Text)
    (containerNames : List Text) (previous : Bool) (lineLimit : Int)
    (cursor : Text) (answer : Text × Bool) : Prop :=
  ∃ arrivals, c.getAllContainersLogsAfter ns podName containerNames true
    previous cursor lineLimit arrivals = .ok answer

def answersPods (c : Client) (ns : Text) (pods : List PodContainerPair)
    (allContainers previous : Bool) (lineLimit : Int) (cursor : Text)
    (answer : Text × Bool) : Prop :=
  ∃ arrivals, c.getAllPodsLogsAfter ns pods allContainers true previous
    cursor lineLimit arrivals = .ok answer

/-- The calls of either, with the logs in some order. -/
def answersMerged (c : Client) (ns : Text) (previous : Bool)
    (fetches : List Fetch) (lineLimit : Int) (cursor : Text)
    (answer : Text × Bool) : Prop :=
  ∃ arrivals : Arrivals fetches,
    c.mergedAfter ns true previous cursor lineLimit arrivals = .ok answer

theorem ServesAll.answersPages
    (h : ServesAll c ns previous fetches logs) (hpos : 1 ≤ lineLimit) :
    AnswersPages (answersMerged c ns previous fetches lineLimit)
      (mergedLog fetches logs) lineLimit.toNat where
  ordered := mergedLog_inOrder fetches logs
  answer := by
    intro cursor t hc
    let arrivals : Arrivals fetches :=
      { list := fetches.map (⟨·, []⟩)
        perm := by
          rw [List.map_map]
          exact .of_eq (List.map_id _) }
    obtain ⟨answer, hanswer, -⟩ := mergedAfter_page h hpos hc arrivals
    exact ⟨answer, arrivals, hanswer⟩
  page := by
    rintro cursor t answer hc ⟨arrivals, hanswer⟩
    obtain ⟨answer', hanswer', hpage⟩ :=
      mergedAfter_page h hpos hc arrivals
    cases hanswer.symm.trans hanswer'
    exact hpage

/-- Where the server repeats lines of no log at a cursor, the page is
behind the cursor, and only there; where it does so at no cursor that
paging comes to, paging makes progress, and only there. -/
structure PagingLaw (answers : Text → Text × Bool → Prop)
    (log : List LogLine) (limit : Nat) (cursor : Text) (instant : Int) :
    Prop where
  pageBehind_iff : PageBehind answers cursor ↔ repeated log instant = []
  progress_iff : Progress answers cursor
    ↔ ∀ instant', Reaches log limit instant instant' →
        repeated log instant' = []

theorem merged_pagingLaw (h : ServesAll c ns previous fetches logs)
    (hpos : 1 ≤ lineLimit) (hc : IsCursor cursor t) :
    PagingLaw (answersMerged c ns previous fetches lineLimit)
      (mergedLog fetches logs) lineLimit.toNat cursor t.instant := by
  have hanswers := h.answersPages hpos
  exact ⟨pageBehind_iff hanswers (by omega) hc,
    progress_iff hanswers (by omega) hc⟩

/-- For the containers of a pod and for many pods: pages are behind their
cursors and paging makes progress if and only if the server repeats lines
of no log. -/
theorem merged_paging_iff (c : Client) (ns : Text) (previous : Bool)
    (logs : Fetch → List LogLine) (lineLimit : Int) (hpos : 1 ≤ lineLimit)
    (cursor : Text) (t : Time) (hc : IsCursor cursor t) :
    (∀ podName containerNames,
      ServesAll c ns previous (containerFetches podName containerNames)
          logs →
        PagingLaw
          (answersContainers c ns podName containerNames previous lineLimit)
          (mergedLog (containerFetches podName containerNames) logs)
          lineLimit.toNat cursor t.instant)
    ∧ ∀ pods allContainers,
      ServesAll c ns previous (podFetches pods allContainers) logs →
        PagingLaw
          (answersPods c ns pods allContainers previous lineLimit)
          (mergedLog (podFetches pods allContainers) logs)
          lineLimit.toNat cursor t.instant := by
  constructor
  · intro podName containerNames h
    have hanswers : answersContainers c ns podName containerNames previous
        lineLimit = answersMerged c ns previous
          (containerFetches podName containerNames) lineLimit := by
      funext cursor answer
      unfold answersContainers answersMerged
        Client.getAllContainersLogsAfter Client.mergedAfter
      simp only [getAllContainersLogs_eq]
    rw [hanswers]
    exact merged_pagingLaw h hpos hc
  · intro pods allContainers h
    have hanswers : answersPods c ns pods allContainers previous lineLimit
        = answersMerged c ns previous (podFetches pods allContainers)
          lineLimit := by
      funext cursor answer
      unfold answersPods answersMerged Client.getAllPodsLogsAfter
        Client.mergedAfter
      simp only [getAllPodsLogs_eq]
    rw [hanswers]
    exact merged_pagingLaw h hpos hc

/-- The container `app`. -/
def app : Text := Text.ofString "app"

/-- The log of three lines of one second, behind the first of them. -/
theorem merged_paging_iff_crowded :
    PagingLaw (answersContainers (serving crowded) [] [] [app] false 1)
      (mergedLog (containerFetches [] [app]) fun _ => crowded) 1
      secondStamp (sample 2).instant :=
  (merged_paging_iff (serving crowded) [] false (fun _ => crowded) 1
    (by decide) secondStamp (sample 2)
    ⟨by decide, by decide, by decide⟩).1 [] [app]
    { cluster := rfl
      clientset := rfl
      serves := fun _ _ =>
        { cluster := rfl
          clientset := rfl
          ordered := by decide
          stream := fun _ => rfl
          fits := by decide }
      canonical := by
        intro f _ l hl
        revert l
        unfold LogLine.Canonical
        decide
      tag := by decide }

set_option maxRecDepth 4096 in
/-- The page behind the second line is the first line. -/
theorem crowded_page_repeats :
    ¬ PageBehind (answersContainers (serving crowded) [] [] [app] false 1)
      secondStamp := by
  intro h
  let arrivals : Arrivals (containerFetches [] [app]) :=
    ⟨[⟨⟨[], app, app⟩, []⟩], .refl _⟩
  have hcall : (serving crowded).getAllContainersLogsAfter [] [] [app] true
      false secondStamp 1 arrivals
        = .ok ((timestamped app crowded[0].text).content, true) := rfl
  have hread : Rfc3339.parse secondStamp = some (sample 2) := by decide
  obtain ⟨t, u, ht, hu, hlt⟩ := h _ ⟨arrivals, hcall⟩
    (timestamped app crowded[0].text).content (by decide)
  rw [hread] at ht
  rw [firstWord_merged, crowded[0].cursor.reads] at hu
  cases ht
  cases hu
  exact absurd hlt (by decide)

end PodLog
