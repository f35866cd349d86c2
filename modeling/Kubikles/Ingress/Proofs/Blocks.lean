/-
The user's own lines of the hosts file.

# What they are

A line is read with the lines before it and the lines behind it
(`Context`). It is in a managed block if a BEGIN marker stands before it
with no END marker since, and an END marker behind it; the other lines
are the user's, up to the markers themselves.

# What becomes of them

The loop asks only what stands before a line: behind a BEGIN marker that
nothing ends it drops everything. The scanner takes a carriage return
off the end of a line and reads nothing from the first line on that does
not fit its buffer. A line that meets none of the three is kept as it is
(`user_lines_survive_iff`). What has been removed once is removed again
in the same way if no carriage return is left to take off
(`round_trips_iff`).
-/
import Kubikles.Ingress.Proofs.Hosts

namespace Hosts

open Text (newline space trimSpace unlines)
open Scanner (dropCR carriageReturn)

variable {content : Text} {entries : List Entry} {ls before : List Text}

-- ======== contexts

def isBegin (l : Text) : Bool := beginMarker.isPrefixOf (trimSpace l)

def isEnd (l : Text) : Bool := endMarker.isPrefixOf (trimSpace l)

/-- A line between the lines before it and those behind it. -/
structure Context where
  before : List Text
  line : Text
  after : List Text

/-- The lines of a list behind some others, each in its context. -/
def contexts (before : List Text) : List Text → List Context
  | [] => []
  | l :: after => ⟨before, l, after⟩ :: contexts (before ++ [l]) after

def opens (before : List Text) : Bool :=
  (before.rtakeWhile fun l => !isEnd l).any isBegin

def Context.isMarker (p : Context) : Bool :=
  isBegin p.line || isEnd p.line

/-- The line lies between a BEGIN marker and the next END marker after
it. -/
def Context.between (p : Context) : Bool :=
  opens p.before && p.after.any isEnd

def userContexts (content : Text) : List Context :=
  (contexts [] (Scanner.lines content)).filter fun p =>
    !p.isMarker && !p.between

/-- They are kept, up to blank lines at the end of the file. -/
def UserLinesSurvive (content : Text) : Prop :=
  (((userContexts content).map (·.line)).rdropWhile (· = [])).Sublist
    (Scanner.lines (removeExistingManagedBlock content))

/-- The line has no carriage return at its end, neither it nor one before
it is too long for the scanner, and no BEGIN marker stands open before
it. -/
structure Context.Spared (p : Context) : Prop where
  noCR : p.line.getLast? ≠ some carriageReturn
  short : ∀ l ∈ p.before ++ [p.line], l.length < maxScanTokenSize
  closed : opens p.before = false

-- ======== the scan

theorem isBegin_dropCR (l : Text) : isBegin (dropCR l) = isBegin l := by
  unfold isBegin
  rw [Text.trimSpace_dropCR]

theorem isEnd_dropCR (l : Text) : isEnd (dropCR l) = isEnd l := by
  unfold isEnd
  rw [Text.trimSpace_dropCR]

theorem opens_concat (before : List Text) (l : Text) :
    opens (before ++ [l])
      = (!isEnd l && (isBegin l || opens before)) := by
  unfold opens
  by_cases h : isEnd l = true
  · rw [List.rtakeWhile_concat_neg _ _ _ (by simp [h]), h]
    rfl
  · rw [List.rtakeWhile_concat_pos _ _ _ (by simp [h])]
    simp [h, Bool.or_comm]

theorem isEnd_of_isBegin {l : Text} (h : isBegin l = true) :
    isEnd l = false := by
  unfold isBegin at h
  obtain ⟨rest, hrest⟩ := List.isPrefixOf_iff_prefix.mp h
  unfold isEnd
  rw [← hrest]
  rfl

theorem keptLines_cons (inManagedBlock : Bool) (l : Text) (ls : List Text) :
    keptLines inManagedBlock (l :: ls)
      = if isBegin l then keptLines true ls
        else if isEnd l then keptLines false ls
        else if inManagedBlock then keptLines inManagedBlock ls
        else l :: keptLines inManagedBlock ls :=
  rfl

theorem keptLines_contexts (before ls : List Text) :
    keptLines (opens before) ls
      = ((contexts before ls).filter fun p =>
          !p.isMarker && !opens p.before).map (·.line) := by
  induction ls generalizing before with
  | nil => rfl
  | cons l ls ih =>
    have hnext := ih (before ++ [l])
    rw [opens_concat] at hnext
    rw [keptLines_cons, contexts, List.filter_cons]
    by_cases hbegin : isBegin l = true
    · have hend := isEnd_of_isBegin hbegin
      rw [hbegin, hend] at hnext
      rw [if_pos hbegin, if_neg (by simp [Context.isMarker, hbegin])]
      exact hnext
    · by_cases hend : isEnd l = true
      · rw [hend] at hnext
        rw [if_neg hbegin, if_pos hend,
          if_neg (by simp [Context.isMarker, hend])]
        exact hnext
      · rw [Bool.eq_false_iff.mpr hbegin, Bool.eq_false_iff.mpr hend]
          at hnext
        rw [if_neg hbegin, if_neg hend]
        have hmarker : Context.isMarker ⟨before, l, ls⟩ = false := by
          simp [Context.isMarker, hbegin, hend]
        cases hopen : opens before with
        | true =>
          rw [if_pos rfl, if_neg (by simp)]
          rw [hopen] at hnext
          exact hnext
        | false =>
          rw [if_neg Bool.false_ne_true, if_pos (by simp [hmarker]),
            List.map_cons]
          rw [hopen] at hnext
          exact congrArg (l :: ·) hnext

theorem keptLines_dropCR (inManagedBlock : Bool) (ls : List Text) :
    keptLines inManagedBlock (ls.map dropCR)
      = (keptLines inManagedBlock ls).map dropCR := by
  induction ls generalizing inManagedBlock with
  | nil => rfl
  | cons l ls ih =>
    rw [List.map_cons, keptLines_cons, keptLines_cons, isBegin_dropCR,
      isEnd_dropCR]
    split
    next => exact ih true
    next =>
      split
      next => exact ih false
      next =>
        split
        next => exact ih inManagedBlock
        next => rw [ih, List.map_cons]

theorem mem_contexts {p : Context} (h : p ∈ contexts before ls) :
    before <+: p.before ++ [p.line] ∧ before ++ ls
      = p.before ++ p.line :: p.after := by
  induction ls generalizing before with
  | nil => exact absurd h List.not_mem_nil
  | cons l ls ih =>
    rcases List.mem_cons.mp h with rfl | h
    · exact ⟨List.prefix_append _ _, rfl⟩
    · obtain ⟨hbefore, heq⟩ := ih h
      refine ⟨(List.prefix_append _ _).trans hbefore, ?_⟩
      rw [← heq, List.append_assoc]
      rfl

def Context.short (p : Context) : Bool :=
  (p.before ++ [p.line]).all (·.length < maxScanTokenSize)

/-- The lines up to the first long one. -/
theorem contexts_takeWhile (before : List Text)
    (h : ∀ l ∈ before, l.length < maxScanTokenSize)
    (g : List Text → Text → Bool) (ls : List Text) :
    ((contexts before (ls.takeWhile
        (·.length < maxScanTokenSize))).filter
          fun p => g p.before p.line).map (·.line)
      = ((contexts before ls).filter fun p =>
          g p.before p.line && p.short).map (·.line) := by
  induction ls generalizing before with
  | nil => rfl
  | cons l ls ih =>
    by_cases hl : l.length < maxScanTokenSize
    · have hbefore : ∀ l' ∈ before ++ [l],
          l'.length < maxScanTokenSize := by
        intro l' hl'
        rcases List.mem_append.mp hl' with hl' | hl'
        · exact h l' hl'
        · rw [List.mem_singleton.mp hl']
          exact hl
      have hshort : Context.short ⟨before, l, ls⟩ = true :=
        List.all_eq_true.mpr fun l' hl' =>
          decide_eq_true (hbefore l' hl')
      rw [List.takeWhile_cons_of_pos (by simpa using hl), contexts,
        contexts, List.filter_cons, List.filter_cons, hshort,
        Bool.and_true]
      by_cases hg : g before l = true
      · rw [if_pos hg, if_pos hg, List.map_cons, List.map_cons,
          ih _ hbefore]
      · rw [if_neg hg, if_neg hg, ih _ hbefore]
    · -- Everything from here on has a long line before it.
      have hnone : ∀ p ∈ contexts before (l :: ls),
          (g p.before p.line && p.short) = false := by
        intro p hp
        have hmem : l ∈ p.before ++ [p.line] := by
          rcases List.mem_cons.mp hp with rfl | hp
          · exact List.mem_append_right _ (List.mem_singleton_self l)
          · exact (mem_contexts hp).1.subset
              (List.mem_append_right _ (List.mem_singleton_self l))
        have hlong : p.short = false := by
          refine Bool.eq_false_iff.mpr fun hall => hl ?_
          exact of_decide_eq_true (List.all_eq_true.mp hall l hmem)
        rw [hlong, Bool.and_false]
      have hnil : (contexts before (l :: ls)).filter (fun p =>
          g p.before p.line && p.short) = [] :=
        List.filter_eq_nil_iff.mpr fun p hp => by simp [hnone p hp]
      rw [List.takeWhile_cons_of_neg (by simpa using hl), hnil]
      rfl

theorem keptLines_eq (content : Text) :
    keptLines false (lines content)
      = ((userContexts content).filter fun p =>
          !opens p.before && p.short).map fun p => dropCR p.line := by
  have hscan : lines content
      = ((Scanner.lines content).takeWhile
        (·.length < maxScanTokenSize)).map dropCR :=
    Scanner.scanPieces_split maxScanTokenSize content
  have hkept := contexts_takeWhile [] (by simp)
    (fun before l => !(isBegin l || isEnd l) && !opens before)
    (Scanner.lines content)
  have huser : (userContexts content).filter
      (fun p => !opens p.before && p.short)
      = (contexts [] (Scanner.lines content)).filter fun p =>
          !(isBegin p.line || isEnd p.line) && !opens p.before
            && p.short := by
    unfold userContexts
    rw [List.filter_filter]
    refine List.filter_congr fun p _ => ?_
    unfold Context.isMarker Context.between
    cases isBegin p.line <;> cases isEnd p.line <;> cases opens p.before
      <;> simp
  rw [hscan, keptLines_dropCR]
  have hcontexts := keptLines_contexts [] ((Scanner.lines content).takeWhile
    (·.length < maxScanTokenSize))
  have hopens : opens [] = false := rfl
  rw [hopens] at hcontexts
  rw [hcontexts, huser]
  refine (congrArg (List.map dropCR) hkept).trans ?_
  rw [List.map_map]
  rfl

-- ======== the user's lines

theorem remove_kept (content : Text) :
    removeExistingManagedBlock content
      = unlines ((keptLines false (lines content)).rdropWhile (· = [])) :=
  Text.rdropWhile_unlines fun _ hl =>
    (fits_of_line (kept_neutral hl).1).1

theorem kept_newline {l : Text}
    (h : l ∈ (keptLines false (lines content)).rdropWhile (· = [])) :
    newline ∉ l :=
  (fits_of_line
    (kept_neutral ((List.rdropWhile_prefix _ _).subset h)).1).1

theorem lines_removed (content : Text) :
    Scanner.lines (removeExistingManagedBlock content)
      = (keptLines false (lines content)).rdropWhile (· = []) := by
  rw [remove_kept, Scanner.lines_unlines fun _ hl => kept_newline hl]

theorem dropCR_eq_iff (l : Text) :
    dropCR l = l ↔ l.getLast? ≠ some carriageReturn := by
  unfold dropCR
  split
  next hlast =>
    refine iff_of_false (fun heq => ?_) (not_not.mpr hlast)
    obtain ⟨t, rfl⟩ := List.getLast?_eq_some_iff.mp hlast
    rw [List.dropLast_concat] at heq
    have hlength := congrArg List.length heq
    rw [List.length_append, List.length_singleton] at hlength
    omega
  next hlast => exact iff_of_true rfl hlast

theorem rdropWhile_filter_blank (ps : List Context) (good : Context → Bool)
    {p : Context} (hblank : p.line = []) :
    (((ps ++ [p]).filter good).map fun p => dropCR p.line).rdropWhile
        (· = [])
      = ((ps.filter good).map fun p => dropCR p.line).rdropWhile
        (· = []) := by
  rw [List.filter_append, List.filter_singleton, List.map_append]
  cases good p with
  | true =>
    have hdrop : dropCR p.line = [] := by
      rw [hblank]
      rfl
    rw [cond_true, List.map_singleton, hdrop]
    exact List.rdropWhile_concat_pos _ _ _ (decide_eq_true rfl)
  | false =>
    rw [cond_false, List.map_nil, List.append_nil]

/-- What is found in a list is found before a line more, or is that
line. -/
theorem concat_eq_append_cons {ps before after : List Context}
    {p q : Context} (h : ps ++ [p] = before ++ q :: after) :
    (after = [] ∧ q = p ∧ before = ps)
      ∨ ∃ after', after = after' ++ [p] ∧ ps = before ++ q :: after' := by
  rcases List.eq_nil_or_concat' after with rfl | ⟨after', r, rfl⟩
  · obtain ⟨hps, hp⟩ := List.append_inj' h rfl
    exact Or.inl ⟨rfl, (List.singleton_inj.mp hp).symm, hps.symm⟩
  · have heq : ps ++ [p] = (before ++ q :: after') ++ [r] := by
      rw [h, List.append_assoc, List.cons_append]
    obtain ⟨hps, hp⟩ := List.append_inj' heq rfl
    exact Or.inr ⟨after', by rw [List.singleton_inj.mp hp], hps⟩

/-- Of some lines those that are good are kept, without a carriage
return. All up to the last that is not blank are among them, in order and
unchanged, exactly if each of these is good and has no carriage
return. -/
theorem sublist_kept_iff (ps : List Context) (good : Context → Bool) :
    ((ps.map (·.line)).rdropWhile (· = [])).Sublist
        (((ps.filter good).map fun p => dropCR p.line).rdropWhile (· = []))
      ↔ ∀ before p after, ps = before ++ p :: after →
          (∀ q ∈ p :: after, q.line = [])
            ∨ dropCR p.line = p.line ∧ good p = true := by
  induction ps using List.reverseRecOn with
  | nil =>
    refine iff_of_true List.Sublist.slnil fun before p after h => ?_
    exact absurd h.symm (by simp)
  | append_singleton ps p ih =>
    by_cases hblank : p.line = []
    · rw [rdropWhile_filter_blank ps good hblank, List.map_append,
        List.map_singleton, hblank,
        List.rdropWhile_concat_pos _ _ _ (by simp), ih]
      constructor
      · intro h before q after heq
        rcases concat_eq_append_cons heq with ⟨rfl, rfl, -⟩ | ⟨after', rfl, hps⟩
        · refine Or.inl fun r hr => ?_
          rw [List.mem_singleton.mp hr, hblank]
        · refine (h before q after' hps).imp_left fun hall r hr => ?_
          rw [← List.cons_append] at hr
          rcases List.mem_append.mp hr with hr | hr
          · exact hall r hr
          · rw [List.mem_singleton.mp hr, hblank]
      · intro h before q after heq
        have hmore : ps ++ [p] = before ++ q :: (after ++ [p]) := by
          rw [heq, List.append_assoc, List.cons_append]
        refine (h before q _ hmore).imp_left fun hall r hr => ?_
        apply hall r
        rw [← List.cons_append]
        exact List.mem_append_left _ hr
    · have hall : (∀ before q after, ps ++ [p] = before ++ q :: after →
          (∀ r ∈ q :: after, r.line = [])
            ∨ dropCR q.line = q.line ∧ good q = true)
          ↔ ∀ q ∈ ps ++ [p], dropCR q.line = q.line ∧ good q = true := by
        constructor
        · intro h q hq
          obtain ⟨before, after, heq⟩ := List.append_of_mem hq
          refine (h before q after heq).resolve_left fun hblanks => ?_
          rcases concat_eq_append_cons heq with ⟨rfl, rfl, -⟩ | ⟨after', rfl, -⟩
          · exact hblank (hblanks q (List.mem_cons_self ..))
          · apply hblank
            apply hblanks p
            rw [← List.cons_append]
            exact List.mem_append_right _ (List.mem_singleton_self p)
        · intro h before q after heq
          refine Or.inr (h q ?_)
          rw [heq]
          exact List.mem_append_right _ (List.mem_cons_self ..)
      have hkeep : ((ps ++ [p]).map (·.line)).rdropWhile (· = [])
          = (ps ++ [p]).map (·.line) := by
        rw [List.map_append, List.map_singleton]
        exact List.rdropWhile_concat_neg _ _ _ (by simpa using hblank)
      rw [hall, hkeep]
      constructor
      · -- As many lines are left as there are, so all are.
        intro hsub
        have hprefix := List.rdropWhile_prefix (fun l : Text => l = [])
          (((ps ++ [p]).filter good).map fun p => dropCR p.line)
        have hle := hsub.length_le.trans hprefix.length_le
        rw [List.length_map, List.length_map] at hle
        have hfilter : (ps ++ [p]).filter good = ps ++ [p] :=
          List.filter_sublist.eq_of_length
            (Nat.le_antisymm (List.length_filter_le _ _) hle)
        have hsame := (hsub.trans hprefix.sublist).eq_of_length (by
          rw [hfilter, List.length_map, List.length_map])
        rw [hfilter] at hsame
        intro q hq
        refine ⟨(List.map_inj_left.mp hsame q hq).symm, ?_⟩
        exact List.filter_eq_self.mp hfilter q hq
      · intro h
        have hfilter : (ps ++ [p]).filter good = ps ++ [p] :=
          List.filter_eq_self.mpr fun q hq => (h q hq).2
        have hmap : ((ps ++ [p]).map fun p => dropCR p.line)
            = (ps ++ [p]).map (·.line) :=
          List.map_congr_left fun q hq => (h q hq).1
        rw [hfilter, hmap, hkeep]

/-- The user's lines are kept exactly if each of them is spared, but for
blank ones at the end of the file. -/
theorem user_lines_survive_iff (content : Text) :
    UserLinesSurvive content
      ↔ ∀ before p after, userContexts content = before ++ p :: after →
          (∀ q ∈ p :: after, q.line = []) ∨ p.Spared := by
  unfold UserLinesSurvive
  rw [lines_removed, keptLines_eq, sublist_kept_iff]
  refine forall_congr' fun before => forall_congr' fun p =>
    forall_congr' fun after => forall_congr' fun _ => or_congr_right ?_
  rw [dropCR_eq_iff, Bool.and_eq_true, Bool.not_eq_true']
  constructor
  · intro ⟨hcr, hclosed, hshort⟩
    exact ⟨hcr, fun l hl =>
      of_decide_eq_true (List.all_eq_true.mp hshort l hl), hclosed⟩
  · intro h
    exact ⟨h.noCR, h.closed, List.all_eq_true.mpr fun l hl =>
      decide_eq_true (h.short l hl)⟩

/-- A block whose END marker is gone, with a line of the user's behind
it. -/
def unterminated : Text :=
  Text.ofString "# BEGIN kubikles-managed\n10.0.0.1 own\n"

/-- That line is lost. -/
theorem unterminated_loses_line :
    ¬ ∀ content, UserLinesSurvive content := by
  intro h
  have hlost := h unterminated
  unfold UserLinesSurvive at hlost
  have hlength := hlost.length_le
  revert hlength
  decide

-- ======== a round trip

/-- What `AddEntriesWithPortRedirect` writes. -/
def updated (entries : List Entry) (content : Text) : Text :=
  removeExistingManagedBlock content ++ buildEntriesContent entries

/-- The entries are read back, removing them leaves what there was
without them, and so does every further adding and removing. -/
structure RoundTrips (content : Text) (entries : List Entry) : Prop where
  read : parseManagedEntries (updated entries content) = entries
  removed : removeExistingManagedBlock (updated entries content)
    = removeExistingManagedBlock content
  cycles : ∀ n,
    (fun c => removeExistingManagedBlock (updated entries c))^[n + 1]
        content
      = removeExistingManagedBlock content

/-- An entry of a hostname that passes the check and an address that is a
word and no comment, which fit the scanner. -/
structure Entry.Addable (e : Entry) : Prop where
  hostname : validateHostname e.hostname = none
  ip_ne : e.ip ≠ []
  ip : Text.Solid e.ip
  ip_head : e.ip.head? ≠ some hash
  short : e.line.length < maxScanTokenSize

theorem Entry.Addable.readable {e : Entry} (h : e.Addable) :
    e.Readable := by
  obtain ⟨hplain, hne, -⟩ := printed_of_valid h.hostname
  obtain ⟨b, tail, hip⟩ := List.exists_cons_of_ne_nil h.ip_ne
  refine ⟨h.ip, ⟨b, ?_, ?_⟩, Text.solid_of_plain hplain, hne, h.short⟩
  · rw [hip]
    rfl
  · intro hb
    apply h.ip_head
    rw [hip, hb]
    rfl

/-- The line is read outside of a block and ends in two carriage
returns. -/
structure Context.TwoCR (p : Context) : Prop where
  noMarker : p.isMarker = false
  closed : opens p.before = false
  ends : [carriageReturn, carriageReturn] <:+ p.line

instance (p : Context) : Decidable p.TwoCR :=
  decidable_of_iff (p.isMarker = false ∧ opens p.before = false
      ∧ [carriageReturn, carriageReturn] <:+ p.line)
    ⟨fun h => ⟨h.1, h.2.1, h.2.2⟩, fun h => ⟨h.noMarker, h.closed, h.ends⟩⟩

theorem keptLines_block (h : ∀ e ∈ entries, e.Readable) :
    keptLines false
        (beginMarker :: entries.map Entry.line ++ [endMarker]) = [] := by
  have hbegin : isBegin beginMarker = true := rfl
  have hinside : keptLines true (entries.map Entry.line ++ [endMarker])
      = [] := by
    induction entries with
    | nil => rfl
    | cons e entries ih =>
      have he := h e (List.mem_cons_self ..)
      have hnobegin : isBegin e.line = false := he.no_marker rfl
      have hnoend : isEnd e.line = false := he.no_marker rfl
      rw [List.map_cons, List.cons_append, keptLines_cons, hnobegin,
        hnoend]
      exact ih fun e' he' => h e' (List.mem_cons_of_mem _ he')
  rw [List.cons_append, keptLines_cons, hbegin, if_pos rfl, hinside]

theorem keptLines_neutral {rest : List Text} (h : ∀ l ∈ ls, Neutral l) :
    keptLines false (ls ++ rest) = ls ++ keptLines false rest := by
  induction ls with
  | nil => rfl
  | cons l ls ih =>
    obtain ⟨hbegin, hend⟩ := h l (List.mem_cons_self ..)
    rw [List.cons_append, keptLines, hbegin, hend, if_neg Bool.false_ne_true,
      if_neg Bool.false_ne_true, if_neg Bool.false_ne_true,
      ih fun m hm => h m (List.mem_cons_of_mem _ hm)]
    rfl

theorem remove_block (hls : ∀ l ∈ ls, Neutral l ∧ Fits l)
    (h : ∀ e ∈ entries, e.Readable) :
    removeExistingManagedBlock (unlines ls ++ buildEntriesContent entries)
      = unlines ((ls.map dropCR).rdropWhile (· = [])) := by
  have hneutral : ∀ l ∈ ls.map dropCR, Neutral l := by
    intro l hl
    obtain ⟨m, hm, rfl⟩ := List.mem_map.mp hl
    exact neutral_dropCR (hls m hm).1
  rw [remove_kept]
  by_cases hnil : entries = []
  · subst hnil
    have hlines : lines (unlines ls ++ buildEntriesContent [])
        = ls.map dropCR := by
      show lines (unlines ls ++ []) = _
      rw [List.append_nil, lines_unlines fun l hl => (hls l hl).2]
    rw [hlines, ← List.append_nil (ls.map dropCR),
      keptLines_neutral hneutral]
    rfl
  · have hblank : keptLines false ([] :: beginMarker :: entries.map Entry.line
        ++ [endMarker]) = [[]] := by
      have hblock := keptLines_block h
      rw [List.cons_append] at hblock ⊢
      rw [List.cons_append, keptLines_cons, hblock]
      rfl
    rw [lines_block (fun l hl => (hls l hl).2) hnil h,
      keptLines_neutral hneutral, hblank,
      List.rdropWhile_concat_pos _ _ _ (by simp)]

theorem unlines_dropCR_iff (hls : ∀ l ∈ ls, newline ∉ l)
    (hlast : ls.rdropWhile (· = []) = ls) :
    unlines ((ls.map dropCR).rdropWhile (· = [])) = unlines ls
      ↔ ∀ l ∈ ls, dropCR l = l := by
  constructor
  · intro h
    have hdrop : ∀ l ∈ (ls.map dropCR).rdropWhile (· = []),
        newline ∉ l := by
      intro l hl
      obtain ⟨m, hm, rfl⟩ := List.mem_map.mp
        ((List.rdropWhile_prefix _ _).subset hl)
      exact fun hmem => hls m hm ((Scanner.dropCR_isBeginning m).subset hmem)
    have heq := congrArg Scanner.lines h
    rw [Scanner.lines_unlines hdrop, Scanner.lines_unlines hls] at heq
    -- As many lines are left as there were, so none has been dropped.
    have hprefix := List.rdropWhile_prefix (fun l : Text => l = [])
      (ls.map dropCR)
    have hall := hprefix.eq_of_length (by rw [heq, List.length_map])
    rw [hall] at heq
    intro l hl
    exact List.map_inj_left.mp (heq.trans (List.map_id ls).symm) l hl
  · intro h
    have hmap : ls.map dropCR = ls := by
      rw [List.map_congr_left h, List.map_id']
    rw [hmap, hlast]

/-- A line keeps its end once its carriage return is taken off, unless
there are two. -/
theorem dropCR_dropCR_iff (l : Text) :
    dropCR (dropCR l) = dropCR l
      ↔ ¬ [carriageReturn, carriageReturn] <:+ l := by
  rw [dropCR_eq_iff, not_iff_not]
  constructor
  · intro h
    by_cases hlast : l.getLast? = some carriageReturn
    · obtain ⟨t, rfl⟩ := List.getLast?_eq_some_iff.mp hlast
      unfold dropCR at h
      rw [if_pos hlast, List.dropLast_concat] at h
      obtain ⟨t, rfl⟩ := List.getLast?_eq_some_iff.mp h
      exact ⟨t, by simp⟩
    · rw [(dropCR_eq_iff l).mpr hlast] at h
      exact absurd h hlast
  · rintro ⟨t, rfl⟩
    have hdrop : dropCR (t ++ [carriageReturn, carriageReturn])
        = t ++ [carriageReturn] := by
      unfold dropCR
      rw [if_pos (by simp)]
      simp
    rw [hdrop, List.getLast?_concat]

theorem mem_rdropWhile_blank {l : Text} (h : l ∈ ls) (hne : l ≠ []) :
    l ∈ ls.rdropWhile (· = []) := by
  rw [← List.rdropWhile_append_rtakeWhile
    (p := fun l : Text => decide (l = [])) (l := ls)] at h
  rcases List.mem_append.mp h with h | h
  · exact h
  · have hblank := List.mem_rtakeWhile_imp (p := fun l => decide (l = [])) h
    exact absurd (of_decide_eq_true hblank) hne

/-- Is nothing too long, then what the loop keeps is its own line exactly
if no line outside of the blocks ends in two carriage returns. -/
theorem kept_dropCR_iff
    (hshort : ∀ l ∈ Scanner.lines content, l.length < maxScanTokenSize) :
    (∀ l ∈ (keptLines false (lines content)).rdropWhile (· = []),
        dropCR l = l)
      ↔ ∀ p ∈ contexts [] (Scanner.lines content), ¬ p.TwoCR := by
  have hlines : lines content = (Scanner.lines content).map dropCR := by
    have hscan := Scanner.scanPieces_split maxScanTokenSize content
    rw [List.takeWhile_eq_self_iff.mpr fun l hl =>
      decide_eq_true (hshort l hl)] at hscan
    exact hscan
  have hopens : opens [] = false := rfl
  have hkept := keptLines_contexts [] (Scanner.lines content)
  rw [hopens] at hkept
  rw [hlines, keptLines_dropCR, hkept, List.map_map]
  constructor
  · intro h p hp htwo
    -- Two carriage returns are no blank line, so it is kept.
    have hmem : dropCR p.line ∈ ((contexts [] (Scanner.lines content)).filter
        fun p => !p.isMarker && !opens p.before).map
          (dropCR ∘ (·.line)) := by
      refine List.mem_map.mpr ⟨p, List.mem_filter.mpr ⟨hp, ?_⟩, rfl⟩
      rw [htwo.noMarker, htwo.closed]
      rfl
    have hline := mt (dropCR_dropCR_iff p.line).mp (not_not.mpr htwo.ends)
    apply hline
    apply h
    refine mem_rdropWhile_blank hmem fun hblank => hline ?_
    rw [hblank]
    rfl
  · intro h l hl
    obtain ⟨p, hp, rfl⟩ := List.mem_map.mp
      ((List.rdropWhile_prefix _ _).subset hl)
    obtain ⟨hp, hgood⟩ := List.mem_filter.mp hp
    rw [Bool.and_eq_true, Bool.not_eq_true', Bool.not_eq_true'] at hgood
    refine (dropCR_dropCR_iff p.line).mpr fun hends => ?_
    exact h p hp ⟨hgood.1, hgood.2, hends⟩

/-- A round trip comes back exactly if no line outside of the blocks ends
in two carriage returns. -/
theorem round_trips_iff (content : Text) (entries : List Entry)
    (hentries : ∀ e ∈ entries, e.Addable)
    (hshort : ∀ l ∈ Scanner.lines content, l.length < maxScanTokenSize) :
    RoundTrips content entries
      ↔ ∀ p ∈ contexts [] (Scanner.lines content), ¬ p.TwoCR := by
  have hreadable : ∀ e ∈ entries, e.Readable :=
    fun e he => (hentries e he).readable
  have hkept : ∀ l ∈ (keptLines false (lines content)).rdropWhile (· = []),
      Neutral l ∧ Fits l := by
    intro l hl
    obtain ⟨hline, hneutral⟩ :=
      kept_neutral ((List.rdropWhile_prefix _ _).subset hl)
    exact ⟨hneutral, fits_of_line hline⟩
  have hlast := List.rdropWhile_idempotent (fun l : Text => l = [])
    (keptLines false (lines content))
  have hiff := unlines_dropCR_iff (fun l hl => (hkept l hl).2.1) hlast
  have hremoved : removeExistingManagedBlock (updated entries content)
      = unlines ((((keptLines false (lines content)).rdropWhile
        (· = [])).map dropCR).rdropWhile (· = [])) := by
    unfold updated
    rw [remove_kept content, remove_block hkept hreadable]
  rw [← kept_dropCR_iff hshort, ← hiff, ← hremoved, ← remove_kept content]
  constructor
  · intro h
    exact h.removed
  · intro h
    have hagain : removeExistingManagedBlock
        (removeExistingManagedBlock content)
          = removeExistingManagedBlock content := by
      have hnone : ∀ e ∈ ([] : List Entry), e.Readable := by simp
      have hblock := remove_block hkept hnone
      have hnil : buildEntriesContent [] = [] := rfl
      rw [hnil, List.append_nil, ← remove_kept content, ← hremoved]
        at hblock
      exact hblock.trans h
    refine ⟨managed_replaced content hreadable, h, fun n => ?_⟩
    induction n with
    | zero =>
      rw [Nat.zero_add, Function.iterate_one]
      exact h
    | succ n ih =>
      rw [Function.iterate_succ_apply', ih]
      unfold updated
      rw [hagain]
      exact h

def appEntry : Entry :=
  ⟨Text.ofString "127.0.0.1", Text.ofString "app.local"⟩

theorem appEntry_addable : ∀ e ∈ [appEntry], e.Addable := by
  intro e he
  rw [List.mem_singleton.mp he]
  have hplain : appEntry.ip.all Text.plain = true := rfl
  exact ⟨by decide, by decide,
    Text.solid_of_plain (List.all_eq_true.mp hplain), by decide, by decide⟩

/-- A file that ends in a block without its END marker. -/
theorem round_trips_unterminated : RoundTrips unterminated [appEntry] :=
  (round_trips_iff unterminated [appEntry] appEntry_addable
    (by decide)).mpr (by decide)

def twoCR : Text := Text.ofString "10.0.0.1 own\r\r\n"

/-- Adding and removing takes one of them off. -/
theorem twoCR_not_round_trip :
    ¬ ∀ content entries, (∀ e ∈ entries, Entry.Addable e)
      → (∀ l ∈ Scanner.lines content, l.length < maxScanTokenSize)
      → RoundTrips content entries := by
  intro h
  have hremoved := (h twoCR [appEntry] appEntry_addable (by decide)).removed
  revert hremoved
  decide

-- ======== any calls

inductive Edit where
  | addEntries (entries : List Entry) (httpsPort httpPort : Int)
  | removeEntries

/-- The addresses can be read back. -/
def Edit.Addable : Edit → Prop
  | .addEntries entries _ _ =>
    ∀ e ∈ entries, validateHostname e.hostname = none → e.Addable
  | .removeEntries => True

def Edit.run (env : Env) (h : Host) : Edit → Host × Option HostsError
  | .addEntries entries httpsPort httpPort =>
    h.addEntriesWithPortRedirect env entries httpsPort httpPort
  | .removeEntries => h.removeEntries env

/-- What a call makes of a list of entries, if this is its error. -/
def Edit.sets (managed : List Entry) : Option HostsError → Edit → List Entry
  | some _, _ | none, .addEntries [] _ _ => managed
  | none, .addEntries entries _ _ => entries
  | none, .removeEntries => []

/-- A call on the file, and on the list it stands for. -/
def edited (p : Host × List Entry) (call : Env × Edit) : Host × List Entry :=
  ((call.2.run call.1 p.1).1, call.2.sets p.2 (call.2.run call.1 p.1).2)

theorem managed_run (env : Env) (h : Host) (edit : Edit)
    (hadd : edit.Addable) :
    (edit.run env h).1.managed
      = edit.sets h.managed (edit.run env h).2 := by
  cases edit with
  | addEntries entries httpsPort httpPort =>
    simp only [Edit.run]
    rcases addEntries_cases env entries httpsPort httpPort h with
      ⟨rfl, heq⟩ | ⟨hne, hvalid, heq⟩ | ⟨-, err, heq⟩
    · rw [heq]
      rfl
    · rw [heq]
      have hread := managed_replaced h.content fun e he =>
        (hadd e he (valid_of_validateEntries hvalid he)).readable
      unfold Host.managed
      rw [redirect_content, hread]
      cases entries with
      | nil => exact absurd rfl hne
      | cons e entries => rfl
    · rw [heq]
      rfl
  | removeEntries =>
    simp only [Edit.run]
    rcases removeEntries_cases env h with
      ⟨h', heq, hnil⟩ | ⟨h', err, heq, hsame⟩
    · rw [heq, hnil]
      rfl
    · rw [heq]
      unfold Host.managed
      rw [hsame]
      rfl

/-- Whatever the file holds and whichever calls fail, what is managed is what
the last call that did not fail has added, if it was no removal. -/
theorem hosts_refine_list (h : Host) (calls : List (Env × Edit))
    (hadd : ∀ call ∈ calls, call.2.Addable) :
    (calls.foldl edited (h, h.managed)).1.managed
      = (calls.foldl edited (h, h.managed)).2 := by
  refine List.foldlRecOn
    (motive := fun p : Host × List Entry => p.1.managed = p.2)
    calls _ rfl fun p hp call hcall => ?_
  rw [edited, ← hp]
  exact managed_run call.1 p.1 call.2 (hadd call hcall)

theorem hosts_refine_list_failed :
    ([({}, Edit.addEntries [appEntry] 0 0),
        ({ cpErr := some "" }, .removeEntries)].foldl edited
      (⟨[], 0⟩, Host.managed ⟨[], 0⟩)).1.managed = [appEntry] := by
  rw [hosts_refine_list]
  · decide
  · simpa [Edit.Addable] using fun _ => appEntry_addable appEntry (by simp)

end Hosts
