/-
Paging forward through the log of a container.

# The argument

One line more than a page holds is read of what the server sends, and
what the server sends begins with the lines it repeats. These are skipped
afterwards, so every one of them is missing at the end of the page, and
the empty piece behind the last newline is counted as a line
(`getPodLogsAfter_eq`). A page with one repeated line or none is the
first lines behind the cursor, and says that there are more one line too
early; with more of them it says that there are no more. What has to hold
at each cursor for the pages to be the log is `Room`.
-/
import Mathlib.Data.List.Flatten
import Kubikles.PodLog.Paging
import Kubikles.PodLog.Proofs.Window

namespace PodLog

open Rfc3339 (Time secondOf)
open Text (newline space unlines split)

variable {c : Client} {ns podName containerName : Text} {previous : Bool}
variable {log : List LogLine} {cursor : Text} {t : Time} {instant : Int}

-- ======== the logs

def InOrder (log : List LogLine) : Prop :=
  log.Pairwise fun l l' => l.instant ≤ l'.instant

theorem InOrder.filter_append (h : InOrder log) (instant : Int) :
    log.filter (fun l => l.instant ≤ instant)
      ++ log.filter (fun l => instant < l.instant) = log := by
  induction log with
  | nil => rfl
  | cons l log ih =>
    obtain ⟨hfirst, hrest⟩ := List.pairwise_cons.mp h
    by_cases hle : l.instant ≤ instant
    · rw [List.filter_cons_of_pos (by simpa using hle),
        List.filter_cons_of_neg (by simpa using hle), List.cons_append,
        ih hrest]
    · -- so all that come behind it are later too
      have hnone : log.filter (fun l => l.instant ≤ instant) = [] := by
        refine List.filter_eq_nil_iff.mpr fun l' hl' => ?_
        have := hfirst l' hl'
        simp only [decide_eq_true_eq]
        omega
      have hall : log.filter (fun l => instant < l.instant) = log := by
        refine List.filter_eq_self.mpr fun l' hl' => ?_
        have := hfirst l' hl'
        simp only [decide_eq_true_eq]
        omega
      rw [List.filter_cons_of_neg (by simpa using hle), hnone,
        List.filter_cons_of_pos (by simpa using hle), hall,
        List.nil_append]

theorem InOrder.since_eq (h : InOrder log) (instant : Int) :
    since log (instant + 1) = repeated log instant ++ after log instant := by
  have hsince : InOrder (since log (instant + 1)) :=
    List.Pairwise.filter _ h
  have hafter : (since log (instant + 1)).filter
      (fun l => instant < l.instant) = after log instant := by
    unfold since after
    rw [List.filter_filter]
    refine List.filter_congr fun l _ => ?_
    by_cases hlt : instant < l.instant
    · have : secondOf (instant + 1) ≤ secondOf l.instant :=
        Int.ediv_le_ediv (by decide) hlt
      simp [hlt, this]
    · simp [hlt]
  rw [repeated, ← hafter, hsince.filter_append]

theorem after_after {instant' : Int} (h : instant ≤ instant') :
    after (after log instant) instant' = after log instant' := by
  unfold after
  rw [List.filter_filter]
  refine List.filter_congr fun l _ => ?_
  simp only [Bool.and_eq_left_iff_imp, decide_eq_true_eq]
  omega

theorem InOrder.le_of_mem_take (h : InOrder log) {k : Nat} {l l' : LogLine}
    (hk : log[k]? = some l) (hl' : l' ∈ log.take (k + 1)) :
    l'.instant ≤ l.instant := by
  obtain ⟨hlt, rfl⟩ := List.getElem?_eq_some_iff.mp hk
  obtain ⟨i, hi, rfl⟩ := List.mem_take_iff_getElem.mp hl'
  rcases Nat.lt_or_ge i k with hik | hik
  · exact List.pairwise_iff_getElem.mp h i k (by omega) hlt hik
  · have : i = k := by omega
    subst this
    exact le_rfl

theorem InOrder.after_eq (h : InOrder log) {k : Nat} {l : LogLine}
    (hk : log[k]? = some l) :
    after log l.instant = after (log.drop (k + 1)) l.instant := by
  have hupto : after (log.take (k + 1)) l.instant = [] := by
    refine List.filter_eq_nil_iff.mpr fun l' hl' => ?_
    rw [decide_eq_true_eq, not_lt]
    exact h.le_of_mem_take hk hl'
  conv_lhs => rw [← List.take_append_drop (k + 1) log]
  unfold after at hupto ⊢
  rw [List.filter_append, hupto, List.nil_append]

theorem after_eq_drop (h : log.Pairwise fun l l' => l.instant < l'.instant)
    {k : Nat} {l : LogLine} (hk : log[k]? = some l) :
    after log l.instant = log.drop (k + 1) := by
  have hordered : InOrder log := h.imp Int.le_of_lt
  rw [hordered.after_eq hk]
  refine List.filter_eq_self.mpr fun l' hl' => ?_
  obtain ⟨hlt, rfl⟩ := List.getElem?_eq_some_iff.mp hk
  obtain ⟨i, hi, rfl⟩ := List.mem_drop_iff_getElem.mp hl'
  rw [decide_eq_true_eq]
  exact List.pairwise_iff_getElem.mp h k (k + 1 + i) hlt (by omega)
    (by omega)

theorem lt_of_mem_after {l : LogLine} (h : l ∈ after log instant) :
    instant < l.instant := by
  have hlt := (List.mem_filter.mp h).2
  rwa [decide_eq_true_eq] at hlt

theorem InOrder.after_length (h : InOrder log) {k : Nat} {l : LogLine}
    (hk : (after log instant)[k]? = some l) :
    (after log l.instant).length < (after log instant).length := by
  have hlater := lt_of_mem_after (List.mem_of_getElem? hk)
  have hlt := (List.getElem?_eq_some_iff.mp hk).1
  have hafter : InOrder (after log instant) := List.Pairwise.filter _ h
  rw [← after_after hlater.le, hafter.after_eq hk]
  have hle := List.length_filter_le
    (fun l' => decide (l.instant < l'.instant))
    ((after log instant).drop (k + 1))
  rw [List.length_drop] at hle
  unfold after at hlt hle ⊢
  omega

-- ======== the cursor

theorem firstWord_text (l : LogLine) : firstWord l.text = l.timestamp := by
  have hword : ∀ b ∈ l.timestamp, decide (b ≠ space) = true := by
    intro b hb
    rw [decide_eq_true_eq]
    rintro rfl
    exact l.word.1 hb
  unfold firstWord LogLine.text
  rw [List.takeWhile_append_of_pos hword, List.takeWhile_cons_of_neg,
    List.append_nil]
  simp

theorem newline_notMem_text (l : LogLine) : newline ∉ l.text := by
  intro h
  rcases List.mem_append.mp h with h | h
  · exact l.word.2 h
  · rcases List.mem_cons.mp h with h | h
    · exact absurd h (by decide)
    · exact l.whole h

theorem text_ne_nil (l : LogLine) : l.text ≠ [] :=
  List.append_ne_nil_of_right_ne_nil _ (List.cons_ne_nil _ _)

theorem IsCursor.next (h : IsCursor cursor t) :
    nextLogSinceTime cursor = Rfc3339.format t.next
      ∧ Rfc3339.parse (Rfc3339.format t.next) = some t.next := by
  refine ⟨?_, Rfc3339.parse_format h.year ?_⟩
  · unfold nextLogSinceTime
    rw [h.reads]
  · have hoffset : t.next.offset = t.offset := t.toFields.offset_next
    rw [hoffset]
    exact h.offset

theorem beforeCutoff_text (t : Time) (l : LogLine) :
    beforeCutoff (some t.next) l.text = decide (l.instant ≤ t.instant) := by
  unfold beforeCutoff
  rw [firstWord_text, l.cursor.reads]
  show decide (l.instant < t.next.instant) = _
  rw [Rfc3339.Time.instant_next]
  exact decide_eq_decide.mpr Int.lt_add_one_iff

-- ======== the call

/-- The server has this log, sends of it what it is asked for, and all of
it fits. -/
structure Serves (c : Client) (ns podName containerName : Text)
    (previous : Bool) (log : List LogLine) : Prop where
  cluster : c.debugCluster = false
  clientset : c.clientset = none
  ordered : log.Pairwise fun l l' => l.instant < l'.instant
  stream : ∀ s : Time, c.stream ns podName
      { container := containerName, timestamps := true, previous
        sinceTime := some s }
    = .ok ⟨unlines ((since log s.instant).map LogLine.text), none⟩
  fits : (unlines (log.map LogLine.text)).length ≤ maxPollingLogBytes

theorem Serves.inOrder (h : Serves c ns podName containerName previous log) :
    InOrder log :=
  h.ordered.imp Int.le_of_lt

theorem Serves.read (h : Serves c ns podName containerName previous log)
    (instant : Int) {maxLines : Int} (hpos : 0 < maxLines) :
    readBoundedLogPage ⟨unlines ((since log instant).map LogLine.text), none⟩
        maxPollingLogBytes maxLines
      = .ok (unlines (((since log instant).take maxLines.toNat).map
          LogLine.text)) := by
  rw [List.map_take]
  refine page_unlines (fun l hl => ?_) hpos ?_
  · obtain ⟨l, -, rfl⟩ := List.mem_map.mp hl
    exact newline_notMem_text l
  · have hsub : (((since log instant).map LogLine.text).take
        maxLines.toNat).Sublist (log.map LogLine.text) :=
      (List.take_sublist _ _).trans (List.filter_sublist.map _)
    exact (hsub.flatMap _).length_le.trans h.fits

theorem skip_repeated (n m : Nat) :
    (((repeated log t.instant).take n
        ++ (after log t.instant).take m).map LogLine.text
        ++ [[]]).dropWhile (beforeCutoff (some t.next))
      = ((after log t.instant).take m).map LogLine.text ++ [[]] := by
  rw [List.map_append, List.append_assoc, List.dropWhile_append_of_pos]
  · cases htake : (after log t.instant).take m with
    | nil => rfl
    | cons l rest =>
      have hmem : l ∈ after log t.instant :=
        List.mem_of_mem_take (htake ▸ List.mem_cons_self ..)
      have hlate := lt_of_mem_after hmem
      rw [List.map_cons, List.cons_append, List.dropWhile_cons_of_neg]
      rw [beforeCutoff_text, decide_eq_true_eq]
      omega
  · intro l hl
    obtain ⟨l, hmem, rfl⟩ := List.mem_map.mp hl
    rw [beforeCutoff_text]
    exact (List.mem_filter.mp (List.mem_of_mem_take hmem)).2

/-- The page behind a cursor: the repeated lines are missing, and there is
an empty piece at its end. -/
theorem getPodLogsAfter_eq
    (h : Serves c ns podName containerName previous log)
    (hc : IsCursor cursor t) {lineLimit : Int} (hpos : 1 ≤ lineLimit) :
    c.getPodLogsAfter ns podName containerName true previous cursor
        lineLimit
      = .ok (cutPage true lineLimit
          (((after log t.instant).take (lineLimit.toNat + 1
            - (repeated log t.instant).length)).map LogLine.text
            ++ [[]])) := by
  obtain ⟨hnext, hparse⟩ := hc.next
  have hne : Rfc3339.format t.next ≠ [] := by
    intro hnil
    rw [hnil] at hparse
    cases hparse
  have hoptions : logOptions containerName none true previous
      (Rfc3339.format t.next) (lineLimit + 1)
        = { container := containerName, timestamps := true, previous
            sinceTime := some t.next } := by
    simp [logOptions, hne, hparse]
  have hdefault : orDefault lineLimit = lineLimit := if_neg (by omega)
  have hlimit : (lineLimit + 1).toNat = lineLimit.toNat + 1 := by omega
  have hread := h.read t.next.instant (show 0 < lineLimit + 1 by omega)
  have hsplit : split (unlines (((since log t.next.instant).take
        (lineLimit + 1).toNat).map LogLine.text))
      = ((repeated log t.instant).take (lineLimit.toNat + 1)
          ++ (after log t.instant).take (lineLimit.toNat + 1
            - (repeated log t.instant).length)).map LogLine.text
        ++ [[]] := by
    rw [Text.split_unlines, Rfc3339.Time.instant_next, h.inOrder.since_eq,
      List.take_append, hlimit]
    intro l hl
    obtain ⟨l, -, rfl⟩ := List.mem_map.mp hl
    exact newline_notMem_text l
  unfold Client.getPodLogsAfter Client.getPodLogsWithOptionsLimit
  rw [h.cluster, h.clientset, hnext, hdefault]
  simp only [bind, Except.bind, hoptions, h.stream, hread, hparse, hsplit,
    skip_repeated, Bool.false_eq_true, if_false]
  rw [if_neg (List.append_ne_nil_of_right_ne_nil _ (List.cons_ne_nil _ _))]
  rfl

-- ======== the pages

/-- The page out of some lines and the empty piece behind them. -/
theorem cutPage_lines {lineLimit : Int} (hpos : 1 ≤ lineLimit)
    (cursor : Text) (more : Bool) (m : List LogLine) :
    (Page.mk cursor
        (cutPage true lineLimit (m.map LogLine.text ++ [[]])).1 more).lines
      = (m.take lineLimit.toNat).map LogLine.text := by
  have htake : (m.map LogLine.text ++ [[]]).take lineLimit.toNat
      = (m.take lineLimit.toNat).map LogLine.text
        ++ ([[]] : List Text).take (lineLimit.toNat - m.length) := by
    rw [List.take_append, List.length_map, List.map_take]
  have hpiece : ∀ l ∈ (m.map LogLine.text ++ [[]]).take lineLimit.toNat,
      newline ∉ l := by
    intro l hl
    rcases List.mem_append.mp (List.mem_of_mem_take hl) with hl | hl
    · obtain ⟨l, -, rfl⟩ := List.mem_map.mp hl
      exact newline_notMem_text l
    · rw [List.mem_singleton.mp hl]
      exact List.not_mem_nil
  have hne : (m.map LogLine.text ++ [[]]).take lineLimit.toNat ≠ [] := by
    intro hnil
    rw [List.take_eq_nil_iff] at hnil
    rcases hnil with h | h
    · omega
    · exact List.append_ne_nil_of_right_ne_nil _ (List.cons_ne_nil _ _) h
  show (split (Text.join _)).filter (· ≠ []) = _
  rw [if_pos rfl, Text.split_join hpiece hne, htake, List.filter_append]
  have hall : ((m.take lineLimit.toNat).map LogLine.text).filter (· ≠ [])
      = (m.take lineLimit.toNat).map LogLine.text := by
    refine List.filter_eq_self.mpr fun l hl => ?_
    obtain ⟨l, -, rfl⟩ := List.mem_map.mp hl
    simpa using text_ne_nil l
  have hnone : (([[]] : List Text).take
      (lineLimit.toNat - m.length)).filter (· ≠ []) = [] := by
    refine List.filter_eq_nil_iff.mpr fun l hl => ?_
    rw [List.mem_singleton.mp (List.mem_of_mem_take hl)]
    decide
  rw [hall, hnone, List.append_nil]

def answersAfter (c : Client) (ns podName containerName : Text)
    (previous : Bool) (lineLimit : Int) (cursor : Text)
    (answer : Text × Bool) : Prop :=
  c.getPodLogsAfter ns podName containerName true previous cursor lineLimit
    = .ok answer

/-- Paging is over some time. Its pages are the lines behind the cursor,
and each says whether lines are left. -/
def Complete (answers : Text → Text × Bool → Prop) (log : List LogLine)
    (cursor : Text) (instant : Int) : Prop :=
  ∃ pages, Paging answers cursor pages true
    ∧ pages.flatMap Page.lines = (after log instant).map LogLine.text
    ∧ ∀ before p behind, pages = before ++ p :: behind →
        (p.more = true ↔ ((before ++ [p]).flatMap Page.lines).length
          < (after log instant).length)

section

variable {answers : Text → Text × Bool → Prop} {text : Text}

theorem complete_last
    (hanswer : ∀ answer, answers cursor answer ↔ answer = (text, false)) :
    Complete answers log cursor instant
      ↔ (Page.mk cursor text false).lines
        = (after log instant).map LogLine.text := by
  constructor
  · rintro ⟨pages, hpages, hall, -⟩
    cases hpages with
    | @last _ text' h =>
      cases (hanswer _).mp h
      simpa using hall
    | more h => cases (hanswer _).mp h
  · intro hall
    refine ⟨[⟨cursor, text, false⟩], .last ((hanswer _).mpr rfl), ?_, ?_⟩
    · simpa using hall
    · intro before p behind heq
      obtain ⟨rfl, rfl, rfl⟩ : before = [] ∧ p = ⟨cursor, text, false⟩
          ∧ behind = [] := by
        cases before with
        | nil =>
          cases heq
          exact ⟨rfl, rfl, rfl⟩
        | cons q before => simp at heq
      rw [List.nil_append, List.flatMap_singleton, hall, List.length_map]
      simp

/-- A page that says that there are more has to be the first lines, with
some behind them, and what comes of the next cursor has to be right. -/
theorem complete_more {n : Nat} {l : LogLine}
    (hordered : log.Pairwise fun l l' => l.instant < l'.instant)
    (hanswer : ∀ answer, answers cursor answer ↔ answer = (text, true))
    (hlines : (Page.mk cursor text true).lines
      = ((after log instant).take (n + 1)).map LogLine.text)
    (hlast : (after log instant)[n]? = some l) :
    Complete answers log cursor instant
      ↔ n + 1 < (after log instant).length
        ∧ Complete answers log l.timestamp l.instant := by
  have hlt := (List.getElem?_eq_some_iff.mp hlast).1
  have hline : (Page.mk cursor text true).lines.getLast? = some l.text := by
    have htake : ((after log instant).take (n + 1))[n]? = some l := by
      rw [List.getElem?_take_of_lt (Nat.lt_succ_self n), hlast]
    rw [hlines, List.getLast?_eq_getElem?, List.length_map,
      List.length_take, Nat.min_eq_left hlt, List.getElem?_map,
      Nat.succ_sub_one, htake]
    rfl
  have hbehind : after log l.instant = (after log instant).drop (n + 1) := by
    rw [← after_after (lt_of_mem_after (List.mem_of_getElem? hlast)).le]
    exact after_eq_drop (List.Pairwise.filter _ hordered) hlast
  have hlength : (after log l.instant).length + (n + 1)
      = (after log instant).length := by
    rw [hbehind, List.length_drop]
    omega
  have hcount : ((Page.mk cursor text true).lines).length = n + 1 := by
    rw [hlines, List.length_map, List.length_take]
    omega
  constructor
  · rintro ⟨pages, hpages, hall, hmore⟩
    cases hpages with
    | @last _ text' h => cases (hanswer _).mp h
    | @more _ text' line rest _ h hlast' hrest =>
      cases (hanswer _).mp h
      cases hline.symm.trans hlast'
      rw [firstWord_text] at hrest
      refine ⟨?_, rest, hrest, ?_, ?_⟩
      · have hfirst := hmore [] _ rest rfl
        rw [List.nil_append, List.flatMap_singleton, hcount] at hfirst
        exact hfirst.mp rfl
      · have happend : ((after log instant).take (n + 1)).map LogLine.text
            ++ rest.flatMap Page.lines
              = ((after log instant).take (n + 1)).map LogLine.text
                ++ ((after log instant).drop (n + 1)).map LogLine.text := by
          rw [← List.map_append, List.take_append_drop, ← hall,
            List.flatMap_cons, hlines]
        rw [hbehind]
        exact List.append_cancel_left happend
      · intro before p behind heq
        have hp := hmore (_ :: before) p behind (congrArg _ heq)
        rw [hp, List.cons_append, List.flatMap_cons, List.length_append,
          hcount, ← hlength, Nat.add_comm (n + 1)]
        exact Nat.add_lt_add_iff_right
  · rintro ⟨hleft, rest, hrest, hall, hmore⟩
    rw [← firstWord_text l] at hrest
    refine ⟨_, .more ((hanswer _).mpr rfl) hline hrest, ?_, ?_⟩
    · rw [List.flatMap_cons, hall, hlines, hbehind, ← List.map_append,
        List.take_append_drop]
    · intro before p behind heq
      cases before with
      | nil =>
        cases heq
        rw [List.nil_append, List.flatMap_singleton, hcount]
        exact iff_of_true rfl hleft
      | cons q before =>
        cases heq
        rw [hmore before p behind rfl, List.cons_append,
          List.flatMap_cons, List.length_append, hcount, ← hlength,
          Nat.add_comm (n + 1)]
        exact Nat.add_lt_add_iff_right.symm

end

-- ======== the results

/-- A page has room for the lines that are left, in spite of those that
are repeated. -/
def Room (lineLimit repeated left : Nat) : Prop :=
  (repeated ≤ 1 ∧ left ≠ lineLimit)
    ∨ (2 ≤ repeated ∧ (left = 0 ∨ repeated + left ≤ lineLimit + 1))

instance Room.decidable (lineLimit repeated left : Nat) :
    Decidable (Room lineLimit repeated left) :=
  inferInstanceAs (Decidable (_ ∨ _))

section

variable {lineLimit : Int}
variable (h : Serves c ns podName containerName previous log)
variable (hpos : 1 ≤ lineLimit)

include h hpos

/-- The answer to a call: `first` lines at most, those that are left of
what is read, and whether they fill the page. -/
theorem answersAfter_iff (hc : IsCursor cursor t) {first : Nat}
    (hfirst : first
      = lineLimit.toNat + 1 - (repeated log t.instant).length) :
    ∃ text, (∀ answer,
        answersAfter c ns podName containerName previous lineLimit cursor
            answer
          ↔ answer = (text, decide
            (lineLimit.toNat ≤ min first (after log t.instant).length)))
      ∧ ∀ more, (Page.mk cursor text more).lines
        = ((after log t.instant).take (min lineLimit.toNat first)).map
          LogLine.text := by
  have hcall := getPodLogsAfter_eq h hc hpos
  rw [← hfirst] at hcall
  have hmore : (cutPage true lineLimit (((after log t.instant).take
        first).map LogLine.text ++ [[]])).2
      = decide (lineLimit.toNat
          ≤ min first (after log t.instant).length) := by
    refine decide_eq_decide.mpr ?_
    rw [List.length_append, List.length_map, List.length_singleton,
      List.length_take, Nat.lt_add_one_iff]
  refine ⟨(cutPage true lineLimit (((after log t.instant).take
    first).map LogLine.text ++ [[]])).1, fun answer => ?_, fun more => ?_⟩
  · unfold answersAfter
    rw [hcall, Except.ok.injEq, eq_comm, ← hmore]
  · rw [cutPage_lines hpos, List.take_take]

/-- A page with more than one repeated line, or with few lines left, is
the last. -/
theorem complete_iff_of_last (hc : IsCursor cursor t)
    (hfew : 2 ≤ (repeated log t.instant).length
      ∨ (after log t.instant).length < lineLimit.toNat) :
    Complete (answersAfter c ns podName containerName previous lineLimit)
        log cursor t.instant
      ↔ Room lineLimit.toNat (repeated log t.instant).length
          (after log t.instant).length := by
  obtain ⟨text, hanswer, hlines⟩ := answersAfter_iff h hpos hc rfl
  rw [decide_eq_false (by omega)] at hanswer
  rw [complete_last hanswer, hlines]
  constructor
  · intro hall
    have hcount := congrArg List.length hall
    rw [List.length_map, List.length_map, List.length_take] at hcount
    unfold Room
    omega
  · intro hroom
    rw [List.take_of_length_le]
    unfold Room at hroom
    omega

theorem complete_iff_of_more (hc : IsCursor cursor t)
    (hone : (repeated log t.instant).length ≤ 1) {l : LogLine}
    (hlast : (after log t.instant)[lineLimit.toNat - 1]? = some l) :
    Complete (answersAfter c ns podName containerName previous lineLimit)
        log cursor t.instant
      ↔ lineLimit.toNat < (after log t.instant).length
        ∧ Complete
          (answersAfter c ns podName containerName previous lineLimit)
          log l.timestamp l.instant := by
  obtain ⟨text, hanswer, hlines⟩ := answersAfter_iff h hpos hc rfl
  have hmany := (List.getElem?_eq_some_iff.mp hlast).1
  have hlimit : lineLimit.toNat - 1 + 1 = lineLimit.toNat := by omega
  rw [decide_eq_true (by omega)] at hanswer
  rw [complete_more h.ordered hanswer ?_ hlast, hlimit]
  rw [hlines, hlimit, Nat.min_eq_left (by omega)]

/-- The pages from a cursor on are the log behind it, and each says
whether lines are left, if and only if each page has room for the lines
that are left. -/
theorem paging_complete_iff (hc : IsCursor cursor t) :
    Complete (answersAfter c ns podName containerName previous lineLimit)
        log cursor t.instant
      ↔ ∀ instant, Reaches log lineLimit.toNat t.instant instant →
          Room lineLimit.toNat (repeated log instant).length
            (after log instant).length := by
  constructor
  · intro hcomplete instant hreaches
    generalize hstart : t.instant = start at hcomplete hreaches
    induction hreaches generalizing cursor t with
    | here start =>
      subst hstart
      by_cases hfew : 2 ≤ (repeated log t.instant).length
        ∨ (after log t.instant).length < lineLimit.toNat
      · exact (complete_iff_of_last h hpos hc hfew).mp hcomplete
      · -- the page says that there are more, so it is not the last
        obtain ⟨l, hlast⟩ : ∃ l,
            (after log t.instant)[lineLimit.toNat - 1]? = some l :=
          ⟨_, List.getElem?_eq_getElem (by omega)⟩
        have hleft := ((complete_iff_of_more h hpos hc (by omega)
          hlast).mp hcomplete).1
        exact Or.inl ⟨by omega, by omega⟩
    | @next start instant l hlast hmore rest ih =>
      subst hstart
      by_cases hone : (repeated log t.instant).length ≤ 1
      · exact ih l.cursor rfl
          ((complete_iff_of_more h hpos hc hone hlast).mp hcomplete).2
      · -- with so many repeated lines the page would be the last
        have hroom := (complete_iff_of_last h hpos hc
          (Or.inl (by omega))).mp hcomplete
        unfold Room at hroom
        omega
  · intro hroom
    induction hn : (after log t.instant).length using Nat.strong_induction_on
      generalizing cursor t with
    | _ n ih =>
      have hhere := hroom _ (.here _)
      by_cases hfew : 2 ≤ (repeated log t.instant).length
        ∨ (after log t.instant).length < lineLimit.toNat
      · exact (complete_iff_of_last h hpos hc hfew).mpr hhere
      · obtain ⟨l, hlast⟩ : ∃ l,
            (after log t.instant)[lineLimit.toNat - 1]? = some l :=
          ⟨_, List.getElem?_eq_getElem (by omega)⟩
        have hmore : lineLimit.toNat < (after log t.instant).length := by
          unfold Room at hhere
          omega
        refine (complete_iff_of_more h hpos hc (by omega) hlast).mpr
          ⟨hmore, ?_⟩
        refine ih _ ?_ l.cursor (fun instant hreaches => ?_) rfl
        · rw [← hn]
          exact h.inOrder.after_length hlast
        · exact hroom instant (.next hlast hmore hreaches)

end

def sample (tenths : Fin 10) : Time where
  year := 2024
  month := 11
  day := 26
  nanos := 52201000000000 + tenths * 100000000
  offset := 0
  valid :=
    { month_pos := Nat.le_add_left 1 10
      month_le := Nat.le_succ 11
      day_pos := Nat.le_add_left 1 25
      day_le := show 26 ≤ Rfc3339.daysIn (Rfc3339.leap 2024) 11 by decide
      nanos_lt := by
        have := tenths.isLt
        show 52201000000000 + tenths.val * 100000000 < 86400000000000
        omega }

def crowded : List LogLine :=
  [.stamped (sample 1) (Text.ofString "a") (by decide) (by decide)
      (by decide),
    .stamped (sample 2) (Text.ofString "b") (by decide) (by decide)
      (by decide),
    .stamped (sample 3) (Text.ofString "c") (by decide) (by decide)
      (by decide)]

def secondStamp : Text := Rfc3339.stamp (sample 2)

theorem serving_crowded :
    Serves (serving crowded) [] [] [] false crowded where
  cluster := rfl
  clientset := rfl
  ordered := by decide
  stream := fun _ => rfl
  fits := by decide

/-- The pages of one line behind it have to have room. -/
theorem paging_complete_iff_crowded :
    Complete (answersAfter (serving crowded) [] [] [] false 1) crowded
        secondStamp (sample 2).instant
      ↔ ∀ instant, Reaches crowded 1 (sample 2).instant instant →
          Room 1 (repeated crowded instant).length
            (after crowded instant).length :=
  paging_complete_iff serving_crowded (by decide)
    ⟨by decide, by decide, by decide⟩

/-- But there is no page for the third: paging is over with nothing. -/
theorem crowded_second_loses_line :
    ¬ Complete (answersAfter (serving crowded) [] [] [] false 1) crowded
      secondStamp (sample 2).instant := by
  have hcall : (serving crowded).getPodLogsAfter [] [] [] true false
      secondStamp 1 = .ok ([], false) := by decide
  rintro ⟨pages, hpages, hall, -⟩
  cases hpages with
  | last h =>
    cases hcall.symm.trans h
    revert hall
    decide
  | more h => cases hcall.symm.trans h

end PodLog
