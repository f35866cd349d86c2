/-
Paging backward through the log of a container.

# The argument

The loop stops at the first line whose timestamp, as a text, is not
before that of the page. The log is in order, so it stops behind all
lines that compare as earlier (`takeWhile_earlier`). These are the earlier
lines and, where the time of the page is written with less than nine
digits, the lines that agree with all of them (`earlier_iff`).

The page is the last of these. If they are the whole log, then the empty
piece behind the last newline takes the place of a line (`shownBefore`).
There are said to be more if they are as many as a page holds
(`cutBefore_eq`). What makes that the right page is `Clear`.
-/
import Kubikles.Lib.Scanner
import Kubikles.Lib.Utc
import Kubikles.PodLog.Proofs.AfterMerged

namespace PodLog

open Rfc3339 (Time Utc)
open Text (newline unlines split)
open StableSort (lastN)

variable {c : Client} {ns podName containerName : Text} {previous : Bool}
variable {log : List LogLine} {beforeTime : Text} {t : Time}
variable {lineLimit : Int}

-- ======== the logs

/-- The server has this log, in order, with the timestamps Kubernetes
writes, and sends all of it. -/
structure Holds (c : Client) (ns podName containerName : Text)
    (previous : Bool) (log : List LogLine) : Prop where
  cluster : c.debugCluster = false
  clientset : c.clientset = none
  ordered : InOrder log
  canonical : ∀ l ∈ log, l.Canonical
  stream : c.stream ns podName
      { container := containerName, timestamps := true, previous }
    = .ok ⟨unlines (log.map LogLine.text), none⟩

def linesBefore (log : List LogLine) (instant : Int) : List LogLine :=
  log.filter fun l => l.instant < instant

def LogLine.shown (timestamps : Bool) (l : LogLine) : Text :=
  if timestamps then l.text else dropTimestamp l.text

/-- The answer is the last lines before that time, and says whether there
are more. -/
def PagesBackward (c : Client) (ns podName containerName : Text)
    (previous : Bool) (beforeTime : Text) (lineLimit : Int)
    (log : List LogLine) (instant : Int) : Prop :=
  ∀ timestamps, ∃ text hasMoreBefore,
    c.getPodLogsBefore ns podName containerName timestamps previous
        beforeTime lineLimit = .ok (text, hasMoreBefore)
      ∧ Scanner.lines text
        = (lastN lineLimit.toNat (linesBefore log instant)).map
          (LogLine.shown timestamps)
      ∧ (hasMoreBefore = true
        ↔ lineLimit.toNat < (linesBefore log instant).length)

/-- No later line agrees with a time that has less than nine digits up to
its `Z`. If all lines are earlier, then they are fewer than a page holds;
if not, then the earlier ones are not as many as a page holds. -/
structure Clear (log : List LogLine) (beforeTime : Text) (instant : Int)
    (lineLimit : Nat) : Prop where
  apart : beforeTime.length < 30 → ∀ l ∈ log, instant ≤ l.instant →
    ¬ beforeTime.dropLast <+: l.timestamp
  room : (∀ l ∈ log, l.instant < instant) → log.length < lineLimit
  uneven : (∃ l ∈ log, instant ≤ l.instant) →
    (linesBefore log instant).length ≠ lineLimit

-- ======== the cut-off

def earlier (beforeTime : Text) (l : LogLine) : Bool :=
  l.timestamp < beforeTime.take 30

theorem atOrAfter_text (beforeTime : Text) (l : LogLine) :
    atOrAfter (beforeTime.take 30) l.text = !earlier beforeTime l := by
  have hlength : 30 ≤ l.text.length :=
    Nat.le_of_succ_le (hasTimestamp_text l).1
  unfold atOrAfter earlier
  rw [take_text, decide_eq_true hlength, Bool.true_and]

theorem earlier_iff (ht : Utc beforeTime t) {l : LogLine}
    (hl : l.Canonical) :
    earlier beforeTime l = true ↔ l.instant < t.instant
      ∨ (beforeTime.length < 30 ∧ beforeTime.dropLast <+: l.timestamp) := by
  unfold earlier
  rw [decide_eq_true_eq, hl.1]
  exact Rfc3339.stamp_lt_utc ht hl.2.1 hl.2.2

theorem takeWhile_earlier (beforeTime : Text) (hordered : InOrder log)
    (hcanonical : ∀ l ∈ log, l.Canonical) :
    log.takeWhile (earlier beforeTime)
      = log.filter (earlier beforeTime) := by
  induction log with
  | nil => rfl
  | cons l log ih =>
    obtain ⟨hfirst, hrest⟩ := List.pairwise_cons.mp hordered
    have hl := hcanonical l (List.mem_cons_self ..)
    have htail : ∀ l' ∈ log, l'.Canonical :=
      fun l' hl' => hcanonical l' (List.mem_cons_of_mem _ hl')
    by_cases hearlier : earlier beforeTime l = true
    · rw [List.takeWhile_cons_of_pos hearlier,
        List.filter_cons_of_pos hearlier, ih hrest htail]
    · have hnone : log.filter (earlier beforeTime) = [] := by
        refine List.filter_eq_nil_iff.mpr fun l' hl' hlt => hearlier ?_
        have hle := (timestamp_le_iff hl (htail l' hl')).mpr
          (hfirst l' hl')
        exact decide_eq_true (hle.trans_lt (of_decide_eq_true hlt))
      rw [List.takeWhile_cons_of_neg hearlier,
        List.filter_cons_of_neg hearlier, hnone]

theorem findIdx_earlier (beforeTime : Text) (log : List LogLine) :
    (log.map LogLine.text ++ [[]]).findIdx?
        (atOrAfter (beforeTime.take 30))
      = if log.all (earlier beforeTime) then none
        else some (log.takeWhile (earlier beforeTime)).length := by
  induction log with
  | nil => rfl
  | cons l log ih =>
    rw [List.map_cons, List.cons_append, List.findIdx?_cons,
      atOrAfter_text, ih, List.all_cons]
    cases hearlier : earlier beforeTime l with
    | true =>
      rw [List.takeWhile_cons_of_pos hearlier, Bool.true_and]
      by_cases hall : log.all (earlier beforeTime) = true
      · rw [if_pos hall, if_pos hall]
        rfl
      · rw [if_neg hall, if_neg hall]
        rfl
    | false =>
      rw [List.takeWhile_cons_of_neg (by rw [hearlier]; simp)]
      rfl

-- ======== the page

def shownBefore (log : List LogLine) (beforeTime : Text)
    (lineLimit : Nat) : List LogLine :=
  if log.all (earlier beforeTime) then lastN (lineLimit - 1) log
  else lastN lineLimit (log.takeWhile (earlier beforeTime))

theorem shown_line (timestamps : Bool) (l : LogLine) :
    newline ∉ l.shown timestamps ∧ l.shown timestamps ≠ [] := by
  have hline := newline_notMem_text l
  unfold LogLine.shown dropTimestamp
  split
  · exact ⟨hline, text_ne_nil l⟩
  · split
    next hlength =>
      refine ⟨fun hmem =>
        hline ((List.drop_suffix _ _).subset hmem), fun hnil => ?_⟩
      rw [List.drop_eq_nil_iff] at hnil
      omega
    next => exact ⟨hline, text_ne_nil l⟩

theorem pageBefore_none {lines : List Text} (hpos : 1 ≤ lineLimit)
    (h : lines.findIdx? (atOrAfter (beforeTime.take 30)) = none) :
    pageBefore beforeTime lineLimit lines
      = (lastN lineLimit.toNat lines,
        decide (lineLimit.toNat < lines.length)) := by
  unfold pageBefore lastN
  rw [h]
  dsimp only
  split
  next hmore =>
    have hdrop : ((lines.length : Int) - lineLimit).toNat
        = lines.length - lineLimit.toNat := by omega
    have hsome : lineLimit.toNat < lines.length := by omega
    rw [hdrop, decide_eq_true hsome]
  next hmore =>
    have hdrop : lines.length - lineLimit.toNat = 0 := by omega
    have hnone : ¬ lineLimit.toNat < lines.length := by omega
    rw [hdrop, decide_eq_false hnone]
    rfl

theorem pageBefore_some {lines : List Text} (hpos : 1 ≤ lineLimit)
    {k : Nat}
    (h : lines.findIdx? (atOrAfter (beforeTime.take 30)) = some k) :
    pageBefore beforeTime lineLimit lines
      = (lastN lineLimit.toNat (lines.take k),
        decide (lineLimit.toNat ≤ k)) := by
  have hk : k < lines.length := (List.findIdx?_eq_some_iff_findIdx_eq.mp h).1
  have hlength : (lines.take k).length = k := by
    rw [List.length_take]
    omega
  unfold pageBefore lastN
  rw [h, hlength]
  cases k with
  | zero =>
    have hnone : ¬ lineLimit.toNat ≤ 0 := by omega
    rw [decide_eq_false hnone, List.take_zero, List.drop_nil]
    rfl
  | succ k =>
    show (if ((k + 1 : Nat) : Int) - lineLimit < 0 then _ else _) = _
    by_cases hless : ((k + 1 : Nat) : Int) - lineLimit < 0
    · have hdrop : k + 1 - lineLimit.toNat = 0 := by omega
      have hnone : ¬ lineLimit.toNat ≤ k + 1 := by omega
      rw [if_pos hless, hdrop, decide_eq_false hnone]
      rfl
    · have hdrop : (((k + 1 : Nat) : Int) - lineLimit).toNat
          = k + 1 - lineLimit.toNat := by omega
      have hsome : lineLimit.toNat ≤ k + 1 := by omega
      rw [if_neg hless, hdrop, decide_eq_true hsome]

/-- The page out of a log: its lines, with the empty piece or without. -/
theorem pageBefore_log (beforeTime : Text) (log : List LogLine)
    (hpos : 1 ≤ lineLimit) :
    ∃ blank : List Text, (blank = [] ∨ blank = [[]])
      ∧ pageBefore beforeTime lineLimit (log.map LogLine.text ++ [[]])
        = ((shownBefore log beforeTime lineLimit.toNat).map LogLine.text
            ++ blank,
          decide (lineLimit.toNat
            ≤ (log.takeWhile (earlier beforeTime)).length)) := by
  have hfind := findIdx_earlier beforeTime log
  unfold shownBefore
  by_cases hall : log.all (earlier beforeTime) = true
  · have htake : log.takeWhile (earlier beforeTime) = log :=
      List.takeWhile_eq_self_iff.mpr (List.all_eq_true.mp hall)
    rw [if_pos hall] at hfind ⊢
    refine ⟨[[]], Or.inr rfl, ?_⟩
    have hdrop : (log.map LogLine.text ++ [[]]).length - lineLimit.toNat
        = log.length - (lineLimit.toNat - 1) := by
      rw [List.length_append, List.length_map, List.length_singleton]
      omega
    have hle : log.length - (lineLimit.toNat - 1)
        ≤ (log.map LogLine.text).length := by
      rw [List.length_map]
      omega
    rw [pageBefore_none hpos hfind, htake]
    refine Prod.ext ?_ ?_
    · show List.drop _ _ = _
      rw [hdrop, List.drop_append_of_le_length hle, ← List.map_drop]
      rfl
    · rw [List.length_append, List.length_map, List.length_singleton]
      exact decide_eq_decide.mpr Nat.lt_succ_iff
  · rw [if_neg hall] at hfind ⊢
    refine ⟨[], Or.inl rfl, ?_⟩
    have hprefix := List.takeWhile_prefix (l := log) (earlier beforeTime)
    have htake : (log.map LogLine.text ++ [[]]).take
          (log.takeWhile (earlier beforeTime)).length
        = (log.takeWhile (earlier beforeTime)).map LogLine.text := by
      rw [List.take_append_of_le_length (by
          rw [List.length_map]
          exact hprefix.length_le), ← List.map_take,
        ← List.prefix_iff_eq_take.mp hprefix]
    rw [pageBefore_some hpos hfind, htake, List.append_nil]
    unfold lastN
    rw [List.length_map, List.map_drop]

theorem getPodLogsBefore_eq
    (h : Holds c ns podName containerName previous log)
    (beforeTime : Text) (hpos : 1 ≤ lineLimit) (timestamps : Bool) :
    ∃ text, c.getPodLogsBefore ns podName containerName timestamps previous
          beforeTime lineLimit
        = .ok (text, decide (lineLimit.toNat
            ≤ (log.filter (earlier beforeTime)).length))
      ∧ Scanner.lines text
        = (shownBefore log beforeTime lineLimit.toNat).map
          (LogLine.shown timestamps) := by
  obtain ⟨blank, hblank, hpage⟩ :=
    pageBefore_log beforeTime log hpos
  have hfetch : c.getPodLogsWithOptions ns podName containerName none true
      previous [] = .ok (unlines (log.map LogLine.text)) := by
    have hoptions : logOptions containerName none true previous [] 0
        = { container := containerName, timestamps := true, previous } := rfl
    unfold Client.getPodLogsWithOptions Client.getPodLogsWithOptionsLimit
    rw [h.cluster, h.clientset, hoptions]
    simp only [h.stream, bind, Except.bind]
    rfl
  have hsplit : split (unlines (log.map LogLine.text))
      = log.map LogLine.text ++ [[]] := by
    refine Text.split_unlines fun l hl => ?_
    obtain ⟨l, -, rfl⟩ := List.mem_map.mp hl
    exact newline_notMem_text l
  have hdefault : orDefault lineLimit = lineLimit := if_neg (by omega)
  unfold Client.getPodLogsBefore cutBefore
  simp only [hfetch, hsplit, hdefault, hpage, bind, Except.bind]
  rw [takeWhile_earlier beforeTime h.ordered h.canonical]
  refine ⟨_, rfl, ?_⟩
  have hshown : (if timestamps = true
        then (shownBefore log beforeTime lineLimit.toNat).map LogLine.text
          ++ blank
        else ((shownBefore log beforeTime lineLimit.toNat).map LogLine.text
          ++ blank).map dropTimestamp)
      = (shownBefore log beforeTime lineLimit.toNat).map
          (LogLine.shown timestamps) ++ blank := by
    have hsame : blank.map dropTimestamp = blank := by
      rcases hblank with rfl | rfl
      · rfl
      · rfl
    cases timestamps with
    | true => rfl
    | false =>
      rw [if_neg Bool.false_ne_true, List.map_append, List.map_map, hsame]
      rfl
  have hline : ∀ l ∈ (shownBefore log beforeTime lineLimit.toNat).map
      (LogLine.shown timestamps), newline ∉ l ∧ l ≠ [] := by
    intro l hl
    obtain ⟨l, -, rfl⟩ := List.mem_map.mp hl
    exact shown_line timestamps l
  rw [hshown]
  rcases hblank with rfl | rfl
  · rw [List.append_nil, Scanner.lines_join hline]
  · exact Scanner.lines_join_blank fun l hl => (hline l hl).1

-- ======== the right page

theorem text_injective : Function.Injective LogLine.text := by
  intro l l' h
  have htimestamp : l.timestamp = l'.timestamp := by
    rw [← take_text l, h, take_text l']
  have hcontent : l.content = l'.content := by
    unfold LogLine.text at h
    rw [htimestamp] at h
    exact (List.cons_inj_right _).mp (List.append_cancel_left h)
  have htime : l.time = l'.time := by
    have hreads := l.cursor.reads
    rw [htimestamp, l'.cursor.reads] at hreads
    exact (Option.some.inj hreads).symm
  cases l
  cases l'
  cases htimestamp
  cases hcontent
  cases htime
  rfl

theorem InOrder.le_getLast (h : InOrder log) {l last : LogLine}
    (hl : l ∈ log) (hlast : log.getLast? = some last) :
    l.instant ≤ last.instant := by
  obtain ⟨init, rfl⟩ := List.getLast?_eq_some_iff.mp hlast
  rcases List.mem_append.mp hl with hl | hl
  · exact (List.pairwise_append.mp h).2.2 l hl last
      (List.mem_singleton_self last)
  · rw [List.mem_singleton.mp hl]

/-- The answer is right if the page that is shown is the one that is
meant and holds so many lines only if there are more. -/
theorem pagesBackward_iff
    (h : Holds c ns podName containerName previous log)
    (hpos : 1 ≤ lineLimit) (instant : Int) :
    PagesBackward c ns podName containerName previous beforeTime lineLimit
        log instant
      ↔ shownBefore log beforeTime lineLimit.toNat
          = lastN lineLimit.toNat (linesBefore log instant)
        ∧ (lineLimit.toNat ≤ (log.filter (earlier beforeTime)).length
          ↔ lineLimit.toNat < (linesBefore log instant).length) := by
  constructor
  · intro hpages
    obtain ⟨text, more, hcall, hlines, hmore⟩ := hpages true
    obtain ⟨text', hcall', hlines'⟩ :=
      getPodLogsBefore_eq h beforeTime hpos true
    cases hcall.symm.trans hcall'
    rw [decide_eq_true_eq] at hmore
    refine ⟨?_, hmore⟩
    exact List.map_injective_iff.mpr text_injective
      (hlines'.symm.trans hlines)
  · rintro ⟨hshown, hmore⟩ timestamps
    obtain ⟨text, hcall, hlines⟩ :=
      getPodLogsBefore_eq h beforeTime hpos timestamps
    refine ⟨text, _, hcall, ?_, ?_⟩
    · rw [hlines, hshown]
    · rw [decide_eq_true_eq]
      exact hmore

theorem getLast_lastN {n : Nat} (hpos : 1 ≤ n) (lines : List LogLine) :
    (lastN n lines).getLast? = lines.getLast? := by
  unfold lastN
  rw [List.getLast?_drop]
  split
  next hle =>
    have hnil : lines.length = 0 := by omega
    rw [List.length_eq_zero_iff.mp hnil]
    rfl
  next => rfl

/-- The lines that are later than they look are at the end of the page, so
a page that is right has none. -/
theorem apart_of_right (ht : Utc beforeTime t) (hordered : InOrder log)
    (hcanonical : ∀ l ∈ log, l.Canonical) {n : Nat} (hpos : 1 ≤ n)
    (hshown : shownBefore log beforeTime n
      = lastN n (linesBefore log t.instant))
    (hmore : n ≤ (log.filter (earlier beforeTime)).length
      ↔ n < (linesBefore log t.instant).length)
    (hshort : beforeTime.length < 30) {l : LogLine} (hl : l ∈ log)
    (hlate : t.instant ≤ l.instant) :
    ¬ beforeTime.dropLast <+: l.timestamp := by
  intro htie
  have hmem : l ∈ log.filter (earlier beforeTime) :=
    List.mem_filter.mpr
      ⟨hl, (earlier_iff ht (hcanonical l hl)).mpr (Or.inr ⟨hshort, htie⟩)⟩
  obtain ⟨last, hlast⟩ := Option.isSome_iff_exists.mp
    (List.getLast?_isSome.mpr (List.ne_nil_of_mem hmem))
  have hle : l.instant ≤ last.instant :=
    InOrder.le_getLast (List.Pairwise.filter _ hordered) hmem hlast
  -- The last line is not among those that are meant.
  have hnot : last ∉ lastN n (linesBefore log t.instant) := by
    intro h
    have hlt := of_decide_eq_true
      (List.mem_filter.mp (List.mem_of_mem_drop h)).2
    omega
  rw [← hshown] at hnot
  unfold shownBefore at hnot hshown
  rw [takeWhile_earlier beforeTime hordered hcanonical] at hnot hshown
  by_cases hall : log.all (earlier beforeTime) = true
  · have hfilter : log.filter (earlier beforeTime) = log :=
      List.filter_eq_self.mpr (List.all_eq_true.mp hall)
    rw [if_pos hall] at hnot hshown
    by_cases hone : n = 1
    · -- No line is shown, and one would be if there were more.
      subst hone
      have hlength := congrArg List.length hshown
      unfold lastN at hlength
      rw [List.length_drop, List.length_drop] at hlength
      have hpos := List.length_pos_of_mem hmem
      omega
    · rw [hfilter] at hlast
      have hlast' := (getLast_lastN (n := n - 1) (by omega) log).trans hlast
      exact hnot (List.mem_of_getLast? hlast')
  · rw [if_neg hall] at hnot
    exact hnot (List.mem_of_getLast?
      ((getLast_lastN hpos _).trans hlast))

/-- A page backward is right exactly if the log is clear of what misleads
the loop and the flag. -/
theorem pages_backward_iff
    (h : Holds c ns podName containerName previous log)
    (ht : Utc beforeTime t) (hpos : 1 ≤ lineLimit) :
    PagesBackward c ns podName containerName previous beforeTime lineLimit
        log t.instant
      ↔ Clear log beforeTime t.instant lineLimit.toNat := by
  have hn : 1 ≤ lineLimit.toNat := by omega
  rw [pagesBackward_iff h hpos]
  generalize lineLimit.toNat = n at hn ⊢
  -- Is no line later than it looks, the lines are the earlier ones.
  have hsame : (beforeTime.length < 30 → ∀ l ∈ log, t.instant ≤ l.instant →
        ¬ beforeTime.dropLast <+: l.timestamp) →
      log.filter (earlier beforeTime) = linesBefore log t.instant := by
    intro hapart
    refine List.filter_congr fun l hl => ?_
    rw [Bool.eq_iff_iff, earlier_iff ht (h.canonical l hl),
      decide_eq_true_eq]
    refine ⟨fun hearlier => ?_, Or.inl⟩
    rcases hearlier with hlt | ⟨hshort, htie⟩
    · exact hlt
    · by_contra hlate
      exact hapart hshort l hl (not_lt.mp hlate) htie
  constructor
  · rintro ⟨hshown, hmore⟩
    have hapart : beforeTime.length < 30 → ∀ l ∈ log,
        t.instant ≤ l.instant → ¬ beforeTime.dropLast <+: l.timestamp :=
      fun hshort l hl hlate => apart_of_right ht h.ordered h.canonical hn
        hshown hmore hshort hl hlate
    rw [hsame hapart] at hmore
    refine ⟨hapart, fun hall => ?_, fun _ heq => ?_⟩
    · have hbefore : linesBefore log t.instant = log :=
        List.filter_eq_self.mpr fun l hl => decide_eq_true (hall l hl)
      have hearlier : log.all (earlier beforeTime) = true :=
        List.all_eq_true.mpr fun l hl =>
          (earlier_iff ht (h.canonical l hl)).mpr (Or.inl (hall l hl))
      unfold shownBefore at hshown
      rw [if_pos hearlier, hbefore] at hshown
      have hlength := congrArg List.length hshown
      unfold lastN at hlength
      rw [List.length_drop, List.length_drop] at hlength
      omega
    · omega
  · intro hclear
    have hfilter := hsame hclear.apart
    unfold shownBefore
    rw [takeWhile_earlier beforeTime h.ordered h.canonical, hfilter]
    by_cases hall : log.all (earlier beforeTime) = true
    · have hbefore : linesBefore log t.instant = log := by
        rw [← hfilter]
        exact List.filter_eq_self.mpr (List.all_eq_true.mp hall)
      have hroom := hclear.room fun l hl => by
        rw [← hbefore] at hl
        exact of_decide_eq_true (List.mem_filter.mp hl).2
      rw [if_pos hall, hbefore]
      refine ⟨?_, by omega⟩
      unfold lastN
      congr 1
      omega
    · obtain ⟨l, hl, hlate⟩ : ∃ l ∈ log, t.instant ≤ l.instant := by
        by_contra hnone
        apply hall
        refine List.all_eq_true.mpr fun l hl =>
          (earlier_iff ht (h.canonical l hl)).mpr (Or.inl ?_)
        by_contra hlate
        exact hnone ⟨l, hl, not_lt.mp hlate⟩
      have huneven := hclear.uneven ⟨l, hl, hlate⟩
      rw [if_neg hall]
      exact ⟨rfl, by omega⟩

theorem crowded_holds : Holds (serving crowded) [] [] [] false crowded where
  cluster := rfl
  clientset := rfl
  ordered := by
    unfold InOrder
    decide
  canonical := by
    intro l hl
    simp only [crowded, List.mem_cons, List.not_mem_nil, or_false] at hl
    rcases hl with rfl | rfl | rfl
    all_goals exact ⟨rfl, by decide, rfl⟩
  stream := rfl

theorem sample_utc : Utc (Rfc3339.format (sample 3)) (sample 3) :=
  Rfc3339.utc_format (by decide) rfl

/-- One line before the third. -/
theorem pages_backward_crowded :
    PagesBackward (serving crowded) [] [] [] false
        (Rfc3339.format (sample 3)) 1 crowded (sample 3).instant
      ↔ Clear crowded (Rfc3339.format (sample 3)) (sample 3).instant 1 :=
  pages_backward_iff crowded_holds sample_utc (by decide)

/-- Two lines before it are all there are, and it is said that there are
more. -/
theorem exact_fit_says_more :
    ¬ ∀ (c : Client) (ns podName containerName : Text) (previous : Bool)
        (log : List LogLine) (beforeTime : Text) (t : Time)
        (lineLimit : Int),
      Holds c ns podName containerName previous log → Utc beforeTime t
        → 1 ≤ lineLimit
        → PagesBackward c ns podName containerName previous beforeTime
          lineLimit log t.instant := by
  intro h
  have hpages := h (serving crowded) [] [] [] false crowded
    (Rfc3339.format (sample 3)) (sample 3) 2 crowded_holds sample_utc
    (by decide)
  obtain ⟨text, more, hcall, -, hmore⟩ := hpages true
  have hanswer : ((serving crowded).getPodLogsBefore [] [] [] true false
      (Rfc3339.format (sample 3)) 2).toOption.map (·.2) = some true := by
    decide
  rw [hcall] at hanswer
  have htrue : more = true := Option.some.inj hanswer
  revert hmore
  rw [htrue]
  decide

end PodLog
