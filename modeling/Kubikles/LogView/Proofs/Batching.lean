/-
How the stream is cut into single lines and batches, and what is shown.

# The argument

What is shown of a piece depends on the last timestamp that is shown
before it. Cut in two, a stream shows that timestamp behind any of its
lines (`cut_fresh`). So every cut shows the lines that are new, exactly
if those are the ones behind the last timestamp of the initial entries,
and every line of them is behind each line before it
(`batching_iff`).
-/
import Kubikles.LogView.Stream
import Mathlib.Data.List.Induction

namespace StreamHook

open LogView

-- ======== pieces

/-- A piece of a stream: a single line or a batch. -/
inductive Piece where
  | single (line : String)
  | batch (lines : List String)
  deriving DecidableEq

def Piece.lines : Piece → List String
  | .single line => [line]
  | .batch lines => lines

def Piece.event (streamId : Nat) : Piece → Event
  | .single line => .logStream { streamId, line }
  | .batch lines => .logStreamBatch { streamId, lines }

def entriesOf (lines : List String) : List LogEntry :=
  lines.flatMap fun line => parseLogLines line .stream

def shown (streamId : Nat) (hook : Hook) (pieces : List Piece) :
    List LogEntry :=
  (pieces.foldl (fun hook p => Sys.handle hook (p.event streamId))
    hook).logs

theorem handle_logs (hook : Hook) (streamId : Nat) (p : Piece) :
    (Sys.handle hook (p.event streamId)).logs
      = hook.logs
        ++ newerThan (lastTimestamp hook.logs) (entriesOf p.lines) := by
  cases p with
  | single line =>
    show (Sys.processEntries (parseLogLines line .stream) hook).logs = _
    unfold Sys.processEntries entriesOf Piece.lines
    rw [List.flatMap_singleton]
  | batch lines => rfl

def Fresh (initial : List LogEntry) (e : LogEntry) : Prop :=
  ∀ e' ∈ initial, ¬SameKey e' e

instance freshDecidable (initial : List LogEntry) (e : LogEntry) :
    Decidable (Fresh initial e) :=
  inferInstanceAs (Decidable (∀ e' ∈ initial, ¬SameKey e' e))

/-- The entries of lines that are not among the initial ones. -/
def freshOf (initial : List LogEntry) (lines : List String) :
    List LogEntry :=
  (entriesOf lines).filter (Fresh initial)

/-- However the lines are cut into pieces, the initial entries are shown,
and behind them the new ones in their order. -/
def CutsAgree (streamId : Nat) (hook : Hook) (lines : List String) :
    Prop :=
  ∀ pieces : List Piece, pieces.flatMap Piece.lines = lines →
    shown streamId hook pieces = hook.logs ++ freshOf hook.logs lines

-- ======== timestamps

def Kept (lastTs : String) (e : LogEntry) : Prop :=
  lastTs = "" ∨ e.timestamp = "" ∨ lastTs < e.timestamp

theorem mem_newerThan {lastTs : String} {es : List LogEntry}
    {e : LogEntry} : e ∈ newerThan lastTs es ↔ e ∈ es ∧ Kept lastTs e := by
  unfold newerThan Kept
  by_cases h : lastTs = ""
  · simp [h]
  · simp [h]

theorem newerThan_eq_filter_iff {lastTs : String} {es : List LogEntry}
    {p : LogEntry → Prop} [DecidablePred p] :
    newerThan lastTs es = es.filter p ↔ ∀ e ∈ es, Kept lastTs e ↔ p e := by
  constructor
  · intro h e he
    have hmem := @mem_newerThan lastTs es e
    rw [h, List.mem_filter, decide_eq_true_eq] at hmem
    exact (and_congr_right_iff.mp hmem he).symm
  · intro h
    unfold newerThan
    by_cases hlast : lastTs = ""
    · rw [if_pos hlast]
      refine (List.filter_eq_self.mpr fun e he => ?_).symm
      exact decide_eq_true ((h e he).mp (.inl hlast))
    · rw [if_neg hlast]
      refine List.filter_congr fun e he => ?_
      rw [decide_eq_decide, ← h e he]
      exact (or_iff_right hlast).symm

theorem firstTimestamp_append (es es' : List LogEntry) :
    firstTimestamp (es ++ es')
      = if firstTimestamp es = "" then firstTimestamp es'
        else firstTimestamp es := by
  unfold firstTimestamp
  rw [List.find?_append]
  cases hfind : es.find? fun e => e.timestamp ≠ "" with
  | none => simp
  | some e =>
    have hne := List.find?_some hfind
    simp at hne
    simp [hne]

theorem lastTimestamp_append (es es' : List LogEntry) :
    lastTimestamp (es ++ es')
      = if lastTimestamp es' = "" then lastTimestamp es
        else lastTimestamp es' := by
  unfold lastTimestamp
  rw [List.reverse_append, firstTimestamp_append]

theorem exists_lastTimestamp {es : List LogEntry}
    (h : lastTimestamp es ≠ "") :
    ∃ e ∈ es, e.timestamp = lastTimestamp es := by
  unfold lastTimestamp firstTimestamp at h ⊢
  cases hfind : es.reverse.find? fun e => e.timestamp ≠ "" with
  | none =>
    rw [hfind] at h
    exact absurd rfl h
  | some e =>
    exact ⟨e, List.mem_reverse.mp (List.mem_of_find?_eq_some hfind), rfl⟩

-- ======== new entries

@[simp] theorem entriesOf_append (ls ls' : List String) :
    entriesOf (ls ++ ls') = entriesOf ls ++ entriesOf ls' :=
  List.flatMap_append

@[simp] theorem freshOf_nil (initial : List LogEntry) :
    freshOf initial [] = [] := rfl

@[simp] theorem freshOf_append (initial : List LogEntry)
    (ls ls' : List String) :
    freshOf initial (ls ++ ls')
      = freshOf initial ls ++ freshOf initial ls' := by
  unfold freshOf
  rw [entriesOf_append, List.filter_append]

theorem mem_freshOf {initial : List LogEntry} {lines : List String}
    {e : LogEntry} :
    e ∈ freshOf initial lines ↔ e ∈ entriesOf lines ∧ Fresh initial e := by
  unfold freshOf
  rw [List.mem_filter, decide_eq_true_eq]

theorem mem_freshOf_line {initial : List LogEntry} {lines : List String}
    {e : LogEntry} (h : e ∈ freshOf initial lines) :
    ∃ l ∈ lines, e ∈ freshOf initial [l] := by
  obtain ⟨he, hfresh⟩ := mem_freshOf.mp h
  obtain ⟨l, hl, hel⟩ := List.mem_flatMap.mp he
  refine ⟨l, hl, mem_freshOf.mpr ⟨?_, hfresh⟩⟩
  exact List.mem_flatMap.mpr ⟨l, List.mem_singleton.mpr rfl, hel⟩

theorem exists_line {initial : List LogEntry} {lines : List String}
    (h : lastTimestamp (freshOf initial lines) ≠ "") :
    ∃ l ∈ lines, lastTimestamp (freshOf initial [l])
      = lastTimestamp (freshOf initial lines) := by
  induction lines with
  | nil => exact absurd rfl h
  | cons l ls ih =>
    have happ : freshOf initial (l :: ls)
        = freshOf initial [l] ++ freshOf initial ls :=
      freshOf_append initial [l] ls
    rw [happ, lastTimestamp_append] at h ⊢
    by_cases hlast : lastTimestamp (freshOf initial ls) = ""
    · rw [if_pos hlast]
      exact ⟨l, List.mem_cons_self, rfl⟩
    · rw [if_neg hlast]
      obtain ⟨l', hl', heq⟩ := ih hlast
      exact ⟨l', List.mem_cons_of_mem l hl', heq⟩

-- ======== the condition

/-- The new entries are those behind the last timestamp of the initial
ones, and those of a line are behind the ones of each line before it. -/
structure Steady (initial : List LogEntry) (lines : List String) :
    Prop where
  behind : ∀ e ∈ entriesOf lines,
    Kept (lastTimestamp initial) e ↔ Fresh initial e
  rising : lines.Pairwise fun l l' =>
    ∀ e ∈ freshOf initial [l'], Kept (lastTimestamp (freshOf initial [l])) e

theorem Steady.left {initial : List LogEntry} {ls ls' : List String}
    (h : Steady initial (ls ++ ls')) : Steady initial ls where
  behind e he := h.behind e (by
    rw [entriesOf_append]
    exact List.mem_append_left _ he)
  rising := (List.pairwise_append.mp h.rising).1

/-- Behind lines of a steady stream its new entries are what is kept. -/
theorem Steady.kept_iff {initial : List LogEntry} {pre post : List String}
    (h : Steady initial (pre ++ post)) (e : LogEntry)
    (he : e ∈ entriesOf post) :
    Kept (lastTimestamp (initial ++ freshOf initial pre)) e
      ↔ Fresh initial e := by
  have hbehind : Kept (lastTimestamp initial) e ↔ Fresh initial e := by
    apply h.behind
    rw [entriesOf_append]
    exact List.mem_append_right _ he
  rw [lastTimestamp_append]
  by_cases hlast : lastTimestamp (freshOf initial pre) = ""
  · rw [if_pos hlast]
    exact hbehind
  · rw [if_neg hlast]
    constructor
    · intro hkept
      apply hbehind.mp
      -- The last timestamp is that of a new entry, which is behind the
      -- initial ones.
      obtain ⟨e', he', hts⟩ := exists_lastTimestamp hlast
      have hkept' : Kept (lastTimestamp initial) e' :=
        (h.left.behind e' (mem_freshOf.mp he').1).mpr (mem_freshOf.mp he').2
      unfold Kept at hkept hkept' ⊢
      rw [hts] at hkept'
      rcases hkept with hempty | huntimed | hlt
      · exact absurd hempty hlast
      · exact .inr (.inl huntimed)
      · rcases hkept' with hnone | hempty | hlt'
        · exact .inl hnone
        · exact absurd hempty hlast
        · exact .inr (.inr (lt_trans hlt' hlt))
    · intro hfresh
      obtain ⟨l, hl, heq⟩ := exists_line hlast
      obtain ⟨l', hl', hel'⟩ :=
        mem_freshOf_line (mem_freshOf.mpr ⟨he, hfresh⟩)
      rw [← heq]
      exact (List.pairwise_append.mp h.rising).2.2 l hl l' hl' e hel'

-- ======== the cuts

theorem Steady.shown_eq {initial : List LogEntry} {streamId : Nat}
    {pieces : List Piece} {pre : List String} {hook : Hook}
    (h : Steady initial (pre ++ pieces.flatMap Piece.lines))
    (hlogs : hook.logs = initial ++ freshOf initial pre) :
    shown streamId hook pieces
      = initial ++ freshOf initial (pre ++ pieces.flatMap Piece.lines) := by
  induction pieces generalizing pre hook with
  | nil =>
    show hook.logs = _
    rw [hlogs, List.flatMap_nil, List.append_nil]
  | cons p pieces ih =>
    rw [List.flatMap_cons, ← List.append_assoc] at h ⊢
    apply ih h
    rw [handle_logs, hlogs, freshOf_append, ← List.append_assoc]
    congr 1
    apply newerThan_eq_filter_iff.mpr
    exact h.left.kept_iff

/-- If all cuts agree, what is kept behind any of the lines is what is
new. -/
theorem CutsAgree.kept_iff {streamId : Nat} {hook : Hook}
    {pre post : List String} (h : CutsAgree streamId hook (pre ++ post))
    (e : LogEntry) (he : e ∈ entriesOf post) :
    Kept (lastTimestamp (hook.logs ++ freshOf hook.logs pre)) e
      ↔ Fresh hook.logs e := by
  have hwhole : newerThan (lastTimestamp hook.logs)
      (entriesOf (pre ++ post)) = freshOf hook.logs (pre ++ post) := by
    have hcut := h [.batch (pre ++ post)] (List.append_nil _)
    unfold shown at hcut
    rw [List.foldl_cons, List.foldl_nil, handle_logs] at hcut
    exact List.append_cancel_left hcut
  have hpre : newerThan (lastTimestamp hook.logs) (entriesOf pre)
      = freshOf hook.logs pre := by
    apply newerThan_eq_filter_iff.mpr
    intro e' he'
    apply newerThan_eq_filter_iff.mp hwhole
    rw [entriesOf_append]
    exact List.mem_append_left _ he'
  have hcut := h [.batch pre, .batch post] (by simp [Piece.lines])
  unfold shown at hcut
  rw [List.foldl_cons, List.foldl_cons, List.foldl_nil, handle_logs,
    handle_logs] at hcut
  simp only [Piece.lines] at hcut
  rw [hpre, freshOf_append, ← List.append_assoc] at hcut
  exact newerThan_eq_filter_iff.mp (List.append_cancel_left hcut) e he

theorem pairwise_of_cuts {α : Type} {R : α → α → Prop} (xs : List α)
    (h : ∀ pre x post, xs = pre ++ x :: post → ∀ y ∈ post, R x y) :
    xs.Pairwise R := by
  induction xs with
  | nil => exact .nil
  | cons x xs ih =>
    refine .cons (h [] x xs rfl) (ih fun pre y post heq => ?_)
    exact h (x :: pre) y post (congrArg (x :: ·) heq)

theorem CutsAgree.steady {streamId : Nat} {hook : Hook}
    {lines : List String} (h : CutsAgree streamId hook lines) :
    Steady hook.logs lines := by
  constructor
  · intro e he
    have hkept := @CutsAgree.kept_iff _ _ [] _ h e he
    rw [freshOf_nil, List.append_nil] at hkept
    exact hkept
  · apply pairwise_of_cuts
    intro pre l post heq l' hl' e he
    by_cases hlast : lastTimestamp (freshOf hook.logs [l]) = ""
    · exact .inl hlast
    · have hcut : CutsAgree streamId hook ((pre ++ [l]) ++ post) := by
        rw [List.append_assoc]
        exact heq ▸ h
      obtain ⟨hentry, hfresh⟩ := mem_freshOf.mp he
      have hpost : e ∈ entriesOf post := by
        obtain ⟨l'', hl'', hel''⟩ := List.mem_flatMap.mp hentry
        obtain rfl := List.mem_singleton.mp hl''
        exact List.mem_flatMap.mpr ⟨l'', hl', hel''⟩
      have hkept := (hcut.kept_iff e hpost).mpr hfresh
      rw [freshOf_append, ← List.append_assoc, lastTimestamp_append,
        if_neg hlast] at hkept
      exact hkept

/-- Every cut of a stream into lines and batches shows what is new of
it, exactly if the stream is steady. -/
theorem batching_iff (streamId : Nat) (hook : Hook)
    (lines : List String) :
    CutsAgree streamId hook lines ↔ Steady hook.logs lines := by
  constructor
  · exact CutsAgree.steady
  · intro h pieces hpieces
    rw [← hpieces] at h ⊢
    apply @Steady.shown_eq _ _ _ [] _ h
    rw [freshOf_nil, List.append_nil]

/-- Two lines of one timestamp are both shown of a batch. Sent singly,
the second is not behind the first. -/
theorem same_timestamp_dropped :
    ¬∀ (streamId : Nat) (hook : Hook) (lines : List String),
      CutsAgree streamId hook lines := by
  intro h
  have hcut := h 1 { streamIdRef := some 1 }
    ["2024-01-01T00:00:00.1Z a", "2024-01-01T00:00:00.1Z b"]
    [.single "2024-01-01T00:00:00.1Z a",
      .single "2024-01-01T00:00:00.1Z b"] rfl
  revert hcut
  decide

end StreamHook
