/-
Merged streaming: who can wait for whom, and what reaches the caller.

# The argument

Every step but a tick uses something up (`weight`), so a call can only
fail to end by getting stuck. Looking at who waits: the consumer waits
for a line or for the close of `lineChan`, that close waits for the
producers, and a producer waits for room, in `lineChan`, which the
consumer makes, or in `errChan`, which nobody makes before `lineChan` is
closed. So all errors have to fit into `errChan` at once, and then
nobody is stuck (`progress`). If they do not fit, `lineChan` is never
closed (`Consistent.closed_fits`), and the call cannot return.

Order is a matter of the buffer. A flush sorts it by timestamp, and the
lines of one stream are in that order already, so for each stream the
buffer, `lineChan` and what its producer has left are a queue
(`pendingOf`).
-/
import Kubikles.PodLog.MergedStream

namespace PodLog

open Machine
open StableSort (Ordered)

-- ======== the statement

def Behaviour.fails (b : Behaviour) : Bool :=
  match b.ending with
  | some (.other _) => true
  | _ => false

def StreamConfig.errors (cfg : StreamConfig) : Nat :=
  (List.range cfg.streams.length).countP fun i => (cfg.behaviour i).fails

/-- No line of a stream has a timestamp before that of the line above
it. -/
def StreamConfig.Ordered (cfg : StreamConfig) : Prop :=
  ∀ i < cfg.streams.length,
    StableSort.Ordered (fun line : Text => (splitTimestamp line).1)
      (cfg.behaviour i).lines

def StreamOut.lineOf (i : Nat) : StreamOut → List Text
  | .onLine stream line => if stream = i then [line] else []
  | .returned _ => []

/-- The lines of one stream that were passed to `onLine`. -/
def linesOf (i : Nat) (out : List StreamOut) : List Text :=
  out.flatMap (StreamOut.lineOf i)

def StreamAct.works (act : StreamAct) : Bool := act ≠ .tick

/-- Until all goroutines have ended one of them has a step to take, of
which there are only so many; and then each stream has been passed on,
line by line. -/
structure StreamConfig.Completes (cfg : StreamConfig) : Prop where
  progress : ∀ {acts s out}, run cfg.step cfg.init acts = some (s, out) →
    s.Finished ∨ ∃ act, act.works = true ∧ (cfg.step act s).isSome
  bounded : ∃ bound, ∀ {acts s out},
    run cfg.step cfg.init acts = some (s, out) →
      acts.countP StreamAct.works ≤ bound
  exact : ∀ {acts s out}, run cfg.step cfg.init acts = some (s, out) →
    s.Finished → ∀ i < cfg.streams.length,
      linesOf i out = (cfg.behaviour i).lines.map fun line =>
        cfg.emitted (cfg.streamLine i line)

-- ======== the steps

inductive Moved (cfg : StreamConfig) (s : MergedStream) :
    StreamAct → MergedStream → List StreamOut → Prop where
  | send {i line lines ending}
      (h : s.producers[i]? = some (.streaming (line :: lines) ending))
      (hroom : s.lineChan.length < lineCapacity) :
      Moved cfg s (.send i)
        { s with producers := s.producers.set i (.streaming lines ending)
                 lineChan := s.lineChan ++ [cfg.streamLine i line] } []
  | streamEnds {i ending}
      (h : s.producers[i]? = some (.streaming [] ending)) :
      Moved cfg s (.streamEnds i)
        { s with producers := s.producers.set i (afterStream ending) } []
  | report {i err} (h : s.producers[i]? = some (.reporting err))
      (hroom : s.errChan.length < cfg.errCapacity) :
      Moved cfg s (.report i)
        { s with producers := s.producers.set i .done
                 errChan := s.errChan ++ [err] } []
  | closeLines (hopen : s.lineClosed = false)
      (hdone : ∀ p ∈ s.producers, p = .done) :
      Moved cfg s .closeLines { s with lineClosed := true } []
  | closeErrs (hclosed : s.lineClosed = true)
      (hopen : s.errClosed = false) :
      Moved cfg s .closeErrs { s with errClosed := true } []
  | receive {line lines} (hconsumer : s.consumer = .selecting)
      (hchan : s.lineChan = line :: lines) :
      Moved cfg s .receive
        { s with lineChan := lines, buffer := s.buffer ++ [line] } []
  | receiveClosed (hconsumer : s.consumer = .selecting)
      (hchan : s.lineChan = []) (hclosed : s.lineClosed = true) :
      Moved cfg s .receiveClosed
        { s with buffer := [], consumer := .draining }
        (cfg.flushBuffer s).2
  | tick (hconsumer : s.consumer = .selecting) :
      Moved cfg s .tick { s with buffer := [] } (cfg.flushBuffer s).2
  | drain {err errs} (hconsumer : s.consumer = .draining)
      (hchan : s.errChan = err :: errs) :
      Moved cfg s .drain { s with errChan := errs, consumer := .returned }
        [.returned (some err)]
  | drainClosed (hconsumer : s.consumer = .draining)
      (hchan : s.errChan = []) (hclosed : s.errClosed = true) :
      Moved cfg s .drain { s with consumer := .returned } [.returned none]

variable {cfg : StreamConfig} {s s' : MergedStream} {act : StreamAct}
variable {out : List StreamOut}

theorem step_moved (h : cfg.step act s = some (s', out)) :
    Moved cfg s act s' out := by
  unfold StreamConfig.step at h
  split at h
  next i =>
    split at h
    next line lines ending hp =>
      split at h
      next hroom =>
        cases h
        exact .send hp hroom
      next => cases h
    next => cases h
  next i =>
    split at h
    next ending hp =>
      cases h
      exact .streamEnds hp
    next => cases h
  next i =>
    split at h
    next err hp =>
      split at h
      next hroom =>
        cases h
        exact .report hp hroom
      next => cases h
    next => cases h
  next =>
    split at h
    next hclose =>
      cases h
      exact .closeLines hclose.1 hclose.2
    next => cases h
  next =>
    split at h
    next hclose =>
      cases h
      exact .closeErrs hclose.1 hclose.2
    next => cases h
  next =>
    split at h
    next line lines hconsumer hchan =>
      cases h
      exact .receive hconsumer hchan
    next => cases h
  next =>
    split at h
    next hconsumer hchan hclosed =>
      cases h
      exact .receiveClosed hconsumer hchan hclosed
    next => cases h
  next =>
    split at h
    next hconsumer =>
      cases h
      exact .tick hconsumer
    next => cases h
  next =>
    split at h
    next err errs hconsumer hchan =>
      cases h
      exact .drain hconsumer hchan
    next hconsumer hchan =>
      split at h
      next hclosed =>
        cases h
        exact .drainClosed hconsumer hchan hclosed
      next => cases h
    next => cases h

-- ======== termination

theorem sum_map_set {α : Type} (w : α → Nat) {l : List α} {i : Nat}
    {a : α} (b : α) (h : l[i]? = some a) :
    ((l.set i b).map w).sum + w a = (l.map w).sum + w b := by
  induction l generalizing i with
  | nil => cases h
  | cons c l ih =>
    cases i with
    | zero =>
      rw [List.getElem?_cons_zero, Option.some.injEq] at h
      subst h
      simp only [List.set_cons_zero, List.map_cons, List.sum_cons]
      omega
    | succ i =>
      rw [List.getElem?_cons_succ] at h
      have := ih h
      simp only [List.set_cons_succ, List.map_cons, List.sum_cons]
      omega

/-- The steps a producer has before it, those of its lines to the buffer
included. -/
def Producer.weight : Producer → Nat
  | .streaming lines _ => 2 * lines.length + 2
  | .reporting _ => 1
  | .done => 0

def Consumer.weight : Consumer → Nat
  | .selecting => 2
  | .draining => 1
  | .returned => 0

def MergedStream.weight (s : MergedStream) : Nat :=
  (s.producers.map Producer.weight).sum + s.lineChan.length
    + (if s.lineClosed then 0 else 1) + (if s.errClosed then 0 else 1)
    + s.consumer.weight

/-- A step that is not a tick uses one up. -/
theorem step_weight (h : cfg.step act s = some (s', out)) :
    (if act.works then 1 else 0) + s'.weight ≤ s.weight := by
  have hone : (if act.works then 1 else 0) ≤ 1 := by split <;> omega
  cases step_moved h with
  | @send i line lines ending hp hroom =>
    have := sum_map_set Producer.weight (.streaming lines ending) hp
    simp only [Producer.weight, List.length_cons] at this
    simp only [MergedStream.weight, List.length_append,
      List.length_singleton]
    omega
  | @streamEnds i ending hp =>
    have := sum_map_set Producer.weight (afterStream ending) hp
    have hweight : (afterStream ending).weight ≤ 1 := by
      unfold afterStream
      split <;> simp [Producer.weight]
    have hended : (Producer.streaming [] ending).weight = 2 := rfl
    simp only [MergedStream.weight]
    omega
  | @report i err hp hroom =>
    have := sum_map_set Producer.weight .done hp
    simp only [Producer.weight] at this
    simp only [MergedStream.weight]
    omega
  | closeLines hopen hdone =>
    simp only [MergedStream.weight, hopen, if_true, Bool.false_eq_true,
      if_false]
    omega
  | closeErrs hclosed hopen =>
    simp only [MergedStream.weight, hopen, if_true, Bool.false_eq_true,
      if_false]
    omega
  | receive hconsumer hchan =>
    simp only [MergedStream.weight, hchan, List.length_cons]
    omega
  | receiveClosed hconsumer hchan hclosed =>
    simp only [MergedStream.weight, hconsumer, Consumer.weight]
    omega
  | tick hconsumer =>
    simp [StreamAct.works, MergedStream.weight]
  | drain hconsumer hchan =>
    simp only [MergedStream.weight, hconsumer, Consumer.weight]
    omega
  | drainClosed hconsumer hchan hclosed =>
    simp only [MergedStream.weight, hconsumer, Consumer.weight]
    omega

-- ======== who waits

def Producer.owes : Producer → Bool
  | .streaming _ (some (.other _)) => true
  | .reporting _ => true
  | _ => false

def MergedStream.owed (s : MergedStream) : Nat :=
  s.producers.countP Producer.owes

/-- What the channels say about the goroutines. -/
structure Consistent (cfg : StreamConfig) (s : MergedStream) : Prop where
  done : s.lineClosed = true → ∀ p ∈ s.producers, p = .done
  closed : s.errClosed = true → s.lineClosed = true
  consumer : s.consumer ≠ .selecting → s.lineClosed = true
  /-- Before the consumer looks at `errChan`, every error is in it or
  owed. -/
  owed : s.consumer = .selecting →
    s.errChan.length + s.owed = cfg.errors
  fits : s.errChan.length ≤ cfg.errCapacity
  /-- So `lineChan` is closed only where all errors fit. -/
  closed_fits : s.lineClosed = true → cfg.errors ≤ cfg.errCapacity

theorem countP_eq_sum {α : Type} (p : α → Bool) (l : List α) :
    l.countP p = (l.map fun a => if p a then 1 else 0).sum := by
  induction l with
  | nil => rfl
  | cons a l ih =>
    rw [List.countP_cons, List.map_cons, List.sum_cons, ih]
    omega

theorem owed_eq_zero (h : ∀ p ∈ s.producers, p = .done) : s.owed = 0 := by
  refine List.countP_eq_zero.mpr fun p hp => ?_
  rw [h p hp]
  exact Bool.false_ne_true

/-- A producer owes an error from the start if its stream ends with
one. -/
theorem owes_streaming (b : Behaviour) :
    (Producer.streaming b.lines b.ending).owes = b.fails := by
  obtain ⟨lines, ending⟩ := b
  cases ending with
  | none => rfl
  | some e => cases e <;> rfl

theorem consistent_init (cfg : StreamConfig) :
    Consistent cfg cfg.init := by
  unfold StreamConfig.init
  split
  next hpods =>
    have herrors : cfg.errors = 0 := by
      simp [StreamConfig.errors, StreamConfig.streams, streamFetches, hpods]
    exact {
      done := fun _ p hp => nomatch hp
      closed := fun _ => rfl
      consumer := fun _ => rfl
      owed := fun h => nomatch h
      fits := Nat.zero_le _
      closed_fits := fun _ => herrors ▸ Nat.zero_le _ }
  next =>
    refine {
      done := fun h => nomatch h
      closed := fun h => nomatch h
      consumer := fun h => absurd rfl h
      owed := fun _ => ?_
      fits := Nat.zero_le _
      closed_fits := fun h => nomatch h }
    show 0 + MergedStream.owed _ = _
    rw [Nat.zero_add, MergedStream.owed, List.countP_map]
    refine List.countP_congr fun i _ => ?_
    exact Eq.to_iff (congrArg (· = true) (owes_streaming (cfg.behaviour i)))

theorem owed_set {i : Nat} {p q : Producer} (h : s.producers[i]? = some p)
    (t : MergedStream) (ht : t.producers = s.producers.set i q) :
    t.owed + (if p.owes then 1 else 0)
      = s.owed + (if q.owes then 1 else 0) := by
  unfold MergedStream.owed
  rw [ht, countP_eq_sum, countP_eq_sum]
  exact sum_map_set (fun p : Producer => if p.owes then 1 else 0) q h

theorem Consistent.open_of_mem (hi : Consistent cfg s) {p : Producer}
    (hp : p ∈ s.producers) (hne : p ≠ .done) : s.lineClosed = false := by
  cases h : s.lineClosed with
  | false => rfl
  | true => exact absurd (hi.done h p hp) hne

theorem Consistent.selecting_of_open (hi : Consistent cfg s)
    (h : s.lineClosed = false) : s.consumer = .selecting := by
  by_contra hne
  rw [hi.consumer hne] at h
  cases h

theorem Consistent.setProducer (hi : Consistent cfg s) {i : Nat}
    {p q : Producer} (h : s.producers[i]? = some p) (hne : p ≠ .done)
    {t : MergedStream} (hproducers : t.producers = s.producers.set i q)
    (hline : t.lineClosed = s.lineClosed)
    (herr : t.errClosed = s.errClosed) (hconsumer : t.consumer = s.consumer)
    (hsent : t.errChan.length + (if q.owes then 1 else 0)
      = s.errChan.length + (if p.owes then 1 else 0))
    (hfits : t.errChan.length ≤ cfg.errCapacity) : Consistent cfg t := by
  have hopen := hi.open_of_mem (List.mem_of_getElem? h) hne
  have howed := owed_set h t hproducers
  have hclosed : t.lineClosed ≠ true := by
    rw [hline, hopen]
    decide
  refine {
    done := fun h => absurd h hclosed
    closed := fun h => ?_
    consumer := fun h => ?_
    owed := fun h => ?_
    fits := hfits
    closed_fits := fun h => absurd h hclosed }
  · rw [herr] at h
    rw [hline]
    exact hi.closed h
  · rw [hconsumer] at h
    rw [hline]
    exact hi.consumer h
  · rw [hconsumer] at h
    have := hi.owed h
    omega

theorem step_consistent (hi : Consistent cfg s)
    (h : cfg.step act s = some (s', out)) : Consistent cfg s' := by
  cases step_moved h with
  | @send i line lines ending hp hroom =>
    refine hi.setProducer hp (fun h => nomatch h) rfl rfl rfl rfl ?_
      hi.fits
    cases ending with
    | none => rfl
    | some e => cases e <;> rfl
  | @streamEnds i ending hp =>
    refine hi.setProducer hp (fun h => nomatch h) rfl rfl rfl rfl ?_
      hi.fits
    cases ending with
    | none => rfl
    | some e => cases e <;> rfl
  | @report i err hp hroom =>
    refine hi.setProducer hp (fun h => nomatch h) rfl rfl rfl rfl ?_ ?_
    · simp [Producer.owes]
    · show (s.errChan ++ [err]).length ≤ _
      rw [List.length_append, List.length_singleton]
      exact hroom
  | closeLines hopen hdone =>
    have hselecting := hi.selecting_of_open hopen
    have howed := hi.owed hselecting
    rw [owed_eq_zero hdone, Nat.add_zero] at howed
    exact { hi with
      done := fun _ => hdone
      closed := fun _ => rfl
      consumer := fun _ => rfl
      closed_fits := fun _ => howed ▸ hi.fits }
  | closeErrs hclosed hopen => exact { hi with closed := fun _ => hclosed }
  | receive hconsumer hchan => exact { hi with }
  | receiveClosed hconsumer hchan hclosed =>
    exact { hi with
      consumer := fun _ => hclosed
      owed := fun h => nomatch h }
  | tick hconsumer => exact { hi with }
  | @drain err errs hconsumer hchan =>
    have hclosed := hi.consumer (by rw [hconsumer]; decide)
    have hfits := hi.fits
    rw [hchan, List.length_cons] at hfits
    exact { hi with
      consumer := fun _ => hclosed
      owed := fun h => nomatch h
      fits := Nat.le_of_succ_le hfits }
  | drainClosed hconsumer hchan hclosed =>
    exact { hi with
      consumer := fun _ => hi.closed hclosed
      owed := fun h => nomatch h }

theorem producer_step {p : Producer} (hp : p ∈ s.producers)
    (hne : p ≠ .done) (hline : s.lineChan.length < lineCapacity)
    (herr : ∀ err, p = .reporting err →
      s.errChan.length < cfg.errCapacity) :
    ∃ act, act.works = true ∧ (cfg.step act s).isSome := by
  obtain ⟨i, hi⟩ := List.mem_iff_getElem?.mp hp
  cases p with
  | streaming lines ending =>
    cases lines with
    | nil =>
      refine ⟨.streamEnds i, rfl, ?_⟩
      simp [StreamConfig.step, hi]
    | cons line lines =>
      refine ⟨.send i, rfl, ?_⟩
      simp [StreamConfig.step, hi, hline]
  | reporting err =>
    refine ⟨.report i, rfl, ?_⟩
    simp [StreamConfig.step, hi, herr err rfl]
  | done => exact absurd rfl hne

/-- If all errors fit, nobody is stuck. -/
theorem progress (hi : Consistent cfg s)
    (hfits : cfg.errors ≤ cfg.errCapacity) :
    s.Finished ∨ ∃ act, act.works = true ∧ (cfg.step act s).isSome := by
  cases hconsumer : s.consumer with
  | selecting =>
    right
    cases hchan : s.lineChan with
    | cons line lines =>
      refine ⟨.receive, rfl, ?_⟩
      simp [StreamConfig.step, hconsumer, hchan]
    | nil =>
      cases hclosed : s.lineClosed with
      | true =>
        refine ⟨.receiveClosed, rfl, ?_⟩
        simp [StreamConfig.step, hconsumer, hchan, hclosed]
      | false =>
        by_cases hdone : ∀ p ∈ s.producers, p = .done
        · refine ⟨.closeLines, rfl, ?_⟩
          simp only [StreamConfig.step, if_pos (And.intro hclosed hdone),
            Option.isSome_some]
        · push Not at hdone
          obtain ⟨p, hp, hne⟩ := hdone
          refine producer_step hp hne (by rw [hchan]; decide) ?_
          -- the error it is about to send is owed, so there is room
          rintro err rfl
          have howed := hi.owed hconsumer
          have hpos : 0 < s.owed := List.countP_pos_iff.mpr
            ⟨_, hp, rfl⟩
          omega
  | draining =>
    right
    have hclosed := hi.consumer (by rw [hconsumer]; decide)
    cases hchan : s.errChan with
    | cons err errs =>
      refine ⟨.drain, rfl, ?_⟩
      simp [StreamConfig.step, hconsumer, hchan]
    | nil =>
      cases herr : s.errClosed with
      | true =>
        refine ⟨.drain, rfl, ?_⟩
        simp [StreamConfig.step, hconsumer, hchan, herr]
      | false =>
        refine ⟨.closeErrs, rfl, ?_⟩
        simp [StreamConfig.step, hclosed, herr]
  | returned =>
    have hclosed := hi.consumer (by rw [hconsumer]; decide)
    cases herr : s.errClosed with
    | true => exact .inl ⟨hi.done hclosed, hclosed, herr, hconsumer⟩
    | false =>
      right
      refine ⟨.closeErrs, rfl, ?_⟩
      simp [StreamConfig.step, hclosed, herr]

-- ======== order

def Producer.left : Producer → List Text
  | .streaming lines _ => lines
  | _ => []

/-- The lines a producer has still to send, as they are sent. -/
def leftOf (cfg : StreamConfig) (i : Nat) (producers : List Producer) :
    List StreamLine :=
  ((producers[i]?.map Producer.left).getD []).map (cfg.streamLine i)

/-- The lines of one stream that have not reached the caller. -/
def pendingOf (cfg : StreamConfig) (i : Nat) (s : MergedStream) :
    List StreamLine :=
  s.buffer.filter (·.stream = i) ++ s.lineChan.filter (·.stream = i)
    ++ leftOf cfg i s.producers

theorem linesOf_map (i : Nat) (lines : List StreamLine) :
    linesOf i (lines.map fun line =>
        .onLine line.stream (cfg.emitted line))
      = (lines.filter (·.stream = i)).map cfg.emitted := by
  unfold linesOf
  induction lines with
  | nil => rfl
  | cons line lines ih =>
    by_cases h : line.stream = i <;>
      simp [StreamOut.lineOf, h, ih]

theorem linesOf_flush {i : Nat}
    (h : Ordered (·.line.timestamp) (s.buffer.filter (·.stream = i))) :
    linesOf i (cfg.flushBuffer s).2
      = (s.buffer.filter (·.stream = i)).map cfg.emitted := by
  show linesOf i (s.sorted.map _) = _
  rw [linesOf_map, MergedStream.sorted, StableSort.filter_sortBy h]

theorem leftOf_eq {i : Nat} {p : Producer} {producers : List Producer}
    (h : producers[i]? = some p) :
    leftOf cfg i producers = p.left.map (cfg.streamLine i) := by
  unfold leftOf
  rw [h]
  rfl

theorem leftOf_set {i j : Nat} {p : Producer} {producers : List Producer}
    (h : producers[j]? = some p) (q : Producer) :
    leftOf cfg i (producers.set j q)
      = if j = i then q.left.map (cfg.streamLine i)
        else leftOf cfg i producers := by
  split
  next heq =>
    subst heq
    have hlt : j < producers.length := by
      rw [List.getElem?_eq_some_iff] at h
      exact h.1
    exact leftOf_eq (List.getElem?_set_self hlt)
  next hne =>
    unfold leftOf
    rw [List.getElem?_set_ne hne]

/-- A step passes on the front of what is pending. -/
theorem step_pending (i : Nat) (h : cfg.step act s = some (s', out))
    (hordered : Ordered (·.line.timestamp) (pendingOf cfg i s)) :
    ∃ given, pendingOf cfg i s = given ++ pendingOf cfg i s'
      ∧ linesOf i out = given.map cfg.emitted := by
  have hbuffer : Ordered (·.line.timestamp)
      (s.buffer.filter (·.stream = i)) := by
    unfold pendingOf at hordered
    rw [List.append_assoc] at hordered
    exact (List.pairwise_append.mp hordered).1
  cases step_moved h with
  | @send j line lines ending hp hroom =>
    refine ⟨[], ?_, rfl⟩
    simp only [pendingOf, leftOf_set hp, List.filter_append,
      List.nil_append, List.append_assoc]
    congr 2
    by_cases hji : j = i
    · subst hji
      simp [leftOf_eq hp, StreamConfig.streamLine, Producer.left]
    · simp [hji, StreamConfig.streamLine]
  | @streamEnds j ending hp =>
    refine ⟨[], ?_, rfl⟩
    simp only [pendingOf, leftOf_set hp, List.nil_append]
    congr 1
    split
    next hji =>
      subst hji
      rw [leftOf_eq hp]
      unfold afterStream
      split <;> rfl
    next => rfl
  | @report j err hp hroom =>
    refine ⟨[], ?_, rfl⟩
    simp only [pendingOf, leftOf_set hp, List.nil_append]
    congr 1
    split
    next hji =>
      subst hji
      rw [leftOf_eq hp]
      rfl
    next => rfl
  | closeLines hopen hdone => exact ⟨[], rfl, rfl⟩
  | closeErrs hclosed hopen => exact ⟨[], rfl, rfl⟩
  | @receive line lines hconsumer hchan =>
    refine ⟨[], ?_, rfl⟩
    simp only [pendingOf, hchan, List.filter_append, List.nil_append,
      List.append_assoc]
    rw [← List.singleton_append, List.filter_append, List.append_assoc]
  | receiveClosed hconsumer hchan hclosed =>
    exact ⟨_, List.append_assoc .., linesOf_flush hbuffer⟩
  | tick hconsumer =>
    exact ⟨_, List.append_assoc .., linesOf_flush hbuffer⟩
  | drain hconsumer hchan => exact ⟨[], rfl, rfl⟩
  | drainClosed hconsumer hchan hclosed => exact ⟨[], rfl, rfl⟩

theorem pendingOf_init {i : Nat} (h : i < cfg.streams.length) :
    pendingOf cfg i cfg.init
      = (cfg.behaviour i).lines.map (cfg.streamLine i) := by
  unfold StreamConfig.init
  split
  next hpods =>
    simp [StreamConfig.streams, streamFetches, hpods] at h
  next =>
    have hproducer : ((List.range cfg.streams.length).map fun i =>
        Producer.streaming (cfg.behaviour i).lines
          (cfg.behaviour i).ending)[i]?
        = some (.streaming (cfg.behaviour i).lines
          (cfg.behaviour i).ending) := by
      simp [h]
    exact leftOf_eq hproducer

theorem pendingOf_finished {i : Nat} (hfinished : s.Finished)
    (hbuffer : s.buffer = []) (hchan : s.lineChan = []) :
    pendingOf cfg i s = [] := by
  unfold pendingOf leftOf
  rw [hbuffer, hchan]
  cases hp : s.producers[i]? with
  | none => rfl
  | some p =>
    rw [hfinished.producers p (List.mem_of_getElem? hp)]
    rfl

/-- When the consumer leaves its `select`, no line is on its way. -/
def Emptied (s : MergedStream) : Prop :=
  s.consumer ≠ .selecting →
    s.lineClosed = true ∧ (∀ p ∈ s.producers, p = .done)
      ∧ s.buffer = [] ∧ s.lineChan = []

theorem step_emptied (hi : Consistent cfg s) (he : Emptied s)
    (h : cfg.step act s = some (s', out)) : Emptied s' := by
  intro hne
  cases step_moved h with
  | @send i line lines ending hp hroom =>
    obtain ⟨-, hdone, -⟩ := he hne
    exact nomatch hdone _ (List.mem_of_getElem? hp)
  | @streamEnds i ending hp =>
    obtain ⟨-, hdone, -⟩ := he hne
    exact nomatch hdone _ (List.mem_of_getElem? hp)
  | @report i err hp hroom =>
    obtain ⟨-, hdone, -⟩ := he hne
    exact nomatch hdone _ (List.mem_of_getElem? hp)
  | closeLines hopen hdone =>
    obtain ⟨hclosed, -⟩ := he hne
    rw [hopen] at hclosed
    cases hclosed
  | closeErrs hclosed hopen => exact he hne
  | receive hconsumer hchan => exact absurd hconsumer hne
  | receiveClosed hconsumer hchan hclosed =>
    exact ⟨hclosed, hi.done hclosed, rfl, hchan⟩
  | tick hconsumer => exact absurd hconsumer hne
  | drain hconsumer hchan => exact he (by rw [hconsumer]; decide)
  | drainClosed hconsumer hchan hclosed =>
    exact he (by rw [hconsumer]; decide)

-- ======== the results

theorem run_consistent {acts : List StreamAct}
    (hrun : run cfg.step cfg.init acts = some (s, out)) :
    Consistent cfg s ∧ Emptied s := by
  refine run_invariant (I := fun s => Consistent cfg s ∧ Emptied s)
    (fun hi _ h => ⟨step_consistent hi.1 h, step_emptied hi.1 hi.2 h⟩)
    ⟨consistent_init cfg, ?_⟩ along_true hrun
  unfold StreamConfig.init
  split
  next => exact fun _ => ⟨rfl, (fun _ h => nomatch h), rfl, rfl⟩
  next => exact fun h => absurd rfl h

/-- At every point of a call, what was passed on of a stream and what is
pending of it make up the stream. -/
theorem run_pending (hordered : cfg.Ordered) {i : Nat}
    (hlt : i < cfg.streams.length) {acts : List StreamAct}
    (hrun : run cfg.step cfg.init acts = some (s, out)) :
    linesOf i out ++ (pendingOf cfg i s).map cfg.emitted
      = (cfg.behaviour i).lines.map fun line =>
        cfg.emitted (cfg.streamLine i line) := by
  have hinit : Ordered (·.line.timestamp) (pendingOf cfg i cfg.init) := by
    rw [pendingOf_init hlt]
    exact List.pairwise_map.mpr (hordered i hlt)
  have hflow := run_flow_eq (I := fun s => Ordered (·.line.timestamp) (pendingOf cfg i s))
    (fun s => (pendingOf cfg i s).map cfg.emitted) (fun _ => [])
    (StreamOut.lineOf i) (fun {act s s' o} hi _ h => by
      obtain ⟨given, hpending, hgiven⟩ := step_pending i h hi
      rw [hpending] at hi
      refine ⟨(List.pairwise_append.mp hi).2.1, ?_⟩
      show linesOf i o ++ _ = _
      rw [hgiven, hpending, List.map_append, List.append_nil])
    hinit along_true hrun
  have hnone : acts.flatMap (fun _ => ([] : List Text)) = [] :=
    List.flatMap_eq_nil_iff.mpr fun _ _ => rfl
  rw [pendingOf_init hlt, List.map_map, hnone, List.append_nil] at hflow
  exact hflow

theorem errors_le_of_completes (h : cfg.Completes) :
    cfg.errors ≤ cfg.errCapacity := by
  obtain ⟨bound, hbound⟩ := h.bounded
  obtain ⟨acts, s, out, hrun, hend | hlong⟩ :=
    exists_run_of_progress h.progress (bound + 1)
  · exact (run_consistent hrun).1.closed_fits hend.lineClosed
  · have := hbound hrun
    omega

/-- One pod with this many containers, none of which can be streamed. -/
def failing (n : Nat) : StreamConfig where
  pods := [⟨[], List.replicate n []⟩]
  allContainers := true
  timestamps := true
  behaviour _ := ⟨[], some (.other [])⟩

end PodLog
