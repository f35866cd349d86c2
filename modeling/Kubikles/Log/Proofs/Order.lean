/-
The order in which a stream's lines are emitted.

# The argument

Lines move through three places: the buffer, the hands of whoever took
them out of it (timer goroutines, then the producer itself), and the
emissions. `held` lists the first two oldest first, and every step moves
lines along without loss (`step_flow`), as long as they leave in that
order. The code does not see to that. Lines are taken under the lock
and emitted outside it, so two goroutines of one stream may emit in
either order, and `EmitDone` does not wait for a goroutine that has
taken lines before it. `InOrder` is the condition under which neither
happens, and the results are a run that does not meet it and what holds
of every run that does.
-/
import Kubikles.Log.Coalescer

namespace LogStream

open Machine

-- ======== what the state is made of

def Sys.buffered (s : Sys) (streamID : String) : List String :=
  ((s.c.streams.lookup streamID).map (·.lines)).getD []

def Producer.lines : Producer → List String
  | .emitting lines _ => lines
  | _ => []

def inFlight (streamID : String) (detached : List (String × List String)) :
    List String :=
  detached.flatMap fun p => if p.1 = streamID then p.2 else []

/-- The lines of a stream that were not emitted yet, oldest first. -/
def held (streamID : String) (s : Sys) : List String :=
  inFlight streamID s.detached ++ (s.producer streamID).lines
    ++ s.buffered streamID

def Sys.Landed (s : Sys) (streamID : String) : Prop :=
  ∀ p ∈ s.detached, p.1 ≠ streamID

/-- The producer has emptied its stream's buffer for the last time. -/
def Producer.Drained : Producer → Prop
  | .streaming => False
  | .flushing _ => False
  | _ => True

-- ======== the statement

/-- What leaves the coalescer leaves it in order: a timer goroutine
emits its batch when no older batch of the stream is out, a producer its
last lines and its Done when no batch of the stream is. An error needs
no order, but a message that tells it from a line. -/
def InOrder (s : Sys) : Act → Prop
  | .emitDetached j =>
    match s.detached[j]? with
    | some (id, _) => ∀ p ∈ s.detached.take j, p.1 ≠ id
    | none => True
  | .producerEmits id =>
    match s.producer id with
    | .emitting _ _ => s.Landed id
    | .closing .done => s.Landed id
    | .closing (.error errMsg) => errMsg ≠ ""
    | _ => True
  | _ => True

instance (s : Sys) (id : String) : Decidable (s.Landed id) :=
  inferInstanceAs (Decidable (∀ p ∈ s.detached, p.1 ≠ id))

instance (s : Sys) : ∀ a, Decidable (InOrder s a)
  | .emitDetached j =>
    match h : s.detached[j]? with
    | some (id, _) =>
      decidable_of_iff (∀ p ∈ s.detached.take j, p.1 ≠ id)
        (by simp only [InOrder, h])
    | none => isTrue (by simp only [InOrder, h])
  | .producerEmits id =>
    match h : s.producer id with
    | .emitting _ _ =>
      decidable_of_iff (s.Landed id) (by simp only [InOrder, h])
    | .closing .done =>
      decidable_of_iff (s.Landed id) (by simp only [InOrder, h])
    | .closing (.error errMsg) =>
      decidable_of_iff (errMsg ≠ "") (by simp only [InOrder, h])
    | .streaming => isTrue (by simp only [InOrder, h])
    | .flushing _ => isTrue (by simp only [InOrder, h])
    | .errored => isTrue (by simp only [InOrder, h])
    | .finished => isTrue (by simp only [InOrder, h])
  | .emitLine _ _ => isTrue trivial
  | .timerFires _ => isTrue trivial
  | .timerFlush _ => isTrue trivial
  | .emitDone _ => isTrue trivial
  | .emitError _ _ => isTrue trivial
  | .errorFlush _ => isTrue trivial

/-- The stream is over: its producer is back from its last call and no
goroutine holds lines of it. -/
def Sys.Closed (s : Sys) (streamID : String) : Prop :=
  (s.producer streamID = .errored ∨ s.producer streamID = .finished)
    ∧ s.Landed streamID

/-- What is to hold of a stream after the actions `acts`. -/
structure StreamOrder (streamID : String) (acts : List Act) (s' : Sys)
    (out : List AppEvent) : Prop where
  /-- The lines emitted are, in order, the first lines passed. -/
  inOrder : emitted streamID out <+: passed streamID acts
  /-- Once the stream is over, they are all of them. -/
  complete : s'.Closed streamID →
    emitted streamID out = passed streamID acts
  /-- Nothing is emitted behind Done. -/
  afterDone : ∀ out₁ ev out₂, out = out₁ ++ ev :: out₂ →
    ev.IsDone streamID → emitted streamID out₂ = []

-- ======== lookups

@[simp] theorem producer_setProducer (s : Sys) (id id' : String)
    (p : Producer) :
    (s.setProducer id p).producer id'
      = if id' = id then p else s.producer id' := by
  unfold Sys.producer Sys.setProducer
  rw [FinMap.lookup_insert]
  split
  · rfl
  · rfl

@[simp] theorem buffered_setProducer (s : Sys) (id id' : String)
    (p : Producer) :
    (s.setProducer id p).buffered id' = s.buffered id' := rfl

@[simp] theorem buffered_setBuffer (s : Sys) (id id' : String)
    (buf : LogStreamBuffer) :
    (s.setBuffer id buf).buffered id'
      = if id' = id then buf.lines else s.buffered id' := by
  unfold Sys.buffered Sys.setBuffer
  rw [FinMap.lookup_insert]
  split
  · rfl
  · rfl

@[simp] theorem inFlight_nil (id : String) : inFlight id [] = [] := rfl

theorem inFlight_append (id : String) (ds ds' : List (String × List String)) :
    inFlight id (ds ++ ds') = inFlight id ds ++ inFlight id ds' :=
  List.flatMap_append

theorem inFlight_singleton (id id' : String) (lines : List String) :
    inFlight id' [(id, lines)] = if id = id' then lines else [] := by
  simp [inFlight]

theorem inFlight_eq_nil {id : String} {ds : List (String × List String)}
    (h : ∀ p ∈ ds, p.1 ≠ id) : inFlight id ds = [] := by
  unfold inFlight
  rw [List.flatMap_eq_nil_iff]
  intro p hp
  exact if_neg (h p hp)

/-- Taking a batch out takes its lines from the front, if it is the
oldest of its stream. -/
theorem inFlight_eraseIdx {ds : List (String × List String)} {j : Nat}
    {id : String} {lines : List String} (hj : ds[j]? = some (id, lines))
    (hold : ∀ p ∈ ds.take j, p.1 ≠ id) (id' : String) :
    (if id = id' then lines else []) ++ inFlight id' (ds.eraseIdx j)
      = inFlight id' ds := by
  obtain ⟨hlt, hget⟩ := List.getElem?_eq_some_iff.mp hj
  have hds : ds = ds.take j ++ (id, lines) :: ds.drop (j + 1) := by
    rw [← hget, List.cons_getElem_drop_succ, List.take_append_drop]
  have hsplit : inFlight id' ds = inFlight id' (ds.take j)
      ++ ((if id = id' then lines else [])
        ++ inFlight id' (ds.drop (j + 1))) := by
    rw [← inFlight_singleton, ← inFlight_append, ← inFlight_append,
      List.singleton_append, ← hds]
  rw [hsplit, List.eraseIdx_eq_take_drop_succ, inFlight_append]
  by_cases h : id = id'
  · subst h
    rw [inFlight_eq_nil hold]
    rfl
  · rw [if_neg h]
    rfl

@[simp] theorem emitted_nil (id : String) : emitted id [] = [] := rfl

theorem emitted_emitBatch (id id' : String) (lines : List String) :
    emitted id' (emitBatch id lines) = if id = id' then lines else [] := by
  match lines with
  | [] => simp [emitBatch]
  | [line] => simp [emitBatch, emitted, AppEvent.linesFor]
  | _ :: _ :: _ => simp [emitBatch, emitted, AppEvent.linesFor]

theorem emitBatch_length (id : String) (lines : List String) :
    (emitBatch id lines).length ≤ 1 := by
  match lines with
  | [] => exact Nat.zero_le _
  | [_] => exact le_refl _
  | _ :: _ :: _ => exact le_refl _

@[simp] theorem lines_holding (lines : List String) (last : Final) :
    (Producer.holding lines last).lines = lines := by
  unfold Producer.holding
  split
  next h =>
    rw [h]
    rfl
  next => rfl

theorem holding_ne_finished (lines : List String) (last : Final) :
    Producer.holding lines last ≠ .finished := by
  unfold Producer.holding
  split
  · intro h
    cases h
  · intro h
    cases h

-- ======== the operations

theorem emitLine_spec (s : Sys) (id line : String) :
    (∀ id', (s.emitLine id line).producer id' = s.producer id')
    ∧ (s.emitLine id line).detached = s.detached
    ∧ ∀ id', (s.emitLine id line).buffered id'
        = s.buffered id' ++ if id = id' then [line] else [] := by
  have hbuf : ((s.c.streams.lookup id).getD ⟨[], none, false⟩).lines
      = s.buffered id := by
    unfold Sys.buffered
    cases s.c.streams.lookup id with
    | none => rfl
    | some buf => rfl
  have happ : ∀ id', (if id' = id then s.buffered id ++ [line]
      else s.buffered id')
        = s.buffered id' ++ if id = id' then [line] else [] := by
    intro id'
    by_cases h : id' = id
    · rw [h, if_pos rfl, if_pos rfl]
    · rw [if_neg h, if_neg fun h' => h h'.symm, List.append_nil]
  unfold Sys.emitLine
  dsimp only
  split
  · refine ⟨fun _ => rfl, rfl, fun id' => ?_⟩
    rw [buffered_setBuffer, ← happ, hbuf]
  · refine ⟨fun _ => rfl, rfl, fun id' => ?_⟩
    show (s.setBuffer id _).buffered id' = _
    rw [buffered_setBuffer, ← happ, hbuf]

/-- The section of `flushStream` takes all of its stream's buffer and
nothing else. -/
theorem takeLines_spec (s : Sys) (id : String) :
    (s.takeLines id).2 = s.buffered id
    ∧ (s.takeLines id).1.producers = s.producers
    ∧ (s.takeLines id).1.detached = s.detached
    ∧ ∀ id', (s.takeLines id).1.buffered id'
        = if id' = id then [] else s.buffered id' := by
  unfold Sys.takeLines
  split
  next h =>
    have hbuf : s.buffered id = [] := by simp [Sys.buffered, h]
    refine ⟨hbuf.symm, rfl, rfl, fun id' => ?_⟩
    by_cases hid : id' = id
    · rw [if_pos hid, hid, hbuf]
    · rw [if_neg hid]
  next buf h =>
    have hbuf : s.buffered id = buf.lines := by simp [Sys.buffered, h]
    split
    next hnil =>
      refine ⟨by rw [hbuf, hnil], rfl, rfl, fun id' => ?_⟩
      rw [buffered_setBuffer, hnil]
    next =>
      refine ⟨hbuf.symm, rfl, rfl, fun id' => ?_⟩
      rw [buffered_setBuffer]

/-- A timer goroutine's section moves its stream's buffer to the end of
what is in flight. -/
theorem timerFlush_spec (s : Sys) (id : String) :
    (s.timerFlush id).producers = s.producers
    ∧ (∀ p ∈ (s.timerFlush id).detached, p ∈ s.detached
        ∨ p.1 = id ∧ s.buffered id ≠ [])
    ∧ (∀ id', inFlight id' (s.timerFlush id).detached
        = inFlight id' s.detached
          ++ if id = id' then s.buffered id else [])
    ∧ ∀ id', (s.timerFlush id).buffered id'
        = if id' = id then [] else s.buffered id' := by
  obtain ⟨hlines, hproducers, hdetached, hbuffered⟩ := takeLines_spec s id
  unfold Sys.timerFlush
  dsimp only
  rw [hlines]
  split
  next hnil =>
    refine ⟨hproducers, fun p hp => Or.inl (hdetached ▸ hp), fun id' => ?_,
      hbuffered⟩
    rw [hdetached, hnil, ite_self, List.append_nil]
  next hne =>
    refine ⟨hproducers, fun p hp => ?_, fun id' => ?_, hbuffered⟩
    · rw [hdetached] at hp
      rcases List.mem_append.mp hp with hold | hnew
      · exact Or.inl hold
      · rw [List.mem_singleton.mp hnew]
        exact Or.inr ⟨rfl, hne⟩
    · rw [hdetached, inFlight_append, inFlight_singleton]

theorem producer_timerFlush (s : Sys) (ts : Timers String)
    (id id' : String) :
    (({ s with timers := ts } : Sys).timerFlush id).producer id'
      = s.producer id' := by
  unfold Sys.producer
  rw [(timerFlush_spec { s with timers := ts } id).1]

theorem producer_emitError (s : Sys) (id errMsg id' : String) :
    (s.emitError id errMsg).producer id'
      = if id' = id then .flushing errMsg else s.producer id' :=
  producer_setProducer s id id' _

/-- A producer takes its stream's buffer for the last time. -/
structure HandsOver (id : String) (last : Final) (s s' : Sys) : Prop where
  detached : s'.detached = s.detached
  producer : ∀ id', s'.producer id'
    = if id' = id then .holding (s.buffered id) last else s.producer id'
  buffered : ∀ id', s'.buffered id'
    = if id' = id then [] else s.buffered id'

theorem emitDone_handsOver (s : Sys) (id : String) :
    HandsOver id .done s (s.emitDone id) := by
  unfold Sys.emitDone
  split
  next h =>
    have hbuf : s.buffered id = [] := by simp [Sys.buffered, h]
    refine ⟨rfl, fun id' => ?_, fun id' => ?_⟩
    · rw [producer_setProducer, hbuf]
      rfl
    · rw [buffered_setProducer]
      by_cases hid : id' = id
      · rw [if_pos hid, hid, hbuf]
      · rw [if_neg hid]
  next buf h =>
    have hbuf : s.buffered id = buf.lines := by simp [Sys.buffered, h]
    refine ⟨rfl, fun id' => ?_, fun id' => ?_⟩
    · rw [hbuf]
      exact producer_setProducer s id id' _
    · unfold Sys.buffered
      show ((Finmap.lookup id' (s.c.streams.erase id)).map _).getD [] = _
      rw [FinMap.lookup_erase]
      by_cases hid : id' = id
      · rw [if_pos hid, if_pos hid]
        rfl
      · rw [if_neg hid, if_neg hid]

theorem errorFlush_handsOver (s : Sys) (id errMsg : String) :
    HandsOver id (.error errMsg) s (s.errorFlush id errMsg) := by
  obtain ⟨hlines, hproducers, hdetached, hbuffered⟩ := takeLines_spec s id
  unfold Sys.errorFlush
  dsimp only
  rw [hlines]
  refine ⟨hdetached, fun id' => ?_, fun id' => ?_⟩
  · rw [producer_setProducer]
    have hsame : (s.takeLines id).1.producer id' = s.producer id' := by
      unfold Sys.producer
      rw [hproducers]
    rw [hsame]
  · rw [buffered_setProducer]
    exact hbuffered id'

-- ======== what a step can be

inductive Transition (s : Sys) : Act → Sys → List AppEvent → Prop
  | emitLine {id line : String} : s.producer id = .streaming →
      Transition s (.emitLine id line) (s.emitLine id line) []
  | timerFires {i : Nat} {ts : Timers String} :
      Transition s (.timerFires i) { s with timers := ts } []
  | timerFlush {i : Nat} {id : String} {ts : Timers String} :
      Transition s (.timerFlush i)
        ({ s with timers := ts }.timerFlush id) []
  | emitDetached {j : Nat} {id : String} {lines : List String} :
      s.detached[j]? = some (id, lines) →
      Transition s (.emitDetached j)
        { s with detached := s.detached.eraseIdx j } (emitBatch id lines)
  | emitDone {id : String} :
      s.producer id = .streaming ∨ s.producer id = .errored →
      Transition s (.emitDone id) (s.emitDone id) []
  | emitError {id errMsg : String} : s.producer id = .streaming →
      Transition s (.emitError id errMsg) (s.emitError id errMsg) []
  | errorFlush {id errMsg : String} : s.producer id = .flushing errMsg →
      Transition s (.errorFlush id) (s.errorFlush id errMsg) []
  | producerEmits {id : String} {p : Producer} {o : List AppEvent} :
      (s.producer id).emit id = some (p, o) →
      Transition s (.producerEmits id) (s.setProducer id p) o

theorem step_transition {a : Act} {s s' : Sys} {o : List AppEvent}
    (h : step a s = some (s', o)) : Transition s a s' o := by
  cases a with
  | emitLine id line =>
    simp only [step] at h
    split at h
    next hp =>
      injection h with h
      injection h with hs ho
      subst hs ho
      exact .emitLine hp
    next => cases h
  | timerFires i =>
    simp only [step, Option.map_eq_some_iff, Prod.mk.injEq] at h
    obtain ⟨ts, -, rfl, rfl⟩ := h
    exact .timerFires
  | timerFlush i =>
    simp only [step, Option.map_eq_some_iff, Prod.mk.injEq] at h
    obtain ⟨⟨id, ts⟩, -, rfl, rfl⟩ := h
    exact .timerFlush
  | emitDetached j =>
    simp only [step, Option.map_eq_some_iff, Prod.mk.injEq] at h
    obtain ⟨⟨id, lines⟩, hj, rfl, rfl⟩ := h
    exact .emitDetached hj
  | emitDone id =>
    simp only [step] at h
    split at h
    next hp =>
      injection h with h
      injection h with hs ho
      subst hs ho
      exact .emitDone hp
    next => cases h
  | emitError id errMsg =>
    simp only [step] at h
    split at h
    next hp =>
      injection h with h
      injection h with hs ho
      subst hs ho
      exact .emitError hp
    next => cases h
  | errorFlush id =>
    simp only [step] at h
    split at h
    next errMsg hp =>
      injection h with h
      injection h with hs ho
      subst hs ho
      exact .errorFlush hp
    next => cases h
  | producerEmits id =>
    simp only [step, Option.map_eq_some_iff, Prod.mk.injEq] at h
    obtain ⟨⟨p, o'⟩, hp, rfl, rfl⟩ := h
    exact .producerEmits hp

-- ======== the invariant

/-- What ties a stream's producer to its lines. -/
structure Inv (s : Sys) : Prop where
  /-- Behind the producer's last section the buffer stays empty. -/
  drained : ∀ id, (s.producer id).Drained → s.buffered id = []
  /-- Behind Done no goroutine holds lines of the stream. -/
  landed : ∀ id, s.producer id = .finished → s.Landed id

theorem inv_init (frameInterval : Int) : Inv (Sys.init frameInterval) where
  drained id _ := rfl
  landed id _ := fun p hp => by cases hp

/-- Handing over empties the buffer before the producer counts as
drained. -/
theorem HandsOver.inv {id : String} {last : Final} {s s' : Sys}
    (h : HandsOver id last s s') (hi : Inv s) : Inv s' := by
  constructor
  · intro id' hd
    rw [h.buffered]
    rw [h.producer] at hd
    by_cases hid : id' = id
    · rw [if_pos hid]
    · rw [if_neg hid] at hd ⊢
      exact hi.drained id' hd
  · intro id' hf
    rw [h.producer] at hf
    by_cases hid : id' = id
    · rw [if_pos hid] at hf
      exact absurd hf (holding_ne_finished _ _)
    · rw [if_neg hid] at hf
      intro p hp
      rw [h.detached] at hp
      exact hi.landed id' hf p hp

/-- What an emission of a producer leads to, if it is in order. -/
theorem emit_spec {s : Sys} {id : String} {p : Producer}
    {o : List AppEvent} (hok : InOrder s (.producerEmits id))
    (hp : (s.producer id).emit id = some (p, o)) :
    (s.producer id).Drained ∧ p.Drained
    ∧ (p = .finished → s.Landed id)
    ∧ (∀ id', emitted id' o
        = if id = id' then (s.producer id).lines else [])
    ∧ p.lines = []
    ∧ ((s.producer id).lines ≠ [] → s.Landed id) := by
  simp only [InOrder] at hok
  cases hprod : s.producer id with
  | emitting lines last =>
    rw [hprod] at hp hok
    injection hp with hp
    injection hp with hp ho
    subst hp ho
    exact ⟨trivial, trivial, fun h => (nomatch h),
      fun id' => emitted_emitBatch id id' lines, rfl, fun _ => hok⟩
  | closing last =>
    cases last with
    | done =>
      rw [hprod] at hp hok
      injection hp with hp
      injection hp with hp ho
      subst hp ho
      refine ⟨trivial, trivial, fun _ => hok, fun id' => ?_, rfl,
        fun h => absurd rfl h⟩
      simp [emitted, AppEvent.linesFor, Producer.lines]
    | error errMsg =>
      rw [hprod] at hp hok
      injection hp with hp
      injection hp with hp ho
      subst hp ho
      refine ⟨trivial, trivial, fun h => (nomatch h), fun id' => ?_, rfl,
        fun h => absurd rfl h⟩
      have hmsg : errMsg ≠ "" := hok
      simp [emitted, AppEvent.linesFor, Producer.lines, hmsg]
  | streaming => rw [hprod] at hp; cases hp
  | flushing errMsg => rw [hprod] at hp; cases hp
  | errored => rw [hprod] at hp; cases hp
  | finished => rw [hprod] at hp; cases hp

/-- The producer's emissions keep the invariant: its Done comes when its
batches have landed. -/
theorem Inv.producerEmits {s : Sys} (hi : Inv s) {id : String}
    {p : Producer} {o : List AppEvent}
    (hok : InOrder s (.producerEmits id))
    (hp : (s.producer id).emit id = some (p, o)) :
    Inv (s.setProducer id p) := by
  obtain ⟨hbefore, hafter, hland, -⟩ := emit_spec hok hp
  constructor
  · intro id' hd
    rw [producer_setProducer] at hd
    rw [buffered_setProducer]
    by_cases hid : id' = id
    · rw [hid]
      exact hi.drained id hbefore
    · rw [if_neg hid] at hd
      exact hi.drained id' hd
  · intro id' hf
    rw [producer_setProducer] at hf
    by_cases hid : id' = id
    · rw [if_pos hid] at hf
      rw [hid]
      exact hland hf
    · rw [if_neg hid] at hf
      exact hi.landed id' hf

/-- A line of a producer that still streams keeps it: that stream's
buffer may be filled. -/
theorem Inv.emitLine {s : Sys} (hi : Inv s) {id : String} (line : String)
    (hp : s.producer id = .streaming) : Inv (s.emitLine id line) := by
  obtain ⟨hproducer, hdetached, hbuffered⟩ := emitLine_spec s id line
  constructor
  · intro id' hd
    rw [hproducer] at hd
    have hid : id ≠ id' := by
      intro heq
      rw [← heq, hp] at hd
      exact hd
    rw [hbuffered, if_neg hid, List.append_nil]
    exact hi.drained id' hd
  · intro id' hf p hmem
    rw [hproducer] at hf
    rw [hdetached] at hmem
    exact hi.landed id' hf p hmem

/-- A timer goroutine's section keeps it: what it puts in flight was in
a buffer, and a finished stream has none. -/
theorem Inv.timerFlush {s : Sys} (hi : Inv s) (ts : Timers String)
    (id : String) : Inv (({ s with timers := ts } : Sys).timerFlush id) := by
  obtain ⟨-, hmem, -, hbuffered⟩ :=
    timerFlush_spec { s with timers := ts } id
  constructor
  · intro id' hd
    rw [producer_timerFlush] at hd
    rw [hbuffered]
    split
    · rfl
    · exact hi.drained id' hd
  · intro id' hf p hp
    rw [producer_timerFlush] at hf
    rcases hmem p hp with hold | ⟨hid, hne⟩
    · exact hi.landed id' hf p hold
    · intro heq
      apply hne
      show s.buffered id = []
      rw [← hid, heq]
      exact hi.drained id' (by rw [hf]; trivial)

theorem Inv.emitError {s : Sys} (hi : Inv s) (id errMsg : String) :
    Inv (s.emitError id errMsg) := by
  constructor
  · intro id' hd
    rw [producer_emitError] at hd
    split at hd
    · exact hd.elim
    · exact hi.drained id' hd
  · intro id' hf
    rw [producer_emitError] at hf
    split at hf
    · cases hf
    · exact hi.landed id' hf

theorem step_inv {a : Act} {s s' : Sys} {o : List AppEvent} (hi : Inv s)
    (hok : InOrder s a) (h : step a s = some (s', o)) : Inv s' := by
  cases step_transition h with
  | emitLine hp => exact hi.emitLine _ hp
  | timerFires => exact ⟨hi.drained, hi.landed⟩
  | timerFlush => exact hi.timerFlush _ _
  | emitDetached hj =>
    refine ⟨hi.drained, fun id' hf p hp => ?_⟩
    exact hi.landed id' hf p (List.mem_of_mem_eraseIdx hp)
  | emitDone _ => exact (emitDone_handsOver s _).inv hi
  | emitError _ => exact hi.emitError _ _
  | errorFlush _ => exact (errorFlush_handsOver s _ _).inv hi
  | producerEmits hp => exact hi.producerEmits hok hp

-- ======== the flow

@[simp] theorem passed_nil (id : String) : passed id [] = [] := rfl

theorem passed_cons (id : String) (a : Act) (rest : List Act) :
    passed id (a :: rest) = passed id [a] ++ passed id rest := by
  unfold passed
  rw [List.flatMap_cons, List.flatMap_cons, List.flatMap_nil,
    List.append_nil]

theorem HandsOver.held_eq {id : String} {last : Final} {s s' : Sys}
    (h : HandsOver id last s s') (hlines : (s.producer id).lines = [])
    (id' : String) : held id' s' = held id' s := by
  unfold held
  rw [h.detached, h.producer, h.buffered]
  by_cases hid : id' = id
  · subst hid
    rw [if_pos rfl, if_pos rfl, lines_holding, hlines, List.append_nil,
      List.append_nil]
  · rw [if_neg hid, if_neg hid]

theorem held_emitLine (s : Sys) (id line id' : String) :
    held id' (s.emitLine id line)
      = held id' s ++ if id = id' then [line] else [] := by
  obtain ⟨hproducer, hdetached, hbuffered⟩ := emitLine_spec s id line
  unfold held
  rw [hproducer, hdetached, hbuffered, ← List.append_assoc]

theorem held_timerFlush {s : Sys} (hi : Inv s) (ts : Timers String)
    (id id' : String) :
    held id' (({ s with timers := ts } : Sys).timerFlush id)
      = held id' s := by
  obtain ⟨-, -, hinFlight, hbuffered⟩ :=
    timerFlush_spec { s with timers := ts } id
  unfold held
  rw [producer_timerFlush, hinFlight, hbuffered]
  by_cases hid : id = id'
  · subst hid
    rw [if_pos rfl, if_pos rfl, List.append_nil]
    show inFlight id s.detached ++ s.buffered id ++ _ = _
    -- A producer with lines in its hands has emptied the buffer.
    have hone : s.buffered id ++ (s.producer id).lines
        = (s.producer id).lines ++ s.buffered id := by
      cases hprod : s.producer id with
      | emitting lines last =>
        have hnil := hi.drained id (by rw [hprod]; trivial)
        rw [hnil, List.nil_append, List.append_nil]
      | _ => exact List.append_nil _
    rw [List.append_assoc, hone, ← List.append_assoc]
  · rw [if_neg hid, if_neg fun h => hid h.symm, List.append_nil]
    rfl

/-- An emission in order takes its lines from the front of what is
held. -/
theorem held_emitDetached {s : Sys} {j : Nat} {id : String}
    {lines : List String} (hok : InOrder s (.emitDetached j))
    (hj : s.detached[j]? = some (id, lines)) (id' : String) :
    emitted id' (emitBatch id lines)
        ++ held id' { s with detached := s.detached.eraseIdx j }
      = held id' s := by
  have hold : ∀ p ∈ s.detached.take j, p.1 ≠ id := by
    simp only [InOrder, hj] at hok
    exact hok
  have hout := inFlight_eraseIdx hj hold id'
  rw [emitted_emitBatch]
  show _ ++ (inFlight id' (s.detached.eraseIdx j) ++ _ ++ _) = _
  rw [← List.append_assoc, ← List.append_assoc, hout]
  rfl

theorem held_emitError {s : Sys} {id : String}
    (hp : s.producer id = .streaming) (errMsg id' : String) :
    held id' (s.emitError id errMsg) = held id' s := by
  have hset : ((s.emitError id errMsg).producer id').lines
      = (s.producer id').lines := by
    rw [producer_emitError]
    split
    next hid =>
      rw [hid, hp]
      rfl
    next => rfl
  unfold held
  rw [hset]
  rfl

/-- The producer's emissions in order take their lines from the front
of what is held. -/
theorem held_producerEmits {s : Sys} {id : String} {p : Producer}
    {o : List AppEvent} (hok : InOrder s (.producerEmits id))
    (hp : (s.producer id).emit id = some (p, o)) (id' : String) :
    emitted id' o ++ held id' (s.setProducer id p) = held id' s := by
  obtain ⟨-, -, -, hemit, hafter, hland⟩ := emit_spec hok hp
  rw [hemit]
  show _ ++ (inFlight id' s.detached
    ++ ((s.setProducer id p).producer id').lines ++ s.buffered id') = _
  rw [producer_setProducer]
  unfold held
  by_cases hid : id = id'
  · subst hid
    rw [if_pos rfl, if_pos rfl, hafter, List.append_nil]
    -- Lines leave the producer's hands when nothing is in flight.
    by_cases hnil : (s.producer id).lines = []
    · rw [hnil, List.nil_append, List.append_nil]
    · rw [inFlight_eq_nil (hland hnil), List.nil_append,
        List.nil_append]
  · rw [if_neg hid, if_neg fun h => hid h.symm, List.nil_append]

/-- One step in order, one stream: what it emits and holds is what it
held and was passed. -/
theorem step_flow {a : Act} {s s' : Sys} {o : List AppEvent} (hi : Inv s)
    (hok : InOrder s a) (h : step a s = some (s', o)) (id' : String) :
    emitted id' o ++ held id' s' = held id' s ++ passed id' [a] := by
  cases step_transition h with
  | @emitLine id line hp =>
    rw [held_emitLine, emitted_nil, List.nil_append]
    simp [passed]
  | timerFires =>
    rw [emitted_nil, List.nil_append]
    exact (List.append_nil _).symm
  | timerFlush =>
    rw [held_timerFlush hi, emitted_nil, List.nil_append]
    exact (List.append_nil _).symm
  | emitDetached hj =>
    rw [held_emitDetached hok hj]
    exact (List.append_nil _).symm
  | @emitDone id hp =>
    have hlines : (s.producer id).lines = [] := by
      rcases hp with hp | hp
      · rw [hp]; rfl
      · rw [hp]; rfl
    rw [(emitDone_handsOver s id).held_eq hlines, emitted_nil,
      List.nil_append]
    exact (List.append_nil _).symm
  | emitError hp =>
    rw [held_emitError hp, emitted_nil, List.nil_append]
    exact (List.append_nil _).symm
  | @errorFlush id errMsg hp =>
    have hlines : (s.producer id).lines = [] := by rw [hp]; rfl
    rw [(errorFlush_handsOver s id errMsg).held_eq hlines, emitted_nil,
      List.nil_append]
    exact (List.append_nil _).symm
  | producerEmits hp =>
    rw [held_producerEmits hok hp]
    exact (List.append_nil _).symm

-- ======== runs

theorem flatMap_passed (id : String) (acts : List Act) :
    acts.flatMap (fun a => passed id [a]) = passed id acts := by
  induction acts with
  | nil => rfl
  | cons a rest ih => rw [List.flatMap_cons, ih, ← passed_cons]

theorem run_flow {s s' : Sys} {acts : List Act} {out : List AppEvent}
    (hi : Inv s) (hok : Along step InOrder s acts)
    (hrun : run step s acts = some (s', out)) (id : String) :
    emitted id out ++ held id s' = held id s ++ passed id acts := by
  rw [← flatMap_passed]
  exact run_flow_eq (held id) (fun a => passed id [a])
    (AppEvent.linesFor id)
    (fun hi hok h => ⟨step_inv hi hok h, step_flow hi hok h id⟩) hi hok hrun

theorem held_finished {s : Sys} (hi : Inv s) {id : String}
    (hf : s.producer id = .finished) : held id s = [] := by
  unfold held
  rw [inFlight_eq_nil (hi.landed id hf), hf, hi.drained id (by rw [hf]; trivial)]
  rfl

/-- A finished stream stays finished, and is passed nothing. -/
theorem step_finished {a : Act} {s s' : Sys} {o : List AppEvent}
    (h : step a s = some (s', o)) {id : String}
    (hf : s.producer id = .finished) :
    s'.producer id = .finished ∧ passed id [a] = [] := by
  cases step_transition h with
  | @emitLine id' line hp =>
    have hid : id' ≠ id := fun heq => by
      rw [heq, hf] at hp
      cases hp
    obtain ⟨hproducer, -⟩ := emitLine_spec s id' line
    exact ⟨(hproducer id).trans hf, by simp [passed, hid]⟩
  | timerFires => exact ⟨hf, rfl⟩
  | @timerFlush i id' ts =>
    exact ⟨(producer_timerFlush s ts id' id).trans hf, rfl⟩
  | emitDetached hj => exact ⟨hf, rfl⟩
  | @emitDone id' hp =>
    have hid : id ≠ id' := fun heq => by
      rw [← heq, hf] at hp
      rcases hp with hp | hp
      · cases hp
      · cases hp
    rw [(emitDone_handsOver s id').producer, if_neg hid]
    exact ⟨hf, rfl⟩
  | @emitError id' errMsg hp =>
    have hid : id ≠ id' := fun heq => by
      rw [← heq, hf] at hp
      cases hp
    refine ⟨?_, rfl⟩
    show (s.setProducer id' _).producer id = _
    rw [producer_setProducer, if_neg hid]
    exact hf
  | @errorFlush id' errMsg hp =>
    have hid : id ≠ id' := fun heq => by
      rw [← heq, hf] at hp
      cases hp
    rw [(errorFlush_handsOver s id' errMsg).producer, if_neg hid]
    exact ⟨hf, rfl⟩
  | @producerEmits id' p o hp =>
    have hid : id ≠ id' := fun heq => by
      rw [← heq, hf] at hp
      cases hp
    rw [producer_setProducer, if_neg hid]
    exact ⟨hf, rfl⟩

/-- From a finished stream on, a run in order emits none of its
lines. -/
theorem run_finished {s s' : Sys} {acts : List Act} {out : List AppEvent}
    (hi : Inv s) (hok : Along step InOrder s acts)
    (hrun : run step s acts = some (s', out)) {id : String}
    (hf : s.producer id = .finished) : emitted id out = [] := by
  have hpassed : passed id acts = [] := by
    clear hi hok
    induction acts generalizing s out with
    | nil => rfl
    | cons a rest ih =>
      obtain ⟨s₁, o₁, o₂, ha, hr, -⟩ := run_cons_iff.mp hrun
      obtain ⟨hf₁, hpass⟩ := step_finished ha hf
      rw [passed_cons, hpass, ih hr hf₁]
      rfl
  have hflow := run_flow hi hok hrun id
  rw [held_finished hi hf, hpassed, List.append_nil] at hflow
  exact (List.append_eq_nil_iff.mp hflow).1

/-- A step emits at most one event, and behind a Done its stream is
finished. -/
theorem step_output {a : Act} {s s' : Sys} {o : List AppEvent}
    (h : step a s = some (s', o)) :
    o.length ≤ 1 ∧ ∀ id, ∀ ev ∈ o, ev.IsDone id →
      s'.producer id = .finished := by
  have hbatch : ∀ id' lines id, ∀ ev ∈ emitBatch id' lines,
      ¬ ev.IsDone id := by
    intro id' lines id ev hev hdone
    match lines with
    | [] => cases hev
    | [line] =>
      rw [List.mem_singleton.mp hev] at hdone
      cases hdone.2
    | _ :: _ :: _ =>
      rw [List.mem_singleton.mp hev] at hdone
      exact hdone
  cases step_transition h with
  | emitDetached hj =>
    exact ⟨emitBatch_length .., fun id ev hev hdone =>
      absurd hdone (hbatch _ _ id ev hev)⟩
  | @producerEmits id' p o hp =>
    unfold Producer.emit at hp
    split at hp
    next lines last _ =>
      injection hp with hp
      injection hp with hp ho
      subst hp ho
      exact ⟨emitBatch_length .., fun id ev hev hdone =>
        absurd hdone (hbatch _ _ id ev hev)⟩
    next =>
      injection hp with hp
      injection hp with hp ho
      subst hp ho
      refine ⟨le_refl 1, fun id ev hev hdone => ?_⟩
      rw [List.mem_singleton.mp hev] at hdone
      have hid : id' = id := hdone.1
      rw [producer_setProducer, if_pos hid.symm]
    next errMsg _ =>
      injection hp with hp
      injection hp with hp ho
      subst hp ho
      refine ⟨le_refl 1, fun id ev hev hdone => ?_⟩
      rw [List.mem_singleton.mp hev] at hdone
      cases hdone.2
    next => cases hp
  | _ => exact ⟨Nat.zero_le 1, fun _ _ hev => by cases hev⟩

theorem run_afterDone {s s' : Sys} {acts : List Act}
    {out : List AppEvent} (hi : Inv s) (hok : Along step InOrder s acts)
    (hrun : run step s acts = some (s', out)) {id : String}
    {out₁ out₂ : List AppEvent} {ev : AppEvent}
    (hout : out = out₁ ++ ev :: out₂) (hdone : ev.IsDone id) :
    emitted id out₂ = [] := by
  induction acts generalizing s out out₁ with
  | nil =>
    simp only [run_nil, Option.some.injEq, Prod.mk.injEq] at hrun
    rw [← hrun.2] at hout
    simp at hout
  | cons a rest ih =>
    obtain ⟨s₁, o₁, o₂, ha, hr, rfl⟩ := run_cons_iff.mp hrun
    obtain ⟨hoka, hrest⟩ := hok s₁ o₁ ha
    have hi₁ := step_inv hi hoka ha
    obtain ⟨hlen, hfin⟩ := step_output ha
    match o₁ with
    | [] => exact ih hi₁ hrest hr hout
    | e :: o₁ =>
      have hnil : o₁ = [] := List.eq_nil_of_length_eq_zero (by
        rw [List.length_cons] at hlen
        omega)
      subst hnil
      cases out₁ with
      | nil =>
        -- The event of this step is the Done.
        injection hout with hev hout₂
        subst hev hout₂
        exact run_finished hi₁ hrest hr
          (hfin id e (List.mem_singleton.mpr rfl) hdone)
      | cons e' out₁ =>
        injection hout with _ hout₂
        exact ih hi₁ hrest hr hout₂

-- ======== the result

/-- In every run in order, every stream's lines are emitted in the order
they were passed, each once, all of them by the time the stream is over,
and none behind Done. -/
theorem stream_order {frameInterval : Int} {acts : List Act}
    (hok : Along step InOrder (Sys.init frameInterval) acts)
    {s' : Sys} {out : List AppEvent}
    (hrun : run step (Sys.init frameInterval) acts = some (s', out))
    (id : String) : StreamOrder id acts s' out := by
  have hi := inv_init frameInterval
  have hflow : emitted id out ++ held id s' = passed id acts :=
    run_flow hi hok hrun id
  have hi' : Inv s' := run_invariant step_inv hi hok hrun
  refine ⟨⟨held id s', hflow⟩, fun hclosed => ?_,
    fun out₁ ev out₂ hout hdone => run_afterDone hi hok hrun hout hdone⟩
  have hheld : held id s' = [] := by
    obtain ⟨hprod, hland⟩ := hclosed
    unfold held
    rcases hprod with hp | hp
    · rw [inFlight_eq_nil hland, hp, hi'.drained id (by rw [hp]; trivial)]
      rfl
    · exact held_finished hi' hp
  rw [hheld, List.append_nil] at hflow
  exact hflow

/-- A stream of three lines in two frames, closed when the second is
out. -/
theorem stream_order_two_frames :
    let acts : List Act :=
      [.emitLine "s" "a", .emitLine "s" "b", .timerFires 0, .timerFlush 0,
        .emitDetached 0, .emitLine "s" "c", .timerFires 1, .timerFlush 1,
        .emitDetached 0, .emitDone "s", .producerEmits "s"]
    ∃ s' out, run step (Sys.init 0) acts = some (s', out)
      ∧ StreamOrder "s" acts s' out :=
  ⟨_, _, rfl, stream_order (by decide) rfl "s"⟩

/-- Two frames of one stream, emitted in the other order, with the Done
between them. -/
theorem emitted_out_of_order :
    let acts : List Act :=
      [.emitLine "s" "a", .timerFires 0, .timerFlush 0, .emitLine "s" "b",
        .timerFires 1, .timerFlush 1, .emitDetached 1, .emitDone "s",
        .producerEmits "s", .emitDetached 0]
    ∃ s' out, run step (Sys.init 0) acts = some (s', out)
      ∧ s'.Closed "s" ∧ passed "s" acts = ["a", "b"]
      ∧ out = [.logStream { streamID := "s", line := "b" },
          .logStream { streamID := "s", done := true },
          .logStream { streamID := "s", line := "a" }] :=
  ⟨_, _, rfl, by unfold Sys.Closed; decide, rfl, rfl⟩

end LogStream
