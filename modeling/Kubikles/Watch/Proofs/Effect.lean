/-
What a step of the coalescer does to its buffer, said once.

`Effect` is the abstract coalescer: a buffer that keeps the latest
event of each key, loses a key's event to a DELETED, gives some of its
keys away in a flush and is emptied by `Clear`. Timers, the pending
flag and the calls in progress decide *when* such a step may happen;
none of them decides what it does. `step_effect` is the simulation: as
long as coalescing is enabled, every step of the machine is an
`Effect`. The trace law and the store equivalence argue over `Effect`
alone.
-/
import Kubikles.Watch.Coalescer

namespace Coalescer

variable {α : Type}

-- ======== buffer lookups

namespace EventBuffer

@[simp] theorem get_empty (k : String) :
    (empty : EventBuffer α).get k = none := Finmap.lookup_empty k

theorem get_put (event : ResourceEvent α) (h : event.type ≠ .deleted)
    (b : EventBuffer α) (k : String) :
    (b.put event h).get k
      = if k = eventKey event then some event else b.get k :=
  FinMap.lookup_insert ..

theorem get_drop (ks : List String) (b : EventBuffer α) (k : String) :
    (b.drop ks).get k = if k ∈ ks then none else b.get k :=
  FinMap.lookup_eraseAll ..

theorem get_eventKey {b : EventBuffer α} {k : String}
    {e : ResourceEvent α} (h : b.get k = some e) : eventKey e = k :=
  b.keyed h

theorem get_ne_deleted {b : EventBuffer α} {k : String}
    {e : ResourceEvent α} (h : b.get k = some e) : e.type ≠ .deleted :=
  b.undeleted h

theorem len_eq_zero {b : EventBuffer α} :
    b.len = 0 ↔ ∀ k, b.get k = none := by
  unfold len get
  rw [FinMap.size_eq_zero, FinMap.eq_empty_iff]

end EventBuffer

-- ======== emissions

@[simp] theorem emitted_nil : emitted ([] : List (AppEvent α)) = [] := rfl

theorem emitted_append (o₁ o₂ : List (AppEvent α)) :
    emitted (o₁ ++ o₂) = emitted o₁ ++ emitted o₂ := List.flatMap_append

@[simp] theorem emitted_resourceEvent (e : ResourceEvent α) :
    emitted [.resourceEvent e] = [e] := rfl

theorem emitted_emission (batch : List (ResourceEvent α)) :
    emitted (emission batch) = batch := by
  match batch with
  | [] => rfl
  | [e] => rfl
  | e :: e' :: rest => simp [emission, emitted, AppEvent.events]

@[simp] theorem passed_nil : passed ([] : List (Act α)) = [] := rfl

theorem passed_append (pre post : List (Act α)) :
    passed (pre ++ post) = passed pre ++ passed post := List.flatMap_append

theorem passed_cons (a : Act α) (rest : List (Act α)) :
    passed (a :: rest) = passed [a] ++ passed rest := by
  rw [← passed_append, List.singleton_append]

@[simp] theorem passed_emit (e : ResourceEvent α) :
    passed [.emit e] = [e] := rfl

@[simp] theorem passed_clear : passed [(.clear : Act α)] = [] := rfl

@[simp] theorem forKey_nil (k : String) :
    forKey k ([] : List (ResourceEvent α)) = [] := rfl

theorem forKey_append (k : String) (es es' : List (ResourceEvent α)) :
    forKey k (es ++ es') = forKey k es ++ forKey k es' :=
  List.filter_append ..

theorem forKey_singleton (k : String) (e : ResourceEvent α) :
    forKey k [e] = if eventKey e = k then [e] else [] := by
  by_cases h : eventKey e = k <;> simp [forKey, h]

-- ======== the range loop

/-- A batch taken from a buffer: distinct keys, each with the event
filed under it. -/
structure Taken (b : EventBuffer α)
    (batch : List (String × ResourceEvent α)) : Prop where
  nodup : (batch.map Prod.fst).Nodup
  filed : ∀ p ∈ batch, b.get p.1 = some p.2

/-- The loop of `flush` takes a batch from the buffer, whatever the
iteration order and wherever the batch size stops it. -/
theorem collect_taken {maxBatchSize : Int} {b : EventBuffer α}
    {order : List String} {batch : List (String × ResourceEvent α)}
    (horder : order.Nodup) (hfresh : ∀ p ∈ batch, p.1 ∉ order)
    (ht : Taken b batch) :
    Taken b (collect maxBatchSize b order batch) := by
  induction order generalizing batch with
  | nil => exact ht
  | cons k order ih =>
    obtain ⟨hk, hrest⟩ := List.nodup_cons.mp horder
    have hskip : ∀ p ∈ batch, p.1 ∉ order := fun p hp hmem =>
      hfresh p hp (List.mem_cons_of_mem _ hmem)
    unfold collect
    split
    next => exact ht
    next =>
      split
      next => exact ih hrest hskip ht
      next event hget =>
        refine ih hrest ?_ ⟨?_, ?_⟩
        · intro p hp
          rcases List.mem_append.mp hp with hold | hnew
          · exact hskip p hold
          · rw [List.mem_singleton.mp hnew]
            exact hk
        · rw [List.map_append, List.nodup_append]
          refine ⟨ht.nodup, by simp, ?_⟩
          intro k₁ h₁ k₂ h₂ heq
          obtain ⟨p, hp, rfl⟩ := List.mem_map.mp h₁
          have hk₂ : k₂ = k := by simpa using h₂
          exact hfresh p hp (by rw [heq, hk₂]; exact List.mem_cons_self ..)
        · intro p hp
          rcases List.mem_append.mp hp with hold | hnew
          · exact ht.filed p hold
          · rw [List.mem_singleton.mp hnew]
            exact hget

/-- A taken batch holds, for each of its keys, the one event filed
there, and nothing for any other key. -/
theorem Taken.forKey {b : EventBuffer α}
    {batch : List (String × ResourceEvent α)} (ht : Taken b batch)
    (k : String) :
    forKey k (batch.map Prod.snd)
      = if k ∈ batch.map Prod.fst then (b.get k).toList else [] := by
  obtain ⟨hnodup, hfiled⟩ := ht
  induction batch with
  | nil => rfl
  | cons p batch ih =>
    obtain ⟨hp, hrest⟩ := List.nodup_cons.mp hnodup
    have hget := hfiled p (List.mem_cons_self ..)
    have htail := ih hrest fun q hq =>
      hfiled q (List.mem_cons_of_mem _ hq)
    have hkey : eventKey p.2 = p.1 := EventBuffer.get_eventKey hget
    rw [List.map_cons, ← List.singleton_append, forKey_append, htail,
      forKey_singleton, hkey]
    by_cases hk : p.1 = k
    · subst hk
      have hout : p.1 ∉ List.map Prod.fst batch := hp
      simp [hget, hout]
    · have hiff : k ∈ List.map Prod.fst (p :: batch)
          ↔ k ∈ List.map Prod.fst batch := by
        rw [List.map_cons, List.mem_cons]
        exact or_iff_right fun h => hk h.symm
      rw [if_neg hk, List.nil_append]
      simp only [hiff]

-- ======== what a step can be

/-- The transitions, read back: each action with the state it needs
and the state and emissions it leaves. -/
inductive Transition (s : Sys α) : Act α → Sys α → List (AppEvent α) → Prop
  | emit (e : ResourceEvent α) :
      Transition s (.emit e) (s.emit e).1 (s.emit e).2
  | timerFires {i : Nat} {ts : Timers Unit} :
      Timers.fire i s.timers = some ts →
      Transition s (.timerFires i) { s with timers := ts } []
  | timerFlush {i : Nat} {ts : Timers Unit} {order : List String} :
      Timers.take i s.timers = some ((), ts) →
      FinMap.Enumerates order s.c.events.entries →
      Transition s (.timerFlush i order)
        ({ s with timers := ts }.flush order).1
        ({ s with timers := ts }.flush order).2
  | flushNow : Transition s .flushNow s.flushNow []
  | flushNowCheck : 0 < s.draining →
      Transition s .flushNowCheck s.flushNowCheck []
  | flushNowFlush {order : List String} : 0 < s.flushing →
      FinMap.Enumerates order s.c.events.entries →
      Transition s (.flushNowFlush order)
        ({ s with flushing := s.flushing - 1
                  draining := s.draining + 1 }.flush order).1
        ({ s with flushing := s.flushing - 1
                  draining := s.draining + 1 }.flush order).2
  | clear : Transition s .clear s.clear []
  | setFrameInterval (ms : Int) :
      Transition s (.setFrameInterval ms) (s.setFrameInterval ms) []
  | setMaxBatchSize (n : Int) :
      Transition s (.setMaxBatchSize n) (s.setMaxBatchSize n) []

/-- Every enabled step is one of the transitions. -/
theorem step_transition {a : Act α} {s s' : Sys α}
    {o : List (AppEvent α)} (h : step a s = some (s', o)) :
    Transition s a s' o := by
  cases a with
  | emit e =>
    have he := Transition.emit (s := s) e
    rwa [Option.some.inj h] at he
  | timerFires i =>
    simp only [step, Option.map_eq_some_iff, Prod.mk.injEq] at h
    obtain ⟨ts, hts, rfl, rfl⟩ := h
    exact .timerFires hts
  | timerFlush i order =>
    simp only [step] at h
    split at h
    next => cases h
    next u ts ht =>
      split at h
      next horder =>
        have hf := Transition.timerFlush ht horder
        rwa [Option.some.inj h] at hf
      next => cases h
  | flushNow =>
    simp only [step, Option.some.injEq, Prod.mk.injEq] at h
    obtain ⟨rfl, rfl⟩ := h
    exact .flushNow
  | flushNowCheck =>
    simp only [step] at h
    split at h
    next hd =>
      simp only [Option.some.injEq, Prod.mk.injEq] at h
      obtain ⟨rfl, rfl⟩ := h
      exact .flushNowCheck hd
    next => cases h
  | flushNowFlush order =>
    simp only [step] at h
    split at h
    next hg =>
      have hf := Transition.flushNowFlush hg.1 hg.2
      rwa [Option.some.inj h] at hf
    next => cases h
  | clear =>
    simp only [step, Option.some.injEq, Prod.mk.injEq] at h
    obtain ⟨rfl, rfl⟩ := h
    exact .clear
  | setFrameInterval ms =>
    simp only [step, Option.some.injEq, Prod.mk.injEq] at h
    obtain ⟨rfl, rfl⟩ := h
    exact .setFrameInterval ms
  | setMaxBatchSize n =>
    simp only [step, Option.some.injEq, Prod.mk.injEq] at h
    obtain ⟨rfl, rfl⟩ := h
    exact .setMaxBatchSize n

-- ======== the abstract step

def Act.Flushes (order : List String) : Act α → Prop
  | .timerFlush _ order' => order' = order
  | .flushNowFlush order' => order' = order
  | _ => False

theorem passed_flushes {a : Act α} {order : List String}
    (h : a.Flushes order) : passed [a] = [] := by
  cases a with
  | timerFlush i order' => rfl
  | flushNowFlush order' => rfl
  | emit e => cases h
  | _ => rfl

/-- What an action emits from a buffer and leaves in it. -/
inductive Effect :
    Act α → EventBuffer α → List (ResourceEvent α) → EventBuffer α → Prop
  | deleted (b : EventBuffer α) {e : ResourceEvent α} :
      e.type = .deleted → Effect (.emit e) b [e] (b.drop [eventKey e])
  | put (b : EventBuffer α) {e : ResourceEvent α} (h : e.type ≠ .deleted) :
      Effect (.emit e) b [] (b.put e h)
  | flush {b : EventBuffer α} {a : Act α} {order : List String}
      {batch : List (String × ResourceEvent α)} :
      a.Flushes order → Taken b batch →
      Effect a b (batch.map Prod.snd) (b.drop (batch.map Prod.fst))
  | clear (b : EventBuffer α) : Effect .clear b [] .empty
  | quiet (b : EventBuffer α) {a : Act α} : passed [a] = [] →
      Effect a b [] b

def Enabled (s : Sys α) : Prop := millisecond ≤ s.c.frameInterval

theorem enabled_init {frameInterval : Int}
    (h : millisecond ≤ frameInterval) :
    Enabled (Sys.init frameInterval : Sys α) := by
  have hne : frameInterval ≠ 0 := by
    unfold millisecond at h
    omega
  simpa [Enabled, Sys.init, newEventCoalescer, hne] using h

@[simp] theorem arm_events (s : Sys α) : s.arm.c.events = s.c.events := rfl

@[simp] theorem arm_frameInterval (s : Sys α) :
    s.arm.c.frameInterval = s.c.frameInterval := rfl

@[simp] theorem emit_frameInterval (e : ResourceEvent α) (s : Sys α) :
    (s.emit e).1.c.frameInterval = s.c.frameInterval := by
  unfold Sys.emit
  split
  next => rfl
  next =>
    split
    next => rfl
    next =>
      dsimp only
      split
      · rfl
      · rfl

theorem emit_effect {s : Sys α} (hs : Enabled s) (e : ResourceEvent α) :
    Effect (.emit e) s.c.events (emitted (s.emit e).2)
      (s.emit e).1.c.events := by
  have hfast : ¬ s.c.frameInterval < millisecond := by
    unfold Enabled at hs
    omega
  unfold Sys.emit
  rw [if_neg hfast]
  split
  next hdel => exact .deleted _ hdel
  next hdel =>
    dsimp only
    split
    · exact .put _ hdel
    · exact .put _ hdel

theorem flush_taken {s : Sys α} {order : List String}
    (horder : order.Nodup) :
    ∃ batch, Taken s.c.events batch
      ∧ emitted (s.flush order).2 = batch.map Prod.snd
      ∧ (s.flush order).1.c.events
          = s.c.events.drop (batch.map Prod.fst) := by
  unfold Sys.flush
  split
  next => exact ⟨[], ⟨List.nodup_nil, by simp⟩, rfl, rfl⟩
  next =>
    refine ⟨collect s.c.maxBatchSize s.c.events order [],
      collect_taken horder (by simp) ⟨List.nodup_nil, by simp⟩,
      emitted_emission _, ?_⟩
    dsimp only
    split
    · rfl
    · rfl

@[simp] theorem flush_frameInterval (s : Sys α) (order : List String) :
    (s.flush order).1.c.frameInterval = s.c.frameInterval := by
  unfold Sys.flush
  split
  next => rfl
  next =>
    dsimp only
    split
    · rfl
    · rfl

@[simp] theorem flushNowCheck_c (s : Sys α) : s.flushNowCheck.c = s.c := by
  unfold Sys.flushNowCheck
  split
  · rfl
  · rfl

theorem step_effect {a : Act α} {s s' : Sys α} {o : List (AppEvent α)}
    (hs : Enabled s) (h : step a s = some (s', o)) :
    Effect a s.c.events (emitted o) s'.c.events := by
  cases step_transition h with
  | emit e => exact emit_effect hs e
  | timerFires _ => exact .quiet _ rfl
  | timerFlush ht horder =>
    obtain ⟨batch, htaken, hout, hev⟩ := flush_taken horder.1
    rw [hout, hev]
    exact .flush rfl htaken
  | flushNow => exact .quiet _ rfl
  | flushNowCheck _ =>
    rw [flushNowCheck_c]
    exact .quiet _ rfl
  | flushNowFlush hf horder =>
    obtain ⟨batch, htaken, hout, hev⟩ := flush_taken horder.1
    rw [hout, hev]
    exact .flush rfl htaken
  | clear => exact .clear _
  | setFrameInterval ms => exact .quiet _ rfl
  | setMaxBatchSize n => exact .quiet _ rfl

/-- Coalescing stays enabled: the only writer of the interval clamps it
to a millisecond. -/
theorem step_enabled {a : Act α} {s s' : Sys α} {o : List (AppEvent α)}
    (hs : Enabled s) (h : step a s = some (s', o)) : Enabled s' := by
  unfold Enabled at hs ⊢
  cases step_transition h with
  | emit e => rwa [emit_frameInterval]
  | timerFires _ => exact hs
  | timerFlush ht horder => rwa [flush_frameInterval]
  | flushNow => exact hs
  | flushNowCheck _ => rwa [flushNowCheck_c]
  | flushNowFlush hf horder => rwa [flush_frameInterval]
  | clear => exact hs
  | setFrameInterval ms =>
    simp only [Sys.setFrameInterval, millisecond]
    split <;> split <;> omega
  | setMaxBatchSize n => exact hs

-- ======== what a flush takes

/-- The keys a flush takes: the first `maxBatchSize` of the iteration
order, or all of them where the size sets no limit. -/
def window (maxBatchSize : Int) (order : List String) : List String :=
  if 0 < maxBatchSize then order.take maxBatchSize.toNat else order

def flushed (s : Sys α) : Act α → List (ResourceEvent α)
  | .timerFlush _ order =>
    (window s.c.maxBatchSize order).filterMap s.c.events.get
  | .flushNowFlush order =>
    (window s.c.maxBatchSize order).filterMap s.c.events.get
  | _ => []

/-- The loop of `flush` with room for `room` more events. -/
theorem collect_eq {maxBatchSize : Int} {b : EventBuffer α}
    {order : List String} {batch : List (String × ResourceEvent α)}
    (hfiled : ∀ k ∈ order, (b.get k).isSome) :
    (collect maxBatchSize b order batch).map Prod.snd
      = batch.map Prod.snd
          ++ (if 0 < maxBatchSize
              then order.take (maxBatchSize.toNat - batch.length)
              else order).filterMap b.get := by
  induction order generalizing batch with
  | nil => simp [collect]
  | cons k order ih =>
    obtain ⟨e, he⟩ :=
      Option.isSome_iff_exists.mp (hfiled k (List.mem_cons_self ..))
    have hrest : ∀ k ∈ order, (b.get k).isSome := fun k' hk' =>
      hfiled k' (List.mem_cons_of_mem _ hk')
    unfold collect
    split
    next hfull =>
      have hroom : maxBatchSize.toNat - batch.length = 0 := by omega
      rw [if_pos hfull.1, hroom, List.take_zero, List.filterMap_nil,
        List.append_nil]
    next hfull =>
      rw [he]
      dsimp only
      rw [ih hrest, List.map_append, List.append_assoc]
      congr 1
      have hcons : ∀ ks, (k :: ks).filterMap b.get
          = e :: ks.filterMap b.get := fun ks => by simp [he]
      by_cases hm : 0 < maxBatchSize
      · have hroom : maxBatchSize.toNat - batch.length
            = maxBatchSize.toNat - (batch ++ [(k, e)]).length + 1 := by
          rw [List.length_append, List.length_singleton]
          omega
        rw [if_pos hm, if_pos hm, hroom, List.take_succ_cons, hcons]
        rfl
      · rw [if_neg hm, if_neg hm, hcons]
        rfl

theorem flush_flushed {s : Sys α} {order : List String}
    (horder : FinMap.Enumerates order s.c.events.entries) :
    emitted (s.flush order).2
      = (window s.c.maxBatchSize order).filterMap s.c.events.get := by
  unfold Sys.flush
  split
  next hlen =>
    symm
    rw [emitted_nil, List.filterMap_eq_nil_iff]
    exact fun k _ => EventBuffer.len_eq_zero.mp hlen k
  next =>
    rw [emitted_emission, collect_eq fun k hk => horder.lookup_isSome hk]
    simp [window]

theorem step_flushed {a : Act α} {s s' : Sys α} {o : List (AppEvent α)}
    (h : step a s = some (s', o)) (hp : passed [a] = []) :
    emitted o = flushed s a := by
  cases step_transition h with
  | emit e => cases hp
  | timerFlush _ horder => exact flush_flushed horder
  | flushNowFlush _ horder => exact flush_flushed horder
  | _ => rfl

end Coalescer
