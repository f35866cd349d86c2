/-
The trace law of the event coalescer: what `Emit` is given and what
`emitEvent` is handed, over every run.

# The argument

Per key the buffer is a lossy box of one event. One step gives and
keeps, in order, some of what the box held and what the step passed in
(`effect_flow`); without a `Clear` and without a new event for the key
it gives and keeps all of it (`effect_flow_eq`). The run rules of
`Lib/Machine` lift both to runs from an arbitrary state, and the law is
read off by choosing that state: the initial one for the order of the
whole trace, the one after a DELETED or a `Clear` (an empty box) for
what may still be emitted behind it, the one after the last event of a
key (a full box, or an emission) for the event that must come out last.

# Armed timers

Buffered events and the flush that is to come for them.

`pending` is meant to say "a timer is running" (`Emit` arms one only
where it is false). Every operation but one keeps it so: `flush` re-arms
or clears the flag, `Clear` stops the timer and clears the flag.
`FlushNow` stops the timer and leaves the flag to the flushes of its
loop. Where the loop finds the buffer empty at once, because a DELETED
or an older timer's flush emptied it, no flush runs and the flag
outlives its timer; every event from then on is buffered for a timer
that nobody arms.

The invariant that holds is therefore about runs whose `FlushNow` calls
return clean, and it is exactly those: a call that does not return clean
leaves a stranded coalescer behind.
-/
import Kubikles.Watch.Proofs.Effect

namespace Coalescer

open Machine

variable {α : Type}

-- ======== the boxes

def held (k : String) (b : EventBuffer α) : List (ResourceEvent α) :=
  (b.get k).toList

@[simp] theorem held_empty (k : String) :
    held k (.empty : EventBuffer α) = [] := by
  simp [held]

theorem held_put (e : ResourceEvent α) (h : e.type ≠ .deleted)
    (b : EventBuffer α) (k : String) :
    held k (b.put e h) = if k = eventKey e then [e] else held k b := by
  unfold held
  rw [EventBuffer.get_put]
  split
  · rfl
  · rfl

theorem held_drop (ks : List String) (b : EventBuffer α) (k : String) :
    held k (b.drop ks) = if k ∈ ks then [] else held k b := by
  unfold held
  rw [EventBuffer.get_drop]
  split
  · rfl
  · rfl

/-- A flush moves the events of its batch out of the buffer and touches
no other key. -/
theorem flush_held {b : EventBuffer α}
    {batch : List (String × ResourceEvent α)} (ht : Taken b batch)
    (k : String) :
    forKey k (batch.map Prod.snd) ++ held k (b.drop (batch.map Prod.fst))
      = held k b := by
  rw [ht.forKey, held_drop]
  by_cases hk : k ∈ batch.map Prod.fst
  · rw [if_pos hk, if_pos hk, List.append_nil]
    rfl
  · rw [if_neg hk, if_neg hk, List.nil_append]

/-- One step, one key: what it emits and keeps is, in order, some of
what it held and was passed. -/
theorem effect_flow {a : Act α} {b b' : EventBuffer α}
    {es : List (ResourceEvent α)} (h : Effect a b es b') (k : String) :
    (forKey k es ++ held k b').Sublist
      (held k b ++ forKey k (passed [a])) := by
  cases h with
  | @deleted _ e _ =>
    rw [passed_emit, held_drop, forKey_singleton]
    by_cases hk : eventKey e = k
    · simp [hk]
    · have hk' : k ∉ [eventKey e] := by simpa using fun h => hk h.symm
      rw [if_neg hk, if_neg hk', List.nil_append, List.append_nil]
  | @put _ e hdel =>
    rw [passed_emit, held_put, forKey_singleton, forKey_nil,
      List.nil_append]
    by_cases hk : eventKey e = k
    · rw [if_pos hk, if_pos hk.symm]
      exact List.sublist_append_right ..
    · rw [if_neg hk, if_neg fun h => hk h.symm, List.append_nil]
  | flush hfl ht =>
    rw [flush_held ht, passed_flushes hfl, forKey_nil, List.append_nil]
  | clear _ => simp
  | quiet _ hp => simp [hp]

/-- One step, one key, no `Clear` and no new event for the key: what it
emits and keeps is what it held. -/
theorem effect_flow_eq {a : Act α} {b b' : EventBuffer α}
    {es : List (ResourceEvent α)} (h : Effect a b es b') {k : String}
    (hclear : a ≠ .clear) (hpass : forKey k (passed [a]) = []) :
    forKey k es ++ held k b' = held k b := by
  cases h with
  | @deleted _ e _ =>
    have hk : eventKey e ≠ k := by
      intro hk
      simp [forKey_singleton, hk] at hpass
    have hk' : k ∉ [eventKey e] := by simpa using hk.symm
    rw [held_drop, if_neg hk', forKey_singleton, if_neg hk,
      List.nil_append]
  | @put _ e hdel =>
    have hk : eventKey e ≠ k := by
      intro hk
      simp [forKey_singleton, hk] at hpass
    rw [held_put, if_neg hk.symm, forKey_nil, List.nil_append]
  | flush hfl ht => exact flush_held ht k
  | clear _ => exact absurd rfl hclear
  | quiet _ hp => rfl

/-- The DELETED events a step emits are those it is passed: a buffer
never holds one. -/
theorem effect_deleted {a : Act α} {b b' : EventBuffer α}
    {es : List (ResourceEvent α)} (h : Effect a b es b') :
    es.filter (·.type = .deleted)
      = (passed [a]).filter (·.type = .deleted) := by
  cases h with
  | deleted _ _ => rfl
  | put _ hdel => simp [hdel]
  | flush hfl ht =>
    rw [passed_flushes hfl, List.filter_nil, List.filter_eq_nil_iff]
    intro e he
    obtain ⟨p, hp, rfl⟩ := List.mem_map.mp he
    simpa using EventBuffer.get_ne_deleted (ht.filed p hp)
  | clear _ => rfl
  | quiet _ hp => rw [hp]

-- ======== runs, per key

/-- The events of a key in a list of emissions, one emission at a
time. -/
theorem forKey_emitted (k : String) (out : List (AppEvent α)) :
    forKey k (emitted out) = out.flatMap fun ev => forKey k ev.events := by
  unfold emitted forKey
  rw [List.filter_flatMap]

/-- The events of a key passed by a list of actions, one action at a
time. -/
theorem forKey_passed (k : String) (acts : List (Act α)) :
    forKey k (passed acts)
      = acts.flatMap fun a => forKey k (passed [a]) := by
  induction acts with
  | nil => rfl
  | cons a rest ih =>
    rw [passed_cons, forKey_append, ih, List.flatMap_cons]

theorem run_enabled {s s' : Sys α} {acts : List (Act α)}
    {out : List (AppEvent α)} (hs : Enabled s)
    (hrun : run step s acts = some (s', out)) : Enabled s' :=
  run_invariant (fun hi _ h => step_enabled hi h) hs
    (along_of_forall (p := fun _ => True) fun _ _ => trivial) hrun

/-- From any state, a run emits and keeps for a key some of what was
buffered and passed, in order. -/
theorem run_flow {s s' : Sys α} {acts : List (Act α)}
    {out : List (AppEvent α)} (hs : Enabled s)
    (hrun : run step s acts = some (s', out)) (k : String) :
    (forKey k (emitted out) ++ held k s'.c.events).Sublist
      (held k s.c.events ++ forKey k (passed acts)) := by
  rw [forKey_emitted, forKey_passed]
  refine run_flow_sublist (I := Enabled) (fun s => held k s.c.events)
    (fun a => forKey k (passed [a])) (fun ev => forKey k ev.events) ?_ hs
    (along_of_forall (p := fun _ => True) fun _ _ => trivial) hrun
  intro a s s' o hs _ h
  refine ⟨step_enabled hs h, ?_⟩
  rw [← forKey_emitted]
  exact effect_flow (step_effect hs h) k

/-- From any state, a run without `Clear` that passes nothing for a key
emits and keeps for it exactly what was buffered. -/
theorem run_settles {s s' : Sys α} {acts : List (Act α)}
    {out : List (AppEvent α)} (hs : Enabled s)
    (hrun : run step s acts = some (s', out)) {k : String}
    (hclear : .clear ∉ acts) (hpass : forKey k (passed acts) = []) :
    forKey k (emitted out) ++ held k s'.c.events = held k s.c.events := by
  rw [forKey_passed] at hpass
  have hquiet : ∀ a ∈ acts, a ≠ .clear ∧ forKey k (passed [a]) = [] :=
    fun a ha => ⟨fun h => hclear (h ▸ ha),
      List.flatMap_eq_nil_iff.mp hpass a ha⟩
  have hflow := run_flow_eq (I := Enabled) (fun s => held k s.c.events)
    (fun a => forKey k (passed [a])) (fun ev => forKey k ev.events)
    (by
      intro a s s' o hs hok h
      refine ⟨step_enabled hs h, ?_⟩
      rw [← forKey_emitted, hok.2, List.append_nil]
      exact effect_flow_eq (step_effect hs h) hok.1 hok.2)
    hs (along_of_forall hquiet) hrun
  rw [← forKey_emitted, hpass, List.append_nil] at hflow
  exact hflow

theorem run_deleted {s s' : Sys α} {acts : List (Act α)}
    {out : List (AppEvent α)} (hs : Enabled s)
    (hrun : run step s acts = some (s', out)) :
    (emitted out).filter (·.type = .deleted)
      = (passed acts).filter (·.type = .deleted) := by
  induction acts generalizing s out with
  | nil =>
    simp only [run_nil, Option.some.injEq, Prod.mk.injEq] at hrun
    rw [← hrun.2]
    rfl
  | cons a rest ih =>
    obtain ⟨s₁, o₁, o₂, ha, hr, rfl⟩ := run_cons_iff.mp hrun
    rw [emitted_append, passed_cons, List.filter_append,
      List.filter_append, ih (step_enabled hs ha) hr,
      effect_deleted (step_effect hs ha)]

/-- The state and the emission a DELETED leaves behind: an empty box,
and the event itself, handed over on the spot. -/
theorem step_emit_deleted {s s' : Sys α} {d : ResourceEvent α}
    {o : List (AppEvent α)} (hs : Enabled s) (hd : d.type = .deleted)
    (h : step (.emit d) s = some (s', o)) :
    o = [.resourceEvent d] ∧ held (eventKey d) s'.c.events = [] := by
  have hfast : ¬ s.c.frameInterval < millisecond := by
    unfold Enabled at hs
    omega
  simp only [step, Sys.emit, if_neg hfast, dif_pos hd, Option.some.injEq,
    Prod.mk.injEq] at h
  obtain ⟨rfl, rfl⟩ := h
  exact ⟨rfl, by rw [held_drop, if_pos (List.mem_singleton.mpr rfl)]⟩

/-- What any other event leaves behind: itself in its box, and no
emission. -/
theorem step_emit_buffered {s s' : Sys α} {e : ResourceEvent α}
    {o : List (AppEvent α)} (hs : Enabled s) (he : e.type ≠ .deleted)
    (h : step (.emit e) s = some (s', o)) :
    o = [] ∧ held (eventKey e) s'.c.events = [e] := by
  have hfast : ¬ s.c.frameInterval < millisecond := by
    unfold Enabled at hs
    omega
  have hbox : held (eventKey e) (s.c.events.put e he) = [e] := by
    rw [held_put, if_pos rfl]
  simp only [step, Sys.emit, if_neg hfast, dif_neg he, Option.some.injEq,
    Prod.mk.injEq] at h
  obtain ⟨rfl, rfl⟩ := h
  refine ⟨rfl, ?_⟩
  split
  · exact hbox
  · exact hbox

-- ======== the law

/-- The trace law of a run: `acts` from a new coalescer, `s'` and `out`
where it ends. -/
structure TraceLaw (frameInterval : Int) (acts : List (Act α))
    (s' : Sys α) (out : List (AppEvent α)) : Prop where
  /-- Per key, what is emitted is a subsequence of what is passed. -/
  ordered : ∀ k,
    (forKey k (emitted out)).Sublist (forKey k (passed acts))
  /-- No passing of an event is emitted twice. -/
  once : (emitted out).Subperm (passed acts)
  /-- Every DELETED passed is emitted. -/
  deletes : (emitted out).filter (·.type = .deleted)
    = (passed acts).filter (·.type = .deleted)
  /-- A DELETED is emitted before any later event is passed, and what
  is emitted for its key behind it was passed behind it. -/
  behindDelete : ∀ pre d post, acts = pre ++ .emit d :: post →
    d.type = .deleted →
    ∃ s₁ out₁ out₂,
      run step (Sys.init frameInterval) pre = some (s₁, out₁)
      ∧ out = out₁ ++ .resourceEvent d :: out₂
      ∧ (forKey (eventKey d) (emitted out₂)).Sublist
          (forKey (eventKey d) (passed post))
  /-- What is emitted behind a `Clear` was passed behind it. -/
  behindClear : ∀ pre post, acts = pre ++ .clear :: post →
    ∃ s₁ out₁ out₂,
      run step (Sys.init frameInterval) pre = some (s₁, out₁)
      ∧ out = out₁ ++ out₂
      ∧ ∀ k, (forKey k (emitted out₂)).Sublist (forKey k (passed post))
  /-- Where a key's box is empty and nothing was cleared since its last
  event was passed, that event is the last one emitted. -/
  caughtUp : ∀ pre e post, acts = pre ++ .emit e :: post →
    forKey (eventKey e) (passed post) = [] → .clear ∉ post →
    s'.c.events.get (eventKey e) = none →
    (forKey (eventKey e) (emitted out)).getLast? = some e

/-- Per-key order gives at-most-once over all keys: an event has one
key. -/
theorem subperm_of_forKey {xs ys : List (ResourceEvent α)}
    (h : ∀ k, (forKey k xs).Sublist (forKey k ys)) : xs.Subperm ys := by
  classical
  rw [List.subperm_ext_iff]
  intro e _
  have hcount : ∀ zs : List (ResourceEvent α),
      zs.count e = (forKey (eventKey e) zs).count e := fun zs => by
    unfold forKey
    rw [List.count_filter (by simp)]
  rw [hcount xs, hcount ys]
  exact (h _).count_le e

/-- The event coalescer obeys the trace law: for every interleaving of
its critical sections, from any interval of at least a millisecond. -/
theorem trace_law {frameInterval : Int}
    (hfi : millisecond ≤ frameInterval) {acts : List (Act α)}
    {s' : Sys α} {out : List (AppEvent α)}
    (hrun : run step (Sys.init frameInterval) acts = some (s', out)) :
    TraceLaw frameInterval acts s' out := by
  have hs : Enabled (Sys.init frameInterval : Sys α) := enabled_init hfi
  have hinit : ∀ k, held k (Sys.init frameInterval : Sys α).c.events = [] :=
    fun k => held_empty k
  have hordered : ∀ k,
      (forKey k (emitted out)).Sublist (forKey k (passed acts)) := by
    intro k
    have hflow := run_flow hs hrun k
    rw [hinit, List.nil_append] at hflow
    exact (List.sublist_append_left ..).trans hflow
  refine ⟨hordered, subperm_of_forKey hordered, run_deleted hs hrun,
    ?_, ?_, ?_⟩
  · rintro pre d post rfl hd
    obtain ⟨s₁, out₁, _, hpre, hpost, rfl⟩ := run_append_iff.mp hrun
    obtain ⟨s₂, o, out₂, hstep, hrest, rfl⟩ := run_cons_iff.mp hpost
    have hs₁ := run_enabled hs hpre
    obtain ⟨rfl, hbox⟩ := step_emit_deleted hs₁ hd hstep
    have hflow := run_flow (step_enabled hs₁ hstep) hrest (eventKey d)
    rw [hbox, List.nil_append] at hflow
    exact ⟨s₁, out₁, out₂, hpre, rfl,
      (List.sublist_append_left ..).trans hflow⟩
  · rintro pre post rfl
    obtain ⟨s₁, out₁, _, hpre, hpost, rfl⟩ := run_append_iff.mp hrun
    obtain ⟨s₂, o, out₂, hstep, hrest, rfl⟩ := run_cons_iff.mp hpost
    have hs₁ := run_enabled hs hpre
    cases step_transition hstep with
    | clear =>
      refine ⟨s₁, out₁, out₂, hpre, rfl, fun k => ?_⟩
      have hflow := run_flow (step_enabled hs₁ hstep) hrest k
      have hbox : held k s₁.clear.c.events = [] := held_empty k
      rw [hbox, List.nil_append] at hflow
      exact (List.sublist_append_left ..).trans hflow
  · rintro pre e post rfl hpass hclear hget
    obtain ⟨s₁, out₁, _, hpre, hpost, rfl⟩ := run_append_iff.mp hrun
    obtain ⟨s₂, o, out₂, hstep, hrest, rfl⟩ := run_cons_iff.mp hpost
    have hs₁ := run_enabled hs hpre
    have hsettle := run_settles (step_enabled hs₁ hstep) hrest hclear hpass
    have hnone : held (eventKey e) s'.c.events = [] := by
      rw [held, hget]
      rfl
    rw [hnone, List.append_nil] at hsettle
    rw [emitted_append, emitted_append, forKey_append, forKey_append,
      hsettle]
    by_cases he : e.type = .deleted
    · obtain ⟨rfl, hbox⟩ := step_emit_deleted hs₁ he hstep
      rw [hbox, emitted_resourceEvent, forKey_singleton, if_pos rfl]
      simp
    · obtain ⟨rfl, hbox⟩ := step_emit_buffered hs₁ he hstep
      rw [hbox]
      simp

/-- The law on a run with a coalesced event, a DELETED and a flush. -/
theorem trace_law_frame :
    let ev (type : EventType) (name : String) : ResourceEvent Nat :=
      ⟨type, "pods", "default", ⟨some { name := some name }, 0⟩⟩
    let acts : List (Act Nat) :=
      [.emit (ev .added "a"), .emit (ev .modified "a"),
        .emit (ev .added "b"), .emit (ev .deleted "b"), .timerFires 0,
        .timerFlush 0 ["pods:default:a"]]
    ∃ s' out, run step (Sys.init (16 * millisecond)) acts = some (s', out)
      ∧ TraceLaw (16 * millisecond) acts s' out :=
  ⟨_, _, rfl, trace_law (by decide) rfl⟩

end Coalescer

namespace Coalescer

open Machine

variable {α : Type}

-- ======== the statement

/-- No `FlushNow` call and no timer's flush is in progress. -/
def Quiescent (s : Sys α) : Prop :=
  s.draining = 0 ∧ s.flushing = 0 ∧ ¬ Timers.Fired s.timers

/-- With no flush in progress, a nonempty buffer and a set flag each
have an armed timer. -/
structure NotStranded (s : Sys α) : Prop where
  buffered : Quiescent s → s.c.events.len ≠ 0 → Timers.Armed s.timers
  pending : Quiescent s → s.c.pending = true → Timers.Armed s.timers

/-- A flush is on its way: a timer, or a `FlushNow` call. -/
def FlushComing (s : Sys α) : Prop :=
  Timers.Armed s.timers ∨ Timers.Fired s.timers
    ∨ 0 < s.draining ∨ 0 < s.flushing

/-- A `FlushNow` call that is about to find the buffer empty returns
clean: the flag is down, or a timer or another call is still to
flush. -/
def ReturnsClean (s : Sys α) : Act α → Prop
  | .flushNowCheck =>
    0 < s.draining → s.c.events.len = 0 → s.c.pending = true →
      FlushComing { s with draining := s.draining - 1 }
  | _ => True

/-- What holds between the buffer, the flag and the timers as long as
`FlushNow` calls return clean. -/
structure TimerInv (s : Sys α) : Prop where
  flagged : s.c.events.len ≠ 0 → s.c.pending = true
  coming : s.c.pending = true → FlushComing s

theorem timerInv_init (frameInterval : Int) :
    TimerInv (Sys.init frameInterval : Sys α) where
  flagged h := absurd (EventBuffer.len_eq_zero.mpr EventBuffer.get_empty) h
  coming h := by cases h

/-- The invariant gives the statement: without a flush in progress what
is on its way is an armed timer. -/
theorem TimerInv.notStranded {s : Sys α} (hi : TimerInv s) :
    NotStranded s := by
  have harmed : Quiescent s → s.c.pending = true → Timers.Armed s.timers := by
    rintro ⟨hd, hf, hnf⟩ hp
    rcases hi.coming hp with ha | hfi | h | h
    · exact ha
    · exact absurd hfi hnf
    · omega
    · omega
  exact ⟨fun hq hlen => harmed hq (hi.flagged hlen), harmed⟩

-- ======== the operations

theorem len_drop_ne_zero {ks : List String} {b : EventBuffer α}
    (h : (b.drop ks).len ≠ 0) : b.len ≠ 0 := by
  intro hb
  refine h (EventBuffer.len_eq_zero.mpr fun k => ?_)
  rw [EventBuffer.get_drop, EventBuffer.len_eq_zero.mp hb k, ite_self]

theorem flushComing_arm (s : Sys α) : FlushComing s.arm :=
  Or.inl (Timers.armed_start ..)

/-- `Emit` keeps the invariant: it buffers only behind a running timer
or one it arms. -/
theorem emit_timerInv {s : Sys α} (hi : TimerInv s)
    (e : ResourceEvent α) : TimerInv (s.emit e).1 := by
  unfold Sys.emit
  split
  next => exact hi
  next =>
    split
    next => exact ⟨fun h => hi.flagged (len_drop_ne_zero h), hi.coming⟩
    next hdel =>
      dsimp only
      split
      next hp => exact ⟨fun _ => hp, hi.coming⟩
      next => exact ⟨fun _ => rfl, fun _ => flushComing_arm _⟩

/-- `flush` sets the invariant up from any state: it clears the flag or
arms a timer for what is left. -/
theorem flush_timerInv (s : Sys α) (order : List String) :
    TimerInv (s.flush order).1 := by
  unfold Sys.flush
  split
  next hlen => exact ⟨fun h => absurd hlen h, fun h => by cases h⟩
  next =>
    dsimp only
    split
    next hlen => exact ⟨fun h => absurd hlen h, fun h => by cases h⟩
    next => exact ⟨fun _ => rfl, fun _ => flushComing_arm _⟩

/-- Every step keeps the invariant, a `FlushNow` that returns as long
as it returns clean. -/
theorem step_timerInv {a : Act α} {s s' : Sys α} {o : List (AppEvent α)}
    (hi : TimerInv s) (hok : ReturnsClean s a)
    (h : step a s = some (s', o)) : TimerInv s' := by
  cases step_transition h with
  | emit e => exact emit_timerInv hi e
  | timerFires hf =>
    exact ⟨hi.flagged, fun _ => Or.inr (Or.inl (Timers.fired_of_fire hf))⟩
  | timerFlush _ _ => exact flush_timerInv ..
  | flushNow =>
    exact ⟨hi.flagged,
      fun _ => Or.inr (Or.inr (Or.inl (Nat.succ_pos _)))⟩
  | flushNowCheck hd =>
    unfold Sys.flushNowCheck
    split
    next hlen =>
      exact ⟨fun h => absurd hlen h, fun hp => hok hd hlen hp⟩
    next =>
      exact ⟨hi.flagged,
        fun _ => Or.inr (Or.inr (Or.inr (Nat.succ_pos _)))⟩
  | flushNowFlush _ _ => exact flush_timerInv ..
  | clear =>
    exact ⟨fun h => absurd (EventBuffer.len_eq_zero.mpr
      EventBuffer.get_empty) h, fun h => by cases h⟩
  | setFrameInterval _ => exact ⟨hi.flagged, hi.coming⟩
  | setMaxBatchSize _ => exact ⟨hi.flagged, hi.coming⟩

/-- A `FlushNow` that does not return clean leaves a flag that no timer
will clear. -/
theorem returnsClean_of_notStranded {a : Act α} {s s' : Sys α}
    {o : List (AppEvent α)} (h : step a s = some (s', o))
    (hs' : NotStranded s') : ReturnsClean s a := by
  cases step_transition h with
  | flushNowCheck hd =>
    intro _ hlen hp
    unfold Sys.flushNowCheck at hs'
    rw [if_pos hlen] at hs'
    by_contra hno
    simp only [FlushComing, not_or, Nat.not_lt, Nat.le_zero] at hno
    obtain ⟨hna, hnf, hd0, hf0⟩ := hno
    exact hna (hs'.pending ⟨hd0, hf0, hnf⟩ hp)
  | _ => trivial

-- ======== the result

/-- A run strands no event in any state it passes through exactly when
each of its `FlushNow` calls returns clean. -/
theorem notStranded_iff (frameInterval : Int) (acts : List (Act α)) :
    Visits step NotStranded (Sys.init frameInterval) acts
      ↔ Along step ReturnsClean (Sys.init frameInterval) acts :=
  visits_iff_along step_timerInv TimerInv.notStranded
    (fun _ h hs' => returnsClean_of_notStranded h hs')
    (timerInv_init frameInterval)

/-- An event nobody will flush: a DELETED empties the buffer under a
running timer, `FlushNow` stops that timer and finds nothing to drain,
and the next event waits for a timer that was never armed. -/
theorem flushNow_strands_event :
    let ev (type : EventType) (name : String) : ResourceEvent Nat :=
      ⟨type, "pods", "default", ⟨some { name := some name }, 0⟩⟩
    let acts : List (Act Nat) :=
      [.emit (ev .added "a"), .emit (ev .deleted "a"), .flushNow,
        .flushNowCheck, .emit (ev .added "b")]
    ∃ s out, run step (Sys.init (16 * millisecond)) acts = some (s, out)
      ∧ Quiescent s ∧ s.c.events.get "pods:default:b" = some (ev .added "b")
      ∧ ¬ Timers.Armed s.timers :=
  ⟨_, _, rfl, by unfold Quiescent; decide, by decide, by decide⟩

end Coalescer
