/-
When no emitter panics, and that none waits for ever.

Whoever waits in a `select` is in the queue of the channel (`Inv.parked`),
and the close of `done` empties it (`Inv.queue`). So the close of
`broadcast`, which comes behind it, meets nobody: what is left to panic is
an emitter that comes to its `select` later, and polls the send first
(`shutdown_iff`). Nobody waits behind the close of `done`, and nothing is
in the way of that close once the context is cancelled (`Served`).
-/
import Kubikles.Lib.Place
import Kubikles.Server.Shutdown

namespace Server

open Machine (Step run Along Visits)

variable {D : Type} {s s' : State D} {i j : Nat} {e x : Emitter D}

-- ======== the invariant

/-- What is known of the channels, the queue and those who wait. -/
structure Inv (s : State D) : Prop where
  closed : s.broadcast.closed = true ↔ s.run = .closed
  done : s.done = true ↔ s.run = .closing ∨ s.run = .closed
  parked : ∀ (i : Nat) (event : Event D),
    s.emitters[i]? = some (.parked event) → i ∈ s.sendq
  queue : s.done = true → s.sendq = []

def Calm (s : State D) : Prop :=
  ∀ i : Nat, s.emitters[i]? ≠ some .panicked

theorem wake_cases {queue : List Nat} {emitters : List (Emitter D)}
    (h : (queue.foldl (fun emitters i => emitters.set i e) emitters)[j]?
      = some x) :
    emitters[j]? = some x ∧ j ∉ queue ∨ x = e ∧ j ∈ queue := by
  induction queue generalizing emitters with
  | nil => exact .inl ⟨h, List.not_mem_nil⟩
  | cons k queue ih =>
    rcases ih h with ⟨hx, hj⟩ | ⟨hx, hj⟩
    · rcases Place.set_cases hx with ⟨rfl, rfl⟩ | ⟨hne, hx⟩
      · exact .inr ⟨rfl, List.mem_cons_self⟩
      · refine .inl ⟨hx, fun hmem => ?_⟩
        rcases List.mem_cons.mp hmem with rfl | hmem
        · exact hne rfl
        · exact hj hmem
    · exact .inr ⟨hx, List.mem_cons_of_mem _ hj⟩

theorem Inv.setEmitter (h : Inv s)
    (he : ∀ event, e ≠ .parked event) : Inv (s.setEmitter i e) where
  closed := h.closed
  done := h.done
  parked := by
    intro j event hj
    rcases Place.set_cases hj with ⟨-, heq⟩ | ⟨-, hj⟩
    · exact absurd heq.symm (he event)
    · exact h.parked j event hj
  queue := h.queue

theorem Calm.setEmitter (h : Calm s) (he : e ≠ .panicked) :
    Calm (s.setEmitter i e) := by
  intro j hj
  rcases Place.set_cases hj with ⟨-, heq⟩ | ⟨-, hj⟩
  · exact he heq.symm
  · exact h j hj

-- ======== the selects

/-- What a `select` comes to. -/
inductive Selects (s : State D) (i : Nat) (event : Event D) (first : Case) :
    State D → Prop where
  | panicked (hfirst : first = .send) (hclosed : s.broadcast.closed = true) :
      Selects s i event first (s.setEmitter i .panicked)
  | sent (broadcast : Chan (Event D))
      (hsend : s.broadcast.send event = .done broadcast) :
      Selects s i event first ({ s with broadcast }.setEmitter i .sent)
  | dropped (hdone : s.done = true) :
      Selects s i event first (s.setEmitter i .dropped)
  | parked (hopen : s.done = false) :
      Selects s i event first (s.park i event)

theorem selects_select (h : Inv s) (i : Nat) (event : Event D)
    (first : Case) : Selects s i event first (s.select i event first) := by
  have hclosed_done : s.broadcast.closed = true → s.done = true :=
    fun hc => h.done.mpr (.inr (h.closed.mp hc))
  cases hsend : s.broadcast.send event with
  | panic =>
    have hclosed := (Chan.send_panic_iff _ _).mp hsend
    cases first with
    | send =>
      have heq : s.select i event .send = s.setEmitter i .panicked := by
        simp [State.select, State.pollSend, hsend]
      rw [heq]
      exact .panicked rfl hclosed
    | done =>
      have heq : s.select i event .done = s.setEmitter i .dropped := by
        simp [State.select, State.pollDone, hclosed_done hclosed]
      rw [heq]
      exact .dropped (hclosed_done hclosed)
  | done broadcast =>
    have hsent : Selects s i event first
        ({ s with broadcast }.setEmitter i .sent) := .sent broadcast hsend
    cases first with
    | send =>
      have heq : s.select i event .send
          = { s with broadcast }.setEmitter i .sent := by
        simp [State.select, State.pollSend, hsend]
      rw [heq]
      exact hsent
    | done =>
      by_cases hdone : s.done = true
      · have heq : s.select i event .done
            = s.setEmitter i .dropped := by
          simp [State.select, State.pollDone, hdone]
        rw [heq]
        exact .dropped hdone
      · have heq : s.select i event .done
            = { s with broadcast }.setEmitter i .sent := by
          simp [State.select, State.pollDone, State.pollSend, hdone,
            hsend]
        rw [heq]
        exact hsent
  | blocked =>
    by_cases hdone : s.done = true
    · have heq : s.select i event first = s.setEmitter i .dropped := by
        cases first <;>
          simp [State.select, State.pollDone, State.pollSend, hdone,
            hsend]
      rw [heq]
      exact .dropped hdone
    · have heq : s.select i event first = s.park i event := by
        cases first <;>
          simp [State.select, State.pollDone, State.pollSend, hdone,
            hsend]
      rw [heq]
      exact .parked (Bool.eq_false_iff.mpr hdone)

theorem Inv.selects {event : Event D} {first : Case} (h : Inv s)
    (hs : Selects s i event first s') : Inv s' := by
  cases hs with
  | panicked => exact h.setEmitter fun event heq => by cases heq
  | sent broadcast hsend =>
    have hclosed := Chan.send_closed hsend
    have h' : Inv { s with broadcast } :=
      ⟨by rw [← h.closed, ← hclosed], h.done, h.parked, h.queue⟩
    exact h'.setEmitter fun event heq => by cases heq
  | dropped => exact h.setEmitter fun event heq => by cases heq
  | parked hopen =>
    refine ⟨h.closed, h.done, ?_, ?_⟩
    · intro j event' hj
      rcases Place.set_cases hj with ⟨rfl, -⟩ | ⟨-, hj⟩
      · exact List.mem_append_right _ List.mem_cons_self
      · exact List.mem_append_left _ (h.parked j event' hj)
    · intro hdone
      rw [show (s.park i event).done = s.done from rfl, hopen] at hdone
      cases hdone

theorem Calm.selects {event : Event D} {first : Case} (h : Calm s)
    (hs : Selects s i event first s')
    (hok : first = .send → s.broadcast.closed = false) : Calm s' := by
  cases hs with
  | panicked hfirst hclosed =>
    rw [hok hfirst] at hclosed
    cases hclosed
  | sent broadcast =>
    have h' : Calm { s with broadcast } := h
    exact h'.setEmitter fun heq => by cases heq
  | dropped => exact h.setEmitter fun heq => by cases heq
  | parked =>
    have h' : Calm { s with sendq := s.sendq ++ [i] } := h
    exact h'.setEmitter fun heq => by cases heq

-- ======== the closes

theorem inv_closeDone (h : Inv s) (hrun : s.run = .serving) :
    Inv s.closeDone where
  closed := by
    show s.broadcast.closed = true ↔ RunPhase.closing = .closed
    rw [h.closed, hrun]
    exact ⟨fun heq => (by cases heq), fun heq => (by cases heq)⟩
  done := ⟨fun _ => .inl rfl, fun _ => rfl⟩
  parked := by
    intro j event hj
    rcases wake_cases hj with ⟨hj, hqueue⟩ | ⟨heq, -⟩
    · exact absurd (h.parked j event hj) hqueue
    · cases heq
  queue := fun _ => rfl

theorem calm_closeDone (h : Calm s) : Calm s.closeDone := by
  intro j hj
  rcases wake_cases hj with ⟨hj, -⟩ | ⟨heq, -⟩
  · exact h j hj
  · cases heq

theorem emitters_closeBroadcast (h : Inv s) (hrun : s.run = .closing) :
    s.closeBroadcast.emitters = s.emitters := by
  show s.sendq.foldl (fun emitters i => emitters.set i .panicked) s.emitters
    = _
  rw [h.queue (h.done.mpr (.inl hrun))]
  rfl

theorem inv_closeBroadcast (h : Inv s) (hrun : s.run = .closing) :
    Inv s.closeBroadcast where
  closed := ⟨fun _ => rfl, fun _ => rfl⟩
  done := ⟨fun _ => .inr rfl, fun _ => h.done.mpr (.inl hrun)⟩
  parked := by
    intro j event hj
    rw [emitters_closeBroadcast h hrun] at hj
    have hmem := h.parked j event hj
    rw [h.queue (h.done.mpr (.inl hrun))] at hmem
    cases hmem
  queue := fun _ => rfl

-- ======== the handler

theorem inv_handOver (h : Inv s) : Inv s.handOver := by
  unfold State.handOver
  split
  · exact h
  next i sendq hqueue =>
    split
    next event hi =>
      refine ⟨h.closed, h.done, ?_, ?_⟩
      · intro j event' hj
        rcases Place.set_cases hj with ⟨-, heq⟩ | ⟨hne, hj⟩
        · cases heq
        · have hmem := h.parked j event' hj
          rw [hqueue] at hmem
          rcases List.mem_cons.mp hmem with rfl | hmem
          · exact absurd rfl hne
          · exact hmem
      · intro hdone
        have hnil := h.queue hdone
        rw [hqueue] at hnil
        cases hnil
    next => exact h

theorem calm_handOver (h : Calm s) : Calm s.handOver := by
  unfold State.handOver
  split
  · exact h
  next i sendq hqueue =>
    split
    next event hi =>
      intro j hj
      rcases Place.set_cases hj with ⟨-, heq⟩ | ⟨-, hj⟩
      · cases heq
      · exact h j hj
    next => exact h

-- ======== one step

def PollsOpen (s : State D) : Action D → Prop
  | .select _ .send => s.broadcast.closed = false
  | _ => True

theorem inv_step {a : Action D} {o : List Unit} (h : Inv s)
    (hstep : step a s = some (s', o)) : Inv s' := by
  cases a with
  | start =>
    simp only [step] at hstep
    split at hstep
    next hidle =>
      cases hstep
      refine ⟨?_, ?_, h.parked, h.queue⟩
      · show s.broadcast.closed = true ↔ RunPhase.serving = .closed
        rw [h.closed, hidle]
        exact ⟨fun heq => (by cases heq), fun heq => (by cases heq)⟩
      · show s.done = true ↔ RunPhase.serving = .closing
          ∨ RunPhase.serving = .closed
        rw [h.done, hidle]
        simp
    next => cases hstep
  | cancel =>
    cases hstep
    exact ⟨h.closed, h.done, h.parked, h.queue⟩
  | run =>
    simp only [step] at hstep
    split at hstep
    next hrun =>
      split at hstep
      · cases hstep
        exact inv_closeDone h hrun
      · cases hstep
    next hrun =>
      cases hstep
      exact inv_closeBroadcast h hrun
    next => cases hstep
  | handle =>
    simp only [step] at hstep
    split at hstep
    · split at hstep
      next event broadcast hreceive =>
        cases hstep
        have hclosed := Chan.receive_closed hreceive
        have h' : Inv { s with broadcast, handler := .writing event } :=
          ⟨by rw [← h.closed, ← hclosed], h.done, h.parked, h.queue⟩
        exact inv_handOver h'
      · cases hstep
        exact ⟨h.closed, h.done, h.parked, h.queue⟩
      · cases hstep
    · cases hstep
      exact ⟨h.closed, h.done, h.parked, h.queue⟩
    · cases hstep
  | emitEvent name data =>
    cases hstep
    refine ⟨h.closed, h.done, ?_, h.queue⟩
    intro j event hj
    rcases Place.append_cases hj with hj | ⟨-, heq⟩
    · exact h.parked j event hj
    · cases heq
  | select i first =>
    simp only [step] at hstep
    split at hstep
    next event hi =>
      cases hstep
      exact h.selects (selects_select h i event first)
    next => cases hstep

/-- A step at which no send is polled first on a closed channel makes nobody
panic. -/
theorem calm_step {a : Action D} {o : List Unit} (h : Inv s)
    (hcalm : Calm s) (hok : PollsOpen s a)
    (hstep : step a s = some (s', o)) : Calm s' := by
  cases a with
  | start =>
    simp only [step] at hstep
    split at hstep
    · cases hstep
      exact hcalm
    · cases hstep
  | cancel =>
    cases hstep
    exact hcalm
  | run =>
    simp only [step] at hstep
    split at hstep
    · split at hstep
      · cases hstep
        exact calm_closeDone hcalm
      · cases hstep
    next hrun =>
      cases hstep
      intro j hj
      rw [emitters_closeBroadcast h hrun] at hj
      exact hcalm j hj
    · cases hstep
  | handle =>
    simp only [step] at hstep
    split at hstep
    · split at hstep
      next event broadcast _ =>
        cases hstep
        have h' : Calm { s with broadcast, handler := .writing event } :=
          hcalm
        exact calm_handOver h'
      · cases hstep
        exact hcalm
      · cases hstep
    · cases hstep
      exact hcalm
    · cases hstep
  | emitEvent name data =>
    cases hstep
    intro j hj
    rcases Place.append_cases hj with hj | ⟨-, heq⟩
    · exact hcalm j hj
    · cases heq
  | select i first =>
    simp only [step] at hstep
    split at hstep
    next event hi =>
      cases hstep
      refine hcalm.selects (selects_select h i event first) ?_
      intro hfirst
      subst hfirst
      exact hok
    next => cases hstep

theorem panics_of_closed {i : Nat} {o : List Unit}
    (hclosed : s.broadcast.closed = true)
    (hstep : step (.select i .send) s = some (s', o)) :
    s'.emitters[i]? = some .panicked := by
  simp only [step] at hstep
  split at hstep
  next event hi =>
    cases hstep
    have hsend := (Chan.send_panic_iff event s.broadcast).mpr hclosed
    have heq : s.select i event .send = s.setEmitter i .panicked := by
      simp [State.select, State.pollSend, hsend]
    rw [heq]
    exact Place.set_self hi
  next => cases hstep

-- ======== whole runs

/-- Nobody waits for ever: a cancelled `Run` closes `done`, behind which
nobody waits, and who comes to a `select` goes on from it. -/
structure Served (s : State D) : Prop where
  closes : s.run = .serving → s.cancelled = true →
    ∃ s', step .run s = some (s', []) ∧ s'.done = true
  woken : s.done = true → ∀ (i : Nat) (event : Event D),
    s.emitters[i]? ≠ some (.parked event)
  passes : s.done = true → ∀ (i : Nat) (event : Event D) (first : Case),
    s.emitters[i]? = some (.calling event) →
      ∃ s', step (.select i first) s = some (s', [])
        ∧ ∀ event', s'.emitters[i]? ≠ some (.parked event')

theorem Inv.served (h : Inv s) : Served s where
  closes := by
    intro hrun hcancelled
    refine ⟨s.closeDone, ?_, rfl⟩
    simp only [step, hrun]
    rw [if_pos hcancelled]
  woken := by
    intro hdone i event hi
    have hmem := h.parked i event hi
    rw [h.queue hdone] at hmem
    cases hmem
  passes := by
    intro hdone i event first hi
    have hselects := selects_select h i event first
    refine ⟨s.select i event first, by simp only [step, hi], ?_⟩
    intro event' hi'
    have hmem := (h.selects hselects).parked i event' hi'
    have hqueue : (s.select i event first).sendq = [] := by
      refine (h.selects hselects).queue ?_
      generalize s.select i event first = s' at hselects
      cases hselects <;> exact hdone
    rw [hqueue] at hmem
    cases hmem

theorem inv_init : Inv ({} : State D) where
  closed := ⟨fun h => (by cases h), fun h => (by cases h)⟩
  done :=
    ⟨fun h => (by cases h), fun h => (by rcases h with h | h <;> cases h)⟩
  parked := fun i event h => by cases h
  queue := fun h => by cases h

/-- The shutdown is safe for emitters in the runs in which no emitter comes
to its `select` behind the close of `broadcast` and polls the send first,
and in no others; and in no run does one wait for ever. -/
theorem shutdown_iff (acts : List (Action D)) :
    Visits step (fun s : State D => Calm s ∧ Served s) {} acts
      ↔ Along step PollsOpen ({} : State D) acts := by
  have hinv : Inv ({} : State D) ∧ Calm ({} : State D) :=
    ⟨inv_init, fun i h => by cases h⟩
  refine Machine.visits_iff_along (I := fun s => Inv s ∧ Calm s)
    ?_ ?_ ?_ hinv
  · intro a s s' o h hok hstep
    exact ⟨inv_step h.1 hstep, calm_step h.1 h.2 hok hstep⟩
  · intro s h
    exact ⟨h.2, h.1.served⟩
  · intro a s s' o h hstep hsafe
    cases a with
    | select i first =>
      cases first with
      | send =>
        by_contra hclosed
        have hclosed : s.broadcast.closed = true := by
          cases hc : s.broadcast.closed with
          | true => rfl
          | false => exact absurd hc hclosed
        exact hsafe.1 i (panics_of_closed hclosed hstep)
      | done => trivial
    | _ => trivial

/-- An emitter that comes to its `select` behind the shutdown may panic. -/
theorem late_emitter_panics :
    ¬ ∀ (acts : List (Action Nat)) (s' : State Nat) (o : List Unit),
      run step {} acts = some (s', o) →
        ∀ i : Nat, s'.emitters[i]? ≠ some .panicked := by
  intro h
  refine h [.start, .cancel, .run, .run, .emitEvent "ai:response" 0,
    .select 0 .send] _ _ rfl 0 ?_
  rfl

end Server
