/-
The guard of credential plugins throttles them.

A caller waits for an attempt that was in flight when it had the lock, so
a nil that it returns is that of a probe that ran during its call
(`joined`). None of its steps touches an attempt in flight
(`Moves.caller_frame`). Each of them brings it nearer to its end, and one
can be taken unless it waits for an attempt in flight, so it returns in
every behaviour that is fair, if the probe does (`returns`).
-/
import Kubikles.Auth.Proofs.Attempts
import Mathlib.Data.List.Induction

namespace ExecAuth

open Machine

variable {s s' : State} {o : List Unit}

-- ======== calls

def OwnStep (i : Nat) (act : Action) : Prop :=
  act = .context i ∨ act = .lock i ∨ act = .done i ∨ act = .attempted i

def CallPhase.rank : CallPhase → Nat
  | .called => 3
  | .locking => 2
  | .waiting _ => 1
  | .returned _ => 0

def State.At (s : State) (i : Nat) (phase : CallPhase) : Prop :=
  ∃ ctx, s.calls[i]? = some ⟨ctx, phase⟩

theorem State.at_setCall {i : Nat} {c c' : Call}
    (h : s.calls[i]? = some c') : (s.setCall i c).At i c.phase := by
  refine ⟨c.ctx, ?_⟩
  show (s.calls.set i c)[i]? = _
  rw [List.getElem?_set_self (List.getElem?_eq_some_iff.mp h).1]

theorem State.at_setCall_of_ne {i j : Nat} {c : Call} {phase : CallPhase}
    (hne : j ≠ i) (h : s.At i phase) : (s.setCall j c).At i phase := by
  obtain ⟨ctx, hcall⟩ := h
  refine ⟨ctx, ?_⟩
  show (s.calls.set j c)[i]? = _
  rw [List.getElem?_set_ne hne, hcall]

/-- What a step makes of a call: one of its own brings it on, and another
one leaves it where it is. -/
theorem Moves.at_call {act : Action} (h : Moves s act s') {i : Nat}
    {phase : CallPhase} (hat : s.At i phase) :
    s'.At i phase ∧ ¬OwnStep i act ∨
      OwnStep i act ∧ ∃ phase', s'.At i phase' ∧
        phase'.rank < phase.rank := by
  have hphase {j : Nat} {c : Call} (hcall : s.calls[j]? = some c)
      (hj : j = i) : phase = c.phase := by
    obtain ⟨ctx, hat⟩ := hat
    rw [hj, hat] at hcall
    cases hcall
    rfl
  have hown {j : Nat} {c c' : Call} (hcall : s.calls[j]? = some c)
      (hrank : c'.phase.rank < c.phase.rank)
      (hj : OwnStep j act) (hne : j ≠ i → ¬OwnStep i act) :
      (s.setCall j c').At i phase ∧ ¬OwnStep i act ∨
        OwnStep i act ∧ ∃ phase', (s.setCall j c').At i phase' ∧
          phase'.rank < phase.rank := by
    by_cases hji : j = i
    · subst hji
      refine .inr ⟨hj, c'.phase, State.at_setCall hcall, ?_⟩
      rw [hphase hcall rfl]
      exact hrank
    · exact .inl ⟨State.at_setCall_of_ne hji hat, hne hji⟩
  cases h with
  | tick => exact .inl ⟨hat, by simp [OwnStep]⟩
  | call ctx =>
    obtain ⟨ctx', hcall⟩ := hat
    refine .inl ⟨⟨ctx', ?_⟩, by simp [OwnStep]⟩
    show (s.calls ++ _)[i]? = _
    rw [List.getElem?_append_left (List.getElem?_eq_some_iff.mp hcall).1,
      hcall]
  | @cancel j err phase' hcall =>
    refine .inl ⟨?_, by simp [OwnStep]⟩
    by_cases hji : j = i
    · rw [hphase hcall hji]
      subst hji
      exact State.at_setCall hcall
    · exact State.at_setCall_of_ne hji hat
  | @cancelled j err hcall =>
    refine hown hcall (Nat.succ_pos _) (.inl rfl) fun hne => ?_
    simpa [OwnStep] using hne
  | @live j hcall =>
    refine hown hcall (by decide) (.inl rfl) fun hne => ?_
    simpa [OwnStep] using hne
  | @paused j ctx err hcall =>
    refine hown hcall (Nat.succ_pos _) (.inr (.inl rfl)) fun hne => ?_
    simpa [OwnStep] using hne
  | @joined j ctx a hcall hin =>
    refine hown hcall (Nat.lt_succ_self 1) (.inr (.inl rfl))
      fun hne => ?_
    simpa [OwnStep] using hne
  | @started j ctx hcall hin hlate =>
    refine hown hcall (Nat.lt_succ_self 1) (.inr (.inl rfl))
      fun hne => ?_
    simpa [OwnStep] using hne
  | @done j err a hcall =>
    refine hown hcall (Nat.lt_succ_self 0) (.inr (.inr (.inl rfl)))
      fun hne => ?_
    simpa [OwnStep] using hne
  | @attempted j ctx a err time hcall hended =>
    refine hown hcall (Nat.lt_succ_self 0) (.inr (.inr (.inr rfl)))
      fun hne => ?_
    simpa [OwnStep] using hne
  | probe => exact .inl ⟨hat, by simp [OwnStep]⟩
  | publish => exact .inl ⟨hat, by simp [OwnStep]⟩

theorem State.at_setCall_inv {i j : Nat} {c : Call} {phase : CallPhase}
    (h : (s.setCall j c).At i phase) :
    j = i ∧ phase = c.phase ∨ s.At i phase := by
  obtain ⟨ctx, hcall⟩ := h
  change (s.calls.set j c)[i]? = _ at hcall
  rw [List.getElem?_set] at hcall
  split at hcall
  next heq =>
    split at hcall
    next =>
      cases hcall
      exact .inl ⟨heq, rfl⟩
    next => cases hcall
  next => exact .inr ⟨ctx, hcall⟩

/-- How a call has come where it is: it waits for an attempt that was in
flight when it came to wait, and a nil is that of an attempt it waited
for. -/
structure Arrives (s s' : State) (i : Nat) : Prop where
  waiting : ∀ a, s'.At i (.waiting a) →
    s.At i (.waiting a) ∨ s'.Running a
  nil : s'.At i (.returned none) →
    s.At i (.returned none) ∨
      ∃ a time, s.At i (.waiting a) ∧ s.Ended a none time

theorem Arrives.same {i : Nat} (h : s'.calls = s.calls) :
    Arrives s s' i where
  waiting a hat := by
    unfold State.At at hat ⊢
    rw [h] at hat
    exact .inl hat
  nil hat := by
    unfold State.At at hat ⊢
    rw [h] at hat
    exact .inl hat

theorem Arrives.set {i j : Nat} {c : Call}
    (hwaiting : ∀ a, c.phase ≠ .waiting a)
    (hnil : c.phase ≠ .returned none) : Arrives s (s.setCall j c) i where
  waiting a hat := by
    rcases State.at_setCall_inv hat with ⟨-, h⟩ | h
    · exact absurd h.symm (hwaiting a)
    · exact .inl h
  nil hat := by
    rcases State.at_setCall_inv hat with ⟨-, h⟩ | h
    · exact absurd h.symm hnil
    · exact .inl h

theorem Moves.arrives (hi : Inv s) {act : Action} (h : Moves s act s')
    (i : Nat) : Arrives s s' i := by
  have hi' : Inv s' := hi.moves h
  cases h with
  | tick => exact .same rfl
  | call ctx =>
    have hback {phase : CallPhase} (hne : phase ≠ .called)
        (hat : State.At { s with calls := s.calls ++ [⟨ctx, .called⟩] }
          i phase) : s.At i phase := by
      obtain ⟨ctx', hcall⟩ := hat
      change (s.calls ++ [Call.mk ctx .called])[i]? = _ at hcall
      rcases Nat.lt_or_ge i s.calls.length with hlt | hge
      · rw [List.getElem?_append_left hlt] at hcall
        exact ⟨ctx', hcall⟩
      · rw [List.getElem?_append_right hge] at hcall
        cases hk : i - s.calls.length with
        | zero =>
          rw [hk] at hcall
          cases hcall
          exact absurd rfl hne
        | succ k =>
          rw [hk] at hcall
          cases hcall
    exact ⟨fun a hat => .inl (hback nofun hat),
      fun hat => .inl (hback nofun hat)⟩
  | @cancel j err phase hcall =>
    have hback {phase' : CallPhase}
        (hat : (s.setCall j ⟨some err, phase⟩).At i phase') :
        s.At i phase' := by
      rcases State.at_setCall_inv hat with ⟨heq, h⟩ | h
      · subst heq
        subst h
        exact ⟨none, hcall⟩
      · exact h
    exact ⟨fun a hat => .inl (hback hat), fun hat => .inl (hback hat)⟩
  | cancelled => exact .set nofun nofun
  | live => exact .set nofun nofun
  | paused => exact .set nofun nofun
  | @joined j ctx a hcall hin =>
    refine ⟨fun a' hat => ?_, fun hat => ?_⟩
    · rcases State.at_setCall_inv hat with ⟨-, h⟩ | h
      · cases h
        exact .inr ((hi.inFlight a).mp hin).2
      · exact .inl h
    · rcases State.at_setCall_inv hat with ⟨-, h⟩ | h
      · cases h
      · exact .inl h
  | @started j ctx hcall hin hlate =>
    refine ⟨fun a' hat => ?_, fun hat => ?_⟩
    · rcases State.at_setCall_inv hat with ⟨-, h⟩ | h
      · cases h
        exact .inr ((hi'.inFlight _).mp rfl).2
      · exact .inl h
    · rcases State.at_setCall_inv hat with ⟨-, h⟩ | h
      · cases h
      · exact .inl h
  | done => exact .set nofun nofun
  | @attempted j ctx a err time hcall hended =>
    refine ⟨fun a' hat => ?_, fun hat => ?_⟩
    · rcases State.at_setCall_inv hat with ⟨-, h⟩ | h
      · cases h
      · exact .inl h
    · rcases State.at_setCall_inv hat with ⟨heq, h⟩ | h
      · subst heq
        cases err with
        | none => exact .inr ⟨a, time, ⟨ctx, hcall⟩, hended⟩
        | some err => cases h
      · exact .inl h
  | probe => exact .same rfl
  | publish => exact .same rfl

def RanDuring (acts : List Action) (i a : Nat) : Prop :=
  ∃ pre post mid out, acts = pre ++ post ∧
    run step {} pre = some (mid, out) ∧ mid.Running a ∧
    ∃ phase, mid.At i phase ∧ ∀ result, phase ≠ .returned result

theorem RanDuring.append {acts : List Action} {i a : Nat}
    (h : RanDuring acts i a) (more : List Action) :
    RanDuring (acts ++ more) i a := by
  obtain ⟨pre, post, mid, out, rfl, hrest⟩ := h
  exact ⟨pre, post ++ more, mid, out, List.append_assoc .., hrest⟩

/-- What a call waits for was in flight during the call, and so was what a
nil came of. -/
theorem joined {acts : List Action} {out : List Unit}
    (hrun : run step {} acts = some (s, out)) (i : Nat) :
    (∀ a, s.At i (.waiting a) → RanDuring acts i a) ∧
      (s.At i (.returned none) →
        ∃ a time, s.Ended a none time ∧ RanDuring acts i a) := by
  induction acts using List.reverseRecOn generalizing s out with
  | nil =>
    cases hrun
    constructor
    · rintro a ⟨ctx, h⟩
      cases h
    · rintro ⟨ctx, h⟩
      cases h
  | append_singleton acts act ih =>
    obtain ⟨mid, out₁, out₂, hpre, hlast, rfl⟩ := run_append_iff.mp hrun
    obtain ⟨_, out₃, out₄, hstep, hnil, -⟩ := run_cons_iff.mp hlast
    cases hnil
    have hi := inv_of_run hpre
    have hmoves := moves_of_step hstep
    obtain ⟨hwaiting, hreturned⟩ := ih hpre
    constructor
    · intro a hat
      rcases (hmoves.arrives hi i).waiting a hat with h | h
      · exact (hwaiting a h).append [act]
      · exact ⟨acts ++ [act], [], s, _, (List.append_nil _).symm, hrun,
          h, .waiting a, hat, nofun⟩
    · intro hat
      rcases (hmoves.arrives hi i).nil hat with h | ⟨a, time, h, hended⟩
      · obtain ⟨a, time, hended, hran⟩ := hreturned h
        exact ⟨a, time, hmoves.ended hended, hran.append [act]⟩
      · exact ⟨a, time, hmoves.ended hended, (hwaiting a h).append [act]⟩

-- ======== callers

/-- A caller's steps, and the cancelling of its context, leave an attempt
in flight alone. -/
theorem Moves.caller_frame (hi : Inv s) {act : Action}
    (h : Moves s act s') {i a : Nat}
    (hact : OwnStep i act ∨ ∃ err, act = .cancel i err)
    (hrun : s.Running a) :
    s'.attempts = s.attempts ∧ s'.inFlight = s.inFlight := by
  cases h with
  | started hcall hin =>
    rw [(hi.running hrun).2] at hin
    cases hin
  | probe => simp [OwnStep] at hact
  | publish => simp [OwnStep] at hact
  | _ => exact ⟨rfl, rfl⟩

theorem enabled_of_called {i : Nat} (h : s.At i .called) :
    ∃ act, OwnStep i act ∧ (step act s).isSome := by
  obtain ⟨ctx, hcall⟩ := h
  refine ⟨.context i, .inl rfl, ?_⟩
  cases ctx with
  | none => simp [step, hcall]
  | some err => simp [step, hcall]

theorem enabled_of_locking {i : Nat} (h : s.At i .locking) :
    ∃ act, OwnStep i act ∧ (step act s).isSome := by
  obtain ⟨ctx, hcall⟩ := h
  exact ⟨.lock i, .inr (.inl rfl), by simp [step, hcall]⟩

theorem enabled_of_ended {i a : Nat} {err : Option String} {time : Nat}
    (h : s.At i (.waiting a)) (hended : s.Ended a err time) :
    ∃ act, OwnStep i act ∧ (step act s).isSome := by
  obtain ⟨ctx, hcall⟩ := h
  obtain ⟨⟨started, phase⟩, hattempt, hpublished⟩ := hended
  cases hpublished
  exact ⟨.attempted i, .inr (.inr (.inr rfl)),
    by simp [step, hcall, hattempt]⟩

theorem Moves.returned {act : Action} (h : Moves s act s') {a : Nat}
    {started : Nat} {err : Option String}
    (hreturned : s.attempts[a]? = some ⟨started, .returned err⟩) :
    s'.attempts[a]? = some ⟨started, .returned err⟩ ∧ act ≠ .publish a ∨
      ∃ err time, s'.Ended a err time := by
  cases h with
  | @probe b started' err' hprobing =>
    refine .inl ⟨?_, nofun⟩
    have hne : b ≠ a := by
      rintro rfl
      rw [hreturned] at hprobing
      cases hprobing
    show (s.attempts.set b _)[a]? = _
    rw [List.getElem?_set_ne hne, hreturned]
  | @publish b started' err' hreturned' =>
    by_cases hba : b = a
    · subst hba
      refine .inr ⟨err', s.now, ⟨started', .published err' s.now⟩, ?_,
        rfl⟩
      show (s.attempts.set b _)[b]? = _
      rw [List.getElem?_set_self
        (List.getElem?_eq_some_iff.mp hreturned).1]
    · refine .inl ⟨?_, by simpa using hba⟩
      show (s.attempts.set b _)[a]? = _
      rw [List.getElem?_set_ne hba, hreturned]
  | started =>
    refine .inl ⟨?_, nofun⟩
    show (s.attempts ++ _)[a]? = _
    rw [List.getElem?_append_left
      (List.getElem?_eq_some_iff.mp hreturned).1, hreturned]
  | _ => exact .inl ⟨hreturned, nofun⟩

section Liveness

variable (b : Behaviour step {}) {i : Nat}

theorem at_later {n m : Nat} (hle : n ≤ m) {phase : CallPhase}
    (h : (b.state n).At i phase) :
    (b.state m).At i phase ∨
      ∃ phase', (b.state m).At i phase' ∧ phase'.rank < phase.rank := by
  induction hle with
  | refl => exact .inl h
  | @step m _ ih =>
    have hmoves := moves_of_step (b.next m)
    rcases ih with hat | ⟨phase', hat, hrank⟩
    · rcases hmoves.at_call hat with ⟨hat', -⟩ | ⟨-, hlater⟩
      · exact .inl hat'
      · exact .inr hlater
    · rcases hmoves.at_call hat with ⟨hat', -⟩ | ⟨-, phase'', h, hlt⟩
      · exact .inr ⟨phase', hat', hrank⟩
      · exact .inr ⟨phase'', h, Nat.lt_trans hlt hrank⟩

theorem ended_of_returned {a n : Nat} {started : Nat}
    {err : Option String} (hfair : b.Fair fun act => act = .publish a)
    (h : (b.state n).attempts[a]? = some ⟨started, .returned err⟩) :
    ∃ m, n ≤ m ∧ ∃ err time, (b.state m).Ended a err time := by
  refine b.leads_to
    (fun s => s.attempts[a]? = some ⟨started, .returned err⟩)
    (fun s => ∃ err time, s.Ended a err time) hfair ?_ ?_ ?_ h
  · intro s act s' o hstep hreturned
    exact ((moves_of_step hstep).returned hreturned).imp_left And.left
  · intro s hreturned
    exact ⟨.publish a, rfl, by simp [step, hreturned]⟩
  · intro s act s' o hstep hact hreturned
    rcases (moves_of_step hstep).returned hreturned with ⟨-, hne⟩ | hended
    · exact absurd hact hne
    · exact hended

theorem goes_on (hfair : b.Fair (OwnStep i)) {n : Nat}
    {phase : CallPhase} {R : State → Prop}
    (hkeeps : ∀ s act s' o, step act s = some (s', o) → R s → R s')
    (henabled : ∀ s, s.At i phase → R s →
      ∃ act, OwnStep i act ∧ (step act s).isSome)
    (hat : (b.state n).At i phase) (hR : R (b.state n)) :
    ∃ m, n ≤ m ∧ ∃ phase', (b.state m).At i phase' ∧
      phase'.rank < phase.rank := by
  refine b.leads_to (fun s => s.At i phase ∧ R s)
    (fun s => ∃ phase', s.At i phase' ∧ phase'.rank < phase.rank) hfair
    ?_ ?_ ?_ ⟨hat, hR⟩
  · rintro s act s' o hstep ⟨hat, hR⟩
    rcases (moves_of_step hstep).at_call hat with ⟨hat', -⟩ | ⟨-, hlater⟩
    · exact .inl ⟨hat', hkeeps s act s' o hstep hR⟩
    · exact .inr hlater
  · rintro s ⟨hat, hR⟩
    exact henabled s hat hR
  · rintro s act s' o hstep hact ⟨hat, -⟩
    rcases (moves_of_step hstep).at_call hat with ⟨-, hnot⟩ | ⟨-, hlater⟩
    · exact absurd hact hnot
    · exact hlater

/-- In a behaviour that is fair to it and to the attempts, a call returns
if the probe that it waits for does. -/
theorem returns (hfair : b.Fair (OwnStep i))
    (hpublish : ∀ a, b.Fair fun act => act = .publish a)
    (hprobe : ∀ n a, (b.state n).At i (.waiting a) →
      ∃ (m : Nat) (attempt : Attempt),
        (b.state m).attempts[a]? = some attempt ∧ attempt.phase ≠ .probing)
    {n : Nat} {phase : CallPhase} (hat : (b.state n).At i phase) :
    ∃ m, n ≤ m ∧ ∃ result, (b.state m).At i (.returned result) := by
  induction hrank : phase.rank using Nat.strongRecOn
    generalizing n phase with
  | ind rank ih =>
    have hnext (hlater : ∃ m, n ≤ m ∧ ∃ phase', (b.state m).At i phase' ∧
        phase'.rank < phase.rank) :
        ∃ m, n ≤ m ∧ ∃ result, (b.state m).At i (.returned result) := by
      obtain ⟨m, hm, phase', hat', hlt⟩ := hlater
      obtain ⟨k, hk, hreturned⟩ :=
        ih phase'.rank (hrank ▸ hlt) hat' rfl
      exact ⟨k, Nat.le_trans hm hk, hreturned⟩
    cases phase with
    | called =>
      exact hnext (goes_on b hfair (R := fun _ => True)
        (fun _ _ _ _ _ _ => trivial)
        (fun s hat _ => enabled_of_called hat) hat trivial)
    | locking =>
      exact hnext (goes_on b hfair (R := fun _ => True)
        (fun _ _ _ _ _ _ => trivial)
        (fun s hat _ => enabled_of_locking hat) hat trivial)
    | waiting a =>
      obtain ⟨m, ⟨started, phase⟩, hattempt, hphase⟩ := hprobe n a hat
      have hended : ∃ k err time, (b.state k).Ended a err time := by
        cases phase with
        | probing => exact absurd rfl hphase
        | returned err =>
          obtain ⟨k, -, err, time, hended⟩ :=
            ended_of_returned b (hpublish a) hattempt
          exact ⟨k, err, time, hended⟩
        | published err time => exact ⟨m, err, time, _, hattempt, rfl⟩
      obtain ⟨k, err, time, hended⟩ := hended
      have hkeeps (s : State) (act : Action) (s' : State)
          (o : List Unit) (hstep : step act s = some (s', o))
          (h : s.Ended a err time) : s'.Ended a err time :=
        (moves_of_step hstep).ended h
      have hlater := b.stays hkeeps (Nat.le_max_right n k) hended
      rcases at_later b (Nat.le_max_left n k) hat with
        hat' | ⟨phase', hat', hlt⟩
      · obtain ⟨m', hm', hrest⟩ := goes_on b hfair
          (R := fun s => s.Ended a err time) hkeeps
          (fun s hat hended => enabled_of_ended hat hended) hat' hlater
        exact hnext
          ⟨m', Nat.le_trans (Nat.le_max_left n k) hm', hrest⟩
      · exact hnext ⟨_, Nat.le_max_left n k, phase', hat', hlt⟩
    | returned result => exact ⟨n, Nat.le_refl n, result, hat⟩

end Liveness

-- ======== the guard

/-- What holds after every run. -/
structure Throttled (acts : List Action) (s : State) : Prop where
  /-- One probe runs at a time. -/
  one : ∀ a a', s.Running a → s.Running a' → a = a'
  /-- A probe that started after others started behind the end of the
  latest, and behind the cooldown if that one ended with an error. -/
  cooldown : ∀ a next, s.attempts[a + 1]? = some next →
    ∃ err time, s.Ended a err time ∧
      (err ≠ none → time + execAuthFailureCooldown ≤ next.started)
  /-- A nil is that of a probe that ran during the call. -/
  nil : ∀ i, s.At i (.returned none) →
    ∃ a time, s.Ended a none time ∧ RanDuring acts i a
  /-- A caller, cancelled or not, leaves a probe that runs alone, and
  starts no other. -/
  callers : ∀ i a act s' o, step act s = some (s', o) →
    OwnStep i act ∨ (∃ err, act = .cancel i err) → s.Running a →
    s'.attempts = s.attempts ∧ s'.inFlight = s.inFlight

/-- The guard throttles the credential plugin in every run, and in every
behaviour that is fair a call returns whose probe does. -/
theorem execAuth_throttled :
    (∀ acts s out, run step {} acts = some (s, out) → Throttled acts s) ∧
    ∀ (b : Behaviour step {}) (i : Nat), b.Fair (OwnStep i) →
      (∀ a, b.Fair fun act => act = .publish a) →
      (∀ n a, (b.state n).At i (.waiting a) →
        ∃ (m : Nat) (attempt : Attempt),
          (b.state m).attempts[a]? = some attempt ∧
            attempt.phase ≠ .probing) →
      ∀ n phase, (b.state n).At i phase →
        ∃ m, n ≤ m ∧ ∃ result, (b.state m).At i (.returned result) := by
  constructor
  · intro acts s out hrun
    have hi := inv_of_run hrun
    exact {
      one := fun a a' h h' =>
        Nat.add_right_cancel ((hi.running h).1.symm.trans (hi.running h').1)
      cooldown := hi.chain
      nil := fun i => (joined hrun i).2
      callers := fun i a act s' o hstep hact hrunning =>
        (moves_of_step hstep).caller_frame hi hact hrunning }
  · intro b i hfair hpublish hprobe n phase hat
    exact returns b hfair hpublish hprobe hat

end ExecAuth
