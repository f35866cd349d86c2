/-
The attempts of the guard of credential plugins.

Attempts are numbered in the order they start in. Every one but the last
is published, and the next one starts no earlier than it allows; the last
one is in flight until it is published, and the guard then says what it
said (`Inv`). What the steps do is said once (`moves_of_step`), and that
they keep all this, kind by kind.
-/
import Kubikles.Auth.ExecAuth

namespace ExecAuth

open Machine

variable {s s' : State} {o : List Unit}

-- ======== attempts

/-- The attempt is published, with an error or nil, since a time. -/
def Attempt.Published (attempt : Attempt) (err : Option String)
    (time : Nat) : Prop :=
  attempt.phase = .published err time

/-- The attempt with this number is in flight: its probe runs, or what
came of it is not published. -/
def State.Running (s : State) (a : Nat) : Prop :=
  ∃ attempt, s.attempts[a]? = some attempt ∧
    ∀ err time, ¬attempt.Published err time

def State.Ended (s : State) (a : Nat) (err : Option String)
    (time : Nat) : Prop :=
  ∃ attempt, s.attempts[a]? = some attempt ∧ attempt.Published err time

/-- What holds of the guard and the attempts. -/
structure Inv (s : State) : Prop where
  /-- An attempt that is not the last is published, and the next one
  starts after the cooldown if it failed. -/
  chain : ∀ a next, s.attempts[a + 1]? = some next →
    ∃ err time, s.Ended a err time ∧
      (err ≠ none → time + execAuthFailureCooldown ≤ next.started)
  /-- What is in flight is the last attempt. -/
  inFlight : ∀ a, s.inFlight = some a ↔
    s.attempts.length = a + 1 ∧ s.Running a
  /-- What the last attempt said is what the guard says. -/
  guard : ∀ a err time, s.attempts.length = a + 1 → s.Ended a err time →
    s.err = err ∧
      (err ≠ none → s.retryAt = time + execAuthFailureCooldown)
  fresh : s.attempts = [] → s.err = none
  /-- Callers wait for attempts. -/
  waiting : ∀ (i : Nat) c a, s.calls[i]? = some c →
    c.phase = .waiting a → a < s.attempts.length

theorem Inv.start : Inv {} where
  chain a next h := by cases h
  inFlight a := by
    constructor
    · intro h
      cases h
    · intro h
      cases h.1
  guard a err time h := by cases h
  fresh _ := rfl
  waiting i c a h := by cases h

-- ======== steps

inductive Moves (s : State) : Action → State → Prop
  | tick (duration : Nat) :
      Moves s (.tick duration) { s with now := s.now + duration }
  | call (ctx : Option String) :
      Moves s (.call ctx) { s with calls := s.calls ++ [⟨ctx, .called⟩] }
  | cancel {i : Nat} (err : String) {phase : CallPhase}
      (hcall : s.calls[i]? = some ⟨none, phase⟩) :
      Moves s (.cancel i err) (s.setCall i ⟨some err, phase⟩)
  | cancelled {i : Nat} {err : String}
      (hcall : s.calls[i]? = some ⟨some err, .called⟩) :
      Moves s (.context i)
        (s.setCall i ⟨some err, .returned (some (.context err))⟩)
  | live {i : Nat} (hcall : s.calls[i]? = some ⟨none, .called⟩) :
      Moves s (.context i) (s.setCall i ⟨none, .locking⟩)
  | paused {i : Nat} {ctx : Option String} {err : String}
      (hcall : s.calls[i]? = some ⟨ctx, .locking⟩) :
      Moves s (.lock i)
        (s.setCall i ⟨ctx, .returned (some (.paused s.retryAt err))⟩)
  | joined {i : Nat} {ctx : Option String} {a : Nat}
      (hcall : s.calls[i]? = some ⟨ctx, .locking⟩)
      (hin : s.inFlight = some a) :
      Moves s (.lock i) (s.setCall i ⟨ctx, .waiting a⟩)
  | started {i : Nat} {ctx : Option String}
      (hcall : s.calls[i]? = some ⟨ctx, .locking⟩)
      (hin : s.inFlight = none)
      (hlate : s.err ≠ none → s.retryAt ≤ s.now) :
      Moves s (.lock i)
        (s.start.setCall i ⟨ctx, .waiting s.attempts.length⟩)
  | done {i : Nat} {err : String} {a : Nat}
      (hcall : s.calls[i]? = some ⟨some err, .waiting a⟩) :
      Moves s (.done i)
        (s.setCall i ⟨some err, .returned (some (.context err))⟩)
  | attempted {i : Nat} {ctx : Option String} {a : Nat}
      {err : Option String} {time : Nat}
      (hcall : s.calls[i]? = some ⟨ctx, .waiting a⟩)
      (hended : s.Ended a err time) :
      Moves s (.attempted i)
        (s.setCall i ⟨ctx, .returned (err.map .attempt)⟩)
  | probe {a started : Nat} (err : Option String)
      (hprobing : s.attempts[a]? = some ⟨started, .probing⟩) :
      Moves s (.probe a err) (s.setAttempt a ⟨started, .returned err⟩)
  | publish {a started : Nat} {err : Option String}
      (hreturned : s.attempts[a]? = some ⟨started, .returned err⟩) :
      Moves s (.publish a) (s.publish a started err)

theorem moves_enter {i : Nat} {ctx : Option String}
    (hcall : s.calls[i]? = some ⟨ctx, .locking⟩) :
    Moves s (.lock i) (s.enter.1.setCall i ⟨ctx, s.enter.2⟩) := by
  have hjoin (hlate : s.err ≠ none → s.retryAt ≤ s.now) :
      Moves s (.lock i) (s.join.1.setCall i ⟨ctx, s.join.2⟩) := by
    unfold State.join
    cases hin : s.inFlight with
    | some a => exact .joined hcall hin
    | none => exact .started hcall hin hlate
  unfold State.enter
  cases herr : s.err with
  | none => exact hjoin fun h => absurd herr h
  | some err =>
    dsimp only
    by_cases hnow : s.now < s.retryAt
    · rw [if_pos hnow]
      exact .paused hcall
    · rw [if_neg hnow]
      exact hjoin fun _ => Nat.le_of_not_lt hnow

theorem moves_of_step {act : Action} (h : step act s = some (s', o)) :
    Moves s act s' := by
  cases act with
  | tick duration =>
    cases h
    exact .tick duration
  | call ctx =>
    cases h
    exact .call ctx
  | cancel i err =>
    simp only [step] at h
    split at h
    next phase hcall =>
      cases h
      exact .cancel err hcall
    next => cases h
  | context i =>
    simp only [step] at h
    split at h
    next err hcall =>
      cases h
      exact .cancelled hcall
    next hcall =>
      cases h
      exact .live hcall
    next => cases h
  | lock i =>
    simp only [step] at h
    split at h
    next ctx hcall =>
      cases h
      exact moves_enter hcall
    next => cases h
  | done i =>
    simp only [step] at h
    split at h
    next err a hcall =>
      cases h
      exact .done hcall
    next => cases h
  | attempted i =>
    simp only [step] at h
    split at h
    next ctx a hcall =>
      split at h
      next started err time hattempt =>
        cases h
        exact .attempted hcall ⟨_, hattempt, rfl⟩
      next => cases h
    next => cases h
  | probe a err =>
    simp only [step] at h
    split at h
    next started hprobing =>
      cases h
      exact .probe err hprobing
    next => cases h
  | publish a =>
    simp only [step] at h
    split at h
    next started err hreturned =>
      cases h
      exact .publish hreturned
    next => cases h

-- ======== attempts

theorem State.running_or_ended {a : Nat} (h : a < s.attempts.length) :
    s.Running a ∨ ∃ err time, s.Ended a err time := by
  have hattempt := List.getElem?_eq_getElem h
  cases hphase : s.attempts[a].phase with
  | probing =>
    refine .inl ⟨_, hattempt, fun err time hpublished => ?_⟩
    rw [Attempt.Published, hphase] at hpublished
    cases hpublished
  | returned err =>
    refine .inl ⟨_, hattempt, fun err time hpublished => ?_⟩
    rw [Attempt.Published, hphase] at hpublished
    cases hpublished
  | published err time => exact .inr ⟨err, time, _, hattempt, hphase⟩

theorem State.Running.lt {a : Nat} (h : s.Running a) :
    a < s.attempts.length := by
  obtain ⟨attempt, hattempt, -⟩ := h
  exact (List.getElem?_eq_some_iff.mp hattempt).1

theorem State.Ended.not_running {a : Nat} {err : Option String}
    {time : Nat} (h : s.Ended a err time) : ¬s.Running a := by
  obtain ⟨attempt, hattempt, hpublished⟩ := h
  rintro ⟨attempt', hattempt', hnot⟩
  rw [hattempt] at hattempt'
  cases hattempt'
  exact hnot err time hpublished

theorem Inv.running (hi : Inv s) {a : Nat} (h : s.Running a) :
    s.attempts.length = a + 1 ∧ s.inFlight = some a := by
  have hlast : s.attempts.length = a + 1 := by
    by_contra hne
    have hlt : a + 1 < s.attempts.length := by
      have := h.lt
      omega
    obtain ⟨err, time, hended, -⟩ := hi.chain a _
      (List.getElem?_eq_getElem hlt)
    exact hended.not_running h
  exact ⟨hlast, (hi.inFlight a).mpr ⟨hlast, h⟩⟩

theorem State.ended_setAttempt {a b : Nat} {attempt : Attempt}
    {err : Option String} {time : Nat} (hrunning : s.Running a)
    (h : s.Ended b err time) :
    (s.setAttempt a attempt).Ended b err time := by
  obtain ⟨attempt', hattempt', hpublished⟩ := h
  refine ⟨attempt', ?_, hpublished⟩
  have hne : a ≠ b := by
    rintro rfl
    exact State.Ended.not_running ⟨_, hattempt', hpublished⟩ hrunning
  show (s.attempts.set a attempt)[b]? = some attempt'
  rw [List.getElem?_set_ne hne, hattempt']

theorem Moves.ended {act : Action} (h : Moves s act s') {b : Nat}
    {err : Option String} {time : Nat} (hended : s.Ended b err time) :
    s'.Ended b err time := by
  cases h with
  | probe err hprobing =>
    exact State.ended_setAttempt ⟨_, hprobing, nofun⟩ hended
  | publish hreturned =>
    exact State.ended_setAttempt ⟨_, hreturned, nofun⟩ hended
  | started =>
    obtain ⟨attempt, hattempt, hpublished⟩ := hended
    refine ⟨attempt, ?_, hpublished⟩
    show (s.attempts ++ _)[b]? = some attempt
    rw [List.getElem?_append_left
      (List.getElem?_eq_some_iff.mp hattempt).1, hattempt]
  | _ => exact hended

-- ======== invariant

theorem Inv.setCall (hi : Inv s) {i : Nat} {c : Call}
    (hc : ∀ a, c.phase = .waiting a → a < s.attempts.length) :
    Inv (s.setCall i c) where
  chain := hi.chain
  inFlight := hi.inFlight
  guard := hi.guard
  fresh := hi.fresh
  waiting j c' a hcall hphase := by
    change (s.calls.set i c)[j]? = some c' at hcall
    rw [List.getElem?_set] at hcall
    split at hcall
    · split at hcall
      · cases hcall
        exact hc a hphase
      · cases hcall
    · exact hi.waiting j c' a hcall hphase

theorem Inv.call (hi : Inv s) (ctx : Option String) :
    Inv { s with calls := s.calls ++ [⟨ctx, .called⟩] } where
  chain := hi.chain
  inFlight := hi.inFlight
  guard := hi.guard
  fresh := hi.fresh
  waiting j c a hcall hphase := by
    change (s.calls ++ [⟨ctx, .called⟩])[j]? = some c at hcall
    rcases Nat.lt_or_ge j s.calls.length with hlt | hge
    · rw [List.getElem?_append_left hlt] at hcall
      exact hi.waiting j c a hcall hphase
    · rw [List.getElem?_append_right hge] at hcall
      cases hk : j - s.calls.length with
      | zero =>
        rw [hk] at hcall
        cases hcall
        cases hphase
      | succ k =>
        rw [hk] at hcall
        cases hcall

/-- A new attempt starts where none is in flight and the cooldown is
over. -/
theorem Inv.begin (hi : Inv s) (hin : s.inFlight = none)
    (hlate : s.err ≠ none → s.retryAt ≤ s.now) : Inv s.start where
  chain a next hnext := by
    change (s.attempts ++ [Attempt.mk s.now .probing])[a + 1]? = some next at hnext
    have hended (b : Nat) (err : Option String) (time : Nat)
        (h : s.Ended b err time) : s.start.Ended b err time := by
      obtain ⟨attempt, hattempt, hpublished⟩ := h
      refine ⟨attempt, ?_, hpublished⟩
      show (s.attempts ++ _)[b]? = some attempt
      rw [List.getElem?_append_left
        (List.getElem?_eq_some_iff.mp hattempt).1, hattempt]
    rcases Nat.lt_or_ge (a + 1) s.attempts.length with hlt | hge
    · rw [List.getElem?_append_left hlt] at hnext
      obtain ⟨err, time, h, hcool⟩ := hi.chain a next hnext
      exact ⟨err, time, hended a err time h, hcool⟩
    · have hlen := (List.getElem?_eq_some_iff.mp hnext).1
      rw [List.length_append, List.length_singleton] at hlen
      have hlast : s.attempts.length = a + 1 := by omega
      rw [List.getElem?_append_right hge, hlast, Nat.sub_self] at hnext
      cases hnext
      -- The attempt before is published, for none is in flight.
      rcases State.running_or_ended (s := s) (a := a) (by omega)
        with hrun | ⟨err, time, h⟩
      · rw [(hi.running hrun).2] at hin
        cases hin
      · refine ⟨err, time, hended a err time h, fun herr => ?_⟩
        obtain ⟨hguard, hretry⟩ := hi.guard a err time hlast h
        rw [← hretry herr]
        exact hlate (by rw [hguard]; exact herr)
  inFlight a := by
    show some s.attempts.length = some a ↔
      (s.attempts ++ [Attempt.mk s.now .probing]).length = a + 1 ∧ s.start.Running a
    rw [List.length_append, List.length_singleton]
    constructor
    · intro h
      cases h
      refine ⟨rfl, ⟨s.now, .probing⟩, ?_, nofun⟩
      show (s.attempts ++ [Attempt.mk s.now .probing])[s.attempts.length]? = _
      rw [List.getElem?_append_right (Nat.le_refl _), Nat.sub_self]
      rfl
    · rintro ⟨hlen, -⟩
      rw [Nat.add_right_cancel hlen]
  guard a err time hlen hended := by
    change (s.attempts ++ [Attempt.mk s.now .probing]).length = a + 1 at hlen
    rw [List.length_append, List.length_singleton] at hlen
    obtain ⟨attempt, hattempt, hpublished⟩ := hended
    change (s.attempts ++ [Attempt.mk s.now .probing])[a]? = some attempt
      at hattempt
    rw [← Nat.add_right_cancel hlen,
      List.getElem?_append_right (Nat.le_refl _), Nat.sub_self] at hattempt
    cases hattempt
    cases hpublished
  fresh h := by
    change s.attempts ++ [Attempt.mk s.now .probing] = [] at h
    simp at h
  waiting i c a hcall hphase := by
    show a < (s.attempts ++ [Attempt.mk s.now .probing]).length
    have hlt := hi.waiting i c a hcall hphase
    rw [List.length_append, List.length_singleton]
    omega

theorem Inv.chain_set (hi : Inv s) {b : Nat} {attempt : Attempt}
    (attempt' : Attempt) (hattempt : s.attempts[b]? = some attempt) (hrun : s.Running b)
    (hstarted : attempt'.started = attempt.started) {a : Nat}
    {next : Attempt}
    (hnext : (s.attempts.set b attempt')[a + 1]? = some next) :
    ∃ err time, (s.setAttempt b attempt').Ended a err time ∧
      (err ≠ none → time + execAuthFailureCooldown ≤ next.started) := by
  obtain ⟨next', hnext', hsame⟩ : ∃ next', s.attempts[a + 1]? = some next' ∧
      next'.started = next.started := by
    rw [List.getElem?_set] at hnext
    split at hnext
    next heq =>
      split at hnext
      next =>
        cases hnext
        exact ⟨attempt, by rw [← heq, hattempt], hstarted.symm⟩
      next => cases hnext
    next => exact ⟨next, hnext, rfl⟩
  obtain ⟨err, time, hended, hcool⟩ := hi.chain a next' hnext'
  refine ⟨err, time, State.ended_setAttempt hrun hended, ?_⟩
  rw [← hsame]
  exact hcool

theorem Inv.probe (hi : Inv s) {b started : Nat} (err : Option String)
    (hprobing : s.attempts[b]? = some ⟨started, .probing⟩) :
    Inv (s.setAttempt b ⟨started, .returned err⟩) := by
  have hrun : s.Running b := ⟨_, hprobing, nofun⟩
  obtain ⟨hlast, hin⟩ := hi.running hrun
  have hlt := hrun.lt
  have hrun' : (s.setAttempt b ⟨started, .returned err⟩).Running b := by
    refine ⟨⟨started, .returned err⟩, ?_, nofun⟩
    show (s.attempts.set b _)[b]? = _
    rw [List.getElem?_set_self hlt]
  exact {
    chain := fun a next hnext =>
      hi.chain_set ⟨started, .returned err⟩ hprobing hrun rfl hnext
    inFlight := fun a => by
      show s.inFlight = some a ↔ (s.attempts.set b _).length = a + 1 ∧ _
      rw [List.length_set, hin]
      constructor
      · intro h
        cases h
        exact ⟨hlast, hrun'⟩
      · rintro ⟨hlen, -⟩
        rw [Nat.add_right_cancel (hlast.symm.trans hlen)]
    guard := fun a err' time hlen hended => by
      change (s.attempts.set b _).length = a + 1 at hlen
      rw [List.length_set] at hlen
      have hab := Nat.add_right_cancel (hlast.symm.trans hlen)
      subst hab
      exact absurd hrun' hended.not_running
    fresh := fun h => by
      have hlen := congrArg List.length h
      change (s.attempts.set b _).length = 0 at hlen
      rw [List.length_set] at hlen
      omega
    waiting := fun i c a hcall hphase => by
      show a < (s.attempts.set b _).length
      rw [List.length_set]
      exact hi.waiting i c a hcall hphase }

/-- What came of an attempt is published. -/
theorem Inv.publish (hi : Inv s) {b started : Nat} {err : Option String}
    (hreturned : s.attempts[b]? = some ⟨started, .returned err⟩) :
    Inv (s.publish b started err) := by
  have hrun : s.Running b := ⟨_, hreturned, nofun⟩
  obtain ⟨hlast, -⟩ := hi.running hrun
  have hlt := hrun.lt
  have hended : (s.publish b started err).Ended b err s.now := by
    refine ⟨⟨started, .published err s.now⟩, ?_, rfl⟩
    show (s.attempts.set b _)[b]? = _
    rw [List.getElem?_set_self hlt]
  exact {
    chain := fun a next hnext =>
      hi.chain_set ⟨started, .published err s.now⟩ hreturned hrun rfl hnext
    inFlight := fun a => by
      show none = some a ↔ (s.attempts.set b _).length = a + 1 ∧ _
      rw [List.length_set]
      constructor
      · intro h
        cases h
      · rintro ⟨hlen, hrunning⟩
        have hab := Nat.add_right_cancel (hlast.symm.trans hlen)
        subst hab
        exact absurd hrunning hended.not_running
    guard := fun a err' time hlen hended' => by
      change (s.attempts.set b _).length = a + 1 at hlen
      rw [List.length_set] at hlen
      have hab := Nat.add_right_cancel (hlast.symm.trans hlen)
      subst hab
      obtain ⟨attempt, hattempt, hpublished⟩ := hended
      obtain ⟨attempt', hattempt', hpublished'⟩ := hended'
      rw [hattempt] at hattempt'
      cases hattempt'
      have hsame := hpublished.symm.trans hpublished'
      cases hsame
      refine ⟨rfl, fun herr => ?_⟩
      show (if err.isSome then _ else _) = _
      rw [if_pos (Option.isSome_iff_ne_none.mpr herr)]
    fresh := fun h => by
      have hlen := congrArg List.length h
      change (s.attempts.set b _).length = 0 at hlen
      rw [List.length_set] at hlen
      omega
    waiting := fun i c a hcall hphase => by
      show a < (s.attempts.set b _).length
      rw [List.length_set]
      exact hi.waiting i c a hcall hphase }

theorem Inv.moves (hi : Inv s) {act : Action} (h : Moves s act s') :
    Inv s' := by
  cases h with
  | tick duration =>
    exact ⟨hi.chain, hi.inFlight, hi.guard, hi.fresh, hi.waiting⟩
  | call ctx => exact hi.call ctx
  | @cancel i err phase hcall =>
    exact hi.setCall fun a hphase => hi.waiting i _ a hcall hphase
  | cancelled => exact hi.setCall nofun
  | live => exact hi.setCall nofun
  | paused => exact hi.setCall nofun
  | @joined i ctx a hcall hin =>
    refine hi.setCall fun a' hphase => ?_
    cases hphase
    exact ((hi.inFlight a).mp hin).2.lt
  | @started i ctx hcall hin hlate =>
    refine (hi.begin hin hlate).setCall fun a hphase => ?_
    cases hphase
    show _ < (s.attempts ++ [_]).length
    rw [List.length_append, List.length_singleton]
    omega
  | done => exact hi.setCall nofun
  | attempted => exact hi.setCall nofun
  | probe err hprobing => exact hi.probe err hprobing
  | publish hreturned => exact hi.publish hreturned

theorem inv_step {act : Action} (hi : Inv s) (_ : True)
    (h : step act s = some (s', o)) : Inv s' :=
  hi.moves (moves_of_step h)

theorem inv_of_run {acts : List Action} {out : List Unit}
    (hrun : run step {} acts = some (s, out)) : Inv s :=
  run_invariant inv_step Inv.start along_true hrun

end ExecAuth
