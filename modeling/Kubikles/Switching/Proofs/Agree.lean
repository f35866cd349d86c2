/-
Whether the UI and the backend are on one context.

# The argument

A switch is published at one moment and committed at another, and the UI
takes whatever answer comes last. As long as the two differ, some switch to
the backend's context is published and not yet answered (`Agreeing`); an
answer for another context keeps that, if such a switch is still under way
behind it (`Timely`). An answer that comes when there is none leaves the UI
on a context that the backend has left.
-/
import Kubikles.Switching.Context

namespace ContextSwitch

open Machine (Along run)

def UnderWay (s : State) (context : String) (i : Nat) : Prop :=
  s.calls[i]? = some ⟨context, .published⟩

instance UnderWay.decidable (s : State) (context : String) (i : Nat) :
    Decidable (UnderWay s context i) :=
  inferInstanceAs (Decidable (_ = _))

def Settled (s : State) : Prop := ∀ c ∈ s.calls, c.phase = .settled

instance Settled.decidable (s : State) : Decidable (Settled s) :=
  inferInstanceAs (Decidable (∀ c ∈ s.calls, c.phase = .settled))

/-- A switch that was published is answered while the backend is on its
context, or while another switch to the backend's context is under way. -/
def AnsweredInTime (s : State) (i : Nat) (c : Call) : Prop :=
  c.phase = .published → c.nextContext = s.backend
    ∨ ∃ j, j < s.calls.length ∧ j ≠ i ∧ UnderWay s s.backend j

instance AnsweredInTime.decidable (s : State) (i : Nat) (c : Call) :
    Decidable (AnsweredInTime s i c) :=
  inferInstanceAs (Decidable (_ → _))

def Timely (s : State) : Act → Prop
  | .respond i => ∀ c ∈ s.calls[i]?, AnsweredInTime s i c
  | _ => True

instance Timely.decidable (s : State) (a : Act) : Decidable (Timely s a) :=
  match a with
  | .respond i => inferInstanceAs (Decidable (∀ c ∈ s.calls[i]?, _))
  | .switch _ | .publish _ | .fail _ _ => isTrue trivial

def Agreeing (s : State) : Prop :=
  s.ui.currentContext = s.backend ∨ ∃ i, UnderWay s s.backend i

theorem UnderWay.of_ne {s : State} {context : String} {i j : Nat} {c : Call}
    (h : UnderWay s context j) (hne : j ≠ i) :
    (s.calls.set i c)[j]? = some ⟨context, .published⟩ := by
  rw [List.getElem?_set_ne hne.symm]
  exact h

inductive Moves (s : State) : Act → State → Prop
  | same {context : String} (h : s.ui.currentContext = context) :
      Moves s (.switch context) s
  | sent {context : String} (h : s.ui.currentContext ≠ context) :
      Moves s (.switch context)
        ⟨s.ui.setPending true, s.backend, s.calls ++ [⟨context, .sent⟩]⟩
  | published {i : Nat} {context : String}
      (h : s.calls[i]? = some ⟨context, .sent⟩) :
      Moves s (.publish i)
        ⟨s.ui, context, s.calls.set i ⟨context, .published⟩⟩
  | failed {i : Nat} {context err : String}
      (h : s.calls[i]? = some ⟨context, .sent⟩) :
      Moves s (.fail i err)
        ⟨s.ui, s.backend, s.calls.set i ⟨context, .failed err⟩⟩
  | committed {i : Nat} {context : String}
      (h : s.calls[i]? = some ⟨context, .published⟩) :
      Moves s (.respond i)
        ⟨(s.ui.commit context).setPending false, s.backend,
          s.calls.set i ⟨context, .settled⟩⟩
  | rejected {i : Nat} {context err : String}
      (h : s.calls[i]? = some ⟨context, .failed err⟩) :
      Moves s (.respond i)
        ⟨s.ui.setPending false, s.backend,
          s.calls.set i ⟨context, .settled⟩⟩

theorem moves_of_step {a : Act} {s s' : State} {out : List Empty}
    (h : step a s = some (s', out)) : Moves s a s' := by
  cases a with
  | switch context =>
    rw [step] at h
    by_cases hsame : s.ui.currentContext = context
    · rw [if_pos hsame] at h
      cases h
      exact .same hsame
    · rw [if_neg hsame] at h
      cases h
      exact .sent hsame
  | publish i =>
    rw [step] at h
    cases hcall : s.calls[i]? with
    | none =>
      rw [hcall] at h
      cases h
    | some c =>
      obtain ⟨context, phase⟩ := c
      rw [hcall] at h
      dsimp only at h
      split at h
      next hphase =>
        cases hphase
        cases h
        exact .published hcall
      next => cases h
  | fail i err =>
    rw [step] at h
    cases hcall : s.calls[i]? with
    | none =>
      rw [hcall] at h
      cases h
    | some c =>
      obtain ⟨context, phase⟩ := c
      rw [hcall] at h
      dsimp only at h
      split at h
      next hphase =>
        cases hphase
        cases h
        exact .failed hcall
      next => cases h
  | respond i =>
    rw [step] at h
    cases hcall : s.calls[i]? with
    | none =>
      rw [hcall] at h
      cases h
    | some c =>
      obtain ⟨context, phase⟩ := c
      rw [hcall] at h
      cases phase with
      | published =>
        cases h
        exact .committed hcall
      | failed err =>
        cases h
        exact .rejected hcall
      | sent => cases h
      | settled => cases h

theorem set_self {s : State} {i : Nat} {c c' : Call}
    (h : s.calls[i]? = some c) : (s.calls.set i c')[i]? = some c' := by
  obtain ⟨hlt, -⟩ := List.getElem?_eq_some_iff.mp h
  rw [List.getElem?_set_self hlt]

theorem agreeing_step {a : Act} {s s' : State} {out : List Empty}
    (hi : Agreeing s) (hok : Timely s a)
    (hstep : step a s = some (s', out)) : Agreeing s' := by
  cases moves_of_step hstep with
  | same => exact hi
  | sent =>
    rcases hi with h | ⟨i, hunder⟩
    · exact .inl h
    · exact .inr ⟨i, Place.append_of_some hunder⟩
  | published h => exact .inr ⟨_, set_self h⟩
  | failed h =>
    rcases hi with hagree | ⟨j, hunder⟩
    · exact .inl hagree
    · refine .inr ⟨j, hunder.of_ne fun heq => ?_⟩
      rw [UnderWay, heq, h] at hunder
      cases hunder
  | committed h =>
    rcases hok _ h rfl with hcurrent | ⟨j, -, hne, hunder⟩
    · exact .inl hcurrent
    · exact .inr ⟨j, hunder.of_ne hne⟩
  | rejected h =>
    rcases hi with hagree | ⟨j, hunder⟩
    · exact .inl hagree
    · refine .inr ⟨j, hunder.of_ne fun heq => ?_⟩
      rw [UnderWay, heq, h] at hunder
      cases hunder

theorem Agreeing.eq_of_settled {s : State} (h : Agreeing s)
    (hsettled : Settled s) : s.ui.currentContext = s.backend := by
  rcases h with hagree | ⟨i, hunder⟩
  · exact hagree
  · have hphase := hsettled _ (List.mem_of_getElem? hunder)
    cases hphase

/-- If the UI and the backend were on one context, and every answer to a
switch came while the backend was on its context or another switch to the
backend's was under way, then they are on one context once all calls have
settled. -/
theorem switches_agree (s s' : State) (acts : List Act) (out : List Empty)
    (hagree : s.ui.currentContext = s.backend)
    (hok : Along step Timely s acts)
    (hrun : run step s acts = some (s', out)) (hsettled : Settled s') :
    s'.ui.currentContext = s'.backend := by
  have hend : Agreeing s' :=
    Machine.run_invariant agreeing_step (.inl hagree) hok hrun
  exact hend.eq_of_settled hsettled

def atHome : State where
  ui := { currentContext := "home", currentContextRef := "home" }
  backend := "home"

/-- Two switches that are answered in the order they were published in. -/
def inOrder : List Act :=
  [.switch "staging", .switch "prod", .publish 0, .publish 1, .respond 0,
    .respond 1]

theorem switches_agree_inOrder :
    ∃ s', run step atHome inOrder = some (s', [])
      ∧ s'.ui.currentContext = s'.backend :=
  ⟨_, rfl, switches_agree atHome _ inOrder [] (by decide) (by decide) rfl
    (by decide)⟩

/-- Answered the other way round, they leave the UI on staging and the
backend on prod. -/
theorem overtaken_switch :
    ∃ (s s' : State) (acts : List Act),
      s.ui.currentContext = s.backend ∧ s.calls = []
        ∧ run step s acts = some (s', []) ∧ Settled s'
        ∧ s'.ui.currentContext = "staging" ∧ s'.backend = "prod" := by
  refine ⟨atHome, _, [.switch "staging", .switch "prod", .publish 0,
    .publish 1, .respond 1, .respond 0], rfl, rfl, rfl, by decide, rfl,
    rfl⟩

end ContextSwitch
