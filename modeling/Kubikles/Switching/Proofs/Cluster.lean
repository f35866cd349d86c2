/-
The cluster that a bulk action acts on.

# The argument

While a run has a call to make, the backend is on the context that the run
was confirmed on (`Home`): it is so at first if the UI and the backend
agree then, only a switch that is published changes it, and what a run
leaves to do only gets less (`Keeps`). So each call that is handled acts on
that context, if no switch to another is published meanwhile (`Stays`).
Neither a pause nor the closing of the modal ends a run, and nothing else
keeps a switch from coming in between (`moved_to_prod`).
-/
import Kubikles.Switching.Bulk
import Kubikles.Switching.Proofs.Agree

namespace Bulk

open Machine (Along run)

variable {config : Config} {s s' : State} {r : Nat}

def Resource.named (item : Resource) : Bool := item.name ≠ ""

/-- A run at a phase has a call to make that was not handled. -/
def Phase.callsLeft : Phase → Bool
  | .waiting item rest => (item :: rest).any Resource.named
  | .resumed item rest => (item :: rest).any Resource.named
  | .called _ _ => true
  | .answered _ rest _ => rest.any Resource.named
  | .sleeping rest => rest.any Resource.named
  | .done => false

/-- The UI and the backend agree when a run is confirmed, and no switch to
another context is published while a run has calls to make. -/
def Stays (s : State) : Act → Prop
  | .confirm _ _ => s.switching.ui.currentContext = s.switching.backend
  | .switching (.publish i) => ∀ c ∈ s.switching.calls[i]?,
      ∀ run ∈ s.runs, run.phase.callsLeft = true →
        c.nextContext = run.cluster
  | _ => True

instance Stays.decidable (s : State) (a : Act) : Decidable (Stays s a) :=
  match a with
  | .confirm _ _ => inferInstanceAs (Decidable (_ = _))
  | .switching (.publish i) =>
    inferInstanceAs (Decidable (∀ c ∈ s.switching.calls[i]?, _))
  | .openModal _ _ | .close | .pause | .resume | .proceed _ | .handle _ _
  | .respond _ | .wake _ | .switching (.switch _) | .switching (.fail _ _)
  | .switching (.respond _) => isTrue trivial

/-- The backend is where each run that has calls to make was confirmed. -/
def Home (s : State) : Prop :=
  ∀ run ∈ s.runs, run.phase.callsLeft = true →
    s.switching.backend = run.cluster

/-- The calls that were handled acted on the context that their runs were
confirmed on. -/
def ActedAtHome (s : State) (out : List Acted) : Prop :=
  ∀ acted ∈ out, ∃ run, s.runs[acted.run]? = some run
    ∧ acted.cluster = run.cluster

-- ======== runs

theorem callsLeft_next {pausedRef : Bool} {items : List Resource}
    (h : (next pausedRef items).callsLeft = true) :
    items.any Resource.named = true := by
  induction items with
  | nil => cases h
  | cons item rest ih =>
    unfold next at h
    by_cases hpaused : pausedRef = true
    · rw [if_pos hpaused] at h
      exact h
    · rw [if_neg hpaused] at h
      by_cases hname : item.name = ""
      · rw [if_pos hname] at h
        rw [List.any_cons, ih h, Bool.or_true]
      · rw [List.any_cons, show item.named = true from
          decide_eq_true hname, Bool.true_or]

theorem callsLeft_proceed {pausedRef : Bool} {item : Resource}
    {rest : List Resource}
    (h : (proceed pausedRef item rest).callsLeft = true) :
    (item :: rest).any Resource.named = true := by
  unfold proceed at h
  by_cases hname : item.name = ""
  · rw [if_pos hname] at h
    rw [List.any_cons, callsLeft_next h, Bool.or_true]
  · rw [List.any_cons, show item.named = true from decide_eq_true hname,
      Bool.true_or]

/-- The runs stay on their clusters, and have no more to do; nor has the
backend moved. -/
structure Keeps (s s' : State) : Prop where
  backend : s'.switching.backend = s.switching.backend
  old : ∀ (r : Nat) (run : Run), s.runs[r]? = some run →
    ∃ run', s'.runs[r]? = some run' ∧ run'.cluster = run.cluster
  less : ∀ run' ∈ s'.runs, run'.phase.callsLeft = true →
    ∃ run ∈ s.runs, run.phase.callsLeft = true
      ∧ run.cluster = run'.cluster

theorem Keeps.of_runs (hbackend : s'.switching.backend = s.switching.backend)
    (h : s'.runs = s.runs) : Keeps s s' where
  backend := hbackend
  old _ run hrun := ⟨run, h ▸ hrun, rfl⟩
  less run' hrun' hleft := ⟨run', h ▸ hrun', hleft, rfl⟩

theorem Keeps.of_set {run run' : Run}
    (hbackend : s'.switching.backend = s.switching.backend)
    (hruns : s'.runs = s.runs.set r run') (hrun : s.runs[r]? = some run)
    (hcluster : run'.cluster = run.cluster)
    (hleft : run'.phase.callsLeft = true → run.phase.callsLeft = true) :
    Keeps s s' where
  backend := hbackend
  old j other hother := by
    rw [hruns]
    by_cases hj : r = j
    · subst hj
      rw [hrun] at hother
      injection hother with hother
      obtain ⟨hlt, -⟩ := List.getElem?_eq_some_iff.mp hrun
      exact ⟨run', List.getElem?_set_self hlt, by rw [hcluster, hother]⟩
    · exact ⟨other, by rw [List.getElem?_set_ne hj]; exact hother, rfl⟩
  less other hother hcalls := by
    rw [hruns] at hother
    rcases List.mem_or_eq_of_mem_set hother with hmem | rfl
    · exact ⟨other, hmem, hcalls, rfl⟩
    · exact ⟨run, List.mem_of_getElem? hrun, hleft hcalls, hcluster.symm⟩

theorem Keeps.home (h : Keeps s s') (hi : Home s) : Home s' := by
  intro run' hrun' hleft
  obtain ⟨run, hrun, hleft', hcluster⟩ := h.less run' hrun' hleft
  rw [h.backend, hi run hrun hleft', hcluster]

theorem Keeps.actedAtHome {out : List Acted} (h : Keeps s s')
    (hi : ActedAtHome s out) : ActedAtHome s' out := by
  intro acted hacted
  obtain ⟨run, hrun, hcluster⟩ := hi acted hacted
  obtain ⟨run', hrun', hcluster'⟩ := h.old _ run hrun
  exact ⟨run', hrun', by rw [hcluster, hcluster']⟩

theorem Keeps.trans {s₁ s₂ s₃ : State} (h : Keeps s₁ s₂)
    (h' : Keeps s₂ s₃) : Keeps s₁ s₃ where
  backend := h'.backend.trans h.backend
  old r run hrun := by
    obtain ⟨run', hrun', hcluster⟩ := h.old r run hrun
    obtain ⟨run'', hrun'', hcluster'⟩ := h'.old r run' hrun'
    exact ⟨run'', hrun'', hcluster'.trans hcluster⟩
  less run hrun hleft := by
    obtain ⟨run', hrun', hleft', hcluster⟩ := h'.less run hrun hleft
    obtain ⟨run'', hrun'', hleft'', hcluster'⟩ := h.less run' hrun' hleft'
    exact ⟨run'', hrun'', hleft'', hcluster'.trans hcluster⟩

theorem Keeps.enter {run : Run} {phase : Phase}
    (hrun : s.runs[r]? = some run)
    (hleft : phase.callsLeft = true → run.phase.callsLeft = true) :
    Keeps s (s.enter r run phase) :=
  .of_set rfl rfl hrun rfl hleft

theorem Keeps.resolve (s : State) : Keeps s s.resolve := by
  unfold State.resolve
  split
  next => exact .of_runs rfl rfl
  next r _ =>
    dsimp only
    split
    next run hrun =>
      split
      next item rest hphase =>
        have hless : (Phase.resumed item rest).callsLeft = true →
            run.phase.callsLeft = true := by
          rw [hphase]
          exact id
        exact .of_set rfl rfl hrun rfl hless
      next => exact .of_runs rfl rfl
    next => exact .of_runs rfl rfl

theorem Keeps.answer {run : Run} {item : Resource} {rest : List Resource}
    {err : Option String} (hrun : s.runs[r]? = some run)
    (hphase : run.phase = .answered item rest err) :
    Keeps s (s.answer r run item rest err) := by
  unfold State.answer
  refine .of_set rfl rfl hrun rfl fun hleft => ?_
  rw [hphase]
  show rest.any Resource.named = true
  dsimp only at hleft
  split at hleft
  · exact hleft
  · exact callsLeft_next hleft

-- ======== steps

/-- What a step does to the runs. -/
inductive Moves (s : State) : Act → State → List Acted → Prop
  | keeps {a : Act} {s' : State} (h : Keeps s s') : Moves s a s' []
  | confirm (action : String) (items : List Resource) (delayMs : Int) :
      Moves s (.confirm items delayMs) (s.confirm action items delayMs) []
  | publish {i : Nat} {c : ContextSwitch.Call} {s' : State}
      (hcall : s.switching.calls[i]? = some c) (hruns : s'.runs = s.runs)
      (hbackend : s'.switching.backend = c.nextContext) :
      Moves s (.switching (.publish i)) s' []
  | handle {r : Nat} {run : Run} {err : Option String} {s' : State}
      {acted : Acted} (h : Keeps s s') (hrun : s.runs[r]? = some run)
      (hleft : run.phase.callsLeft = true) (hacted : acted.run = r)
      (hcluster : acted.cluster = s.switching.backend) :
      Moves s (.handle r err) s' [acted]

theorem moves_of_switching {a : ContextSwitch.Act}
    {switching : ContextSwitch.State} {out : List Empty}
    (h : ContextSwitch.step a s.switching = some (switching, out)) :
    Moves s (.switching a) { s with switching } [] := by
  cases ContextSwitch.moves_of_step h with
  | same => exact .keeps (.of_runs rfl rfl)
  | sent => exact .keeps (.of_runs rfl rfl)
  | published hcall => exact .publish hcall rfl rfl
  | failed => exact .keeps (.of_runs rfl rfl)
  | committed => exact .keeps (.of_runs rfl rfl)
  | rejected => exact .keeps (.of_runs rfl rfl)

theorem moves_of_step {a : Act} {out : List Acted}
    (h : step config a s = some (s', out)) : Moves s a s' out := by
  cases a with
  | openModal action items =>
    rw [step] at h
    split at h
    · cases h
      exact .keeps (.of_runs rfl rfl)
    · cases h
      exact .keeps (.of_runs rfl rfl)
  | close =>
    rw [step] at h
    cases h
    exact .keeps (.of_runs rfl rfl)
  | pause =>
    rw [step] at h
    cases h
    exact .keeps (.of_runs rfl rfl)
  | resume =>
    rw [step] at h
    cases h
    refine .keeps (.trans ?_ (.resolve _))
    exact .of_runs rfl rfl
  | confirm items delayMs =>
    rw [step] at h
    split at h
    · split at h
      · cases h
        exact .confirm _ items delayMs
      · cases h
        exact .keeps (.of_runs rfl rfl)
    · cases h
      exact .keeps (.of_runs rfl rfl)
  | proceed r =>
    rw [step] at h
    cases hrun : s.runs[r]? with
    | none =>
      rw [hrun] at h
      cases h
    | some run =>
      rw [hrun] at h
      dsimp only at h
      split at h
      next item rest hphase =>
        cases h
        refine .keeps (.enter hrun fun hleft => ?_)
        rw [hphase]
        exact callsLeft_proceed hleft
      next => cases h
  | handle r err =>
    rw [step] at h
    cases hrun : s.runs[r]? with
    | none =>
      rw [hrun] at h
      cases h
    | some run =>
      rw [hrun] at h
      dsimp only at h
      split at h
      next item rest hphase =>
        cases h
        have hleft : run.phase.callsLeft = true := by
          rw [hphase]
          rfl
        exact .handle (.enter hrun fun _ => hleft) hrun hleft rfl rfl
      next => cases h
  | respond r =>
    rw [step] at h
    cases hrun : s.runs[r]? with
    | none =>
      rw [hrun] at h
      cases h
    | some run =>
      rw [hrun] at h
      dsimp only at h
      split at h
      next hphase =>
        cases h
        exact .keeps (.answer hrun hphase)
      next => cases h
  | wake r =>
    rw [step] at h
    cases hrun : s.runs[r]? with
    | none =>
      rw [hrun] at h
      cases h
    | some run =>
      rw [hrun] at h
      dsimp only at h
      split at h
      next rest hphase =>
        cases h
        refine .keeps (.enter hrun fun hleft => ?_)
        rw [hphase]
        exact callsLeft_next hleft
      next => cases h
  | switching a =>
    rw [step] at h
    split at h
    next hswitch =>
      cases h
      exact moves_of_switching hswitch
    next => cases h

theorem home_step {a : Act} {before out : List Acted}
    (hi : Home s ∧ ActedAtHome s before) (hok : Stays s a)
    (hstep : step config a s = some (s', out)) :
    Home s' ∧ ActedAtHome s' (before ++ out) := by
  obtain ⟨hhome, hacted⟩ := hi
  cases moves_of_step hstep with
  | keeps h =>
    rw [List.append_nil]
    exact ⟨h.home hhome, h.actedAtHome hacted⟩
  | confirm action items delayMs =>
    rw [List.append_nil]
    refine ⟨fun run hrun hleft => ?_, fun acted hmem => ?_⟩
    · rcases List.mem_append.mp hrun with hmem | hmem
      · exact hhome run hmem hleft
      · rw [List.mem_singleton.mp hmem]
        exact hok.symm
    · obtain ⟨run, hrun, hcluster⟩ := hacted acted hmem
      exact ⟨run, Place.append_of_some hrun, hcluster⟩
  | publish hcall hruns hbackend =>
    rw [List.append_nil]
    refine ⟨fun run hrun hleft => ?_, fun acted hmem => ?_⟩
    · rw [hruns] at hrun
      rw [hbackend]
      exact hok _ hcall run hrun hleft
    · rw [hruns]
      exact hacted acted hmem
  | handle h hrun hleft hplace hcluster =>
    refine ⟨h.home hhome, fun acted hmem => ?_⟩
    rcases List.mem_append.mp hmem with hmem | hmem
    · exact h.actedAtHome hacted acted hmem
    · rw [List.mem_singleton.mp hmem]
      obtain ⟨run', hrun', hcluster'⟩ := h.old _ _ hrun
      refine ⟨run', hplace ▸ hrun', ?_⟩
      rw [hcluster, hcluster']
      exact hhome _ (List.mem_of_getElem? hrun) hleft

-- ======== the result

/-- If the UI and the backend agree when a run is confirmed, and no switch
to another context is published while a run has calls to make, every call
of a run acts on the context that the UI was on when it was confirmed. -/
theorem acts_at_home (config : Config) (s s' : State) (acts : List Act)
    (out : List Acted) (hruns : s.runs = [])
    (hok : Along (step config) Stays s acts)
    (hrun : run (step config) s acts = some (s', out)) :
    ∀ acted ∈ out, ∃ run, s'.runs[acted.run]? = some run
      ∧ acted.cluster = run.cluster := by
  have hstart : Home s := by
    intro run hmem
    rw [hruns] at hmem
    cases hmem
  have hend : Home s' ∧ ActedAtHome s' out :=
    Machine.run_history_nil (J := fun s out => Home s ∧ ActedAtHome s out)
      home_step ⟨hstart, fun _ h => absurd h List.not_mem_nil⟩ hok hrun
  exact hend.2

def twoPods : List Resource := [⟨"web", "default"⟩, ⟨"db", "default"⟩]

/-- The first is deleted, the modal closed, and the second deleted. -/
def deleteBoth : List Act :=
  [.openModal "delete" twoPods, .confirm twoPods 0, .handle 0 none,
    .respond 0, .close, .handle 0 none, .respond 0]

/-- Both are deleted where the run was confirmed. -/
theorem acts_at_home_deleteBoth :
    ∃ s' out, run (step {}) ⟨ContextSwitch.atHome, {}, []⟩ deleteBoth
        = some (s', out)
      ∧ out.length = 2
      ∧ ∀ acted ∈ out, ∃ run, s'.runs[acted.run]? = some run
        ∧ acted.cluster = run.cluster :=
  ⟨_, _, rfl, rfl, acts_at_home {} ⟨ContextSwitch.atHome, {}, []⟩ _
    deleteBoth _ rfl (by decide) rfl⟩

/-- A switch is published between the two calls, and the second acts on
another cluster. -/
theorem moved_to_prod :
    ∃ (config : Config) (s s' : State) (acts : List Act)
      (out : List Acted) (acted : Acted) (confirmed : Run),
      s.runs = [] ∧ s.switching.ui.currentContext = s.switching.backend
        ∧ run (step config) s acts = some (s', out)
        ∧ acted ∈ out ∧ s'.runs[acted.run]? = some confirmed
        ∧ confirmed.cluster = "home" ∧ acted.cluster = "prod"
        ∧ acted.action = "delete" := by
  refine ⟨{}, ⟨ContextSwitch.atHome, {}, []⟩, _,
    [.openModal "delete" twoPods, .confirm twoPods 0, .handle 0 none,
      .respond 0, .close, .switching (.switch "prod"),
      .switching (.publish 0), .handle 0 none], _,
    ⟨0, "prod", "delete", "default", "db"⟩, _, rfl, rfl, rfl, by decide,
    rfl, rfl, rfl, rfl⟩

end Bulk
