/-
Whether the definitions on display are those of the context.

# The argument

The clear effect leaves nothing of another context (`Belongs`), and a
request is the only one to put anything there. It looks neither at the
context on display nor at the cluster that answered it, so what it stores
belongs there exactly where it was sent under the context that answered,
and that is still on display (`Timely`).
-/
import Kubikles.Switching.Crds

namespace Crds

open Machine (Along Visits run)

variable {α : Type}

/-- What is held is empty or of the current context, and is known to be of
the context it is of. -/
structure Belongs (s : State α) : Prop where
  crds : s.crds.items = [] ∨ s.crds.cluster = some s.currentContext
  crdsRef : s.crdsRef.items = [] ∨ s.crdsRef.cluster = some s.currentContext
  loadedFor : s.crdsLoadedForContext = s.crdsRef.cluster

def Quiet (s : State α) : Prop := ∀ f ∈ s.fetches, f.pending = false

instance Quiet.decidable (s : State α) : Decidable (Quiet s) :=
  inferInstanceAs (Decidable (∀ f ∈ s.fetches, f.pending = false))

/-- A list arrives from the cluster of the context it was asked under, and
that context is on display, unless there is nothing in the list. -/
def Timely (s : State α) : Act α → Prop
  | .listed i list => ∀ f ∈ s.fetches[i]?, f.context = f.cluster
      ∧ (list.getD [] = [] ∨ f.context = s.currentContext)
  | _ => True

instance Timely.decidable [DecidableEq α] (s : State α) (a : Act α) :
    Decidable (Timely s a) :=
  match a with
  | .listed i _ =>
    inferInstanceAs (Decidable (∀ f ∈ s.fetches[i]?, _))
  | .switching _ | .ensureCRDsLoaded | .failed _ => isTrue trivial

theorem Belongs.switch {s : State α} (h : Belongs s)
    (switching : ContextSwitch.State) : Belongs (s.switch switching) := by
  unfold State.switch
  by_cases hsame : switching.ui.currentContext = s.currentContext
  · rw [if_pos hsame]
    have hcurrent : ({ s with switching } : State α).currentContext
        = s.currentContext := hsame
    exact ⟨by rw [hcurrent]; exact h.crds, by rw [hcurrent]; exact h.crdsRef,
      h.loadedFor⟩
  · rw [if_neg hsame]
    exact ⟨.inl rfl, .inl rfl, rfl⟩

theorem Belongs.ensureCRDsLoaded {s : State α} (h : Belongs s) :
    Belongs s.ensureCRDsLoaded.1 := by
  unfold State.ensureCRDsLoaded
  split
  · exact h
  · split
    · exact h
    · split
      · exact h
      · exact ⟨h.crds, h.crdsRef, h.loadedFor⟩

theorem belongs_settle_iff {s : State α} {i : Nat} {f : Fetch} :
    Belongs (s.settle i f) ↔ Belongs s :=
  ⟨fun h => ⟨h.crds, h.crdsRef, h.loadedFor⟩,
    fun h => ⟨h.crds, h.crdsRef, h.loadedFor⟩⟩

theorem belongs_store_iff {s : State α} {f : Fetch} {items : List α} :
    Belongs (s.store f items) ↔ f.context = f.cluster
      ∧ (items = [] ∨ f.context = s.currentContext) := by
  constructor
  · intro h
    have hctx : f.context = f.cluster := Option.some.inj h.loadedFor
    refine ⟨hctx, h.crds.imp id fun hcluster => ?_⟩
    rw [hctx]
    exact Option.some.inj hcluster
  · rintro ⟨hctx, hcurrent⟩
    have hheld : items = [] ∨ some f.cluster = some s.currentContext :=
      hcurrent.imp id fun h => by rw [← hctx, h]
    exact ⟨hheld, hheld, congrArg some hctx⟩

inductive Moves (s : State α) : Act α → State α → Prop
  | switched {act : ContextSwitch.Act} (switching : ContextSwitch.State) :
      Moves s (.switching act) (s.switch switching)
  | called : Moves s .ensureCRDsLoaded s.ensureCRDsLoaded.1
  | listed {i : Nat} {list : Option (List α)} {f : Fetch}
      (h : s.fetches[i]? = some f) :
      Moves s (.listed i list) ((s.store f (list.getD [])).settle i f)
  | failed {i : Nat} {f : Fetch} (h : s.fetches[i]? = some f) :
      Moves s (.failed i) (s.settle i f)

theorem moves_of_step {a : Act α} {s s' : State α} {out : List (Result α)}
    (h : step a s = some (s', out)) : Moves s a s' := by
  cases a with
  | switching act =>
    obtain ⟨next, -, heq⟩ := Option.map_eq_some_iff.mp h
    cases heq
    exact .switched next.1
  | ensureCRDsLoaded =>
    have heq : s.ensureCRDsLoaded.1 = s' :=
      congrArg Prod.fst (Option.some.inj h)
    exact heq ▸ .called
  | listed i list =>
    rw [step] at h
    split at h
    next f hf =>
      split at h
      · cases h
        exact .listed hf
      · cases h
    next => cases h
  | failed i =>
    rw [step] at h
    split at h
    next f hf =>
      split at h
      · cases h
        exact .failed hf
      · cases h
    next => cases h

theorem belongs_step {a : Act α} {s s' : State α} {out : List (Result α)}
    (hi : Belongs s) (hok : Timely s a)
    (hstep : step a s = some (s', out)) : Belongs s' := by
  cases moves_of_step hstep with
  | switched switching => exact hi.switch switching
  | called => exact hi.ensureCRDsLoaded
  | listed h =>
    apply belongs_settle_iff.mpr
    apply belongs_store_iff.mpr
    exact hok _ h
  | failed h => exact belongs_settle_iff.mpr hi

/-- If every list that arrives with something in it is of the context it
was asked under, and that context is then on display, the definitions
belong to the context on display in every state of the run, whether or not
a request is pending there. -/
theorem definitions_belong (switching : ContextSwitch.State)
    (acts : List (Act α)) (s' : State α) (out : List (Result α))
    (htimely : Along step Timely { switching } acts)
    (hrun : run step { switching } acts = some (s', out)) : Belongs s' :=
  Machine.run_invariant belongs_step ⟨.inl rfl, .inl rfl, rfl⟩ htimely hrun

def onA : ContextSwitch.State := ⟨{ currentContext := "a"
                                    currentContextRef := "a" }, "a", []⟩

/-- A list of `a` arrives, the UI switches to `b` and loads that of `b`. -/
def reload : List (Act String) :=
  [.ensureCRDsLoaded, .listed 0 (some ["widgets"]),
    .switching (.switch "b"), .switching (.publish 0),
    .switching (.respond 0), .ensureCRDsLoaded,
    .listed 1 (some ["gadgets"])]

theorem definitions_belong_reload :
    ∃ s' out, run step { switching := onA } reload = some (s', out)
      ∧ s'.crds.items = ["gadgets"] ∧ Belongs s' := by
  refine ⟨_, _, rfl, rfl, ?_⟩
  exact definitions_belong onA reload _ _ (by decide) rfl

/-- The UI leaves `a` while its definitions are being listed. -/
def overtaken : List (Act String) :=
  [.ensureCRDsLoaded, .switching (.switch "b"), .switching (.publish 0),
    .switching (.respond 0), .listed 0 (some ["widgets"])]

/-- No request is pending, and `b` shows the definitions of `a`. -/
theorem overtaken_shows_a :
    ¬ ∀ s' out, run step { switching := onA } overtaken = some (s', out) →
      Quiet s' → Belongs s' := by
  intro h
  have hbelongs := h _ _ rfl (by decide)
  rcases hbelongs.crds with hempty | hcluster
  · exact absurd hempty (by decide)
  · exact absurd hcluster (by decide)

end Crds
