/-
Machines that move on named actions, and the rules their runs obey.

# The semantics

A machine is a partial step function: an action and a state give the
next state and the outputs of that step, or nothing where the action
is not enabled. Everything a scheduler, a clock or a caller may choose
is in the action, so a run is a list of actions and an interleaving of
several parties is one such list.

# The rules

- `run_cons_iff` and `run_append_iff` cut a run where an argument
  needs it cut.
- `run_invariant` is the safety rule: what one step keeps, a run
  keeps. Its steps may be guarded (`Along`), so the same rule serves
  the runs that stay clear of a defect.
- `visits_iff_along` reads a guard back from the states: where every
  step that breaks the guard lands in a bad state, the runs that visit
  good states only are exactly the guarded ones.
- `run_history` is the safety rule where the invariant speaks of the
  outputs so far as well.
- `run_measure` bounds a run by what its steps use up, and
  `exists_run_of_progress` drives one on for as long as there is a step
  to take: together they bring a machine to its end.
- `run_flow_sublist` and `run_flow_eq` are the rules of a buffer that
  takes values in and gives values out: what one step does to
  `given ++ held` a run does.

# Fair behaviours

Infinite runs of a machine, and what a fair one comes to.

A behaviour takes an action at every time. It is fair to some actions if
it takes one of them again wherever one of them stays enabled. The rule of
`leads_to` is the one for weak fairness: where what holds now stays until
something better does, some of the actions are enabled as long as it holds
and each of them brings the better about, a behaviour that is fair to them
comes to it.
-/
import Mathlib.Data.List.Basic

namespace Machine

variable {S A O E : Type*}

-- ======== runs

/-- A partial transition: the next state and this step's outputs. -/
abbrev Step (S A O : Type*) := A → S → Option (S × List O)

/-- Run a list of actions, collecting outputs, failing on the first
disabled action. -/
def run (step : Step S A O) : S → List A → Option (S × List O)
  | s, [] => some (s, [])
  | s, a :: rest =>
    match step a s with
    | none => none
    | some (s₁, o₁) =>
      match run step s₁ rest with
      | none => none
      | some (s₂, o₂) => some (s₂, o₁ ++ o₂)

variable {step : Step S A O}

@[simp] theorem run_nil (s : S) : run step s [] = some (s, []) := rfl

/-- A successful run of a nonempty list is its first step and the run
of the rest. -/
theorem run_cons_iff {s s' : S} {a : A} {rest : List A} {out : List O} :
    run step s (a :: rest) = some (s', out)
      ↔ ∃ s₁ o₁ o₂, step a s = some (s₁, o₁)
          ∧ run step s₁ rest = some (s', o₂) ∧ out = o₁ ++ o₂ := by
  constructor
  · intro h
    unfold run at h
    cases ha : step a s with
    | none => simp [ha] at h
    | some p =>
      obtain ⟨s₁, o₁⟩ := p
      cases hr : run step s₁ rest with
      | none => simp [ha, hr] at h
      | some q =>
        obtain ⟨s₂, o₂⟩ := q
        simp only [ha, hr, Option.some.injEq, Prod.mk.injEq] at h
        exact ⟨s₁, o₁, o₂, rfl, by rw [hr, h.1], h.2.symm⟩
  · rintro ⟨s₁, o₁, o₂, ha, hr, rfl⟩
    simp [run, ha, hr]

theorem run_append_iff {s s' : S} {pre post : List A} {out : List O} :
    run step s (pre ++ post) = some (s', out)
      ↔ ∃ s₁ o₁ o₂, run step s pre = some (s₁, o₁)
          ∧ run step s₁ post = some (s', o₂) ∧ out = o₁ ++ o₂ := by
  induction pre generalizing s out with
  | nil => simp
  | cons a pre ih =>
    simp only [List.cons_append, run_cons_iff, ih]
    constructor
    · rintro ⟨s₁, o₁, _, ha, ⟨s₂, o₂, o₃, hpre, hpost, rfl⟩, rfl⟩
      exact ⟨s₂, o₁ ++ o₂, o₃, ⟨s₁, o₁, o₂, ha, hpre, rfl⟩, hpost,
        (List.append_assoc ..).symm⟩
    · rintro ⟨s₂, _, o₃, ⟨s₁, o₁, o₂, ha, hpre, rfl⟩, hpost, rfl⟩
      exact ⟨s₁, o₁, o₂ ++ o₃, ha, ⟨s₂, o₂, o₃, hpre, hpost, rfl⟩,
        List.append_assoc ..⟩

-- ======== guards along a run

/-- Every step the run takes meets `ok` in the state it starts from. -/
def Along (step : Step S A O) (ok : S → A → Prop) : S → List A → Prop
  | _, [] => True
  | s, a :: rest =>
    ∀ s' o, step a s = some (s', o) → ok s a ∧ Along step ok s' rest

/-- A decidable guard is decided along a run by running it. -/
instance Along.decidable {ok : S → A → Prop} [∀ s a, Decidable (ok s a)] :
    ∀ s acts, Decidable (Along step ok s acts)
  | _, [] => isTrue trivial
  | s, a :: rest =>
    match ha : step a s with
    | none => isTrue fun s' o h => by
        rw [ha] at h
        cases h
    | some (s₁, o₁) =>
      have : Decidable (Along step ok s₁ rest) :=
        Along.decidable s₁ rest
      decidable_of_iff (ok s a ∧ Along step ok s₁ rest)
        ⟨fun h s' o h' => by
          rw [ha, Option.some.injEq, Prod.mk.injEq] at h'
          exact h'.1 ▸ h,
        fun h => h s₁ o₁ ha⟩

/-- Some step the run takes meets `p` in the state it starts from. -/
def Sometime (step : Step S A O) (p : S → A → Prop) :
    S → List A → Prop
  | _, [] => False
  | s, a :: rest =>
    ∃ s' o, step a s = some (s', o) ∧ (p s a ∨ Sometime step p s' rest)

/-- Every state the run passes through satisfies `P`, the first
included. -/
def Visits (step : Step S A O) (P : S → Prop) : S → List A → Prop
  | s, [] => P s
  | s, a :: rest =>
    P s ∧ ∀ s' o, step a s = some (s', o) → Visits step P s' rest

/-- What happens sometime in a run happens in its first step or in the
rest. -/
theorem sometime_cons_iff {p : S → A → Prop} {s s₁ : S} {a : A}
    {o : List O} {rest : List A} (ha : step a s = some (s₁, o)) :
    Sometime step p s (a :: rest) ↔ p s a ∨ Sometime step p s₁ rest := by
  constructor
  · rintro ⟨s', o', ha', h⟩
    rw [ha, Option.some.injEq, Prod.mk.injEq] at ha'
    exact ha'.1 ▸ h
  · exact fun h => ⟨s₁, o, ha, h⟩

/-- A guard that reads the action alone holds along a run as soon as
it holds of the run's actions. -/
theorem along_of_forall {p : A → Prop} {s : S} {acts : List A}
    (h : ∀ a ∈ acts, p a) : Along step (fun _ a => p a) s acts := by
  induction acts generalizing s with
  | nil => trivial
  | cons a rest ih =>
    intro s' o _
    exact ⟨h a (List.mem_cons_self ..),
      ih fun b hb => h b (List.mem_cons_of_mem _ hb)⟩

theorem along_cons {ok : S → A → Prop} {s s₁ : S} {a : A} {o : List O}
    {rest : List A} (ha : step a s = some (s₁, o)) (hok : ok s a)
    (hrest : Along step ok s₁ rest) : Along step ok s (a :: rest) := by
  intro s' o' ha'
  rw [ha, Option.some.injEq, Prod.mk.injEq] at ha'
  exact ⟨hok, ha'.1 ▸ hrest⟩

theorem along_true {s : S} {acts : List A} :
    Along step (fun _ _ => True) s acts :=
  along_of_forall fun _ _ => trivial

theorem Along.mono {ok ok' : S → A → Prop} {s : S} {acts : List A}
    (h : Along step ok s acts) (hok : ∀ s a, ok s a → ok' s a) :
    Along step ok' s acts := by
  induction acts generalizing s with
  | nil => trivial
  | cons a rest ih =>
    intro s' o ha
    obtain ⟨hoka, hrest⟩ := h s' o ha
    exact ⟨hok s a hoka, ih hrest⟩

theorem Along.and {ok ok' : S → A → Prop} {s : S} {acts : List A}
    (h : Along step ok s acts) (h' : Along step ok' s acts) :
    Along step (fun s a => ok s a ∧ ok' s a) s acts := by
  induction acts generalizing s with
  | nil => trivial
  | cons a rest ih =>
    intro s' o ha
    obtain ⟨hoka, hrest⟩ := h s' o ha
    obtain ⟨hoka', hrest'⟩ := h' s' o ha
    exact ⟨⟨hoka, hoka'⟩, ih hrest hrest'⟩

theorem Along.append {ok : S → A → Prop} {s s₁ : S} {pre post : List A}
    {o₁ : List O} (h : Along step ok s (pre ++ post))
    (hpre : run step s pre = some (s₁, o₁)) :
    Along step ok s pre ∧ Along step ok s₁ post := by
  induction pre generalizing s o₁ with
  | nil =>
    simp only [run_nil, Option.some.injEq, Prod.mk.injEq] at hpre
    exact ⟨trivial, hpre.1 ▸ h⟩
  | cons a pre ih =>
    obtain ⟨s₂, o, o', ha, hr, -⟩ := run_cons_iff.mp hpre
    obtain ⟨hoka, hrest⟩ := h s₂ o ha
    obtain ⟨hpre', hpost⟩ := ih hrest hr
    refine ⟨fun s' o'' ha' => ?_, hpost⟩
    rw [ha, Option.some.injEq, Prod.mk.injEq] at ha'
    exact ⟨hoka, ha'.1 ▸ hpre'⟩

section Invariants

variable {ok : S → A → Prop} {I P : S → Prop}

/-- The safety rule: what every guarded step keeps, every guarded run
keeps. -/
theorem run_invariant
    (hstep : ∀ {a s s' o}, I s → ok s a → step a s = some (s', o) → I s')
    {s s' : S} {acts : List A} {out : List O} (hi : I s)
    (hok : Along step ok s acts)
    (hrun : run step s acts = some (s', out)) : I s' := by
  induction acts generalizing s out with
  | nil =>
    simp only [run_nil, Option.some.injEq, Prod.mk.injEq] at hrun
    exact hrun.1 ▸ hi
  | cons a rest ih =>
    obtain ⟨s₁, o₁, o₂, ha, hr, -⟩ := run_cons_iff.mp hrun
    obtain ⟨hoka, hrest⟩ := hok s₁ o₁ ha
    exact ih (hstep hi hoka ha) hrest hr

/-- The safety rule for a state and what has been given away on the way
to it. -/
theorem run_history {J : S → List O → Prop}
    (hstep : ∀ {a s s' o before}, J s before → ok s a →
      step a s = some (s', o) → J s' (before ++ o))
    {s s' : S} {acts : List A} {before out : List O} (hi : J s before)
    (hok : Along step ok s acts)
    (hrun : run step s acts = some (s', out)) : J s' (before ++ out) := by
  induction acts generalizing s before out with
  | nil =>
    simp only [run_nil, Option.some.injEq, Prod.mk.injEq] at hrun
    obtain ⟨rfl, rfl⟩ := hrun
    rw [List.append_nil]
    exact hi
  | cons a rest ih =>
    obtain ⟨s₁, o₁, o₂, ha, hr, rfl⟩ := run_cons_iff.mp hrun
    obtain ⟨hoka, hrest⟩ := hok s₁ o₁ ha
    rw [← List.append_assoc]
    exact ih (hstep hi hoka ha) hrest hr

theorem run_history_nil {J : S → List O → Prop}
    (hstep : ∀ {a s s' o before}, J s before → ok s a →
      step a s = some (s', o) → J s' (before ++ o))
    {s s' : S} {acts : List A} {out : List O} (hi : J s [])
    (hok : Along step ok s acts)
    (hrun : run step s acts = some (s', out)) : J s' out := by
  have h := run_history hstep hi hok hrun
  rwa [List.nil_append] at h

theorem visits_of_invariant
    (hstep : ∀ {a s s' o}, I s → ok s a → step a s = some (s', o) → I s')
    (hP : ∀ {s}, I s → P s) {s : S} {acts : List A} (hi : I s)
    (hok : Along step ok s acts) : Visits step P s acts := by
  induction acts generalizing s with
  | nil => exact hP hi
  | cons a rest ih =>
    refine ⟨hP hi, fun s' o ha => ?_⟩
    obtain ⟨hoka, hrest⟩ := hok s' o ha
    exact ih (hstep hi hoka ha) hrest

/-- A guard under which each step keeps `I` gives way to what it comes to
where `I` holds. -/
theorem Along.of_invariant {ok' : S → A → Prop}
    (hstep : ∀ {a s s' o}, I s → ok s a → step a s = some (s', o) → I s')
    (hok' : ∀ {a s s' o}, I s → step a s = some (s', o) → ok' s a)
    {s : S} {acts : List A} (hi : I s) (hok : Along step ok s acts) :
    Along step ok' s acts := by
  induction acts generalizing s with
  | nil => trivial
  | cons a rest ih =>
    intro s' o ha
    obtain ⟨hoka, hrest⟩ := hok s' o ha
    exact ⟨hok' hi ha, ih (hstep hi hoka ha) hrest⟩

theorem Visits.head {s : S} {acts : List A}
    (h : Visits step P s acts) : P s := by
  cases acts with
  | nil => exact h
  | cons a rest => exact h.1

/-- Where a step that breaks the guard always lands outside `P`, the
runs through `P` are exactly the guarded ones. -/
theorem visits_iff_along
    (hstep : ∀ {a s s' o}, I s → ok s a → step a s = some (s', o) → I s')
    (hP : ∀ {s}, I s → P s)
    (hbad : ∀ {a s s' o}, I s → step a s = some (s', o) → P s' → ok s a)
    {s : S} {acts : List A} (hi : I s) :
    Visits step P s acts ↔ Along step ok s acts := by
  refine ⟨fun h => ?_, visits_of_invariant hstep hP hi⟩
  induction acts generalizing s with
  | nil => trivial
  | cons a rest ih =>
    intro s' o ha
    have hv := h.2 s' o ha
    have hoka := hbad hi ha hv.head
    exact ⟨hoka, ih (hstep hi hoka ha) hv⟩

end Invariants

-- ======== termination

section Termination

variable {μ : S → Nat} {counted : A → Bool}

theorem run_measure
    (hstep : ∀ {a s s' o}, step a s = some (s', o) →
      (if counted a then 1 else 0) + μ s' ≤ μ s)
    {s s' : S} {acts : List A} {out : List O}
    (hrun : run step s acts = some (s', out)) :
    acts.countP counted + μ s' ≤ μ s := by
  induction acts generalizing s out with
  | nil =>
    simp only [run_nil, Option.some.injEq, Prod.mk.injEq] at hrun
    simp [hrun.1]
  | cons a rest ih =>
    obtain ⟨s₁, o₁, o₂, ha, hr, -⟩ := run_cons_iff.mp hrun
    have hfst := hstep ha
    have htail := ih hr
    rw [List.countP_cons]
    omega

/-- Where every state that is not at the end has a counted step to take,
there is a run to the end, or one of as many counted steps as one
likes. -/
theorem exists_run_of_progress {P : S → Prop} {s : S}
    (hprogress : ∀ {acts s' out}, run step s acts = some (s', out) →
      P s' ∨ ∃ a, counted a = true ∧ (step a s').isSome)
    (n : Nat) :
    ∃ acts s' out, run step s acts = some (s', out)
      ∧ (P s' ∨ n ≤ acts.countP counted) := by
  induction n with
  | zero => exact ⟨[], s, [], rfl, .inr (Nat.zero_le _)⟩
  | succ n ih =>
    obtain ⟨acts, s', out, hrun, hend | hlong⟩ := ih
    · exact ⟨acts, s', out, hrun, .inl hend⟩
    · rcases hprogress hrun with hend | ⟨a, ha, hstep⟩
      · exact ⟨acts, s', out, hrun, .inl hend⟩
      · obtain ⟨⟨s'', o⟩, hstep⟩ := Option.isSome_iff_exists.mp hstep
        refine ⟨acts ++ [a], s'', out ++ o, ?_, .inr ?_⟩
        · rw [run_append_iff]
          exact ⟨s', out, o, hrun,
            run_cons_iff.mpr ⟨s'', o, [], hstep, rfl, by simp⟩, rfl⟩
        · rw [List.countP_append, List.countP_singleton, if_pos ha]
          omega

end Termination

-- ======== what goes in comes out

section Flow

variable {ok : S → A → Prop} {I : S → Prop}
variable (held : S → List E) (inp : A → List E) (view : O → List E)

/-- The rule of a lossy buffer: if each step gives and keeps, in
order, some of what was held and what came in, so does the run. -/
theorem run_flow_sublist
    (hstep : ∀ {a s s' o}, I s → ok s a → step a s = some (s', o) →
      I s' ∧ (o.flatMap view ++ held s').Sublist (held s ++ inp a))
    {s s' : S} {acts : List A} {out : List O} (hi : I s)
    (hok : Along step ok s acts)
    (hrun : run step s acts = some (s', out)) :
    (out.flatMap view ++ held s').Sublist
      (held s ++ acts.flatMap inp) := by
  induction acts generalizing s out with
  | nil =>
    simp only [run_nil, Option.some.injEq, Prod.mk.injEq] at hrun
    obtain ⟨rfl, rfl⟩ := hrun
    simp
  | cons a rest ih =>
    obtain ⟨s₁, o₁, o₂, ha, hr, rfl⟩ := run_cons_iff.mp hrun
    obtain ⟨hoka, hrest⟩ := hok s₁ o₁ ha
    obtain ⟨hi₁, hfst⟩ := hstep hi hoka ha
    have htail := (ih hi₁ hrest hr).append_left (o₁.flatMap view)
    have hhead := hfst.append_right (rest.flatMap inp)
    simp only [List.flatMap_append, List.flatMap_cons,
      List.append_assoc] at htail hhead ⊢
    exact htail.trans hhead

/-- The rule of an exact buffer: if each step gives and keeps exactly
what was held and what came in, so does the run. -/
theorem run_flow_eq
    (hstep : ∀ {a s s' o}, I s → ok s a → step a s = some (s', o) →
      I s' ∧ o.flatMap view ++ held s' = held s ++ inp a)
    {s s' : S} {acts : List A} {out : List O} (hi : I s)
    (hok : Along step ok s acts)
    (hrun : run step s acts = some (s', out)) :
    out.flatMap view ++ held s' = held s ++ acts.flatMap inp := by
  induction acts generalizing s out with
  | nil =>
    simp only [run_nil, Option.some.injEq, Prod.mk.injEq] at hrun
    obtain ⟨rfl, rfl⟩ := hrun
    simp
  | cons a rest ih =>
    obtain ⟨s₁, o₁, o₂, ha, hr, rfl⟩ := run_cons_iff.mp hrun
    obtain ⟨hoka, hrest⟩ := hok s₁ o₁ ha
    obtain ⟨hi₁, hfst⟩ := hstep hi hoka ha
    have htail := ih hi₁ hrest hr
    rw [List.flatMap_append, List.flatMap_cons, List.append_assoc,
      htail, ← List.append_assoc, hfst, List.append_assoc]

end Flow

end Machine

namespace Machine

variable {S A O : Type*} {step : Step S A O}

structure Behaviour (step : Step S A O) (init : S) where
  state : Nat → S
  act : Nat → A
  out : Nat → List O
  first : state 0 = init
  next : ∀ n, step (act n) (state n) = some (state (n + 1), out n)

namespace Behaviour

variable {init : S} (b : Behaviour step init)

/-- Wherever some of the actions stay enabled, one is taken. -/
def Fair (mine : A → Prop) : Prop :=
  ∀ n, (∀ m, n ≤ m → ∃ a, mine a ∧ (step a (b.state m)).isSome) →
    ∃ m, n ≤ m ∧ mine (b.act m)

theorem stays {P : S → Prop}
    (hstep : ∀ s a s' o, step a s = some (s', o) → P s → P s') {n m : Nat}
    (hle : n ≤ m) (h : P (b.state n)) : P (b.state m) := by
  induction hle with
  | refl => exact h
  | step _ ih => exact hstep _ _ _ _ (b.next _) ih

/-- What stays until something better holds, comes to it if the actions
that bring it about are taken fairly. -/
theorem leads_to (P Q : S → Prop) {mine : A → Prop} (hfair : b.Fair mine)
    (hstays : ∀ s a s' o, step a s = some (s', o) → P s → P s' ∨ Q s')
    (henabled : ∀ s, P s → ∃ a, mine a ∧ (step a s).isSome)
    (hhelps : ∀ s a s' o, step a s = some (s', o) → mine a → P s → Q s')
    {n : Nat} (h : P (b.state n)) : ∃ m, n ≤ m ∧ Q (b.state m) := by
  by_contra hnever
  have hnot (m : Nat) (hm : n ≤ m) : ¬Q (b.state m) :=
    fun hq => hnever ⟨m, hm, hq⟩
  have hp (m : Nat) (hm : n ≤ m) : P (b.state m) := by
    induction hm with
    | refl => exact h
    | step hm ih =>
      exact (hstays _ _ _ _ (b.next _) ih).resolve_right
        (hnot _ (Nat.le_succ_of_le hm))
  obtain ⟨m, hm, hmine⟩ := hfair n fun m hm => henabled _ (hp m hm)
  exact hnot (m + 1) (Nat.le_succ_of_le hm)
    (hhelps _ _ _ _ (b.next m) hmine (hp m hm))

end Behaviour

end Machine
