/-
Buffered channels (Go's `make(chan T, n)` with `n > 0`).

A send waits for room and a receive for a value; a close lets the values
that are there be received still. To send on a closed channel, or to close
one again, is a panic.

Goroutines over one shared world.

A goroutine is the list of what it has still to do, its frames, and what
one frame does is atomic: it changes the world, may leave other frames in
its place and may give something away. The same frames run in two ways.

# Interleaved

`step` lets any goroutine run its next frame at any time, so the runs of
this machine are the interleavings. What an invariant has to know of a
system is mostly which frames there are (`pending`), not whose they are:
a step takes one of them away and puts some in its place
(`step_run_cases`, `step_run_perm`), and so an invariant of the world and
the frames there are is shown frame by frame (`run_pending`). One that has
to know what stands behind a frame speaks of the goroutines, in any order
(`run_goroutines`).

# One at a time

`complete` runs the frames of one goroutine to their end, with nothing in
between. A list of frames may be cut anywhere (`complete_append_iff`).
-/
import Kubikles.Lib.Machine

/-- What an operation on a channel comes to. -/
inductive Outcome (α : Type*) where
  | done (value : α)
  | blocked
  | panic

/-- A channel with a buffer. -/
structure Chan (E : Type*) where
  capacity : Nat
  buffer : List E := []
  closed : Bool := false
deriving DecidableEq

namespace Chan

variable {E : Type*}

/-- `c <- e`. -/
def send (e : E) (c : Chan E) : Outcome (Chan E) :=
  if c.closed then .panic
  else if c.buffer.length < c.capacity then
    .done { c with buffer := c.buffer ++ [e] }
  else .blocked

/-- `close(c)`. -/
def close (c : Chan E) : Outcome (Chan E) :=
  if c.closed then .panic else .done { c with closed := true }

/-- `<-c`; from a closed channel that is empty there is nothing. -/
def receive (c : Chan E) : Outcome (Option E × Chan E) :=
  match c.buffer with
  | e :: rest => .done (some e, { c with buffer := rest })
  | [] => if c.closed then .done (none, c) else .blocked

theorem send_panic_iff (e : E) (c : Chan E) :
    c.send e = .panic ↔ c.closed = true := by
  unfold send
  constructor
  · intro h
    by_contra hopen
    rw [if_neg hopen] at h
    split at h <;> cases h
  · exact fun h => if_pos h

theorem send_closed {e : E} {c c' : Chan E} (h : c.send e = .done c') :
    c'.closed = c.closed := by
  unfold send at h
  split at h
  · cases h
  · split at h
    · cases h
      rfl
    · cases h

theorem receive_closed {e : Option E} {c c' : Chan E}
    (h : c.receive = .done (e, c')) : c'.closed = c.closed := by
  unfold receive at h
  split at h
  · cases h
    rfl
  · split at h
    · cases h
      rfl
    · cases h

theorem close_open {c : Chan E} (h : c.closed = false) :
    c.close = .done { c with closed := true } := by
  unfold close
  rw [if_neg]
  rw [h]
  exact Bool.false_ne_true

end Chan

namespace Goroutine

open Machine (Step)

variable {W F E O C : Type*}

/-- What comes of a frame: the world behind it, the frames it leaves to
its own goroutine, what it gives away. -/
structure Effect (W F O : Type*) where
  world : W
  frames : List F := []
  out : List O := []

/-- What frames do: with an answer of the environment, in a world, if
they are not blocked. -/
abbrev Exec (W F E O : Type*) := F → E → W → Option (Effect W F O)

-- ======== interleaved

/-- A world, and what each goroutine has still to do. -/
structure Sys (W F : Type*) where
  world : W
  goroutines : List (List F)

/-- A call is made, or a goroutine runs its next frame. -/
inductive Act (C E : Type*) where
  | call (c : C)
  | run (i : Nat) (env : E)

def step (exec : Exec W F E O) (framesOf : C → List F) :
    Step (Sys W F) (Act C E) (Nat × O)
  | .call c, s =>
    some (⟨s.world, s.goroutines ++ [framesOf c]⟩, [])
  | .run i env, s =>
    match s.goroutines[i]? with
    | some (f :: rest) =>
      (exec f env s.world).map fun effect =>
        (⟨effect.world, s.goroutines.set i (effect.frames ++ rest)⟩,
          effect.out.map (i, ·))
    | _ => none

def Sys.pending (s : Sys W F) : List F := s.goroutines.flatten

def Sys.Idle (s : Sys W F) : Prop := s.pending = []

instance Sys.idleDecidable [DecidableEq F] (s : Sys W F) :
    Decidable s.Idle :=
  inferInstanceAs (Decidable (_ = _))

variable {exec : Exec W F E O} {framesOf : C → List F}

theorem pending_call (s : Sys W F) (c : C) :
    Sys.pending ⟨s.world, s.goroutines ++ [framesOf c]⟩
      = s.pending ++ framesOf c := by
  simp [Sys.pending]

theorem step_run_cases {i : Nat} {env : E} {s s' : Sys W F}
    {out : List (Nat × O)}
    (h : step exec framesOf (.run i env) s = some (s', out)) :
    ∃ before f rest after effect,
      s.goroutines = before ++ (f :: rest) :: after
        ∧ s.goroutines[i]? = some (f :: rest)
        ∧ exec f env s.world = some effect
        ∧ s' = ⟨effect.world, before ++ (effect.frames ++ rest) :: after⟩
        ∧ out = effect.out.map (i, ·) := by
  simp only [step] at h
  split at h
  next f rest hi =>
    obtain ⟨effect, heffect, heq⟩ := Option.map_eq_some_iff.mp h
    obtain ⟨rfl, rfl⟩ := Prod.mk.inj heq
    obtain ⟨hlt, hget⟩ := List.getElem?_eq_some_iff.mp hi
    refine ⟨s.goroutines.take i, f, rest, s.goroutines.drop (i + 1),
      effect, ?_, hi, heffect, ?_, rfl⟩
    · rw [← hget, List.getElem_cons_drop, List.take_append_drop]
    · rw [List.set_eq_take_append_cons_drop, if_pos hlt]
  next => cases h

theorem pending_perm (w : W) (before : List (List F)) (g : List F)
    (after : List (List F)) :
    (Sys.pending ⟨w, before ++ g :: after⟩).Perm
      (g ++ (before ++ after).flatten) := by
  unfold Sys.pending
  rw [List.flatten_append, List.flatten_cons, List.flatten_append]
  exact List.perm_append_comm_assoc ..

theorem step_run_perm {i : Nat} {env : E} {s s' : Sys W F}
    {out : List (Nat × O)}
    (h : step exec framesOf (.run i env) s = some (s', out)) :
    ∃ f rest others effect, s.goroutines[i]? = some (f :: rest)
      ∧ exec f env s.world = some effect
      ∧ s.pending.Perm (f :: others)
      ∧ s'.pending.Perm (effect.frames ++ others)
      ∧ s'.world = effect.world ∧ out = effect.out.map (i, ·) := by
  obtain ⟨before, f, rest, after, effect, hg, hi, hexec, rfl, rfl⟩ :=
    step_run_cases h
  refine ⟨f, rest, rest ++ (before ++ after).flatten, effect, hi, hexec,
    ?_, ?_, rfl, rfl⟩
  · obtain ⟨w, goroutines⟩ := s
    obtain rfl : goroutines = _ := hg
    exact pending_perm w before (f :: rest) after
  · rw [← List.append_assoc]
    exact pending_perm effect.world before (effect.frames ++ rest) after

/-- A guard: what has to hold of the world and the frames there are where
a call is made, and where a frame runs. -/
def Guarded (okCall : W → List F → C → Prop)
    (ok : W → List F → F → E → Prop) (s : Sys W F) : Act C E → Prop
  | .call c => okCall s.world s.pending c
  | .run i env =>
    match s.goroutines[i]? with
    | some (f :: _) => ok s.world s.pending f env
    | _ => True

instance Guarded.decidable {okCall : W → List F → C → Prop}
    {ok : W → List F → F → E → Prop}
    [∀ w fs c, Decidable (okCall w fs c)]
    [∀ w fs f env, Decidable (ok w fs f env)] (s : Sys W F)
    (a : Act C E) : Decidable (Guarded okCall ok s a) :=
  match a with
  | .call c => inferInstanceAs (Decidable (okCall s.world s.pending c))
  | .run i env =>
    match h : s.goroutines[i]? with
    | some (f :: _) =>
      decidable_of_iff (ok s.world s.pending f env)
        (by rw [Guarded, h])
    | some [] => isTrue (by rw [Guarded, h]; trivial)
    | none => isTrue (by rw [Guarded, h]; trivial)

theorem Guarded.and {okCall okCall' : W → List F → C → Prop}
    {ok ok' : W → List F → F → E → Prop} {s : Sys W F} {a : Act C E}
    (h : Guarded okCall ok s a) (h' : Guarded okCall' ok' s a) :
    Guarded (fun w fs c => okCall w fs c ∧ okCall' w fs c)
      (fun w fs f env => ok w fs f env ∧ ok' w fs f env) s a := by
  unfold Guarded at h h' ⊢
  cases a with
  | call c => exact ⟨h, h'⟩
  | run i env =>
    dsimp only at h h' ⊢
    split
    next hget =>
      rw [hget] at h h'
      exact ⟨h, h'⟩
    next => trivial

section Pending

variable {okCall : W → List F → C → Prop}
variable {ok : W → List F → F → E → Prop}

/-- The safety rule for invariants of the world, the frames there are and
what was given away: they have to be kept by the calls and, frame by
frame, by what a frame does. -/
theorem run_pending_history {J : W → List F → List O → Prop}
    {s s' : Sys W F} {acts : List (Act C E)} {out : List (Nat × O)}
    (hrun : Machine.run (step exec framesOf) s acts = some (s', out))
    (hok : Machine.Along (step exec framesOf) (Guarded okCall ok) s acts)
    (hi : J s.world s.pending [])
    (hperm : ∀ {w fs fs' out}, fs.Perm fs' → J w fs out → J w fs' out)
    (hcall : ∀ {w fs out c}, J w fs out → okCall w fs c →
      J w (fs ++ framesOf c) out)
    (hexec : ∀ {w fs f others out env effect}, fs.Perm (f :: others) →
      J w (f :: others) out → ok w fs f env →
        exec f env w = some effect →
          J effect.world (effect.frames ++ others) (out ++ effect.out)) :
    J s'.world s'.pending (out.map Prod.snd) := by
  refine Machine.run_history_nil
    (J := fun s out => J s.world s.pending (out.map Prod.snd)) ?_ hi hok
    hrun
  intro a s s' o before hi hok hstep
  cases a with
  | call c =>
    simp only [step, Option.some.injEq, Prod.mk.injEq] at hstep
    obtain ⟨rfl, rfl⟩ := hstep
    rw [pending_call, List.append_nil]
    exact hcall hi hok
  | run i env =>
    obtain ⟨f, rest, others, effect, hget, heffect, hfrom, hto, hworld,
      rfl⟩ := step_run_perm hstep
    rw [Guarded, hget] at hok
    rw [hworld, List.map_append, List.map_map,
      show (Prod.snd ∘ (i, ·) : O → O) = id from rfl, List.map_id]
    exact hperm hto.symm (hexec hfrom (hperm hfrom hi) hok heffect)

theorem run_pending {I : W → List F → Prop}
    {s s' : Sys W F} {acts : List (Act C E)} {out : List (Nat × O)}
    (hrun : Machine.run (step exec framesOf) s acts = some (s', out))
    (hok : Machine.Along (step exec framesOf) (Guarded okCall ok) s acts)
    (hi : I s.world s.pending)
    (hperm : ∀ {w fs fs'}, fs.Perm fs' → I w fs → I w fs')
    (hcall : ∀ {w fs c}, I w fs → okCall w fs c → I w (fs ++ framesOf c))
    (hexec : ∀ {w fs f others env effect}, fs.Perm (f :: others) →
      I w (f :: others) → ok w fs f env → exec f env w = some effect →
        I effect.world (effect.frames ++ others)) :
    I s'.world s'.pending :=
  run_pending_history (J := fun w fs _ => I w fs) hrun hok hi hperm hcall
    hexec

/-- The rule for invariants that know which frames stand behind each other
in a goroutine, whatever the order of the goroutines: in a step, the one
that runs comes first. -/
theorem run_goroutines {J : W → List (List F) → Prop}
    {s s' : Sys W F} {acts : List (Act C E)} {out : List (Nat × O)}
    (hrun : Machine.run (step exec framesOf) s acts = some (s', out))
    (hok : Machine.Along (step exec framesOf) (Guarded okCall ok) s acts)
    (hi : J s.world s.goroutines)
    (hperm : ∀ {w gs gs'}, gs.Perm gs' → J w gs → J w gs')
    (hcall : ∀ {w gs c}, J w gs → okCall w gs.flatten c →
      J w (framesOf c :: gs))
    (hexec : ∀ {w fs f rest others env effect},
      fs.Perm (f :: (rest ++ others.flatten)) →
        J w ((f :: rest) :: others) → ok w fs f env →
          exec f env w = some effect →
            J effect.world ((effect.frames ++ rest) :: others)) :
    J s'.world s'.goroutines := by
  refine Machine.run_invariant (I := fun s => J s.world s.goroutines) ?_ hi
    hok hrun
  intro a s s' o hi hok hstep
  cases a with
  | call c =>
    simp only [step, Option.some.injEq, Prod.mk.injEq] at hstep
    obtain ⟨rfl, -⟩ := hstep
    exact hperm (List.perm_append_singleton _ _).symm (hcall hi hok)
  | run i env =>
    obtain ⟨before, f, rest, after, effect, hgs, hget, heffect, rfl, -⟩ :=
      step_run_cases hstep
    rw [Guarded, hget] at hok
    rw [hgs] at hi
    refine hperm List.perm_middle.symm (hexec ?_ (hperm
      List.perm_middle hi) hok heffect)
    unfold Sys.pending
    rw [hgs]
    exact List.perm_middle.flatten

end Pending

theorem unguarded {s : Sys W F} {acts : List (Act C E)} :
    Machine.Along (step exec framesOf)
      (Guarded (fun _ _ _ => True) fun _ _ _ _ => True) s acts := by
  refine Machine.along_true.mono fun s a _ => ?_
  unfold Guarded
  cases a with
  | call c => trivial
  | run i env =>
    simp only
    split <;> trivial

theorem run_pending_all {I : W → List F → Prop}
    {s s' : Sys W F} {acts : List (Act C E)} {out : List (Nat × O)}
    (hrun : Machine.run (step exec framesOf) s acts = some (s', out))
    (hi : I s.world s.pending)
    (hperm : ∀ {w fs fs'}, fs.Perm fs' → I w fs → I w fs')
    (hcall : ∀ {w fs c}, I w fs → I w (fs ++ framesOf c))
    (hexec : ∀ {w f others env effect}, I w (f :: others) →
      exec f env w = some effect →
        I effect.world (effect.frames ++ others)) :
    I s'.world s'.pending := by
  exact run_pending hrun unguarded hi hperm (fun hi _ => hcall hi)
    fun _ hi _ heffect => hexec hi heffect

-- ======== one of them

def answersOf (i : Nat) (acts : List (Act C E)) : List E :=
  acts.filterMap fun
    | .run j env => if j = i then some env else none
    | .call _ => none

def outputOf (i : Nat) (out : List (Nat × O)) : List O :=
  out.filterMap fun (j, o) => if j = i then some o else none

theorem answersOf_run (i j : Nat) (env : E) (acts : List (Act C E)) :
    answersOf i (.run j env :: acts)
      = (if j = i then [env] else []) ++ answersOf i acts := by
  unfold answersOf
  rw [List.filterMap_cons]
  by_cases h : j = i <;> simp [h]

theorem outputOf_append (i : Nat) (out out' : List (Nat × O)) :
    outputOf i (out ++ out') = outputOf i out ++ outputOf i out' :=
  List.filterMap_append

theorem outputOf_map (i j : Nat) (os : List O) :
    outputOf i (os.map (j, ·)) = if j = i then os else [] := by
  unfold outputOf
  rw [List.filterMap_map]
  by_cases h : j = i
  · rw [if_pos h]
    simp [h]
  · rw [if_neg h]
    simp [h]

theorem mem_outputOf {i : Nat} {o : O} {out : List (Nat × O)} :
    o ∈ outputOf i out ↔ (i, o) ∈ out := by
  simp [outputOf]

/-- The rule for what holds of a goroutine by itself, whatever the others
do to the world: between what it has still to do, the answers it was given
and what it has given away. And a goroutine that is not there was given
nothing and gave nothing. -/
theorem run_own {J : List F → List E → List O → Prop}
    (hcall : ∀ c, J (framesOf c) [] [])
    (hexec : ∀ {f rest envs os env w effect}, J (f :: rest) envs os →
      exec f env w = some effect →
        J (effect.frames ++ rest) (envs ++ [env]) (os ++ effect.out))
    {s s' : Sys W F} {acts : List (Act C E)} {out : List (Nat × O)}
    (envs : Nat → List E) (os : Nat → List O)
    (hi : ∀ i fs, s.goroutines[i]? = some fs → J fs (envs i) (os i))
    (hnew : ∀ i, s.goroutines[i]? = none → envs i = [] ∧ os i = [])
    (hrun : Machine.run (step exec framesOf) s acts = some (s', out)) :
    (∀ i fs, s'.goroutines[i]? = some fs →
      J fs (envs i ++ answersOf i acts) (os i ++ outputOf i out))
      ∧ ∀ i, s'.goroutines[i]? = none →
        envs i ++ answersOf i acts = [] ∧ os i ++ outputOf i out = [] := by
  induction acts generalizing s envs os out with
  | nil =>
    obtain ⟨rfl, rfl⟩ := Prod.mk.inj (Option.some.inj hrun)
    simp only [answersOf, outputOf, List.filterMap_nil, List.append_nil]
    exact ⟨hi, hnew⟩
  | cons a rest ih =>
    obtain ⟨s₁, o₁, o₂, hstep, hrest, rfl⟩ :=
      Machine.run_cons_iff.mp hrun
    cases a with
    | call c =>
      obtain ⟨rfl, rfl⟩ := Prod.mk.inj (Option.some.inj hstep)
      refine ih envs os (fun i fs hfs => ?_) (fun i hnone => ?_) hrest
      · rcases Nat.lt_or_ge i s.goroutines.length with hlt | hge
        · rw [List.getElem?_append_left hlt] at hfs
          exact hi i fs hfs
        · rw [List.getElem?_append_right hge,
            List.getElem?_singleton] at hfs
          split at hfs
          · cases hfs
            have hnil := hnew i (List.getElem?_eq_none hge)
            rw [hnil.1, hnil.2]
            exact hcall c
          · cases hfs
      · rw [List.getElem?_eq_none_iff, List.length_append] at hnone
        exact hnew i (List.getElem?_eq_none
          (Nat.le_trans (Nat.le_add_right _ _) hnone))
    | run j env =>
      simp only [step] at hstep
      split at hstep
      next f fs hj =>
        obtain ⟨effect, heffect, heq⟩ :=
          Option.map_eq_some_iff.mp hstep
        obtain ⟨rfl, rfl⟩ := Prod.mk.inj heq
        have hown := ih
          (fun i => envs i ++ if j = i then [env] else [])
          (fun i => os i ++ if j = i then effect.out else [])
          (fun i gs hgs => ?_) (fun i hnone => ?_) hrest
        · simp only [answersOf_run, outputOf_append, outputOf_map,
            ← List.append_assoc]
          exact hown
        · by_cases hij : j = i
          · subst hij
            rw [List.getElem?_set_self (List.getElem?_eq_some_iff.mp
              hj).1] at hgs
            cases hgs
            rw [if_pos rfl, if_pos rfl]
            exact hexec (hi j _ hj) heffect
          · rw [List.getElem?_set_ne hij] at hgs
            rw [if_neg hij, if_neg hij, List.append_nil,
              List.append_nil]
            exact hi i gs hgs
        · rw [List.getElem?_eq_none_iff, List.length_set,
            ← List.getElem?_eq_none_iff] at hnone
          have hij : j ≠ i := by
            rintro rfl
            rw [hnone] at hj
            cases hj
          rw [if_neg hij, if_neg hij, List.append_nil, List.append_nil]
          exact hnew i hnone
      next => cases hstep

theorem run_own_empty {J : List F → List E → List O → Prop}
    (hcall : ∀ c, J (framesOf c) [] [])
    (hexec : ∀ {f rest envs os env w effect}, J (f :: rest) envs os →
      exec f env w = some effect →
        J (effect.frames ++ rest) (envs ++ [env]) (os ++ effect.out))
    {w : W} {s' : Sys W F} {acts : List (Act C E)} {out : List (Nat × O)}
    (hrun : Machine.run (step exec framesOf) ⟨w, []⟩ acts
      = some (s', out)) :
    (∀ i fs, s'.goroutines[i]? = some fs →
      J fs (answersOf i acts) (outputOf i out))
      ∧ ∀ i, s'.goroutines[i]? = none → outputOf i out = [] := by
  obtain ⟨hown, hnone⟩ := run_own hcall hexec (fun _ => []) (fun _ => [])
    (fun i fs hfs => by cases hfs) (fun _ _ => ⟨rfl, rfl⟩) hrun
  exact ⟨hown, fun i hi => (hnone i hi).2⟩

-- ======== one at a time

def complete (exec : Exec W F E O) :
    List E → List F → W → Option (W × List O)
  | [], [], w => some (w, [])
  | env :: envs, f :: rest, w =>
    match exec f env w with
    | none => none
    | some effect =>
      (complete exec envs (effect.frames ++ rest) effect.world).map
        fun (w', out) => (w', effect.out ++ out)
  | _, _, _ => none

variable {envs : List E} {f : F} {fs gs : List F} {w w' : W}
variable {out : List O}

theorem complete_nil_iff :
    complete exec envs [] w = some (w', out)
      ↔ envs = [] ∧ w' = w ∧ out = [] := by
  cases envs with
  | nil =>
    rw [complete, Option.some.injEq, Prod.mk.injEq]
    exact ⟨fun h => ⟨rfl, h.1.symm, h.2.symm⟩,
      fun h => ⟨h.2.1.symm, h.2.2.symm⟩⟩
  | cons env envs =>
    exact ⟨(fun h => nomatch h), (fun h => nomatch h.1)⟩

theorem complete_cons_iff :
    complete exec envs (f :: fs) w = some (w', out)
      ↔ ∃ env envs' effect out', envs = env :: envs'
        ∧ exec f env w = some effect
        ∧ complete exec envs' (effect.frames ++ fs) effect.world
          = some (w', out')
        ∧ out = effect.out ++ out' := by
  constructor
  · intro h
    cases envs with
    | nil => cases h
    | cons env envs =>
      rw [complete] at h
      split at h
      · cases h
      next effect heffect =>
        obtain ⟨⟨w₁, out'⟩, hrest, heq⟩ := Option.map_eq_some_iff.mp h
        obtain ⟨rfl, rfl⟩ := Prod.mk.inj heq
        exact ⟨env, envs, effect, out', rfl, heffect, hrest, rfl⟩
  · rintro ⟨env, envs', effect, out', rfl, heffect, hrest, rfl⟩
    rw [complete, heffect]
    exact Option.map_eq_some_iff.mpr ⟨(w', out'), hrest, rfl⟩

/-- Frames are done where the first are done and then the others. -/
theorem complete_append_iff :
    complete exec envs (fs ++ gs) w = some (w', out)
      ↔ ∃ envs₁ envs₂ w₁ out₁ out₂, envs = envs₁ ++ envs₂
        ∧ complete exec envs₁ fs w = some (w₁, out₁)
        ∧ complete exec envs₂ gs w₁ = some (w', out₂)
        ∧ out = out₁ ++ out₂ := by
  induction envs generalizing fs w out with
  | nil =>
    cases fs with
    | nil =>
      rw [List.nil_append]
      constructor
      · intro h
        exact ⟨[], [], w, [], out, rfl, rfl, h, rfl⟩
      · rintro ⟨envs₁, envs₂, w₁, out₁, out₂, henvs, hfs, hgs, rfl⟩
        obtain ⟨rfl, rfl⟩ := List.nil_eq_append_iff.mp henvs
        obtain ⟨-, rfl, rfl⟩ := complete_nil_iff.mp hfs
        exact hgs
    | cons f fs =>
      refine ⟨(fun h => nomatch h), ?_⟩
      rintro ⟨envs₁, envs₂, w₁, out₁, out₂, henvs, hfs, -, -⟩
      obtain ⟨rfl, -⟩ := List.nil_eq_append_iff.mp henvs
      cases hfs
  | cons env envs ih =>
    cases fs with
    | nil =>
      rw [List.nil_append]
      constructor
      · intro h
        exact ⟨[], env :: envs, w, [], out, rfl, rfl, h, rfl⟩
      · rintro ⟨envs₁, envs₂, w₁, out₁, out₂, henvs, hfs, hgs, rfl⟩
        obtain ⟨rfl, rfl, rfl⟩ := complete_nil_iff.mp hfs
        rw [henvs]
        exact hgs
    | cons f fs =>
      rw [List.cons_append, complete_cons_iff]
      constructor
      · rintro ⟨_, _, effect, out', ⟨⟩, heffect, hrest, rfl⟩
        rw [← List.append_assoc] at hrest
        obtain ⟨envs₁, envs₂, w₁, out₁, out₂, rfl, hfs, hgs, rfl⟩ :=
          ih.mp hrest
        exact ⟨env :: envs₁, envs₂, w₁, effect.out ++ out₁, out₂, rfl,
          complete_cons_iff.mpr
            ⟨env, envs₁, effect, out₁, rfl, heffect, hfs, rfl⟩,
          hgs, (List.append_assoc ..).symm⟩
      · rintro ⟨envs₁, envs₂, w₁, out₁, out₂, henvs, hfs, hgs, rfl⟩
        obtain ⟨env', envs', effect, out', rfl, heffect, hrest, rfl⟩ :=
          complete_cons_iff.mp hfs
        obtain ⟨rfl, rfl⟩ := List.cons.inj henvs
        refine ⟨env, envs' ++ envs₂, effect, out' ++ out₂, rfl,
          heffect, ?_, List.append_assoc ..⟩
        rw [← List.append_assoc]
        exact ih.mpr
          ⟨envs', envs₂, w₁, out', out₂, rfl, hrest, hgs, rfl⟩

end Goroutine
