/-
The version a loop resumes from.

# The argument

The version is one cell that all loops of a watcher write. What is to
hold is that the current loop finds nothing in it but what its own
streams delivered. `RestartAll` clears the cell before it starts the
next loop, so the cell is clean when that loop begins, and every store
of a loop is of something it received. What is left is a store of the
cancelled loop behind the clearing: it received an event while it was
current, or even behind its cancellation, and the guard that would stop
it comes only after the store. `InTime` says that no store comes so
late.
-/
import Kubikles.Watch.Loop

namespace WatchLoop

open Machine
open WatcherManager (Launch)

variable {α : Type}

-- ======== the statement

def Sys.newest (s : Sys α) : Option (Running α) :=
  s.loops[s.loops.length - 1]?

/-- The loop has passed the version to the client, or is about to. -/
def Running.Passes (r : Running α) (resourceVersion : String) : Prop :=
  r.loop.pc = .opening resourceVersion ∨ resourceVersion ∈ r.opened

/-- The current loop resumes from versions of its own streams. -/
def CursorIsolated (s : Sys α) : Prop :=
  ∀ r, s.newest = some r → ∀ v, r.Passes v → v ≠ "" → v ∈ r.received

def Loop.stores (l : Loop α) : Option String :=
  match l.pc with
  | .handling event => if l.attached then event.version else none
  | _ => none

/-- No loop stores a version once `RestartAll` has cleared it for the
loop's successor. -/
def InTime (s : Sys α) : Act α → Prop
  | .loop i .touchVersion =>
    ∀ r ∈ s.loops[i]?, r.loop.stores.isSome →
      i + 1 = s.loops.length ∧ s.restart ≠ .cleared
  | _ => True

instance (s : Sys α) : ∀ a, Decidable (InTime s a)
  | .loop i act =>
    match act with
    | .touchVersion =>
      inferInstanceAs (Decidable (∀ r ∈ s.loops[i]?,
        r.loop.stores.isSome →
          i + 1 = s.loops.length ∧ s.restart ≠ .cleared))
    | .start _ _ => isTrue trivial
    | .checkContext => isTrue trivial
    | .readVersion => isTrue trivial
    | .openWatch _ => isTrue trivial
    | .receive _ => isTrue trivial
    | .finishEvent => isTrue trivial
    | .channelClosed _ => isTrue trivial
    | .contextDone => isTrue trivial
    | .timerElapsed => isTrue trivial
  | .restartCancel => isTrue trivial
  | .restartClear => isTrue trivial
  | .restartLaunch => isTrue trivial

-- ======== what a loop does

structure VersionStep (act : LoopAct α) (l l' : Loop α)
    (resourceVersion resourceVersion' : String)
    (out : List (LoopOut α)) : Prop where
  /-- The shared version is kept, cleared, or replaced by the one the
  loop was about to store. -/
  shared : resourceVersion' = resourceVersion ∨ resourceVersion' = ""
    ∨ act = .touchVersion ∧ l.stores = some resourceVersion'
  /-- The loop is about to open from what it was about to open from, or
  from the shared version. -/
  opening : ∀ v, l'.pc = .opening v → v ≠ "" → v = resourceVersion
  /-- It passes to the client what it was about to. -/
  opens : ∀ v ∈ opens out, l.pc = .opening v
  /-- It is about to store what it has just received. -/
  handling : ∀ v, l'.stores = some v → v ∈ receives act

/-- Neither about to open a watch nor about to store a version. -/
def Pc.quiet : Pc α → Bool
  | .opening _ => false
  | .handling _ => false
  | _ => true

/-- A step that leaves the loop where it is about neither to pass nor
to store a version. -/
theorem versionStep_of_quiet {act : LoopAct α} {l l' : Loop α}
    {resourceVersion resourceVersion' : String} {out : List (LoopOut α)}
    (hshared : resourceVersion' = resourceVersion ∨ resourceVersion' = ""
      ∨ act = .touchVersion ∧ l.stores = some resourceVersion')
    (hpc : l'.pc.quiet = true)
    (hopens : ∀ v ∈ WatchLoop.opens out, l.pc = .opening v) :
    VersionStep act l l' resourceVersion resourceVersion' out where
  shared := hshared
  opening v h := by
    rw [h] at hpc
    cases hpc
  opens := hopens
  handling v h := by
    unfold Loop.stores at h
    split at h
    next event heq =>
      rw [heq] at hpc
      cases hpc
    next => cases h

theorem versionStep_quiet {act : LoopAct α} {l l' : Loop α}
    {resourceVersion resourceVersion' : String} {out : List (LoopOut α)}
    (hshared : resourceVersion' = resourceVersion)
    (hpc : l'.pc.quiet = true) (hout : WatchLoop.opens out = []) :
    VersionStep act l l' resourceVersion resourceVersion' out := by
  apply versionStep_of_quiet (Or.inl hshared) hpc
  intro v hv
  rw [hout] at hv
  cases hv

theorem versionStep_stop (act : LoopAct α) (l : Loop α)
    (resourceVersion : String) :
    VersionStep act l l.stop.1 resourceVersion resourceVersion l.stop.2 :=
  versionStep_quiet rfl rfl rfl

theorem versionStep_finishEvent (launch : Launch) (cancelled : Bool)
    (event : WatchEvent α) (act : LoopAct α) (l : Loop α)
    (resourceVersion : String) :
    VersionStep act l (l.finishEvent launch cancelled event).1
      resourceVersion resourceVersion
      (l.finishEvent launch cancelled event).2 := by
  unfold Loop.finishEvent
  split
  next => exact versionStep_quiet rfl rfl rfl
  next =>
    split
    next => exact versionStep_quiet rfl rfl rfl
    next =>
      split
      next => exact versionStep_stop ..
      next => exact versionStep_quiet rfl rfl rfl

theorem versionStep_channelClosed (receivedAny : Bool)
    (openDuration : Nat) (act : LoopAct α) (l : Loop α)
    (resourceVersion : String) :
    VersionStep act l (l.channelClosed receivedAny openDuration).1
      resourceVersion resourceVersion
      (l.channelClosed receivedAny openDuration).2 := by
  unfold Loop.channelClosed
  split
  next => exact versionStep_quiet rfl rfl rfl
  next => exact versionStep_quiet rfl rfl rfl

theorem touch_shared {event : WatchEvent α} {l : Loop α}
    (hpc : l.pc = .handling event) (resourceVersion : String) :
    event.touch l.attached resourceVersion = resourceVersion
      ∨ event.touch l.attached resourceVersion = ""
      ∨ l.stores = some (event.touch l.attached resourceVersion) := by
  unfold WatchEvent.touch Loop.stores
  rw [hpc]
  split
  next => exact Or.inl rfl
  next hattached =>
    split
    next =>
      split
      next => exact Or.inr (Or.inl rfl)
      next => exact Or.inl rfl
    next =>
      have hatt : l.attached = true := by simpa using hattached
      cases hv : event.version with
      | none => exact Or.inl rfl
      | some v =>
        refine Or.inr (Or.inr ?_)
        simp [hatt, hv]

theorem versionStep_touchVersion {event : WatchEvent α} {l : Loop α}
    (hpc : l.pc = .handling event) (resourceVersion : String) :
    VersionStep .touchVersion l { l with pc := .handled event }
      resourceVersion (event.touch l.attached resourceVersion) [] := by
  refine versionStep_of_quiet ?_ rfl (fun _ h => nomatch h)
  rcases touch_shared hpc resourceVersion with heq | heq | heq
  · exact Or.inl heq
  · exact Or.inr (Or.inl heq)
  · exact Or.inr (Or.inr ⟨rfl, heq⟩)

theorem versionStep_readVersion (l : Loop α) (resourceVersion : String) :
    VersionStep .readVersion l
      { l with pc := .opening (if l.attached then resourceVersion else "") }
      resourceVersion resourceVersion [] where
  shared := Or.inl rfl
  opening v hv hne := by
    injection hv with hv
    split at hv
    next => exact hv.symm
    next => exact absurd hv.symm hne
  opens _ h := nomatch h
  handling _ h := nomatch h

theorem versionStep_receive (event : WatchEvent α) (l : Loop α)
    (resourceVersion : String) :
    VersionStep (.receive event) l
      { l with pc := .handling event, consecutiveFailures := 0 }
      resourceVersion resourceVersion [] where
  shared := Or.inl rfl
  opening _ h := nomatch h
  opens _ h := nomatch h
  handling v hv := by
    simp only [Loop.stores] at hv
    split at hv
    next => simp [receives, hv]
    next => cases hv

/-- Every step of a loop is a `VersionStep`. -/
theorem watchLoop_versionStep {launch : Launch} {cancelled : Bool}
    {resourceVersion resourceVersion' : String} {act : LoopAct α}
    {l l' : Loop α} {out : List (LoopOut α)}
    (h : watchLoop launch cancelled resourceVersion act l
      = some (resourceVersion', l', out)) :
    VersionStep act l l' resourceVersion resourceVersion' out := by
  unfold watchLoop at h
  split at h
  next client attached hpc =>
    split at h <;> cases h
    next => exact versionStep_quiet rfl rfl rfl
    next => exact versionStep_stop ..
  next hpc =>
    split at h <;> cases h
    next => exact versionStep_stop ..
    next => exact versionStep_quiet rfl rfl rfl
  next hpc =>
    cases h
    exact versionStep_readVersion ..
  next rv hpc =>
    -- The watch is open.
    cases h
    refine versionStep_of_quiet (Or.inl rfl) rfl fun v hv => ?_
    rw [List.mem_singleton.mp hv]
    exact hpc
  next rv error hpc =>
    -- The watch could not be opened, perhaps for a version that is lost.
    cases h
    refine versionStep_of_quiet ?_ rfl fun v hv => ?_
    · split
      next => exact Or.inr (Or.inl rfl)
      next => exact Or.inl rfl
    · rw [List.mem_singleton.mp hv]
      exact hpc
  next receivedAny event hpc =>
    cases h
    exact versionStep_receive ..
  next receivedAny openDuration hpc =>
    injection h with h
    injection h with hv h
    obtain ⟨hl, ho⟩ := Prod.ext_iff.mp h
    rw [← hv, ← show _ = l' from hl, ← show _ = out from ho]
    exact versionStep_channelClosed ..
  next hpc =>
    split at h <;> cases h
    exact versionStep_stop ..
  next event hpc =>
    cases h
    exact versionStep_touchVersion hpc _
  next event hpc =>
    injection h with h
    injection h with hv h
    obtain ⟨hl, ho⟩ := Prod.ext_iff.mp h
    rw [← hv, ← show _ = l' from hl, ← show _ = out from ho]
    exact versionStep_finishEvent ..
  next =>
    cases h
    exact versionStep_quiet rfl rfl rfl
  next =>
    split at h <;> cases h
    exact versionStep_stop ..
  next => cases h

/-- The part of the invariant that is about one loop: it is about to
store something it has received. -/
def Running.Own (r : Running α) : Prop :=
  ∀ v, r.loop.stores = some v → v ∈ r.received

/-- The current loop on a shared version: that version, and all it has
passed to the client, its own streams have delivered. -/
structure Running.Clean (resourceVersion : String) (r : Running α) :
    Prop where
  shared : resourceVersion ≠ "" → resourceVersion ∈ r.received
  passes : ∀ v, r.Passes v → v ≠ "" → v ∈ r.received

def Running.behind (r : Running α) (loop : Loop α) (act : LoopAct α)
    (out : List (LoopOut α)) : Running α :=
  ({ r with loop }).record act out

section OneStep

variable {r : Running α} {act : LoopAct α} {l' : Loop α}
variable {resourceVersion resourceVersion' : String}
variable {out : List (LoopOut α)}

theorem received_behind {v : String} (h : v ∈ r.received) :
    v ∈ (r.behind l' act out).received :=
  List.mem_append_left _ h

theorem own_step
    (hstep : VersionStep act r.loop l' resourceVersion resourceVersion' out) :
    (r.behind l' act out).Own := by
  intro v hv
  exact List.mem_append_right _ (hstep.handling v hv)

theorem clean_step (hown : r.Own) (hclean : r.Clean resourceVersion)
    (hstep : VersionStep act r.loop l' resourceVersion resourceVersion' out) :
    (r.behind l' act out).Clean resourceVersion' where
  shared hne := by
    apply received_behind
    rcases hstep.shared with heq | heq | ⟨-, hstores⟩
    · rw [heq] at hne ⊢
      exact hclean.shared hne
    · exact absurd heq hne
    · exact hown _ hstores
  passes v hv hne := by
    apply received_behind
    rcases hv with hpc | hopened
    · -- It is about to pass what it has just read.
      have heq := hstep.opening v hpc hne
      rw [heq] at hne ⊢
      exact hclean.shared hne
    · rcases List.mem_append.mp hopened with hold | hnew
      · exact hclean.passes v (Or.inr hold) hne
      · exact hclean.passes v (Or.inl (hstep.opens v hnew)) hne

/-- A step that stores nothing keeps or clears the shared version, so
another loop stays clean. -/
theorem clean_other {r' : Running α} {l : Loop α}
    (hclean : r'.Clean resourceVersion)
    (hstep : VersionStep act l l' resourceVersion resourceVersion' out)
    (hstores : act = .touchVersion → l.stores.isSome → False) :
    r'.Clean resourceVersion' where
  shared hne := by
    rcases hstep.shared with heq | heq | ⟨hact, hsome⟩
    · rw [heq] at hne ⊢
      exact hclean.shared hne
    · exact absurd heq hne
    · rw [hsome] at hstores
      exact (hstores hact rfl).elim
  passes := hclean.passes

end OneStep

-- ======== the invariant

/-- What holds as long as no store comes late. -/
structure Inv (s : Sys α) : Prop where
  own : ∀ r ∈ s.loops, r.Own
  clean : ∀ r, s.newest = some r → r.Clean s.resourceVersion
  /-- The version stays cleared until the next loop is there. -/
  cleared : s.restart = .cleared → s.resourceVersion = ""

theorem clean_launched : (Running.launched (α := α)).Clean "" where
  shared h := absurd rfl h
  passes v h _ := by
    rcases h with h | h
    · cases h
    · cases h

theorem own_launched : (Running.launched (α := α)).Own := by
  intro v hv
  cases hv

theorem inv_init : Inv (Sys.init (α := α)) where
  own r hr := by
    rw [List.mem_singleton.mp hr]
    exact own_launched
  clean r hr := by
    cases hr
    exact clean_launched
  cleared h := by cases h

/-- A step of loop `i` keeps the invariant, unless it is a late
store. -/
theorem inv_loop {launch : Launch} {i : Nat} {act : LoopAct α}
    {s : Sys α} {r : Running α} {resourceVersion' : String} {l' : Loop α}
    {out : List (LoopOut α)} (hi : Inv s) (hr : s.loops[i]? = some r)
    (hok : InTime s (.loop i act))
    (h : watchLoop launch r.cancelled s.resourceVersion act r.loop
      = some (resourceVersion', l', out)) :
    Inv { s with
      resourceVersion := resourceVersion'
      loops := s.loops.set i (r.behind l' act out) } := by
  have hstep := watchLoop_versionStep h
  have hlate : act = .touchVersion → r.loop.stores.isSome →
      i + 1 = s.loops.length ∧ s.restart ≠ .cleared := by
    intro hact hstores
    subst hact
    exact hok r hr hstores
  refine ⟨fun r' hr' => ?_, fun r' hr' => ?_, fun hcleared => ?_⟩
  · rcases List.mem_or_eq_of_mem_set hr' with hold | heq
    · exact hi.own r' hold
    · rw [heq]
      exact own_step hstep
  · have hnew : (s.loops.set i (r.behind l' act out))[s.loops.length - 1]?
        = some r' := by
      rw [← hr', Sys.newest, List.length_set]
    by_cases heq : i = s.loops.length - 1
    · -- The loop that steps is the current one.
      subst heq
      rw [List.getElem?_set_self (List.getElem?_eq_some_iff.mp hr).1,
        Option.some.injEq] at hnew
      rw [← hnew]
      exact clean_step (hi.own r (List.mem_of_getElem? hr))
        (hi.clean r hr) hstep
    · rw [List.getElem?_set_ne heq] at hnew
      refine clean_other (hi.clean r' hnew) hstep fun hact hstores => ?_
      have hlast := (hlate hact hstores).1
      omega
  · have hempty := hi.cleared hcleared
    rcases hstep.shared with heq | heq | ⟨hact, hsome⟩
    · exact heq.trans hempty
    · exact heq
    · rw [hsome] at hlate
      exact absurd hcleared (hlate hact rfl).2

theorem mem_cancelCurrent {loops : List (Running α)} {i : Nat}
    {r : Running α} (h : (cancelCurrent loops)[i]? = some r) :
    ∃ r' ∈ loops[i]?, r = { r' with cancelled := r.cancelled } := by
  rw [cancelCurrent, List.getElem?_modify] at h
  obtain ⟨r', hr', heq⟩ := Option.map_eq_some_iff.mp h
  refine ⟨r', hr', ?_⟩
  split at heq <;> rw [← heq]

theorem inv_restartCancel {s : Sys α} (hi : Inv s) :
    Inv { s with loops := cancelCurrent s.loops, restart := .cancelled } where
  own r hr := by
    obtain ⟨i, hr⟩ := List.mem_iff_getElem?.mp hr
    obtain ⟨r', hr', heq⟩ := mem_cancelCurrent hr
    rw [heq]
    exact hi.own r' (List.mem_of_getElem? hr')
  clean r hr := by
    rw [Sys.newest, cancelCurrent, List.length_modify] at hr
    obtain ⟨r', hr', heq⟩ := mem_cancelCurrent hr
    obtain ⟨hshared, hpasses⟩ := hi.clean r' hr'
    rw [heq]
    exact ⟨hshared, hpasses⟩
  cleared h := by cases h

theorem inv_restartClear {s : Sys α} (hi : Inv s) :
    Inv { s with resourceVersion := "", restart := .cleared } where
  own := hi.own
  clean r hr := ⟨fun hne => absurd rfl hne, (hi.clean r hr).passes⟩
  cleared _ := rfl

theorem inv_restartLaunch {s : Sys α} (hi : Inv s)
    (hrestart : s.restart = .cleared) :
    Inv { s with loops := s.loops ++ [.launched], restart := .idle } where
  own r hr := by
    rcases List.mem_append.mp hr with hold | hnew
    · exact hi.own r hold
    · rw [List.mem_singleton.mp hnew]
      exact own_launched
  clean r hr := by
    simp only [Sys.newest, List.length_append, List.length_singleton,
      Nat.add_sub_cancel, List.getElem?_concat_length,
      Option.some.injEq] at hr
    rw [← hr]
    show Running.Clean s.resourceVersion _
    rw [hi.cleared hrestart]
    exact clean_launched
  cleared h := by cases h

/-- Every step keeps the invariant, unless it is a late store. -/
theorem step_inv {launch : Launch} {act : Act α} {s s' : Sys α}
    {out : List (Nat × LoopOut α)} (hi : Inv s) (hok : InTime s act)
    (h : step launch act s = some (s', out)) : Inv s' := by
  cases act with
  | loop i act =>
    unfold step at h
    cases hr : s.loops[i]? with
    | none =>
      simp only [hr] at h
      cases h
    | some r =>
      simp only [hr] at h
      obtain ⟨⟨rv, l', o⟩, hw, heq⟩ := Option.map_eq_some_iff.mp h
      injection heq with hs
      rw [← hs]
      exact inv_loop hi hr hok hw
  | restartCancel =>
    simp only [step] at h
    split at h
    next =>
      cases h
      exact inv_restartCancel hi
    next => cases h
  | restartClear =>
    simp only [step] at h
    split at h
    next =>
      cases h
      exact inv_restartClear hi
    next => cases h
  | restartLaunch =>
    simp only [step] at h
    split at h
    next hrestart =>
      cases h
      exact inv_restartLaunch hi hrestart
    next => cases h

-- ======== the results

/-- In a run in which no loop stores a version behind the clearing that
was to discard it, every version the current loop resumes from is one
its own streams have delivered. -/
theorem cursor_isolated {launch : Launch} {acts : List (Act α)}
    {s' : Sys α} {out : List (Nat × LoopOut α)}
    (hok : Along (step launch) InTime Sys.init acts)
    (hrun : run (step launch) Sys.init acts = some (s', out)) :
    CursorIsolated s' := by
  have hinv : Inv s' := run_invariant step_inv inv_init hok hrun
  exact fun r hr => (hinv.clean r hr).passes

def podAt (resourceVersion : String) : WatchEvent Nat :=
  { type := .added
    object := some
      { metadata := some { resourceVersion := some resourceVersion }
        body := 0 } }

def connect (i : Nat) : List (Act Nat) :=
  [.loop i (.start true true), .loop i .checkContext,
    .loop i .readVersion, .loop i (.openWatch none)]

/-- A restart that the old loop meets before the version is cleared, and
behind which the new loop loses its stream and resumes. -/
def restartInTime : List (Act Nat) :=
  connect 0
    ++ [.loop 0 (.receive (podAt "5")), .restartCancel,
      .loop 0 .touchVersion, .restartClear, .restartLaunch,
      .loop 0 .finishEvent]
    ++ connect 1
    ++ [.loop 1 (.receive (podAt "7")), .loop 1 .touchVersion,
      .loop 1 .finishEvent, .loop 1 (.channelClosed 0),
      .loop 1 .timerElapsed, .loop 1 .checkContext, .loop 1 .readVersion,
      .loop 1 (.openWatch none)]

/-- In that run the new loop opens from nothing, and then from its own
version. -/
theorem cursor_isolated_restartInTime :
    ∃ s' out,
      run (step (.watchResourceLoop "pods" "default")) Sys.init
        restartInTime = some (s', out)
      ∧ CursorIsolated s' := by
  have hrun : run (step (.watchResourceLoop "pods" "default")) Sys.init
      restartInTime = some (_, _) := rfl
  exact ⟨_, _, hrun, cursor_isolated (by decide) hrun⟩

/-- The old loop has received an event when `RestartAll` cancels it and
clears the version; only then it stores the event's version, and the
new loop resumes from it. -/
def storeLate : List (Act Nat) :=
  connect 0
    ++ [.loop 0 (.receive (podAt "5")), .restartCancel, .restartClear,
      .loop 0 .touchVersion, .restartLaunch]
    ++ connect 1

/-- The new loop resumes from what the cancelled loop received. -/
theorem stale_store_resumes :
    ∃ s' out r,
      run (step (.watchResourceLoop "pods" "default")) Sys.init storeLate
        = some (s', out)
      ∧ s'.loops.map (·.received) = [["5"], []]
      ∧ s'.newest = some r ∧ r.Passes "5" ∧ ¬ CursorIsolated s' := by
  have hrun : run (step (.watchResourceLoop "pods" "default")) Sys.init
      storeLate = some (_, _) := rfl
  refine ⟨_, _, _, hrun, rfl, rfl, Or.inr (by decide), fun h => ?_⟩
  cases h _ rfl "5" (Or.inr (by decide)) (by decide)

end WatchLoop
