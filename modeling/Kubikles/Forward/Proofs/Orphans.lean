/-
`usedPorts` as the inverse of the configurations.

# The argument

Two maps are kept in step by hand, so the question for each operation is
one of the library's: does this pair of updates keep an index? The
answers are equivalences, and so is the result: the maps fit in every
state of a run if and only if they do behind the loading and each step
meets `KeepsPorts`. Only two operations can fail it. `AddConfig` files
over a configuration that has its ID and another port, which
`UpdateConfig` would take out of the index. And `DeleteConfig` frees the
port it read before it let go of the mutex, while the configuration it
deletes is the one there when it has the mutex back.

# Orphans

Running forwards and the map they are found in.

# The argument

A forward is registered under its ID when it is started, and the map is
the only way to it. `Stop` tells the forward it found to stop, waits
without the mutex, and then deletes whatever is registered under the
ID; `DeleteConfig` waits for its `Stop` the same way, and then deletes
the configuration whatever is running (`Manager.finishDelete`). In both
gaps a `Start` finds the ID free. As long as neither deletion meets a
forward that nobody told to stop (`Lapsed`), the forwards that nobody
told to stop are those registered.

That the entry of the map and the goroutine's configuration go by the
same ID is a matter of the configurations, each of which is filed under
its own.
-/
import Kubikles.Forward.Proofs.Change

namespace PortForwardManager

open Machine
open FinMap (Indexes LastAgree)

-- ======== the statement

/-- A port is used by an ID exactly if the configuration of that ID is
there and has that port. -/
def OwnsPorts (m : Manager) : Prop :=
  Indexes PortForwardConfig.localPort m.configs m.usedPorts

/-- What two of the operations have to find. An `AddConfig` that goes
through finds no configuration of its ID, or one with the same port. A
`DeleteConfig` that has the mutex back finds a configuration with the
port it is about to free, or no configuration and that port unused. -/
def KeepsPorts (m : Manager) : Frame → Env → Prop
  | .call (.addConfig cfg), .added newID now =>
    let cfg := cfg.stamp newID now
    m.portTaken cfg.localPort cfg.id = false →
      ∀ existing ∈ m.configs.lookup cfg.id,
        existing.localPort = cfg.localPort
  | .finishDelete configID localPort, .go =>
    (∀ cfg ∈ m.configs.lookup configID, cfg.localPort = localPort)
    ∧ (m.configs.lookup configID = none →
        m.usedPorts.lookup localPort = none)
  | _, _ => True

def PortsKept (s : Sys) : Act → Prop
  | .run i env => ∀ p ∈ s.next i, KeepsPorts s.manager p.1 env
  | .call _ => True

-- ======== loading

theorem load_maps (l : List PortForwardConfig) :
    (l.foldl Manager.load ⟨∅, ∅, ∅, []⟩).configs
        = FinMap.insertAll PortForwardConfig.id (fun cfg => cfg) ∅ l
      ∧ (l.foldl Manager.load ⟨∅, ∅, ∅, []⟩).usedPorts
        = FinMap.insertAll PortForwardConfig.localPort
            PortForwardConfig.id ∅ l := by
  suffices h : ∀ m : Manager,
      (l.foldl Manager.load m).configs
          = FinMap.insertAll PortForwardConfig.id (fun cfg => cfg)
              m.configs l
        ∧ (l.foldl Manager.load m).usedPorts
          = FinMap.insertAll PortForwardConfig.localPort
              PortForwardConfig.id m.usedPorts l from h _
  induction l with
  | nil => exact fun m => ⟨rfl, rfl⟩
  | cons cfg l ih => exact fun m => ih (m.load cfg)

/-- What is loaded fits if and only if the stored list has the same last
configurations by ID and by port. -/
theorem owns_loadConfigs_iff (storage : Option (List PortForwardConfig)) :
    OwnsPorts (loadConfigs storage)
      ↔ LastAgree PortForwardConfig.id PortForwardConfig.localPort
          (storage.getD []) := by
  unfold OwnsPorts loadConfigs
  rw [(load_maps _).1, (load_maps _).2]
  exact FinMap.indexes_insertAll_iff _

-- ======== one step

variable {m m' : Manager}

theorem eq_of_portTaken_eq_false {localPort : Int} {id : String}
    (h : m.portTaken localPort id = false) :
    ∀ id' ∈ m.usedPorts.lookup localPort, id' = id := by
  intro id' hid
  unfold Manager.portTaken at h
  rw [Option.mem_def.mp hid] at h
  simpa using h

/-- The end of `DeleteConfig` keeps the ports if and only if it finds
what it has to. -/
theorem finishDelete_owns_iff (hi : OwnsPorts m) (configID : String)
    (localPort : Int) :
    OwnsPorts (m.finishDelete configID localPort).manager
      ↔ KeepsPorts m (.finishDelete configID localPort) .go :=
  Indexes.erase_iff hi

/-- `AddConfig` keeps the ports if and only if it is refused or finds
what it has to. -/
theorem addConfig_owns_iff (hi : OwnsPorts m) (cfg : PortForwardConfig)
    (newID : String) (now : Nat) :
    OwnsPorts (m.addConfig newID now cfg).manager
      ↔ KeepsPorts m (.call (.addConfig cfg)) (.added newID now) := by
  unfold Manager.addConfig KeepsPorts
  simp only
  split
  next htaken =>
    refine ⟨fun _ hfree => ?_, fun _ => hi⟩
    rw [htaken] at hfree
    cases hfree
  next hfree =>
    have hfree : m.portTaken (cfg.stamp newID now).localPort
        (cfg.stamp newID now).id = false := by simpa using hfree
    have hiff := Indexes.insert_iff hi (eq_of_portTaken_eq_false hfree)
    exact ⟨fun h _ => hiff.mp h, fun h => hiff.mpr (h hfree)⟩

/-- The frames that `KeepsPorts` is about. -/
def Frame.settlesPort : Frame → Bool
  | .call (.addConfig _) => true
  | .finishDelete _ _ => true
  | _ => false

theorem keepsPorts_of_not_settles {frame : Frame} {env : Env}
    (h : frame.settlesPort = false) : KeepsPorts m frame env := by
  unfold KeepsPorts
  split
  next => cases h
  next => cases h
  next => trivial

theorem change_owns {frame : Frame} {env : Env}
    (hframe : frame.settlesPort = false) (hi : OwnsPorts m)
    (h : Change m frame env m') : OwnsPorts m' := by
  cases h with
  | quiet => exact hi
  | addConfig => cases hframe
  | updateConfig hlookup hport => exact Indexes.insert_same hi hlookup hport
  | movePort hlookup hne hport =>
    exact Indexes.insert_move hi hlookup (Ne.symm hne)
      (eq_of_portTaken_eq_false hport)
  | deleteConfig hlookup _ =>
    refine (finishDelete_owns_iff hi _ _).mpr ⟨fun cfg hcfg => ?_, ?_⟩
    · rw [Option.mem_def, hlookup, Option.some.injEq] at hcfg
      rw [hcfg]
    · intro hnone
      rw [hlookup] at hnone
      cases hnone
  | finishDelete => cases hframe
  | start => exact hi
  | remove => exact hi
  | touch => exact hi

theorem exec_owns_iff {frame : Frame} {env : Env} {e : Effect}
    (hi : OwnsPorts m) (h : frame.exec m env = some e) :
    OwnsPorts e.manager ↔ KeepsPorts m frame env := by
  cases hframe : frame.settlesPort with
  | false =>
    exact ⟨fun _ => keepsPorts_of_not_settles hframe,
      fun _ => change_owns hframe hi (exec_change h)⟩
  | true =>
    unfold Frame.settlesPort at hframe
    split at hframe
    next cfg =>
      cases env with
      | added newID now =>
        cases h
        exact addConfig_owns_iff hi cfg newID now
      | _ => cases h
    next configID localPort =>
      cases env with
      | go =>
        cases h
        exact finishDelete_owns_iff hi configID localPort
      | _ => cases h
    next => cases hframe

/-- A step keeps the ports if and only if its frame finds what it has
to. -/
theorem step_owns_iff {act : Act} {s s' : Sys} {out : List (Nat × Out)}
    (hi : OwnsPorts s.manager) (h : step act s = some (s', out)) :
    OwnsPorts s'.manager ↔ PortsKept s act := by
  cases act with
  | call method =>
    cases h
    exact ⟨fun _ => trivial, fun _ => hi⟩
  | run i env =>
    simp only [step] at h
    split at h
    next => cases h
    next frame rest hnext =>
      obtain ⟨e, he, heq⟩ := Option.map_eq_some_iff.mp h
      cases heq
      show OwnsPorts e.manager
        ↔ ∀ p ∈ s.next i, KeepsPorts s.manager p.1 env
      rw [exec_owns_iff hi he, hnext]
      simp

-- ======== the results

/-- The ports are owned in every state of a run if and only if the
stored list has the same last configurations by ID and by port, and
every step of the run finds what it has to. -/
theorem ports_owned_iff (storage : Option (List PortForwardConfig))
    (acts : List Act) :
    Visits step (fun s => OwnsPorts s.manager) (Sys.init storage) acts
      ↔ LastAgree PortForwardConfig.id PortForwardConfig.localPort
            (storage.getD [])
        ∧ Along step PortsKept (Sys.init storage) acts := by
  rw [← owns_loadConfigs_iff]
  have hiff : OwnsPorts (loadConfigs storage) →
      (Visits step (fun s => OwnsPorts s.manager) (Sys.init storage) acts
        ↔ Along step PortsKept (Sys.init storage) acts) := fun hi =>
    visits_iff_along (I := fun s => OwnsPorts s.manager)
      (fun hi hok h => (step_owns_iff hi h).mpr hok) (fun h => h)
      (fun hi h hp => (step_owns_iff hi h).mp hp) hi
  constructor
  · intro h
    have hi : OwnsPorts (loadConfigs storage) := h.head
    exact ⟨hi, (hiff hi).mp h⟩
  · intro ⟨hi, hok⟩
    exact (hiff hi).mpr hok

/-- A configuration is added under an ID, and another with that ID and
another port. -/
def addTwice : List Act :=
  [.call (.addConfig { id := "a", localPort := 8080 }),
    .run 0 (.added "" 0),
    .call (.addConfig { id := "a", localPort := 9090 }),
    .run 1 (.added "" 0)]

/-- The first port stays used, by a configuration that has the
second. -/
theorem addConfig_strands_port :
    ∃ s' out, run step (Sys.init none) addTwice = some (s', out)
      ∧ s'.manager.usedPorts.lookup 8080 = some "a"
      ∧ (s'.manager.configs.lookup "a").map (·.localPort) = some 9090
      ∧ ¬ OwnsPorts s'.manager := by
  have hrun : run step (Sys.init none) addTwice = some (_, _) := rfl
  refine ⟨_, _, hrun, by decide, by decide, fun h => ?_⟩
  obtain ⟨cfg, hcfg, hport⟩ := (h 8080 "a").mp (by decide)
  cases hcfg
  cases hport

end PortForwardManager

namespace PortForwardManager

open Machine

-- ======== the statement

/-- The forward's goroutine is running, and nobody has told it to
stop. -/
structure ActivePortForward.Running (a : ActivePortForward) : Prop where
  spawned : a.spawned = true
  notDone : a.doneClosed = false
  notStopped : a.stopClosed = false

/-- Every running forward is the one registered under its ID, and its
configuration is there. -/
def NoOrphan (m : Manager) : Prop :=
  ∀ i a, m.forwards[i]? = some a → a.Running →
    m.active.lookup a.config.id = some i ∧ a.config.id ∈ m.configs

/-- What is registered under an ID, if anything, has been told to stop
or has finished. -/
def Lapsed (m : Manager) (configID : String) : Prop :=
  ∀ i ∈ m.active.lookup configID, ∀ a ∈ m.forwards[i]?,
    a.stopClosed = true ∨ a.doneClosed = true

instance (m : Manager) (configID : String) :
    Decidable (Lapsed m configID) :=
  inferInstanceAs (Decidable (∀ i ∈ m.active.lookup configID,
    ∀ a ∈ m.forwards[i]?, _))

/-- The critical sections that delete behind a wait delete no forward
that should run on. -/
def KeepsForwards (m : Manager) : Frame → Prop
  | .remove configID => Lapsed m configID
  | .finishDelete configID _ => Lapsed m configID
  | _ => True

instance (m : Manager) : ∀ frame, Decidable (KeepsForwards m frame)
  | .remove configID => inferInstanceAs (Decidable (Lapsed m configID))
  | .finishDelete configID _ =>
    inferInstanceAs (Decidable (Lapsed m configID))
  | .call _ => isTrue trivial
  | .emitEvent _ => isTrue trivial
  | .reply _ => isTrue trivial
  | .spawn _ => isTrue trivial
  | .signal _ => isTrue trivial
  | .wait _ => isTrue trivial
  | .runWithReconnect _ _ _ _ => isTrue trivial
  | .updateStatus _ _ _ => isTrue trivial
  | .closeDone _ => isTrue trivial

/-- The step's frame is such a section, or none that deletes behind a
wait. -/
def ForwardsKept (s : Sys) : Act → Prop
  | .run i _ => ∀ p ∈ s.next i, KeepsForwards s.manager p.1
  | .call _ => True

instance (s : Sys) : ∀ a, Decidable (ForwardsKept s a)
  | .run i _ =>
    inferInstanceAs (Decidable (∀ p ∈ s.next i,
      KeepsForwards s.manager p.1))
  | .call _ => isTrue trivial

-- ======== the invariant

/-- What holds of the manager as long as nothing is deleted too
late. -/
structure Inv (m : Manager) : Prop where
  /-- A configuration is filed under its own ID. -/
  keyed : ∀ id cfg, m.configs.lookup id = some cfg → cfg.id = id
  /-- A forward that nobody told to stop is registered, from before its
  goroutine runs. -/
  filed : ∀ i a, m.forwards[i]? = some a → a.stopClosed = false →
    a.doneClosed = false →
    m.active.lookup a.config.id = some i ∧ a.config.id ∈ m.configs

theorem Inv.noOrphan {m : Manager} (hi : Inv m) : NoOrphan m :=
  fun i a ha hrun => hi.filed i a ha hrun.notStopped hrun.notDone

variable {m m' : Manager}

theorem Inv.insert (hi : Inv m) {id : String} {cfg : PortForwardConfig}
    {usedPorts : FinMap Int String} (hid : cfg.id = id) :
    Inv { m with configs := m.configs.insert id cfg, usedPorts } where
  keyed id' cfg' h := by
    rw [FinMap.lookup_insert] at h
    split at h
    next heq => rw [heq, ← Option.some.inj h, hid]
    next => exact hi.keyed id' cfg' h
  filed i a ha hstop hdone := by
    obtain ⟨hactive, hmem⟩ := hi.filed i a ha hstop hdone
    exact ⟨hactive, Finmap.mem_insert.mpr (Or.inr hmem)⟩

theorem inv_loadConfigs (storage : Option (List PortForwardConfig)) :
    Inv (loadConfigs storage) := by
  suffices h : ∀ m, Inv m →
      Inv ((storage.getD []).foldl Manager.load m) by
    refine h _ ⟨fun id cfg h => ?_, fun i a ha => ?_⟩
    · rw [Finmap.lookup_empty] at h
      cases h
    · cases ha
  induction storage.getD [] with
  | nil => exact fun m hi => hi
  | cons cfg l ih => exact fun m hi => ih (m.load cfg) (hi.insert rfl)

theorem Inv.register (hi : Inv m) {configID : String}
    {cfg : PortForwardConfig} {now : Nat}
    (hlookup : m.configs.lookup configID = some cfg)
    (hidle : configID ∉ m.active) :
    Inv (m.register configID cfg now) where
  keyed := hi.keyed
  filed i a ha hstop hdone := by
    show (m.active.insert configID m.forwards.length).lookup a.config.id
      = some i ∧ a.config.id ∈ m.configs
    rw [FinMap.lookup_insert]
    simp only [Manager.register] at ha
    by_cases hlt : i < m.forwards.length
    · rw [List.getElem?_append_left hlt] at ha
      obtain ⟨hactive, hmem⟩ := hi.filed i a ha hstop hdone
      have hne : a.config.id ≠ configID := by
        intro heq
        apply hidle
        rw [← heq, ← Finmap.lookup_isSome, hactive]
        rfl
      rw [if_neg hne]
      exact ⟨hactive, hmem⟩
    · -- The new forward.
      have heq : i = m.forwards.length := by
        have hbound := (List.getElem?_eq_some_iff.mp ha).1
        rw [List.length_append, List.length_singleton] at hbound
        omega
      subst heq
      rw [List.getElem?_concat_length, Option.some.injEq] at ha
      subst ha
      have hid := hi.keyed configID cfg hlookup
      rw [if_pos hid, hid, ← Finmap.lookup_isSome, hlookup]
      exact ⟨rfl, rfl⟩

/-- A forward that nobody told to stop is not registered under an ID
that has lapsed. -/
theorem Inv.ne_of_lapsed (hi : Inv m) {configID : String}
    (hlapsed : Lapsed m configID) {i : Nat} {a : ActivePortForward}
    (ha : m.forwards[i]? = some a) (hstop : a.stopClosed = false)
    (hdone : a.doneClosed = false) : a.config.id ≠ configID := by
  intro heq
  have hactive := (hi.filed i a ha hstop hdone).1
  rw [heq] at hactive
  rcases hlapsed i hactive a ha with h | h
  · rw [hstop] at h
    cases h
  · rw [hdone] at h
    cases h

theorem Inv.remove (hi : Inv m) {configID : String}
    (hlapsed : Lapsed m configID) :
    Inv { m with active := m.active.erase configID } where
  keyed := hi.keyed
  filed i a ha hstop hdone := by
    have hne := hi.ne_of_lapsed hlapsed ha hstop hdone
    rw [FinMap.lookup_erase, if_neg hne]
    exact hi.filed i a ha hstop hdone

theorem Inv.finishDelete (hi : Inv m) {configID : String}
    (hlapsed : Lapsed m configID) (localPort : Int) :
    Inv (m.finishDelete configID localPort).manager where
  keyed id cfg h := by
    simp only [Manager.finishDelete] at h
    rw [FinMap.lookup_erase] at h
    split at h
    next => cases h
    next => exact hi.keyed id cfg h
  filed i a ha hstop hdone := by
    have hne := hi.ne_of_lapsed hlapsed ha hstop hdone
    obtain ⟨hactive, hmem⟩ := hi.filed i a ha hstop hdone
    exact ⟨hactive, Finmap.mem_erase.mpr ⟨hne, hmem⟩⟩

theorem lapsed_of_notMem {configID : String}
    (hidle : configID ∉ m.active) : Lapsed m configID := by
  intro i hactive
  rw [Finmap.lookup_eq_none.mpr hidle] at hactive
  cases hactive

theorem Inv.touch (hi : Inv m) {af : Nat}
    {f : ActivePortForward → ActivePortForward} (hf : Touches f) :
    Inv (m.modifyForward af f) where
  keyed := hi.keyed
  filed i a ha hstop hdone := by
    simp only [Manager.modifyForward, List.getElem?_modify] at ha
    obtain ⟨b, hb, heq⟩ := Option.map_eq_some_iff.mp ha
    split at heq
    next =>
      rw [← heq] at hstop hdone ⊢
      rw [hf.config b]
      refine hi.filed i b hb ?_ ?_
      · cases hbs : b.stopClosed with
        | false => rfl
        | true => rw [hf.stop b hbs] at hstop; cases hstop
      · cases hbd : b.doneClosed with
        | false => rfl
        | true => rw [hf.done b hbd] at hdone; cases hdone
    next =>
      rw [← heq] at hstop hdone ⊢
      exact hi.filed i b hb hstop hdone

theorem change_inv {frame : Frame} {env : Env} (hi : Inv m)
    (hok : KeepsForwards m frame) (h : Change m frame env m') :
    Inv m' := by
  cases h with
  | quiet => exact hi
  | addConfig => exact hi.insert rfl
  | updateConfig => exact hi.insert rfl
  | movePort => exact hi.insert rfl
  | deleteConfig _ hidle =>
    exact hi.finishDelete (lapsed_of_notMem hidle) _
  | finishDelete => exact hi.finishDelete hok _
  | start hlookup hidle => exact hi.register hlookup hidle
  | remove => exact hi.remove hok
  | touch hf => exact hi.touch hf

theorem step_inv {act : Act} {s s' : Sys} {out : List (Nat × Out)}
    (hi : Inv s.manager) (hok : ForwardsKept s act)
    (h : step act s = some (s', out)) : Inv s'.manager := by
  cases act with
  | call method =>
    cases h
    exact hi
  | run i env =>
    obtain ⟨p, hp, hchange⟩ := run_change h
    exact change_inv hi (hok p hp) hchange

-- ======== the results

/-- In a run in which no `Stop` and no `DeleteConfig` deletes, behind its
wait, what is registered for a forward that nobody told to stop, every
running forward is registered and configured. -/
theorem no_orphan {storage : Option (List PortForwardConfig)}
    {acts : List Act} {s' : Sys} {out : List (Nat × Out)}
    (hok : Along step ForwardsKept (Sys.init storage) acts)
    (hrun : run step (Sys.init storage) acts = some (s', out)) :
    NoOrphan s'.manager := by
  have hinv : Inv s'.manager :=
    run_invariant (I := fun s => Inv s.manager) step_inv
      (inv_loadConfigs storage) hok hrun
  exact hinv.noOrphan

def twoConfigs : Option (List PortForwardConfig) :=
  some [{ id := "a", localPort := 8080 }, { id := "b", localPort := 9090 }]

/-- Goroutine `i` takes its next `n` steps, none of which needs to be
told anything. -/
def goes (i n : Nat) : List Act := List.replicate n (.run i .go)

/-- Goroutine `i` calls `Start` and goes through it. -/
def starts (i : Nat) (configID : String) : List Act :=
  [.call (.start configID), .run i (.started true 0)] ++ goes i 3

/-- Both are started, and the second one is deleted: the forward of the
second one sees its `stopChan` and ends. -/
def deleteOne : List Act :=
  starts 0 "a" ++ starts 2 "b" ++ [.call (.deleteConfig "b")]
    ++ goes 4 3 ++ goes 3 2 ++ goes 4 7

/-- In that run the first forward is still registered. -/
theorem no_orphan_deleteOne :
    ∃ s' out, run step (Sys.init twoConfigs) deleteOne = some (s', out)
      ∧ NoOrphan s'.manager
      ∧ s'.manager.active.lookup "a" = some 0
      ∧ "b" ∉ s'.manager.configs := by
  have hrun : run step (Sys.init twoConfigs) deleteOne = some (_, _) := rfl
  exact ⟨_, _, hrun, no_orphan (by decide) hrun, by decide, by decide⟩

/-- Two calls of `Stop` find the one forward of an ID, the first one
deletes its entry, and the ID is started again. Only then the second
call deletes an entry. -/
def stopTwice : List Act :=
  starts 0 "a" ++ [.call (.stop "a"), .call (.stop "a")]
    ++ goes 2 1 ++ goes 3 1 ++ goes 2 1 ++ goes 1 2 ++ goes 2 2
    ++ starts 4 "a" ++ goes 3 3

/-- The new forward runs on and is registered nowhere. -/
theorem second_stop_orphans :
    ∃ s' out a, run step (Sys.init twoConfigs) stopTwice = some (s', out)
      ∧ s'.manager.forwards[1]? = some a ∧ a.Running
      ∧ a.config.id = "a" ∧ s'.manager.active.lookup "a" = none
      ∧ ¬ NoOrphan s'.manager := by
  have hrun : run step (Sys.init twoConfigs) stopTwice = some (_, _) := rfl
  refine ⟨_, _, _, hrun, rfl, ⟨rfl, rfl, rfl⟩, rfl, by decide, fun h => ?_⟩
  cases (h 1 _ rfl ⟨rfl, rfl, rfl⟩).1

end PortForwardManager
