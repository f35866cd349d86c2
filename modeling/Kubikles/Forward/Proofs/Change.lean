/-
What a frame can do to the manager, said once.

`Change` lists the ways the maps and the forwards can move, each with
what the code has checked before, and `exec_change` is the case analysis
over all frames. Both invariants are proved from it: that of the ports
reads the first half of the list, that of the forwards the second.
-/
import Kubikles.Forward.Manager

namespace PortForwardManager

/-- A write to a forward that leaves its configuration alone and opens
no channel again. -/
structure Touches (f : ActivePortForward → ActivePortForward) : Prop where
  config : ∀ a, (f a).config = a.config
  stop : ∀ a, a.stopClosed = true → (f a).stopClosed = true
  done : ∀ a, a.doneClosed = true → (f a).doneClosed = true

inductive Change (m : Manager) : Frame → Env → Manager → Prop where
  | quiet {frame : Frame} {env : Env} : Change m frame env m
  | addConfig {cfg : PortForwardConfig} {newID : String} {now : Nat}
      (hport : m.portTaken (cfg.stamp newID now).localPort
        (cfg.stamp newID now).id = false) :
      Change m (.call (.addConfig cfg)) (.added newID now)
        (m.load (cfg.stamp newID now))
  | updateConfig {cfg existing : PortForwardConfig}
      (hlookup : m.configs.lookup cfg.id = some existing)
      (hport : existing.localPort = cfg.localPort) :
      Change m (.call (.updateConfig cfg)) .go
        { m with
          configs := m.configs.insert cfg.id
            { cfg with createdAt := existing.createdAt } }
  | movePort {cfg existing : PortForwardConfig}
      (hlookup : m.configs.lookup cfg.id = some existing)
      (hne : existing.localPort ≠ cfg.localPort)
      (hport : m.portTaken cfg.localPort cfg.id = false) :
      Change m (.call (.updateConfig cfg)) .go
        { m with
          usedPorts := (m.usedPorts.erase existing.localPort).insert
            cfg.localPort cfg.id
          configs := m.configs.insert cfg.id
            { cfg with createdAt := existing.createdAt } }
  | deleteConfig {configID : String} {cfg : PortForwardConfig}
      (hlookup : m.configs.lookup configID = some cfg)
      (hidle : configID ∉ m.active) :
      Change m (.call (.deleteConfig configID)) .go
        (m.finishDelete configID cfg.localPort).manager
  | finishDelete {configID : String} {localPort : Int} :
      Change m (.finishDelete configID localPort) .go
        (m.finishDelete configID localPort).manager
  | start {configID : String} {cfg : PortForwardConfig} {now : Nat}
      (hlookup : m.configs.lookup configID = some cfg)
      (hidle : configID ∉ m.active) :
      Change m (.call (.start configID)) (.started true now)
        (m.register configID cfg now)
  | remove {configID : String} :
      Change m (.remove configID) .go
        { m with active := m.active.erase configID }
  | touch {frame : Frame} {env : Env} {af : Nat}
      {f : ActivePortForward → ActivePortForward} (hf : Touches f) :
      Change m frame env (m.modifyForward af f)

variable {m : Manager}

/-- `UpdateConfig` replaces the configuration, and moves its port if
that is another one. -/
theorem updateConfig_change (cfg : PortForwardConfig) :
    Change m (.call (.updateConfig cfg)) .go
      (m.updateConfig cfg).manager := by
  unfold Manager.updateConfig
  cases hlookup : m.configs.lookup cfg.id with
  | none => exact Change.quiet
  | some existing =>
    simp only
    split
    next hport => exact Change.updateConfig hlookup hport
    next hne =>
      split
      next => exact Change.quiet
      next hport =>
        exact Change.movePort hlookup hne (by simpa using hport)

/-- `AddConfig` files the configuration where its port is not
another's. -/
theorem addConfig_change (newID : String) (now : Nat)
    (cfg : PortForwardConfig) :
    Change m (.call (.addConfig cfg)) (.added newID now)
      (m.addConfig newID now cfg).manager := by
  unfold Manager.addConfig
  simp only
  split
  next => exact Change.quiet
  next hport => exact Change.addConfig (by simpa using hport)

theorem deleteConfig_change (configID : String) :
    Change m (.call (.deleteConfig configID)) .go
      (m.deleteConfig configID).manager := by
  unfold Manager.deleteConfig
  cases hlookup : m.configs.lookup configID with
  | none => exact Change.quiet
  | some cfg =>
    simp only
    split
    next => exact Change.quiet
    next hidle => exact Change.deleteConfig hlookup hidle

/-- `Start` files a forward where none is active and the port is
free. -/
theorem start_change (available : Bool) (now : Nat) (configID : String) :
    Change m (.call (.start configID)) (.started available now)
      (m.start available now configID).manager := by
  unfold Manager.start
  cases hlookup : m.configs.lookup configID with
  | none => exact Change.quiet
  | some cfg =>
    simp only
    split
    next => exact Change.quiet
    next hidle =>
      cases available with
      | false => exact Change.quiet
      | true => exact Change.start hlookup hidle

theorem stop_manager (configID : String) :
    (m.stop configID).manager = m := by
  unfold Manager.stop
  cases m.active.lookup configID with
  | none => rfl
  | some af => rfl

theorem updateStatus_change (configID : String) (status : Status)
    (errMsg : String) (frame : Frame) (env : Env) :
    Change m frame env (m.updateStatus configID status errMsg) := by
  unfold Manager.updateStatus
  cases m.active.lookup configID with
  | none => exact Change.quiet
  | some af =>
    exact Change.touch ⟨fun _ => rfl, fun _ h => h, fun _ h => h⟩

theorem forEach_change {frame : Frame} {env : Env} {p : Prop}
    [Decidable p] {ids : List String} {method : String → Call}
    {e : Effect}
    (h : (if p then some (m.forEach ids method) else none) = some e) :
    Change m frame env e.manager := by
  split at h
  next =>
    cases h
    exact Change.quiet
  next => cases h

theorem call_change {call : Call} {env : Env} {e : Effect}
    (h : call.exec m env = some e) :
    Change m (.call call) env e.manager := by
  unfold Call.exec at h
  split at h
  next cfg newID now =>
    cases h
    exact addConfig_change ..
  next cfg =>
    cases h
    exact updateConfig_change ..
  next configID =>
    cases h
    exact deleteConfig_change ..
  next configID available now =>
    cases h
    exact start_change ..
  next configID =>
    cases h
    rw [stop_manager]
    exact Change.quiet
  next ids => exact forEach_change h
  next contextName ids => exact forEach_change h
  next contextName ids => exact forEach_change h
  next contextName ids => exact forEach_change h
  next => cases h

/-- Every frame makes one of the changes. -/
theorem exec_change {frame : Frame} {env : Env} {e : Effect}
    (h : frame.exec m env = some e) : Change m frame env e.manager := by
  unfold Frame.exec at h
  split at h
  next method env => exact call_change h
  next event =>
    cases h
    exact Change.quiet
  next result =>
    cases h
    exact Change.quiet
  next af =>
    cases h
    exact Change.touch ⟨fun _ => rfl, fun _ h => h, fun _ h => h⟩
  next af =>
    cases h
    exact Change.touch ⟨fun _ => rfl, fun _ _ => rfl, fun _ h => h⟩
  next af =>
    split at h
    next =>
      cases h
      exact Change.quiet
    next => cases h
  next af =>
    cases h
    exact Change.quiet
  next configID =>
    cases h
    exact Change.remove
  next configID localPort =>
    cases h
    exact Change.finishDelete
  next af point attempt backoff env =>
    obtain ⟨frames, -, heq⟩ := Option.map_eq_some_iff.mp h
    rw [← heq]
    exact Change.quiet
  next configID status errMsg =>
    cases h
    exact updateStatus_change ..
  next af =>
    cases h
    exact Change.touch ⟨fun _ => rfl, fun _ h => h, fun _ _ => rfl⟩
  next => cases h

theorem run_change {i : Nat} {env : Env} {s s' : Sys}
    {out : List (Nat × Out)}
    (h : step (.run i env) s = some (s', out)) :
    ∃ p ∈ s.next i, Change s.manager p.1 env s'.manager := by
  simp only [step] at h
  split at h
  next => cases h
  next frame rest hnext =>
    obtain ⟨e, he, heq⟩ := Option.map_eq_some_iff.mp h
    cases heq
    exact ⟨(frame, rest), hnext, exec_change he⟩

end PortForwardManager
