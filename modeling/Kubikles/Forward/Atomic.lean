/-
The methods of the port-forward manager as its callers see them.

A caller that waits for a method sees it whole: `…Now` is what the
goroutine of a call does from its first frame to its last, with nothing
in between, and the error it returns.
-/
import Kubikles.Forward.Manager

namespace PortForwardManager

-- ======== the calls

/-- The error among what a method gives away. -/
def Effect.error (e : Effect) : Option String :=
  e.out.findSome? fun
    | .returned (.error message) => some message
    | _ => none

/-- `AddConfig`. -/
def Manager.addConfigNow (newID : String) (now : Nat)
    (cfg : PortForwardConfig) (m : Manager) : Manager × Option String :=
  let effect := m.addConfig newID now cfg
  (effect.manager, effect.error)

/-- `Start`, the `go` statement included. -/
def Manager.startNow (available : Bool) (now : Nat) (configID : String)
    (m : Manager) : Manager × Option String :=
  let effect := m.start available now configID
  match effect.error with
  | some message => (effect.manager, some message)
  | none =>
    (effect.manager.modifyForward m.forwards.length
      ({ · with spawned := true }), none)

/-- `Stop`. -/
def Manager.stopNow (configID : String) (m : Manager) :
    Manager × Option String :=
  match m.active.lookup configID with
  | none => (m, (m.stop configID).error)
  | some af =>
    let m := m.modifyForward af ({ · with stopClosed := true })
    ({ m with active := m.active.erase configID }, none)

/-- `DeleteConfig`. -/
def Manager.deleteConfigNow (configID : String) (m : Manager) :
    Manager × Option String :=
  match m.configs.lookup configID with
  | none => (m, (m.deleteConfig configID).error)
  | some cfg =>
    (((m.stopNow configID).1.finishDelete configID cfg.localPort).manager,
      none)

/-- `CleanupIngressConfigs`, in the order in which `range` meets the
keys. -/
def Manager.cleanupIngressConfigsNow (ids : List String)
    (contextName : String) (m : Manager) : Manager :=
  (ids.filter (m.cleansUp contextName)).foldl
    (fun m id => (m.deleteConfigNow id).1) m

-- ======== ports

def wellKnownPorts : List Int :=
  [20, 21, 22, 23, 25, 53,
   80, 110, 143, 443, 465, 587,
   993, 995, 1024, 1433, 1521, 3000, 3306,
   3389, 5000, 5432, 5672, 6379, 8000, 8080,
   8443, 8888, 9000, 9090, 27017]

def Manager.givesPort (m : Manager) (isPortAvailable : Int → Bool)
    (port : Int) : Bool :=
  port ∉ wellKnownPorts && port ∉ m.usedPorts && isPortAvailable port

/-- The loop of `GetAvailablePort`, so many ports from this one on. -/
def Manager.nextPort (m : Manager) (isPortAvailable : Int → Bool) :
    Nat → Int → Int
  | 0, _ => 0
  | n + 1, port =>
    if m.givesPort isPortAvailable port then port
    else m.nextPort isPortAvailable n (port + 1)

def Manager.getAvailablePort (preferred : Int)
    (isPortAvailable : Int → Bool) (m : Manager) : Int :=
  if 0 < preferred ∧ m.givesPort isPortAvailable preferred then preferred
  else m.nextPort isPortAvailable (65535 - 10000) 10000

-- ======== what they keep

variable {m : Manager} {configID : String} {now : Nat}

/-- `AddConfig` files the configuration under its ID, or returns an error
and changes nothing. -/
theorem addConfigNow_cases (cfg : PortForwardConfig) (now : Nat)
    (m : Manager) :
    (∃ stored, (m.addConfigNow cfg.id now cfg).2 = none
        ∧ (m.addConfigNow cfg.id now cfg).1.configs
          = m.configs.insert cfg.id stored)
      ∨ ∃ message, m.addConfigNow cfg.id now cfg = (m, some message) := by
  have hstamp : (cfg.stamp cfg.id now).id = cfg.id := by
    unfold PortForwardConfig.stamp
    exact ite_self _
  unfold Manager.addConfigNow Manager.addConfig
  by_cases htaken : m.portTaken (cfg.stamp cfg.id now).localPort
      (cfg.stamp cfg.id now).id
  · exact Or.inr ⟨_, by simp only [htaken, if_true]; rfl⟩
  · refine Or.inl ⟨cfg.stamp cfg.id now, ?_, ?_⟩
    · simp only [htaken]
      rfl
    · simp only [htaken]
      show m.configs.insert (cfg.stamp cfg.id now).id _ = _
      rw [hstamp]

@[simp] theorem startNow_configs (available : Bool) :
    (m.startNow available now configID).1.configs = m.configs := by
  have hstart : (m.start available now configID).manager.configs
      = m.configs := by
    unfold Manager.start
    split
    · rfl
    · split
      · rfl
      · split <;> rfl
  simp only [Manager.startNow]
  split
  · exact hstart
  · exact hstart

@[simp] theorem stopNow_configs :
    (m.stopNow configID).1.configs = m.configs := by
  unfold Manager.stopNow
  split <;> rfl

@[simp] theorem deleteConfigNow_configs :
    (m.deleteConfigNow configID).1.configs = m.configs.erase configID := by
  unfold Manager.deleteConfigNow
  split
  next hnone =>
    refine Finmap.ext_lookup fun k => ?_
    rw [FinMap.lookup_erase]
    split
    next hk => rw [hk, hnone]
    next => rfl
  next cfg _ =>
    show (m.stopNow configID).1.configs.erase configID = _
    rw [stopNow_configs]

theorem cleanup_configs (ids : List String) (contextName : String) :
    (m.cleanupIngressConfigsNow ids contextName).configs
      = FinMap.eraseAll m.configs (ids.filter (m.cleansUp contextName)) := by
  unfold Manager.cleanupIngressConfigsNow
  generalize ids.filter (m.cleansUp contextName) = deleted
  induction deleted generalizing m with
  | nil => rfl
  | cons id deleted ih =>
    rw [List.foldl_cons, ih, deleteConfigNow_configs]
    rfl

theorem nextPort_ge (m : Manager) (isPortAvailable : Int → Bool) (n : Nat)
    (port : Int) :
    m.nextPort isPortAvailable n port = 0
      ∨ port ≤ m.nextPort isPortAvailable n port := by
  induction n generalizing port with
  | zero => exact Or.inl rfl
  | succ n ih =>
    rw [Manager.nextPort]
    split
    · exact Or.inr le_rfl
    · rcases ih (port + 1) with h | h
      · exact Or.inl h
      · exact Or.inr (by omega)

/-- In place of a well-known port one from 10000 on is given away, or
none. -/
theorem getAvailablePort_ge {preferred : Int}
    (h : preferred ∈ wellKnownPorts) (isPortAvailable : Int → Bool)
    (m : Manager) :
    m.getAvailablePort preferred isPortAvailable = 0
      ∨ 10000 ≤ m.getAvailablePort preferred isPortAvailable := by
  unfold Manager.getAvailablePort
  generalize 65535 - 10000 = n
  have hknown : ¬ (0 < preferred
      ∧ m.givesPort isPortAvailable preferred = true) := by
    rintro ⟨-, hgives⟩
    unfold Manager.givesPort at hgives
    rw [Bool.and_eq_true, Bool.and_eq_true, decide_eq_true_eq] at hgives
    exact hgives.1.1 h
  rw [if_neg hknown]
  exact nextPort_ge m isPortAvailable n 10000

end PortForwardManager
