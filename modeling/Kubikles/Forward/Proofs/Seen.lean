/-
The manager, ID by ID.

Under each ID it shows a configuration and a forward (`seen`). What a
move does to them its event says (`Follows`), provided that it is one of
the moves whose event tells all (`Told`).
-/
import Kubikles.Forward.Proofs.Replay
import Kubikles.Forward.Proofs.Turn

namespace PortForwardsHook

open PortForwardManager

-- ======== the registration

/-- What is filed under an ID has it. -/
structure Registered (m : Manager) : Prop where
  config : ∀ id cfg, m.configs.lookup id = some cfg → cfg.id = id
  forward : ∀ id af, m.active.lookup id = some af →
    ∃ a, m.forwards[af]? = some a ∧ a.config.id = id

variable {m m' : Manager}

theorem Registered.insert (h : Registered m) {cfg : PortForwardConfig}
    {id : String} {usedPorts : FinMap Int String} (hid : cfg.id = id) :
    Registered
      { m with configs := m.configs.insert id cfg, usedPorts } where
  config id' cfg' hlookup := by
    rw [FinMap.lookup_insert] at hlookup
    split at hlookup
    next heq => rw [heq, ← Option.some.inj hlookup, hid]
    next => exact h.config id' cfg' hlookup
  forward := h.forward

theorem registered_loadConfigs
    (storage : Option (List PortForwardConfig)) :
    Registered (loadConfigs storage) := by
  suffices h : ∀ m, Registered m →
      Registered ((storage.getD []).foldl Manager.load m) by
    refine h _ ⟨fun id cfg hlookup => ?_, fun id af hlookup => ?_⟩
    · rw [Finmap.lookup_empty] at hlookup
      cases hlookup
    · rw [Finmap.lookup_empty] at hlookup
      cases hlookup
  induction storage.getD [] with
  | nil => exact fun m h => h
  | cons cfg l ih => exact fun m h => ih (m.load cfg) (h.insert rfl)

theorem Registered.finishDelete (h : Registered m) (configID : String)
    (localPort : Int) :
    Registered (m.finishDelete configID localPort).manager where
  config id cfg hlookup := by
    have hlookup : (m.configs.erase configID).lookup id = some cfg := hlookup
    rw [FinMap.lookup_erase] at hlookup
    split at hlookup
    next => cases hlookup
    next => exact h.config id cfg hlookup
  forward := h.forward

/-- Every change keeps the registration. -/
theorem Registered.change {frame : Frame} {env : Env} (h : Registered m)
    (hc : Change m frame env m') : Registered m' := by
  cases hc with
  | quiet => exact h
  | addConfig _ => exact h.insert rfl
  | updateConfig _ _ => exact h.insert rfl
  | movePort _ _ _ => exact h.insert rfl
  | deleteConfig _ _ => exact h.finishDelete ..
  | finishDelete => exact h.finishDelete ..
  | @start configID cfg now hlookup hidle =>
    refine ⟨h.config, fun id af haf => ?_⟩
    have haf : (m.active.insert configID m.forwards.length).lookup id
      = some af := haf
    rw [FinMap.lookup_insert] at haf
    split at haf
    next heq =>
      cases haf
      refine ⟨_, List.getElem?_concat_length, ?_⟩
      show cfg.id = id
      rw [heq, h.config configID cfg hlookup]
    next =>
      obtain ⟨a, ha, hid⟩ := h.forward id af haf
      exact ⟨a, Place.append_of_some ha, hid⟩
  | @remove configID =>
    refine ⟨h.config, fun id af haf => ?_⟩
    have haf : (m.active.erase configID).lookup id = some af := haf
    rw [FinMap.lookup_erase] at haf
    split at haf
    next => cases haf
    next => exact h.forward id af haf
  | @touch _ _ af' f hf =>
    refine ⟨h.config, fun id af haf => ?_⟩
    obtain ⟨a, ha, hid⟩ := h.forward id af haf
    refine ⟨_, Place.modify_of_some ha, ?_⟩
    split
    next => rw [hf.config, hid]
    next => exact hid

theorem registered_run {acts : List PortForwardManager.Act} {s s' : Sys}
    {out : List (Nat × Out)} (h : Registered s.manager)
    (hrun : Machine.run PortForwardManager.step s acts = some (s', out)) :
    Registered s'.manager := by
  refine Machine.run_invariant (I := fun s : Sys => Registered s.manager)
    ?_ h Machine.along_true hrun
  intro act s s' out h _ hstep
  cases act with
  | call call =>
    cases hstep
    exact h
  | run i env =>
    obtain ⟨p, -, hchange⟩ := run_change hstep
    exact h.change hchange

theorem registered_turn {act : PortForwardManager.Act} {s s' : Sys}
    {out : List (Nat × Out)} (h : Registered s.manager)
    (hturn : turn act s = some (s', out)) : Registered s'.manager := by
  obtain ⟨acts, hrun⟩ := turn_run hturn
  exact registered_run h hrun

-- ======== the manager

def seen (contextFilter : String) (m : Manager) (id : String) : Seen :=
  ⟨(m.configs.lookup id).filter (·.passes contextFilter),
    (m.filed id).map (·.shown)⟩

/-- The event of what the goroutine does next tells the hook all of
it. -/
def Told (contextFilter : String) (pending : List PortForwardEvent)
    (m : Manager) : Frame → Env → Prop
  -- What is added is new.
  | .call (.addConfig cfg), .added newID now =>
    m.portTaken (cfg.stamp newID now).localPort (cfg.stamp newID now).id
        = false →
      (cfg.stamp newID now).id ∉ m.configs
        ∧ (cfg.stamp newID now).id ∉ m.active
  -- What is updated stays on its side of the filter, and where it is
  -- active its start has arrived.
  | .call (.updateConfig cfg), .go =>
    ∀ existing ∈ m.configs.lookup cfg.id,
      (existing.localPort = cfg.localPort
        ∨ m.portTaken cfg.localPort cfg.id = false) →
      existing.passes contextFilter = cfg.passes contextFilter
        ∧ (cfg.id ∈ m.active →
          ∀ e ∈ pending, e.configID = cfg.id → starts e = false)
  -- What is deleted has not been started again.
  | .finishDelete configID _, .go => configID ∉ m.active
  -- What is started passes the filter.
  | .call (.start configID), .started true _ =>
    configID ∉ m.active → ∀ cfg ∈ m.configs.lookup configID,
      cfg.passes contextFilter = true
  -- Of what is active it is said that it runs, or has failed; of what
  -- is not, neither.
  | .updateStatus configID status _, .go =>
    configID ∈ m.active ↔ status = .running ∨ status = .error
  | _, _ => True

instance toldDecidable (contextFilter : String)
    (pending : List PortForwardEvent) (m : Manager) (frame : Frame)
    (env : Env) : Decidable (Told contextFilter pending m frame env) := by
  unfold Told
  split
  · exact inferInstance
  · exact inferInstance
  · exact inferInstance
  · exact inferInstance
  · exact inferInstance
  · exact isTrue trivial

/-- The manager has moved as the event says. -/
structure Follows (contextFilter : String)
    (pending : List PortForwardEvent) (m m' : Manager)
    (e : PortForwardEvent) : Prop where
  named : ∀ cfg ∈ e.config, cfg.id = e.configID
  here : seen contextFilter m' e.configID
    = (seen contextFilter m e.configID).tell contextFilter e
  known : e.configID ∈ m'.configs
    ↔ knows e (e.configID ∈ m.configs)
  steady : Steady pending e.configID (e.configID ∈ m.configs)
    (seen contextFilter m e.configID) e
  away : ∀ id, id ≠ e.configID →
    seen contextFilter m' id = seen contextFilter m id
      ∧ (id ∈ m'.configs ↔ id ∈ m.configs)

variable {contextFilter : String} {pending : List PortForwardEvent}

theorem seen_idle (contextFilter : String) {id : String}
    (h : id ∉ m.active) :
    (seen contextFilter m id).forward = none := by
  have hnone : m.active.lookup id = none := Finmap.lookup_eq_none.mpr h
  simp [seen, Manager.filed, hnone]

theorem seen_active (contextFilter : String) (hm : Registered m)
    {id : String} (h : id ∈ m.active) :
    ∃ p, (seen contextFilter m id).forward = some p := by
  obtain ⟨af, haf⟩ := Option.isSome_iff_exists.mp (Finmap.lookup_isSome.mpr h)
  obtain ⟨a, ha, -⟩ := hm.forward id af haf
  exact ⟨a.shown, by simp [seen, Manager.filed, haf, ha]⟩

theorem seen_unknown {id : String} (h : id ∉ m.configs) :
    (seen contextFilter m id).config = none := by
  have hnone : m.configs.lookup id = none := Finmap.lookup_eq_none.mpr h
  simp [seen, hnone]

theorem follows_load {cfg : PortForwardConfig} (hnew : cfg.id ∉ m.configs)
    (hidle : cfg.id ∉ m.active) :
    Follows contextFilter pending m (m.load cfg) (addedEvent cfg) where
  named _ h := by
    cases h
    rfl
  here := by
    ext1
    · show ((m.configs.insert cfg.id cfg).lookup cfg.id).filter _
        = (seen contextFilter m cfg.id).config.or _
      rw [Finmap.lookup_insert, seen_unknown hnew]
      rfl
    · rfl
  known := ⟨fun _ => trivial, fun _ => Finmap.mem_insert.mpr (Or.inl rfl)⟩
  steady := by
    refine ⟨fun _ => ⟨hnew, ?_⟩, (nomatch ·), (nomatch ·)⟩
    exact Seen.ext (seen_unknown hnew) (seen_idle _ hidle)
  away id hid := by
    have hid : id ≠ cfg.id := hid
    constructor
    · ext1
      · show ((m.configs.insert cfg.id cfg).lookup id).filter _ = _
        rw [Finmap.lookup_insert_of_ne _ hid]
        rfl
      · rfl
    · show id ∈ m.configs.insert cfg.id cfg ↔ _
      rw [Finmap.mem_insert]
      exact or_iff_right hid

/-- An updated configuration. -/
theorem follows_update {cfg existing : PortForwardConfig} {id : String}
    (hlookup : m.configs.lookup id = some existing) (hid : cfg.id = id)
    (hpasses : existing.passes contextFilter = cfg.passes contextFilter)
    (hactive : id ∈ m.active →
      ∀ e ∈ pending, e.configID = id → starts e = false)
    (hconfigs : m'.configs = m.configs.insert id cfg)
    (hfiled : m'.filed = m.filed) :
    Follows contextFilter pending m m' (updatedEvent cfg) := by
  subst hid
  have hmem : cfg.id ∈ m.configs := Finmap.mem_of_lookup_eq_some hlookup
  constructor
  · intro _ h
    cases h
    rfl
  · ext1
    · show (m'.configs.lookup cfg.id).filter _
        = (seen contextFilter m cfg.id).config.map _
      unfold seen
      rw [hconfigs, Finmap.lookup_insert, hlookup]
      by_cases h : cfg.passes contextFilter = true
      · simp [Option.filter, hpasses, h, updatedEvent]
      · simp [Option.filter, hpasses, h]
    · show (m'.filed cfg.id).map _ = (m.filed cfg.id).map _
      rw [hfiled]
  · show cfg.id ∈ m'.configs ↔ cfg.id ∈ m.configs
    rw [hconfigs, Finmap.mem_insert]
    exact ⟨fun _ => hmem, fun _ => Or.inl rfl⟩
  · refine ⟨(nomatch ·), fun _ => ⟨hmem, ?_⟩, (nomatch ·)⟩
    by_cases h : cfg.id ∈ m.active
    · exact Or.inr (hactive h)
    · exact Or.inl (seen_idle _ h)
  · intro id hid
    have hid : id ≠ cfg.id := hid
    constructor
    · unfold seen
      rw [hconfigs, hfiled, Finmap.lookup_insert_of_ne _ hid]
    · rw [hconfigs, Finmap.mem_insert]
      exact or_iff_right hid

theorem follows_delete {configID : String} {localPort : Int}
    (hidle : configID ∉ m.active) :
    Follows contextFilter pending m
      (m.finishDelete configID localPort).manager
      (removedEvent configID) where
  named _ h := nomatch h
  here := by
    ext1
    · show ((m.configs.erase configID).lookup configID).filter _ = none
      rw [Finmap.lookup_erase]
      rfl
    · exact seen_idle _ hidle
  known := by
    show configID ∈ m.configs.erase configID ↔ False
    simp
  steady := ⟨(nomatch ·), (nomatch ·), (nomatch ·)⟩
  away id hid := by
    have hid : id ≠ configID := hid
    constructor
    · ext1
      · show ((m.configs.erase configID).lookup id).filter _ = _
        rw [Finmap.lookup_erase_ne hid]
        rfl
      · rfl
    · show id ∈ m.configs.erase configID ↔ _
      simp [hid]

/-- A forward that is started. -/
theorem follows_start (hm : Registered m) {configID : String}
    {cfg : PortForwardConfig} {now : Nat}
    (hlookup : m.configs.lookup configID = some cfg)
    (hidle : configID ∉ m.active)
    (hpasses : cfg.passes contextFilter = true) :
    Follows contextFilter pending m (m.register configID cfg now)
      (startedEvent configID cfg) where
  named _ h := by
    cases h
    exact hm.config configID cfg hlookup
  here := by
    have hconfig : (seen contextFilter m configID).config = some cfg := by
      simp [seen, hlookup, Option.filter, hpasses]
    have hforward : (seen contextFilter m configID).forward = none :=
      seen_idle _ hidle
    ext1
    · rfl
    · show ((m.register configID cfg now).filed configID).map _
        = ((seen contextFilter m configID).start (some .starting)).forward
      have hfiled : (m.register configID cfg now).filed configID
          = some ⟨cfg, .starting, "", now, false, false, false⟩ := by
        unfold Manager.filed Manager.register
        rw [Finmap.lookup_insert]
        exact List.getElem?_concat_length
      rw [hfiled]
      simp [Seen.start, hconfig, hforward, ActivePortForward.shown]
  known := Iff.rfl
  steady := by
    refine ⟨fun h => ?_, fun h => ?_, fun _ => ⟨rfl, Or.inl ?_⟩⟩
    · cases h
    · cases h
    · simp [seen, startedEvent, hlookup, Option.filter, hpasses]
  away id hid := by
    have hid : id ≠ configID := hid
    refine ⟨Seen.ext rfl ?_, Iff.rfl⟩
    show ((m.register configID cfg now).filed id).map _
      = (m.filed id).map _
    have hactive : (m.register configID cfg now).active.lookup id
        = m.active.lookup id := Finmap.lookup_insert_of_ne _ hid
    unfold Manager.filed
    rw [hactive]
    cases haf : m.active.lookup id with
    | none => rfl
    | some af =>
      obtain ⟨a, ha, -⟩ := hm.forward id af haf
      show ((m.register configID cfg now).forwards[af]?).map _
        = (m.forwards[af]?).map _
      rw [ha]
      exact congrArg (Option.map _) (Place.append_of_some ha)

theorem follows_stop {configID : String} :
    Follows contextFilter pending m
      { m with active := m.active.erase configID }
      (stoppedEvent configID) where
  named _ h := nomatch h
  here := by
    ext1
    · rfl
    · show (((m.active.erase configID).lookup configID).bind _).map _
        = none
      rw [Finmap.lookup_erase]
      rfl
  known := Iff.rfl
  steady := ⟨(nomatch ·), (nomatch ·), (nomatch ·)⟩
  away id hid := by
    have hid : id ≠ configID := hid
    refine ⟨Seen.ext rfl ?_, Iff.rfl⟩
    show (((m.active.erase configID).lookup id).bind _).map _ = _
    rw [Finmap.lookup_erase_ne hid]
    rfl

/-- The event of a status starts something exactly if it says that the
forward runs, or has failed. -/
theorem starts_statusEvent {configID : String} {status : Status}
    {errMsg : String} :
    starts (statusEvent configID status errMsg) = true
      ↔ status = .running ∨ status = .error := by
  cases status <;> simp [starts, statusEvent, Status.eventType]

/-- A status is written to no forward but the one filed under the
ID. -/
theorem updateStatus_filed (hm : Registered m) {configID id : String}
    {status : Status} {errMsg : String} (hid : id ≠ configID) :
    (m.updateStatus configID status errMsg).filed id = m.filed id := by
  unfold Manager.updateStatus
  cases haf : m.active.lookup configID with
  | none => rfl
  | some af =>
    show (m.active.lookup id).bind ((m.forwards.modify af _)[·]?)
      = (m.active.lookup id).bind _
    cases haf' : m.active.lookup id with
    | none => rfl
    | some af' =>
      obtain ⟨a, ha, hconfig⟩ := hm.forward configID af haf
      obtain ⟨a', ha', hconfig'⟩ := hm.forward id af' haf'
      have hne : af ≠ af' := by
        intro heq
        rw [← heq, ha, Option.some.injEq] at ha'
        rw [← hconfig, ← hconfig', ha'] at hid
        exact hid rfl
      show (m.forwards.modify af _)[af']? = m.forwards[af']?
      rw [ha', Place.modify_of_some ha', if_neg hne]

theorem updateStatus_configs {configID : String} {status : Status}
    {errMsg : String} :
    (m.updateStatus configID status errMsg).configs = m.configs := by
  unfold Manager.updateStatus
  split <;> rfl

/-- An active forward that runs, or has failed, is shown with its new
status. -/
theorem seen_updateStatus_active (hm : Registered m) {configID : String}
    {status : Status} {errMsg : String} (hactive : configID ∈ m.active)
    (hstarts : starts (statusEvent configID status errMsg) = true) :
    seen contextFilter (m.updateStatus configID status errMsg) configID
      = (seen contextFilter m configID).tell contextFilter
        (statusEvent configID status errMsg) := by
  obtain ⟨af, haf⟩ :=
    Option.isSome_iff_exists.mp (Finmap.lookup_isSome.mpr hactive)
  obtain ⟨a, ha, -⟩ := hm.forward configID af haf
  have hbefore : (seen contextFilter m configID).forward
      = some a.shown := by
    simp [seen, Manager.filed, haf, ha]
  have hfiled : (m.updateStatus configID status errMsg).filed configID
      = some { a with status, error := errMsg } := by
    unfold Manager.filed Manager.updateStatus
    rw [haf]
    show (m.active.lookup configID).bind
      ((m.forwards.modify af _)[·]?) = _
    rw [haf]
    show (m.forwards.modify af _)[af]? = _
    rw [Place.modify_of_some ha, if_pos rfl]
  rw [tell_starts hstarts]
  ext1
  · show ((m.updateStatus configID status errMsg).configs.lookup
      configID).filter _ = _
    rw [updateStatus_configs]
    rfl
  · show ((m.updateStatus configID status errMsg).filed configID).map _
      = ((seen contextFilter m configID).start (some status)).forward
    rw [hfiled]
    simp [Seen.start, hbefore, ActivePortForward.shown]

/-- Where no forward is active, no status is written, and one that
starts nothing tells nothing. -/
theorem seen_updateStatus_idle {configID : String} {status : Status}
    {errMsg : String} (hidle : configID ∉ m.active)
    (hquiet : ¬ (status = .running ∨ status = .error)) :
    seen contextFilter (m.updateStatus configID status errMsg) configID
      = (seen contextFilter m configID).tell contextFilter
        (statusEvent configID status errMsg) := by
  have hnone : m.active.lookup configID = none :=
    Finmap.lookup_eq_none.mpr hidle
  have hsame : m.updateStatus configID status errMsg = m := by
    unfold Manager.updateStatus
    rw [hnone]
  rw [hsame]
  cases status with
  | running => simp at hquiet
  | error => simp at hquiet
  | stopped => exact Seen.ext rfl (seen_idle contextFilter hidle)
  | starting => rfl
  | reconnecting => rfl

theorem follows_status (hm : Registered m) {configID : String}
    {status : Status} {errMsg : String}
    (htold : configID ∈ m.active ↔ status = .running ∨ status = .error) :
    Follows contextFilter pending m
      (m.updateStatus configID status errMsg)
      (statusEvent configID status errMsg) where
  named _ h := nomatch h
  here := by
    by_cases hactive : configID ∈ m.active
    · exact seen_updateStatus_active hm hactive
        (starts_statusEvent.mpr (htold.mp hactive))
    · exact seen_updateStatus_idle hactive ((not_congr htold).mp hactive)
  known := by
    rw [updateStatus_configs]
    cases status <;> rfl
  steady := by
    refine ⟨fun h => ?_, fun h => ?_, fun h => ⟨rfl, Or.inr ?_⟩⟩
    · cases status <;> cases h
    · cases status <;> cases h
    · obtain ⟨p, hp⟩ := seen_active contextFilter hm
        (htold.mpr (starts_statusEvent.mp h))
      exact Option.isSome_iff_exists.mpr ⟨p, hp⟩
  away id hid := by
    have hid : id ≠ configID := hid
    rw [updateStatus_configs]
    refine ⟨?_, Iff.rfl⟩
    unfold seen
    rw [updateStatus_configs, updateStatus_filed hm hid]

/-- A move whose event tells all is followed by it, and a move without
an event shows nothing. -/
theorem move_follows (hm : Registered m) {frame : Frame} {env : Env}
    {events : List PortForwardEvent}
    (hmove : Move m frame env m' events)
    (htold : Told contextFilter pending m frame env) :
    (events = [] ∧ ∀ id, seen contextFilter m' id = seen contextFilter m id
        ∧ (id ∈ m'.configs ↔ id ∈ m.configs))
      ∨ ∃ e, events = [e] ∧ Follows contextFilter pending m m' e := by
  cases hmove with
  | quiet hconfigs hfiled =>
    refine Or.inl ⟨rfl, fun id => ⟨?_, by rw [hconfigs]⟩⟩
    unfold seen
    rw [hconfigs, hfiled]
  | addConfig hport =>
    obtain ⟨hnew, hidle⟩ := htold hport
    exact Or.inr ⟨_, rfl, follows_load hnew hidle⟩
  | updateConfig hlookup hport hconfigs hactive hforwards =>
    obtain ⟨hpasses, hquiet⟩ := htold _ hlookup hport
    refine Or.inr ⟨_, rfl, follows_update hlookup rfl ?_ hquiet hconfigs ?_⟩
    · exact hpasses
    · funext id
      unfold Manager.filed
      rw [hactive, hforwards]
  | deleteConfig hidle =>
    exact Or.inr ⟨_, rfl, follows_delete hidle⟩
  | finishDelete =>
    exact Or.inr ⟨_, rfl, follows_delete htold⟩
  | start hlookup hidle =>
    exact Or.inr ⟨_, rfl,
      follows_start hm hlookup hidle (htold hidle _ hlookup)⟩
  | remove => exact Or.inr ⟨_, rfl, follows_stop⟩
  | updateStatus => exact Or.inr ⟨_, rfl, follows_status hm htold⟩

end PortForwardsHook
