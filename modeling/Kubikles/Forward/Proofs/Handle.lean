/-
The hook, ID by ID, and what it is answered.

An event does to the hook what `Seen.tell` does to the ID it names, and
nothing to any other (`handle_seen`); a fetch answers under each ID what
the manager shows.
-/
import Kubikles.Forward.Hook
import Kubikles.Forward.Proofs.Seen

namespace PortForwardsHook

open PortForwardManager

-- ======== the hook

def shown (af : ActiveForward) : PortForwardConfig × Status :=
  (af.config, af.status)

def Hook.seen (hook : Hook) (id : String) : Seen :=
  ⟨Keyed.find (·.id) hook.configs id,
    (Keyed.find (·.config.id) hook.activeForwards id).map shown⟩

/-- The hook shows nothing twice. -/
structure Hook.Distinct (hook : Hook) : Prop where
  configs : Keyed.Distinct (·.id) hook.configs
  forwards : Keyed.Distinct (·.config.id) hook.activeForwards

variable {hook : Hook} {contextFilter id : String}
  {e : PortForwardEvent} {now : Nat}

theorem configAdded_seen (cfg : PortForwardConfig) :
    (hook.configAdded contextFilter cfg).seen id
      = if cfg.id = id then
          { hook.seen id with
            config := (hook.seen id).config.or
              ((some cfg).filter (·.passes contextFilter)) }
        else hook.seen id := by
  unfold Hook.configAdded
  by_cases hid : cfg.id = id
  · subst hid
    rw [if_pos rfl]
    cases hfind : Keyed.find (·.id) hook.configs cfg.id with
    | some c => simp [Hook.seen, hfind]
    | none =>
      by_cases hpasses : cfg.passes contextFilter = true
      · simp [Hook.seen, Keyed.find_concat, hfind, hpasses, Option.filter]
      · simp [Hook.seen, hfind, hpasses, Option.filter]
  · rw [if_neg hid]
    split
    next => rfl
    next =>
      split
      next => simp [Hook.seen, Keyed.find_concat, hid]
      next => rfl

theorem configUpdated_seen (cfg : PortForwardConfig) :
    (hook.configUpdated cfg).seen id
      = if cfg.id = id then
          { hook.seen id with
            config := (hook.seen id).config.map fun _ => cfg }
        else hook.seen id := by
  have hfind : Keyed.find (·.id)
      (hook.configs.map fun c => if c.id = cfg.id then cfg else c) id
      = if id = cfg.id then
          (Keyed.find (·.id) hook.configs id).map fun _ => cfg
        else Keyed.find (·.id) hook.configs id :=
    Keyed.find_map_if _ (fun _ _ => rfl) id
  unfold Hook.configUpdated Hook.seen
  rw [hfind]
  by_cases hid : cfg.id = id
  · rw [if_pos hid.symm, if_pos hid]
  · rw [if_neg (Ne.symm hid), if_neg hid]

theorem stopped_seen (configID : String) :
    (hook.stopped configID).seen id
      = if configID = id then { hook.seen id with forward := none }
        else hook.seen id := by
  have hfind : Keyed.find (·.config.id)
      (hook.activeForwards.filter (·.config.id ≠ configID)) id
      = if id = configID then none
        else Keyed.find (·.config.id) hook.activeForwards id :=
    Keyed.find_filter_ne _ _ _
  unfold Hook.stopped Hook.seen
  rw [hfind]
  by_cases hid : configID = id
  · rw [if_pos hid.symm, if_pos hid]
    rfl
  · rw [if_neg (Ne.symm hid), if_neg hid]

theorem configRemoved_seen (configID : String) :
    (hook.configRemoved configID).seen id
      = if configID = id then ⟨none, none⟩ else hook.seen id := by
  have hfind : Keyed.find (·.id)
      (hook.configs.filter (·.id ≠ configID)) id
      = if id = configID then none
        else Keyed.find (·.id) hook.configs id :=
    Keyed.find_filter_ne _ _ _
  unfold Hook.configRemoved
  rw [stopped_seen]
  unfold Hook.seen
  rw [hfind]
  by_cases hid : configID = id
  · rw [if_pos hid, if_pos hid, if_pos hid.symm]
  · rw [if_neg hid, if_neg hid, if_neg (Ne.symm hid)]

/-- A forward starts, or changes its status. -/
theorem started_seen :
    (hook.started now e).seen id
      = if e.configID = id then (hook.seen id).start e.status
        else hook.seen id := by
  unfold Hook.started
  cases hforward : Keyed.find (·.config.id) hook.activeForwards e.configID with
  | some af =>
    have hfind : Keyed.find (·.config.id)
        (hook.activeForwards.map fun af =>
          if af.config.id = e.configID then
            { af with status := e.status.getD af.status
                      error := e.error }
          else af) id
        = if id = e.configID then
            (Keyed.find (·.config.id) hook.activeForwards id).map fun af =>
              { af with status := e.status.getD af.status
                        error := e.error }
          else Keyed.find (·.config.id) hook.activeForwards id := by
      apply Keyed.find_map_if
      exact fun _ h => h
    unfold Hook.seen Seen.start
    simp only
    rw [hfind]
    by_cases hid : e.configID = id
    · subst hid
      rw [if_pos rfl, if_pos rfl, hforward]
      rfl
    · rw [if_neg (Ne.symm hid), if_neg hid]
  | none =>
    by_cases hid : e.configID = id
    · subst hid
      rw [if_pos rfl]
      have hidle : (hook.seen e.configID).forward = none := by
        simp [Hook.seen, hforward]
      unfold Seen.start
      rw [hidle]
      cases hconfig : Keyed.find (·.id) hook.configs e.configID with
      | none => simp [Hook.seen, hconfig, hforward]
      | some cfg =>
        cases e.status with
        | none => simp [Hook.seen, hconfig, hforward]
        | some status =>
          have hid := Keyed.key_of_find hconfig
          simp [Hook.seen, Keyed.find_concat, hconfig, hforward, hid,
            shown]
    · rw [if_neg hid]
      cases hconfig : Keyed.find (·.id) hook.configs e.configID with
      | none => rfl
      | some cfg =>
        cases e.status with
        | none => rfl
        | some status =>
          have hcfg := Keyed.key_of_find hconfig
          simp [Hook.seen, Keyed.find_concat, hcfg, hid]

theorem handle_seen (hnamed : ∀ cfg ∈ e.config, cfg.id = e.configID) :
    (hook.handle contextFilter now e).seen id
      = if e.configID = id then (hook.seen id).tell contextFilter e
        else hook.seen id := by
  unfold Hook.handle Seen.tell
  cases htype : e.type with
  | configAdded =>
    cases hconfig : e.config with
    | some cfg =>
      simp only
      rw [configAdded_seen, hnamed cfg hconfig]
    | none =>
      simp only [Option.filter_none, Option.or_none]
      exact (ite_self _).symm
  | configUpdated =>
    cases hconfig : e.config with
    | some cfg =>
      simp only
      rw [configUpdated_seen, hnamed cfg hconfig]
      rfl
    | none =>
      simp only [Option.getD_none, Option.map_id']
      exact (ite_self _).symm
  | configRemoved => exact configRemoved_seen _
  | started => exact started_seen
  | status status =>
    cases status with
    | error => exact started_seen
    | stopped => exact stopped_seen _
    | starting => exact (ite_self _).symm
    | running => exact (ite_self _).symm
    | reconnecting => exact (ite_self _).symm

/-- Nothing is shown twice behind an event. -/
theorem Hook.Distinct.handle (h : hook.Distinct) :
    (hook.handle contextFilter now e).Distinct := by
  have hstopped : ∀ {hook : Hook} (configID : String), hook.Distinct →
      (hook.stopped configID).Distinct :=
    fun _ h => ⟨h.configs, h.forwards.filter _⟩
  have hstarted : (hook.started now e).Distinct := by
    unfold Hook.started
    split
    next => exact ⟨h.configs, h.forwards.map_if fun _ h => h⟩
    next hforward =>
      split
      next cfg status hconfig _ =>
        refine ⟨h.configs, h.forwards.concat ?_⟩
        show Keyed.find (·.config.id) hook.activeForwards cfg.id = none
        rw [Keyed.key_of_find hconfig, hforward]
      next => exact h
  unfold Hook.handle
  cases e.type with
  | configAdded =>
    cases e.config with
    | none => exact h
    | some cfg =>
      simp only [Hook.configAdded]
      split
      next => exact h
      next hfind =>
        split
        next => exact ⟨h.configs.concat (by simpa using hfind), h.forwards⟩
        next => exact h
  | configUpdated =>
    cases e.config with
    | none => exact h
    | some cfg =>
      exact ⟨h.configs.map_if fun _ _ => rfl, h.forwards⟩
  | configRemoved => exact hstopped _ ⟨h.configs.filter _, h.forwards⟩
  | started => exact hstarted
  | status status =>
    cases status with
    | error => exact hstarted
    | stopped => exact hstopped _ h
    | starting => exact h
    | running => exact h
    | reconnecting => exact h

-- ======== the answers

variable {m : Manager} {ids : List String}

theorem getConfigs_find (hm : Registered m)
    (hids : FinMap.Enumerates ids m.configs) :
    Keyed.find (·.id) (m.getConfigs contextFilter ids) id
      = (seen contextFilter m id).config := by
  unfold Manager.getConfigs
  rw [Keyed.find_filterMap]
  · split
    next => rfl
    next hid =>
      exact (seen_unknown fun hmem => hid (hids.mem_iff.mpr hmem)).symm
  · intro k cfg hcfg
    exact hm.config k cfg (Option.eq_some_of_filter_eq_some hcfg)

theorem getConfigs_distinct (hm : Registered m)
    (hids : FinMap.Enumerates ids m.configs) :
    Keyed.Distinct (·.id) (m.getConfigs contextFilter ids) := by
  apply Keyed.distinct_filterMap hids.1
  intro k cfg hcfg
  exact hm.config k cfg (Option.eq_some_of_filter_eq_some hcfg)

theorem filed_id (hm : Registered m) {a : ActivePortForward}
    (h : m.filed id = some a) : a.config.id = id := by
  obtain ⟨af, haf, ha⟩ := Option.bind_eq_some_iff.mp h
  obtain ⟨a', ha', hid⟩ := hm.forward id af haf
  rw [ha', Option.some.injEq] at ha
  rw [← ha, hid]

theorem getActiveForwards_find (hm : Registered m)
    (hids : FinMap.Enumerates ids m.active) :
    (Keyed.find (·.config.id) (m.getActiveForwards ids) id).map shown
      = (seen contextFilter m id).forward := by
  unfold Manager.getActiveForwards
  rw [Keyed.find_filterMap]
  · split
    next =>
      rw [Option.map_map]
      rfl
    next hid =>
      exact (seen_idle _ fun hmem => hid (hids.mem_iff.mpr hmem)).symm
  · intro k a ha
    obtain ⟨af, haf, heq⟩ := Option.map_eq_some_iff.mp ha
    rw [← heq]
    exact filed_id hm haf

theorem getActiveForwards_distinct (hm : Registered m)
    (hids : FinMap.Enumerates ids m.active) :
    Keyed.Distinct (·.config.id) (m.getActiveForwards ids) := by
  apply Keyed.distinct_filterMap hids.1
  intro k a ha
  obtain ⟨af, haf, heq⟩ := Option.map_eq_some_iff.mp ha
  rw [← heq]
  exact filed_id hm haf

/-- In every run of the manager, in whatever order `range` meets the keys: each
configuration that passes the filter is listed once, under its ID, and so is
each forward that is filed, under that of its configuration. -/
theorem lists_faithful {storage : Option (List PortForwardConfig)}
    {acts : List PortForwardManager.Act} {s : Sys} {out : List (Nat × Out)}
    (hrun : Machine.run PortForwardManager.step (Sys.init storage) acts
      = some (s, out))
    (contextFilter : String) {ids ids' : List String}
    (hids : FinMap.Enumerates ids s.manager.configs)
    (hids' : FinMap.Enumerates ids' s.manager.active) :
    Hook.Distinct ⟨s.manager.getConfigs contextFilter ids,
        s.manager.getActiveForwards ids'⟩
      ∧ ∀ id, Hook.seen ⟨s.manager.getConfigs contextFilter ids,
          s.manager.getActiveForwards ids'⟩ id
        = PortForwardsHook.seen contextFilter s.manager id := by
  have hm := registered_run (registered_loadConfigs storage) hrun
  refine ⟨⟨getConfigs_distinct hm hids, getActiveForwards_distinct hm hids'⟩,
    fun id => ?_⟩
  unfold Hook.seen
  rw [getConfigs_find hm hids, getActiveForwards_find hm hids']

def addOne : List PortForwardManager.Act :=
  [.call (.addConfig { id := "a", localPort := 8080 }), .run 0 (.added "" 0)]

theorem lists_faithful_addOne :
    ∃ s out, Machine.run PortForwardManager.step (Sys.init none) addOne
        = some (s, out)
      ∧ (s.manager.getConfigs "" ["a"]).length = 1
      ∧ Hook.Distinct ⟨s.manager.getConfigs "" ["a"],
          s.manager.getActiveForwards []⟩ :=
  ⟨_, _, rfl, rfl, (lists_faithful (show Machine.run _ (Sys.init none) addOne
    = _ from rfl) "" (by decide) (by decide)).1⟩

end PortForwardsHook
