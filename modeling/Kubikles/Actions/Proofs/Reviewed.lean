/-
What calls do to the cluster and to the writes.

Each change of an object has a revision of its own, behind all that came
before it. So an object that is found with the resource version that it was
read with was not changed since: it is, to its last member, what was read
(`Later.same_of_version`). This is what the test of a patch rests on.

# What was reviewed

Operator actions touch only what was reviewed.

The targets that are executed are those submitted, each as it was resolved
again: there is one for each, with the same reference, and no two of them
have a UID in common (`resolved_spec`). Where all of them are to be
executed there are as many resolved as submitted, so they are the same
(`refs_eq_of_length`).

A turn of the loop reads the object of its target and patches it behind two
tests, of the UID and of the resource version that was read. The patch that
takes effect meets the object as it was read (`executeTarget_writes`), so
what was checked of the one holds of the other, whatever other clients do
between the two calls.
-/
import Kubikles.Actions.Registry
import Mathlib.Data.List.Nodup
import Mathlib.Data.List.Perm.Subperm

namespace Actions

variable {env : Env} {c c₁ c₂ : Cluster} {w w' : World} {key : Key}

-- ======== later

/-- A cluster comes from another by changes: what is there was there, or is
newer than all that was. -/
structure Later (c c' : Cluster) : Prop where
  revision : c.revision ≤ c'.revision
  found : ∀ (key : Key) (e : Entry), c'.find? key = some e →
    c.find? key = some e ∨ c.revision < e.modRevision

theorem Later.refl (c : Cluster) : Later c c :=
  ⟨Nat.le_refl _, fun _ _ h => .inl h⟩

theorem Later.trans (h : Later c c₁) (h₁ : Later c₁ c₂) : Later c c₂ := by
  refine ⟨Nat.le_trans h.revision h₁.revision, fun key e he => ?_⟩
  rcases h₁.found key e he with he | hlt
  · exact h.found key e he
  · exact .inr (Nat.lt_of_le_of_lt h.revision hlt)

theorem Cluster.find?_put (c : Cluster) (key key' : Key) (value : Doc) :
    (c.put key value).find? key'
      = if key' = key then some ⟨value, c.revision + 1⟩
        else c.find? key' :=
  Assoc.lookup_put key key' _ c.objects

theorem Cluster.find?_drop (c : Cluster) (key key' : Key) :
    (c.drop key).find? key'
      = if key' = key then none else c.find? key' :=
  Assoc.lookup_drop key key' c.objects

theorem later_put (c : Cluster) (key : Key) (value : Doc) :
    Later c (c.put key value) := by
  refine ⟨Nat.le_succ _, fun key' e he => ?_⟩
  rw [Cluster.find?_put] at he
  split at he
  · rw [← Option.some.inj he]
    exact .inr (Nat.lt_succ_self _)
  · exact .inl he

theorem later_drop (c : Cluster) (key : Key) : Later c (c.drop key) := by
  refine ⟨Nat.le_succ _, fun key' e he => ?_⟩
  rw [Cluster.find?_drop] at he
  split at he
  · cases he
  · exact .inl he

theorem later_changes (changes : List Change) (c : Cluster) :
    Later c (changes.foldl Cluster.change c) := by
  induction changes generalizing c with
  | nil => exact .refl c
  | cons change changes ih =>
    refine .trans ?_ (ih (c.change change))
    cases change with
    | put key value => exact later_put c key value
    | drop key => exact later_drop c key

theorem Cluster.modRevision_le {e : Entry} (h : c.find? key = some e) :
    e.modRevision ≤ c.revision :=
  c.bounded _ (Assoc.mem_of_lookup h)

/-- The metadata of an object that has some is a map that takes a resource
version. -/
theorem resourceVersion_view {e : Entry} {v : Doc} {field : String}
    (h : (e.view env).nestedField ["metadata", field] = .ok (some v)) :
    (e.view env).nestedField ["metadata", "resourceVersion"]
      = .ok (some (.str (env.stamp e.modRevision))) := by
  unfold Entry.view at h ⊢
  cases hadd : Doc.add (.str (env.stamp e.modRevision))
      ["metadata", "resourceVersion"] (some e.value) with
  | some d => exact Doc.nestedField_add (by decide) hadd
  | none =>
    rw [hadd] at h
    exfalso
    cases hvalue : e.value with
    | map members =>
      rw [hvalue] at h hadd
      show False
      cases hmeta : members.lookup "metadata" with
      | none => simp [Doc.nestedField, hmeta] at h
      | some d =>
        cases d <;> simp [Doc.nestedField, Doc.add, hmeta] at h hadd
    | _ => simp [Doc.nestedField, hvalue] at h

/-- An object with the resource version that it was read with is as it was
read. -/
theorem Later.same_of_version {e e' : Entry} (hlater : Later c c₁)
    (he : c.find? key = some e) (he' : c₁.find? key = some e')
    (hversion : (e'.view env).nestedField ["metadata", "resourceVersion"]
      = .ok (some (.str (getResourceVersion (e.view env))))) :
    e' = e := by
  have hview' := resourceVersion_view hversion
  rw [hversion] at hview'
  have hstamp : getResourceVersion (e.view env)
      = env.stamp e'.modRevision := by simpa using hview'
  have hview := resourceVersion_view
    (Doc.nestedField_of_nestedString hstamp (env.stamp_ne_empty _))
  rw [Doc.nestedField_of_nestedString hstamp (env.stamp_ne_empty _)]
    at hview
  have hrevision : e'.modRevision = e.modRevision := by
    apply env.stamp_injective
    simpa using hview
  rcases hlater.found key e' he' with hsame | hlt
  · rw [he] at hsame
    exact (Option.some.inj hsame).symm
  · have := Cluster.modRevision_le he
    omega

-- ======== calls

@[simp] theorem World.arrive_writes (env : Env) (w : World) :
    (w.arrive env).writes = w.writes := rfl

theorem later_arrive (env : Env) (w : World) :
    Later w.cluster (w.arrive env).cluster :=
  later_changes _ _

theorem get_world (env : Env) (key : Key) (w : World) :
    (get env key w).2 = w.arrive env := by
  unfold get
  split <;> rfl

theorem Cluster.read_ok {obj : Doc} (h : c.read env key = .ok obj) :
    ∃ e, c.find? key = some e ∧ obj = e.view env := by
  unfold Cluster.read at h
  split at h
  next e he =>
    cases h
    exact ⟨e, he, rfl⟩
  next => cases h

theorem get_ok {obj : Doc} (h : (get env key w).1 = .ok obj) :
    ∃ e, (w.arrive env).cluster.find? key = some e ∧ obj = e.view env := by
  unfold get at h
  split at h
  · exact Cluster.read_ok h
  · cases h
  · cases h

theorem list_world (env : Env) (q : Query) (w : World) :
    (list env q w).2 = w.arrive env := by
  unfold list
  split <;> rfl

theorem Reading.run_writes {α : Type} (reading : Reading α) (w : World) :
    (reading.run env w).2.writes = w.writes := by
  induction reading generalizing w with
  | done a => rfl
  | get key next ih =>
    show ((next _).run env (Actions.get env key w).2).2.writes = _
    rw [ih, get_world, World.arrive_writes]
  | list q next ih =>
    show ((next _).run env (Actions.list env q w).2).2.writes = _
    rw [ih, list_world, World.arrive_writes]
  | order next ih => exact ih _ _

/-- A patch takes effect on the object that is there when it arrives, or it
writes nothing. -/
theorem patch_writes (env : Env) (key : Key) (ops : List Doc.Operation)
    (subresource : String) (w : World) :
    (patch env key ops subresource w).2.writes = w.writes
      ∨ ∃ e after, (w.arrive env).cluster.find? key = some e
        ∧ (Doc.patch ops (e.view env)).bind
            (patchedPart subresource (e.view env)) = some after
        ∧ (patch env key ops subresource w).2.writes
          = w.writes ++ [.patched key (e.view env) after] := by
  have hhandle : ((w.arrive env).handlePatch env key ops subresource).2.writes
        = w.writes
      ∨ ∃ e after, (w.arrive env).cluster.find? key = some e
        ∧ (Doc.patch ops (e.view env)).bind
            (patchedPart subresource (e.view env)) = some after
        ∧ ((w.arrive env).handlePatch env key ops subresource).2.writes
          = w.writes ++ [.patched key (e.view env) after] := by
    unfold World.handlePatch
    split
    next => exact .inl rfl
    next e he =>
      split
      next => exact .inl rfl
      next after hafter => exact .inr ⟨e, after, he, hafter, rfl⟩
  unfold patch
  split
  · exact hhandle
  · exact .inl rfl
  · exact hhandle

theorem create_writes (env : Env) (key : Key) (object : Doc) (w : World) :
    (create env key object w).2.writes = w.writes
      ∨ (create env key object w).2.writes
        = w.writes ++ [.created key object] := by
  have hhandle : ((w.arrive env).handleCreate env key object).2.writes
        = w.writes
      ∨ ((w.arrive env).handleCreate env key object).2.writes
        = w.writes ++ [.created key object] := by
    unfold World.handleCreate
    split
    · exact .inl rfl
    · exact .inr rfl
  unfold create
  split
  · exact hhandle
  · exact .inl rfl
  · exact hhandle

end Actions

namespace Actions

variable {env : Env} {r : Registry} {submitted fresh : Plan}

-- ======== one target

/-- A patch that took effect on the object of a target: what was patched is
what the mutation was computed from. -/
structure Guarded (env : Env) (r : Registry) (fresh : Plan)
    (target : Target) (before after : Doc) : Prop where
  uid : getUID before = target.ref.uid
  alive : getDeletionTimestamp before = none
  computed : ∃ (now : String) (obj : Doc) (mutation : Mutation),
    r.mutation now fresh target obj = .ok mutation
      ∧ mutation.pending = false ∧ mutation.create = none
      ∧ getResourceVersion before = getResourceVersion obj
      ∧ before = obj
      ∧ (Doc.patch (guards target obj ++ mutation.operations) before).bind
          (patchedPart mutation.subresource before) = some after

theorem patch_guards {target : Target} {obj d d' : Doc}
    (h : Doc.patch (guards target obj) d = some d') :
    d.nestedField ["metadata", "uid"] = .ok (some (.str target.ref.uid))
      ∧ d.nestedField ["metadata", "resourceVersion"]
        = .ok (some (.str (getResourceVersion obj))) := by
  unfold guards Doc.patch at h
  obtain ⟨d₁, huid, h⟩ := Option.bind_eq_some_iff.mp h
  obtain ⟨d₂, hversion, -⟩ := Option.bind_eq_some_iff.mp h
  obtain ⟨rfl, huid⟩ :=
    Doc.apply_test (p := ["metadata", "uid"]) (by decide) huid
  obtain ⟨-, hversion⟩ :=
    Doc.apply_test (p := ["metadata", "resourceVersion"]) (by decide)
      hversion
  exact ⟨huid, hversion⟩

def TurnWrites (env : Env) (r : Registry) (fresh : Plan) (target : Target)
    (writes : List Write) : Prop :=
  writes = []
    ∨ (∃ key object, writes = [.created key object])
    ∨ ∃ before after, writes = [.patched target.ref.key before after]
      ∧ Guarded env r fresh target before after

theorem turnWrites_none {env : Env} {target : Target} {w w' : World}
    (h : w'.writes = w.writes) :
    ∃ writes, w'.writes = w.writes ++ writes
      ∧ TurnWrites env r fresh target writes :=
  ⟨[], by rw [h, List.append_nil], .inl rfl⟩

theorem executeCreate_writes (env : Env) (r : Registry) (fresh : Plan)
    (requestID : String) (target : Target) (creation : Creation)
    (w : World) :
    ∃ writes, (executeCreate env requestID target creation w).2.writes
        = w.writes ++ writes ∧ TurnWrites env r fresh target writes := by
  have hcreate : ∀ key object, ∃ writes,
      (create env key object w).2.writes = w.writes ++ writes
        ∧ TurnWrites env r fresh target writes := by
    intro key object
    rcases create_writes env key object w with hnone | hone
    · exact turnWrites_none hnone
    · exact ⟨_, hone, .inr (.inl ⟨key, object, rfl⟩)⟩
  unfold executeCreate
  dsimp only
  split
  · exact hcreate _ _
  · have hexisting : ∀ key w₁, (executeExisting env requestID target key
        w₁).2.writes = w₁.writes := by
      intro key w₁
      unfold executeExisting
      dsimp only
      split
      · split <;> rw [get_world, World.arrive_writes]
      · rw [get_world, World.arrive_writes]
    rw [hexisting]
    exact hcreate _ _
  · exact hcreate _ _

theorem executePatch_writes {e : Entry} {mutation : Mutation}
    {target : Target} {now : String}
    (w : World) (he : w.cluster.find? target.ref.key = some e)
    (huid : getUID (e.view env) = target.ref.uid)
    (halive : getDeletionTimestamp (e.view env) = none)
    (hmutation : r.mutation now fresh target (e.view env) = .ok mutation)
    (hpending : mutation.pending = false)
    (hcreate : mutation.create = none) :
    ∃ writes, (executePatch env target (e.view env) mutation w).2.writes
        = w.writes ++ writes ∧ TurnWrites env r fresh target writes := by
  have hworld : (executePatch env target (e.view env) mutation w).2
      = (patch env target.ref.key
          (guards target (e.view env) ++ mutation.operations)
          mutation.subresource w).2 := by
    unfold executePatch
    dsimp only
    split <;> rfl
  rw [hworld]
  rcases patch_writes env target.ref.key
      (guards target (e.view env) ++ mutation.operations)
      mutation.subresource w with h | ⟨e', after, he', hafter, h⟩
  · exact turnWrites_none h
  · have hguards := hafter
    rw [Doc.patch_append] at hguards
    obtain ⟨d, hd, -⟩ := Option.bind_eq_some_iff.mp hguards
    obtain ⟨d₁, hd₁, -⟩ := Option.bind_eq_some_iff.mp hd
    obtain ⟨huid', hversion⟩ := patch_guards hd₁
    obtain rfl := (later_arrive env w).same_of_version he he' hversion
    exact ⟨_, h, .inr (.inr ⟨_, after, rfl, huid, halive, now, _,
      mutation, hmutation, hpending, hcreate, rfl, rfl, hafter⟩)⟩

/-- What a turn writes: an object that is created, or the patch of the
target's object, as it was read. -/
theorem executeTarget_writes (env : Env) (r : Registry) (fresh : Plan)
    (target : Target) (w : World) :
    ∃ writes, (executeTarget env r fresh target w).2.writes
        = w.writes ++ writes ∧ TurnWrites env r fresh target writes := by
  have hnone : ∀ w₁, w₁ = w.arrive env → ∃ writes,
      w₁.writes = w.writes ++ writes
        ∧ TurnWrites env r fresh target writes := by
    intro w₁ hw₁
    exact turnWrites_none (by rw [hw₁, World.arrive_writes])
  have hworld := get_world env target.ref.key w
  unfold executeTarget
  dsimp only
  split
  · exact hnone _ hworld
  next obj hobj =>
  obtain ⟨e, he, rfl⟩ := get_ok hobj
  split
  · exact hnone _ hworld
  next huid =>
  split
  · exact hnone _ hworld
  next halive =>
  split
  · exact hnone _ hworld
  next mutation hmutation =>
  rw [hworld, ← World.arrive_writes env w]
  unfold executeMutation
  split
  · exact turnWrites_none rfl
  next hpending =>
  split
  next creation => exact executeCreate_writes env r fresh _ _ _ _
  next hcreate =>
    exact executePatch_writes _ he (not_not.mp huid) (not_not.mp halive)
      hmutation (Bool.eq_false_iff.mpr hpending) hcreate

-- ======== the loop

def patchedUIDs (writes : List Write) : List String :=
  writes.filterMap fun
    | .patched _ before _ => some (getUID before)
    | .created _ _ => none

theorem TurnWrites.patchedUIDs_sublist {target : Target}
    {writes : List Write} (h : TurnWrites env r fresh target writes) :
    (patchedUIDs writes).Sublist [target.ref.uid] := by
  rcases h with rfl | ⟨key, object, rfl⟩ | ⟨before, after, rfl, h⟩
  · exact List.nil_sublist _
  · exact List.nil_sublist _
  · show [getUID before].Sublist _
    rw [h.uid]

/-- What the loop writes: each patch is one of a target, and no target has
two of them. -/
theorem executeTargets_writes (env : Env) (r : Registry) (fresh : Plan)
    (targets : List Target) (w : World) :
    ∃ writes, (executeTargets env r fresh targets w).2.writes
        = w.writes ++ writes
      ∧ (patchedUIDs writes).Sublist (targets.map (·.ref.uid))
      ∧ ∀ key before after, .patched key before after ∈ writes →
        ∃ target ∈ targets, key = target.ref.key
          ∧ Guarded env r fresh target before after := by
  induction targets generalizing w with
  | nil =>
    refine ⟨[], (List.append_nil _).symm, List.nil_sublist _, ?_⟩
    intro key before after h
    cases h
  | cons target targets ih =>
    obtain ⟨turn, hturn, hwrites⟩ :=
      executeTarget_writes env r fresh target w
    obtain ⟨rest, hrest, hsublist, hpatched⟩ :=
      ih (executeTarget env r fresh target w).2
    refine ⟨turn ++ rest, ?_, ?_, ?_⟩
    · show (executeTargets env r fresh targets _).2.writes = _
      rw [hrest, hturn, List.append_assoc]
    · unfold patchedUIDs
      rw [List.filterMap_append]
      exact hwrites.patchedUIDs_sublist.append hsublist
    · intro key before after h
      rcases List.mem_append.mp h with h | h
      · rcases hwrites with rfl | ⟨k, o, rfl⟩ | ⟨b, a, rfl, hguarded⟩
        · cases h
        · cases List.mem_singleton.mp h
        · cases List.mem_singleton.mp h
          exact ⟨target, List.mem_cons_self, rfl, hguarded⟩
      · obtain ⟨t, ht, hkey⟩ := hpatched key before after h
        exact ⟨t, List.mem_cons_of_mem _ ht, hkey⟩

-- ======== the targets

theorem mem_of_allowed {uid : String} {t : Target}
    (h : (allowed fresh).lookup uid = some t) :
    t ∈ fresh.targets ∧ t.ref.uid = uid := by
  rcases Assoc.lookup_foldl_put (fun t : Target => t.ref.uid) h
    with hmem | hnone
  · exact hmem
  · cases hnone

/-- The targets that are executed were resolved, have the references that
were submitted, and no UID twice. -/
theorem resolved_spec {seen : List String} {submitted targets : List Target}
    (h : resolved (allowed fresh) seen submitted = some targets) :
    (∀ t ∈ targets, t ∈ fresh.targets)
      ∧ targets.map (·.ref) = submitted.map (·.ref)
      ∧ (targets.map (·.ref.uid)).Nodup
      ∧ ∀ t ∈ targets, t.ref.uid ∉ seen := by
  induction submitted generalizing seen targets with
  | nil =>
    cases h
    exact ⟨fun t ht => (by cases ht), rfl, List.nodup_nil,
      fun t ht => (by cases ht)⟩
  | cons t submitted ih =>
    unfold resolved at h
    cases hactual : (allowed fresh).lookup t.ref.uid with
    | none =>
      rw [hactual] at h
      cases h
    | some actual =>
      rw [hactual] at h
      dsimp only at h
      split at h
      next => cases h
      next hok =>
      obtain ⟨rest, hrest, rfl⟩ := Option.map_eq_some_iff.mp h
      obtain ⟨hseen, href⟩ :
          t.ref.uid ∉ seen ∧ actual.ref = t.ref := by
        simpa using hok
      obtain ⟨hfresh, hrefs, hnodup, hnew⟩ := ih hrest
      have huid : actual.ref.uid = t.ref.uid := by rw [href]
      refine ⟨?_, ?_, ?_, ?_⟩
      · intro x hx
        rcases List.mem_cons.mp hx with rfl | hx
        · exact (mem_of_allowed hactual).1
        · exact hfresh x hx
      · rw [List.map_cons, List.map_cons, hrefs, href]
      · rw [List.map_cons, List.nodup_cons]
        refine ⟨?_, hnodup⟩
        intro hmem
        obtain ⟨x, hx, hxuid⟩ := List.mem_map.mp hmem
        apply hnew x hx
        rw [hxuid, huid]
        exact List.mem_cons_self
      · intro x hx
        rcases List.mem_cons.mp hx with rfl | hx
        · rw [huid]
          exact hseen
        · exact fun hmem => hnew x hx (List.mem_cons_of_mem _ hmem)

/-- Where as many are executed as were resolved, all that were resolved
are. -/
theorem mem_of_length {targets : List Target}
    (hfresh : ∀ t ∈ targets, t ∈ fresh.targets)
    (hnodup : (targets.map (·.ref.uid)).Nodup)
    (hlength : targets.length = fresh.targets.length) :
    ∀ f ∈ fresh.targets, f ∈ targets := by
  have htargets : targets.Nodup := List.Nodup.of_map _ hnodup
  have hperm : targets.Perm fresh.targets :=
    (List.subperm_of_subset htargets hfresh).perm_of_length_le
      (Nat.le_of_eq hlength.symm)
  exact fun f hf => hperm.mem_iff.mpr hf

-- ======== selection

/-- The registry has a mode with the IDs of the plan that is for selected
targets. -/
def Registry.OffersSelection (r : Registry) (plan : Plan) : Prop :=
  ∃ a ∈ r.actions plan.source.group plan.source.resource,
    a.id = plan.actionID
      ∧ ∃ m ∈ a.modes, m.id = plan.mode ∧ m.selectTargets = true

theorem exists_of_modes {id : String} {modes : List Mode} {b : Bool}
    (h : modes.foldl (fun selectable m =>
      if m.id = id then m.selectTargets else selectable) b = true) :
    b = true ∨ ∃ m ∈ modes, m.id = id ∧ m.selectTargets = true := by
  induction modes generalizing b with
  | nil => exact .inl h
  | cons m modes ih =>
    rcases ih h with hb | ⟨m', hm', hoffers⟩
    · dsimp only at hb
      split at hb
      next hid => exact .inr ⟨m, List.mem_cons_self, hid, hb⟩
      next => exact .inl hb
    · exact .inr ⟨m', List.mem_cons_of_mem _ hm', hoffers⟩

theorem Registry.offers_of_selectable (h : r.selectable submitted = true) :
    r.OffersSelection submitted := by
  unfold Registry.selectable at h
  unfold Registry.OffersSelection
  generalize r.actions submitted.source.group submitted.source.resource
    = actions at h ⊢
  suffices hloop : ∀ b : Bool, actions.foldl (fun selectable a =>
      if a.id = submitted.actionID then
        a.modes.foldl (fun selectable m =>
          if m.id = submitted.mode then m.selectTargets else selectable)
          selectable
      else selectable) b = true →
      b = true ∨ ∃ a ∈ actions, a.id = submitted.actionID
        ∧ ∃ m ∈ a.modes, m.id = submitted.mode ∧ m.selectTargets = true by
    rcases hloop false h with hfalse | hoffers
    · cases hfalse
    · exact hoffers
  clear h
  induction actions with
  | nil => exact fun b hb => .inl hb
  | cons a actions ih =>
    intro b hb
    rcases ih _ hb with hb | ⟨a', ha', hoffers⟩
    · dsimp only at hb
      split at hb
      next hid =>
        rcases exists_of_modes hb with hb | hoffers
        · exact .inl hb
        · exact .inr ⟨a, List.mem_cons_self, hid, hoffers⟩
      next => exact .inl hb
    · exact .inr ⟨a', List.mem_cons_of_mem _ ha', hoffers⟩

-- ======== execute

/-- Where all targets are to be executed, those that were submitted are
those that were resolved. -/
theorem refs_iff {targets : List Target}
    (hfresh : ∀ t ∈ targets, t ∈ fresh.targets)
    (hrefs : targets.map (·.ref) = submitted.targets.map (·.ref))
    (hall : ∀ f ∈ fresh.targets, f ∈ targets) (ref : ResourceRef) :
    (∃ t ∈ submitted.targets, t.ref = ref)
      ↔ ∃ f ∈ fresh.targets, f.ref = ref := by
  rw [← List.mem_map, ← hrefs, List.mem_map]
  constructor
  · rintro ⟨t, ht, hr⟩
    exact ⟨t, hfresh t ht, hr⟩
  · rintro ⟨f, hf, hr⟩
    exact ⟨f, hall f hf, hr⟩

theorem Registry.prepare_writes (env : Env) (r : Registry)
    (ref : ResourceRef) (id mode : String) (w : World) :
    (r.prepare env ref id mode w).2.writes = w.writes := by
  unfold Registry.prepare
  split
  · rfl
  · split
    · rfl
    · split
      · dsimp only
        split <;> exact Reading.run_writes _ w
      · rfl

/-- What a run may write, by its result: nothing, where it fails, and else
the patches of the targets that were resolved, as they were read. -/
structure Executed (env : Env) (r : Registry) (submitted fresh : Plan)
    (writes : List Write) : Prop where
  /-- Without a choice of targets they are the targets resolved. -/
  whole : ¬ r.OffersSelection submitted → ∀ ref,
    (∃ t ∈ submitted.targets, t.ref = ref)
      ↔ ∃ f ∈ fresh.targets, f.ref = ref
  once : (patchedUIDs writes).Nodup
  patched : ∀ key before after, .patched key before after ∈ writes →
    ∃ t ∈ submitted.targets, ∃ f ∈ fresh.targets,
      f.ref = t.ref ∧ key = t.ref.key
        ∧ Guarded env r { fresh with requestID := submitted.requestID } f
          before after

/-- A plan is executed as it was reviewed: whatever it is, and whatever
other clients do before and between the calls, nothing is written where it
is rejected, and else each patch that takes effect is one of an object
whose reference and UID were submitted and resolved again, at the version
that its mutation was computed from. -/
theorem Registry.execute_reviewed (env : Env) (r : Registry)
    (submitted : Plan) (c : Cluster) :
    (∀ e, (r.execute env submitted { cluster := c }).1 = .error e →
      (r.execute env submitted { cluster := c }).2.writes = [])
    ∧ ∀ results, (r.execute env submitted { cluster := c }).1
        = .ok results →
      ∃ fresh, (r.prepare env submitted.source submitted.actionID
          submitted.mode { cluster := c }).1 = .ok fresh
        ∧ Executed env r submitted fresh
          (r.execute env submitted { cluster := c }).2.writes := by
  have hprepare := r.prepare_writes env submitted.source submitted.actionID
    submitted.mode { cluster := c }
  have hrejected : ∀ (e : String) (w : World), w.writes = [] →
      (∀ e', (.error e : Except String (List Result)) = .error e' →
        w.writes = [])
      ∧ ∀ results, (.error e : Except String (List Result)) = .ok results →
        ∃ fresh, (r.prepare env submitted.source submitted.actionID
            submitted.mode { cluster := c }).1 = .ok fresh
          ∧ Executed env r submitted fresh w.writes := by
    intro e w hw
    exact ⟨fun _ _ => hw, fun results h => by cases h⟩
  generalize hrun : r.execute env submitted { cluster := c } = run
  unfold Registry.execute at hrun
  split at hrun
  · subst hrun
    exact hrejected _ _ rfl
  dsimp only at hrun
  split at hrun
  · subst hrun
    exact hrejected _ _ hprepare
  next fresh hfresh =>
  split at hrun
  · subst hrun
    exact hrejected _ _ hprepare
  split at hrun
  · subst hrun
    exact hrejected _ _ hprepare
  split at hrun
  · subst hrun
    exact hrejected _ _ hprepare
  next hlength =>
  split at hrun
  · subst hrun
    exact hrejected _ _ hprepare
  next targets htargets =>
  subst hrun
  refine ⟨fun e h => (by cases h), fun results _ => ⟨fresh, hfresh, ?_⟩⟩
  obtain ⟨hresolved, hrefs, hnodup, -⟩ := resolved_spec htargets
  obtain ⟨writes, hwrites, hsublist, hpatched⟩ := executeTargets_writes env
    r { fresh with requestID := submitted.requestID } targets
    (r.prepare env submitted.source submitted.actionID submitted.mode
      { cluster := c }).2
  dsimp only
  rw [hwrites, hprepare]
  show Executed env r submitted fresh writes
  refine ⟨?_, hsublist.nodup hnodup, ?_⟩
  · intro hoffers
    have hsame : submitted.targets.length = fresh.targets.length := by
      have hsel : r.selectable submitted = false :=
        Bool.eq_false_iff.mpr fun h => hoffers (r.offers_of_selectable h)
      simpa [hsel] using hlength
    have hlen : targets.length = fresh.targets.length := by
      rw [← hsame, ← List.length_map (f := (·.ref)), hrefs,
        List.length_map]
    exact refs_iff hresolved hrefs (mem_of_length hresolved hnodup hlen)
  · intro key before after h
    obtain ⟨f, hf, hkey, hguarded⟩ := hpatched key before after h
    have href : f.ref ∈ submitted.targets.map (·.ref) := by
      rw [← hrefs]
      exact List.mem_map_of_mem hf
    obtain ⟨t, ht, hr⟩ := List.mem_map.mp href
    exact ⟨t, ht, f, hresolved f hf, hr.symm, hr ▸ hkey, hguarded⟩

end Actions
