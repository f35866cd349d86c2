/-
Saved views (`useSavedViews`, frontend/src/hooks/useSavedViews.tsx).

# Instances

Every mounted instance of the hook has a list of its own, loaded from
localStorage when it mounts. A call that makes a new array of it is followed
by a render, and the render by the effect that writes the array of that
render, before the next render. The first render has its effect too.
`duplicateView` looks its source up in the array of the last render, the
other calls in the list itself. The list is JSON and comes back from
localStorage as it went in. Of a view, all that no call looks at is a
parameter (`body`).

# The argument

`State.all` is what one list would be by now that all calls are made on. A
call on an instance whose list is that one leaves it with that one, still to
be written (`Inv.call`). An effect that writes another list does no lasting
harm as long as some instance has `all` still to write (`Inv.carried`).
-/
import Kubikles.Lib.Machine

namespace SavedViews

open Machine (Step run Along Visits visits_of_invariant along_cons)

-- ======== the model

structure SavedView (β : Type) where
  id : String
  name : String
  resourceType : String
  createdAt : Nat
  isDefault : Bool := false
  body : β
deriving DecidableEq

/-- `ViewConfig`; a resource type that is missing is empty. -/
structure ViewConfig (β : Type) where
  resourceType : String := ""
  body : β

/-- `Partial<SavedView>`, without `isDefault`. -/
structure Updates (β : Type) where
  id : Option String := none
  name : Option String := none
  resourceType : Option String := none
  createdAt : Option Nat := none
  body : β → β := fun body => body

variable {β : Type}

/-- `{ ...view, ...updates }`. -/
def Updates.apply (updates : Updates β) (view : SavedView β) :
    SavedView β :=
  { id := updates.id.getD view.id
    name := updates.name.getD view.name
    resourceType := updates.resourceType.getD view.resourceType
    createdAt := updates.createdAt.getD view.createdAt
    isDefault := view.isDefault
    body := updates.body view.body }

/-- The calls; where a view is created, with its generated id and the time. -/
inductive Call (β : Type) where
  | saveView (name : String) (config : ViewConfig β) (id : String)
      (createdAt : Nat)
  | updateView (viewId : String) (updates : Updates β)
  | renameView (viewId newName : String)
  | deleteView (viewId : String)
  | duplicateView (viewId id : String) (createdAt : Nat)
  | setDefaultView (viewId : String)

inductive Update (β : Type) where
  | append (view : SavedView β)
  | change (viewId : String) (updates : Updates β)
  | remove (viewId : String)
  | setDefault (viewId : String)

/-- What `setDefaultView` makes of each view. -/
def defaulted (target view : SavedView β) : SavedView β :=
  if view.id = target.id then { view with isDefault := !target.isDefault }
  else if !target.isDefault && view.resourceType = target.resourceType
      && view.isDefault then
    { view with isDefault := false }
  else view

/-- The new array of an update, unless it returns the old one. -/
def Update.run (prev : List (SavedView β)) :
    Update β → Option (List (SavedView β))
  | .append view => some (prev ++ [view])
  | .change viewId updates =>
    (prev.findIdx? fun v => v.id = viewId).map fun index =>
      prev.modify index updates.apply
  | .remove viewId => some (prev.filter fun v => v.id ≠ viewId)
  | .setDefault viewId =>
    (prev.find? fun v => v.id = viewId).map fun view =>
      prev.map (defaulted view)

structure Instance (β : Type) where
  /-- The argument of the hook; `""` if it is missing. -/
  resourceType : String
  allViews : List (SavedView β)
  /-- `allViews` is an array that is not rendered yet. -/
  changed : Bool := false
  /-- The array of the last render. -/
  rendered : List (SavedView β)
  /-- The effect of that render has not run yet. -/
  pending : Bool := true
deriving DecidableEq

def Call.update (inst : Instance β) : Call β → Option (Update β)
  | .saveView name config id createdAt =>
    some (.append
      { id, name, createdAt
        resourceType :=
          if config.resourceType ≠ "" then config.resourceType
          else inst.resourceType
        body := config.body })
  | .updateView viewId updates => some (.change viewId updates)
  | .renameView viewId newName =>
    some (.change viewId { name := some newName })
  | .deleteView viewId => some (.remove viewId)
  | .duplicateView viewId id createdAt =>
    (inst.rendered.find? fun v => v.id = viewId).map fun source =>
      .append { source with
        id, createdAt, name := source.name ++ " (copy)",
        isDefault := false }
  | .setDefaultView viewId => some (.setDefault viewId)

def Instance.apply (u : Update β) (inst : Instance β) : Instance β :=
  match u.run inst.allViews with
  | none => inst
  | some views => { inst with allViews := views, changed := true }

def Update.on (u : Update β) (views : List (SavedView β)) :
    List (SavedView β) := (u.run views).getD views

/-- localStorage, the instances that are or were mounted, and what all calls
so far make of one list. -/
structure State (β : Type) where
  storage : Option (List (SavedView β))
  instances : List (Option (Instance β)) := []
  all : List (SavedView β)
deriving DecidableEq

def loadViews (saved : Option (List (SavedView β))) :
    List (SavedView β) := saved.getD []

def start (initial : List (SavedView β)) : State β :=
  { storage := some initial, all := initial }

inductive Act (β : Type) where
  | mount (resourceType : String)
  | unmount (i : Nat)
  | call (i : Nat) (call : Call β)
  | render (i : Nat)
  /-- `persistViews`. -/
  | persist (i : Nat)

def State.mounted (s : State β) (i : Nat) : Option (Instance β) :=
  (s.instances[i]?).join

def State.put (s : State β) (i : Nat) (inst : Option (Instance β)) :
    State β := { s with instances := s.instances.set i inst }

/-- One step. An instance unmounts when its effects have run. -/
def step : Step (State β) (Act β) Unit
  | .mount resourceType, s =>
    let views := loadViews s.storage
    some ({ s with
      instances := s.instances
        ++ [some { resourceType, allViews := views, rendered := views }] },
      [])
  | .unmount i, s =>
    match s.mounted i with
    | none => none
    | some inst =>
      if inst.changed || inst.pending then none
      else some (s.put i none, [])
  | .call i c, s =>
    match s.mounted i with
    | none => none
    | some inst =>
      match c.update inst with
      | none => some (s, [])
      | some u =>
        some ({ s.put i (some (inst.apply u)) with
          all := u.on s.all }, [])
  | .render i, s =>
    match s.mounted i with
    | none => none
    | some inst =>
      if inst.changed && !inst.pending then
        some (s.put i (some { inst with
          changed := false, rendered := inst.allViews,
          pending := true }), [])
      else none
  | .persist i, s =>
    match s.mounted i with
    | none => none
    | some inst =>
      if inst.pending then
        some ({ s.put i (some { inst with pending := false }) with
          storage := some inst.rendered }, [])
      else none

-- ======== what is asked for

/-- At most one view is the default of a resource type. -/
def OneDefault (views : List (SavedView β)) : Prop :=
  views.Pairwise fun v w =>
    v.isDefault → w.isDefault → v.resourceType ≠ w.resourceType

def State.Quiet (s : State β) : Prop :=
  ∀ i, ∀ inst ∈ s.mounted i, inst.changed = false ∧ inst.pending = false

/-- No view is lost: what is stored in the end is what the calls have made of
the initial views, with one default for a resource type. -/
def State.Kept (s : State β) : Prop :=
  s.Quiet → s.storage = some s.all ∧ OneDefault s.all

/-- An update does the same on two lists: they are the same, or differ in
what is removed, or have no view it is about. -/
def Update.Fits (views all : List (SavedView β)) : Update β → Prop
  | .append _ => views = all
  | .remove viewId =>
    (views.filter fun v => v.id ≠ viewId)
      = all.filter fun v => v.id ≠ viewId
  | .change viewId _ | .setDefault viewId =>
    views = all
      ∨ (∀ v ∈ views, v.id ≠ viewId) ∧ ∀ v ∈ all, v.id ≠ viewId

/-- An update makes no second default of a resource type. -/
def Update.KeepsOne (all : List (SavedView β)) : Update β → Prop
  | .append view => view.isDefault = false
  | .remove _ => True
  | .change viewId updates =>
    -- the resource type of a default view is not changed to one that has a
    -- default
    ∀ v ∈ all.find? fun v => v.id = viewId, v.isDefault →
      ∀ t ∈ updates.resourceType, t = v.resourceType
        ∨ ∀ w ∈ all, w.isDefault → w.resourceType ≠ t
  | .setDefault viewId =>
    -- the views of this id, if there are more than one, are of different
    -- resource types, and the types of the others have no default
    ∀ v ∈ all.find? fun v => v.id = viewId, v.isDefault = false →
      (all.Pairwise fun w x =>
        w.id = viewId → x.id = viewId → w.resourceType ≠ x.resourceType)
      ∧ ∀ w ∈ all, w.id = viewId → ∀ x ∈ all, x.id ≠ viewId →
          x.isDefault → x.resourceType = w.resourceType →
          w.resourceType = v.resourceType

def Instance.Carries (all : List (SavedView β)) (inst : Instance β) : Prop :=
  (inst.changed = true ∧ inst.allViews = all)
    ∨ (inst.pending = true ∧ inst.rendered = all)

/-- Calls are made on lists that are up to date, and keep the defaults
apart; an effect that writes a list that is not, runs while one that is up
to date is still to be written. -/
def Careful (s : State β) : Act β → Prop
  | .call i c =>
    ∀ inst ∈ s.mounted i, ∀ u ∈ c.update inst,
      u.Fits inst.allViews s.all ∧ u.KeepsOne s.all
  | .persist i =>
    ∀ inst ∈ s.mounted i,
      inst.rendered = s.all
        ∨ (inst.changed = true ∧ inst.allViews = s.all)
        ∨ ∃ k, k ≠ i ∧ ∃ other ∈ s.mounted k, other.Carries s.all
  | _ => True

-- ======== updates

variable {s s' : State β} {inst : Instance β} {u : Update β}
  {views all : List (SavedView β)} {i : Nat}

theorem run_eq_of_fits (h : u.Fits views all) : u.run views = u.run all := by
  cases u with
  | append view => rw [show views = all from h]
  | remove viewId => exact congrArg some h
  | change viewId updates =>
    obtain heq | ⟨hviews, hall⟩ := h
    · rw [heq]
    · have hnone : ∀ {l : List (SavedView β)}, (∀ v ∈ l, v.id ≠ viewId) →
          l.findIdx? (fun v => v.id = viewId) = none := by
        intro l hl
        apply List.findIdx?_eq_none_iff.mpr
        intro v hv
        exact decide_eq_false (hl v hv)
      simp only [Update.run, hnone hviews, hnone hall]
      rfl
  | setDefault viewId =>
    obtain heq | ⟨hviews, hall⟩ := h
    · rw [heq]
    · have hnone : ∀ {l : List (SavedView β)}, (∀ v ∈ l, v.id ≠ viewId) →
          l.find? (fun v => v.id = viewId) = none := by
        intro l hl
        apply List.find?_eq_none.mpr
        intro v hv
        simp [hl v hv]
      simp only [Update.run, hnone hviews, hnone hall]
      rfl

theorem find?_of_findIdx? {viewId : String}
    (h : all.findIdx? (fun v => v.id = viewId) = some i) :
    ∃ hi : i < all.length,
      all.find? (fun v => v.id = viewId) = some all[i] := by
  obtain ⟨hi, hp, hbefore⟩ := List.findIdx?_eq_some_iff_getElem.mp h
  refine ⟨hi, List.find?_eq_some_iff_getElem.mpr ⟨hp, i, hi, rfl, ?_⟩⟩
  intro j hj
  simpa using hbefore j hj

/-- New values of one view leave one default for a resource type. -/
theorem OneDefault.change {updates : Updates β} (h : OneDefault all)
    (hi : i < all.length)
    (hkeeps : all[i].isDefault → ∀ t ∈ updates.resourceType,
      t = all[i].resourceType
        ∨ ∀ w ∈ all, w.isDefault → w.resourceType ≠ t) :
    OneDefault (all.modify i updates.apply) := by
  -- the changed view against another default one
  have hother : ∀ w ∈ all, all[i].isDefault → w.isDefault →
      (all[i].resourceType ≠ w.resourceType) →
      (updates.apply all[i]).resourceType ≠ w.resourceType := by
    intro w hw hdefault hwdefault hne
    show updates.resourceType.getD all[i].resourceType ≠ _
    cases ht : updates.resourceType with
    | none => exact hne
    | some t =>
      rcases hkeeps hdefault t ht with rfl | hall
      · exact hne
      · exact (hall w hw hwdefault).symm
  unfold OneDefault at h ⊢
  rw [List.pairwise_iff_getElem] at h ⊢
  intro j k hj hk hjk
  rw [List.length_modify] at hj hk
  rw [List.getElem_modify, List.getElem_modify]
  have hpair := h j k hj hk hjk
  by_cases hij : i = j
  · subst hij
    rw [if_pos rfl, if_neg (by omega)]
    intro hv hw
    exact hother _ (List.getElem_mem hk) hv hw (hpair hv hw)
  · rw [if_neg hij]
    by_cases hik : i = k
    · subst hik
      rw [if_pos rfl]
      intro hv hw
      exact (hother _ (List.getElem_mem hj) hw hv
        (hpair hv hw).symm).symm
    · rw [if_neg hik]
      exact hpair

theorem defaulted_resourceType (target v : SavedView β) :
    (defaulted target v).resourceType = v.resourceType := by
  unfold defaulted
  split
  · rfl
  · split <;> rfl

theorem defaulted_isDefault {target v : SavedView β}
    (h : (defaulted target v).isDefault) :
    (v.id = target.id ∧ target.isDefault = false)
      ∨ (v.id ≠ target.id ∧ v.isDefault ∧ (target.isDefault = false →
          v.resourceType ≠ target.resourceType)) := by
  unfold defaulted at h
  split at h
  next hid => exact Or.inl ⟨hid, by simpa using h⟩
  next hid =>
    split at h
    · cases h
    next hnot =>
      refine Or.inr ⟨hid, h, fun htarget htype => hnot ?_⟩
      simp [htarget, htype, h]

theorem OneDefault.setDefault {target : SavedView β} (h : OneDefault all)
    (hkeeps : target.isDefault = false →
      (all.Pairwise fun w x =>
        w.id = target.id → x.id = target.id → w.resourceType ≠ x.resourceType)
      ∧ ∀ w ∈ all, w.id = target.id → ∀ x ∈ all, x.id ≠ target.id →
          x.isDefault → x.resourceType = w.resourceType →
          w.resourceType = target.resourceType) :
    OneDefault (all.map (defaulted target)) := by
  -- the new default against one that stays
  have hstays : ∀ {w x : SavedView β}, w ∈ all → x ∈ all →
      w.id = target.id → target.isDefault = false → x.id ≠ target.id →
      x.isDefault → x.resourceType ≠ target.resourceType →
      w.resourceType ≠ x.resourceType := by
    intro w x hw hx hwid htarget hxid hxdefault hxtype hsame
    apply hxtype
    rw [← hsame]
    exact (hkeeps htarget).2 w hw hwid x hx hxid hxdefault hsame.symm
  have hboth : all.Pairwise fun w x =>
      w.id = target.id → x.id = target.id → target.isDefault = false →
        w.resourceType ≠ x.resourceType := by
    by_cases htarget : target.isDefault = false
    · exact (hkeeps htarget).1.imp fun hne hw hx _ => hne hw hx
    · exact h.imp fun _ _ _ hfalse => absurd hfalse htarget
  unfold OneDefault at h ⊢
  rw [List.pairwise_map]
  refine (h.and hboth).imp_of_mem fun {w x} hw hx hpair hwd hxd => ?_
  rw [defaulted_resourceType, defaulted_resourceType]
  rcases defaulted_isDefault hwd with ⟨hwid, htarget⟩ | ⟨hwid, hwd, hwt⟩
  · rcases defaulted_isDefault hxd with ⟨hxid, -⟩ | ⟨hxid, hxd, hxt⟩
    · exact hpair.2 hwid hxid htarget
    · exact hstays hw hx hwid htarget hxid hxd (hxt htarget)
  · rcases defaulted_isDefault hxd with ⟨hxid, htarget⟩ | ⟨hxid, hxd, -⟩
    · exact (hstays hx hw hxid htarget hwid hwd (hwt htarget)).symm
    · exact hpair.1 hwd hxd

/-- An update that keeps the defaults apart leaves one for a resource
type. -/
theorem OneDefault.on (h : OneDefault all) (hkeeps : u.KeepsOne all) :
    OneDefault (u.on all) := by
  cases u with
  | append view =>
    refine List.pairwise_append.mpr ⟨h, List.pairwise_singleton _ _, ?_⟩
    intro v _ w hw _ hwdefault
    rw [List.mem_singleton.mp hw, show view.isDefault = false from hkeeps]
      at hwdefault
    cases hwdefault
  | remove viewId => exact h.filter _
  | change viewId updates =>
    simp only [Update.on, Update.run]
    cases hfind : all.findIdx? (fun v => v.id = viewId) with
    | none => exact h
    | some i =>
      obtain ⟨hi, hview⟩ := find?_of_findIdx? hfind
      exact h.change hi (hkeeps _ hview)
  | setDefault viewId =>
    simp only [Update.on, Update.run]
    cases hfind : all.find? (fun v => v.id = viewId) with
    | none => exact h
    | some target =>
      have hid : target.id = viewId := by
        simpa using List.find?_some hfind
      apply h.setDefault
      rw [hid]
      exact hkeeps target hfind

-- ======== instances

theorem mounted_put (h : s.mounted i = some inst)
    (inst' : Option (Instance β)) (k : Nat) :
    (s.put i inst').mounted k = if k = i then inst' else s.mounted k := by
  unfold State.mounted State.put
  rw [List.getElem?_set]
  by_cases hki : k = i
  · subst hki
    have hlt : k < s.instances.length := by
      by_contra hge
      unfold State.mounted at h
      rw [List.getElem?_eq_none (by omega)] at h
      cases h
    rw [if_pos rfl, if_pos hlt, if_pos rfl]
    rfl
  · rw [if_neg (Ne.symm hki), if_neg hki]

theorem mounted_append {k : Nat} (h : s.mounted k = some inst)
    (new : Instance β) :
    ((s.instances ++ [some new])[k]?).join = some inst := by
  unfold State.mounted at h
  cases hk : s.instances[k]? with
  | none =>
    rw [hk] at h
    cases h
  | some o =>
    rw [List.getElem?_append_left (List.getElem?_eq_some_iff.mp hk).1, hk]
    rw [hk] at h
    exact h

/-- What is asked for is stored, or an instance has it still to write. -/
def State.Safe (s : State β) : Prop :=
  s.storage = some s.all
    ∨ ∃ k, ∃ inst ∈ s.mounted k, inst.Carries s.all

structure Inv (s : State β) : Prop where
  carried : s.Safe
  one : OneDefault s.all

/-- A call on an instance that is up to date leaves it up to date, with its
list still to be written if it is another one. -/
theorem Inv.call (h : Inv s) (hmounted : s.mounted i = some inst)
    (hfits : u.Fits inst.allViews s.all) (hkeeps : u.KeepsOne s.all) :
    Inv { s.put i (some (inst.apply u)) with all := u.on s.all } := by
  refine ⟨?_, h.one.on hkeeps⟩
  have hrun := run_eq_of_fits hfits
  cases hall : u.run s.all with
  | none =>
    have happly : inst.apply u = inst := by
      unfold Instance.apply
      rw [hrun, hall]
    have hon : u.on s.all = s.all := by
      unfold Update.on
      rw [hall]
      rfl
    rw [happly, hon]
    refine h.carried.imp id ?_
    intro ⟨k, other, hother, hcarries⟩
    refine ⟨k, other, ?_, hcarries⟩
    show other ∈ (s.put i (some inst)).mounted k
    rw [mounted_put hmounted]
    split
    next hki =>
      subst hki
      rw [← hmounted]
      exact hother
    · exact hother
  | some views =>
    refine Or.inr ⟨i, inst.apply u, ?_, Or.inl ?_⟩
    · show _ ∈ (s.put i (some (inst.apply u))).mounted i
      rw [mounted_put hmounted, if_pos rfl]
      rfl
    · unfold Instance.apply Update.on
      rw [hrun, hall]
      exact ⟨rfl, rfl⟩

/-- Where an instance is replaced by one that has to write what it had, or
is replaced only in what it does not have to write, the rest is as it
was. -/
theorem State.Safe.put (h : s.Safe) (hmounted : s.mounted i = some inst)
    {inst' : Option (Instance β)}
    (hkept : inst.Carries s.all → ∃ new ∈ inst', new.Carries s.all) :
    (s.put i inst').Safe := by
  refine h.imp id ?_
  intro ⟨k, other, hother, hcarries⟩
  by_cases hki : k = i
  · subst hki
    obtain rfl := Option.some.inj (hmounted.symm.trans hother)
    obtain ⟨new, hnew, hcarries⟩ := hkept hcarries
    refine ⟨k, new, ?_, hcarries⟩
    rw [mounted_put hmounted, if_pos rfl]
    exact hnew
  · refine ⟨k, other, ?_, hcarries⟩
    rw [mounted_put hmounted, if_neg hki]
    exact hother

/-- One careful step keeps the invariant. -/
theorem step_inv {act : Act β} {o : List Unit} (h : Inv s)
    (hok : Careful s act) (hstep : step act s = some (s', o)) : Inv s' := by
  cases act with
  | mount resourceType =>
    obtain ⟨rfl, -⟩ := Prod.mk.inj (Option.some.inj hstep)
    refine ⟨h.carried.imp id ?_, h.one⟩
    intro ⟨k, other, hother, hcarries⟩
    exact ⟨k, other, mounted_append hother _, hcarries⟩
  | unmount i =>
    rw [step] at hstep
    split at hstep
    · cases hstep
    next inst hmounted =>
      split at hstep
      · cases hstep
      next hdone =>
        obtain ⟨rfl, -⟩ := Prod.mk.inj (Option.some.inj hstep)
        refine ⟨h.carried.put hmounted fun hcarries => ?_, h.one⟩
        rcases hcarries with ⟨hchanged, -⟩ | ⟨hpending, -⟩
        · exact absurd (by rw [hchanged]; rfl) hdone
        · exact absurd (by rw [hpending, Bool.or_true]) hdone
  | call i c =>
    rw [step] at hstep
    split at hstep
    · cases hstep
    next inst hmounted =>
      split at hstep
      · obtain ⟨rfl, -⟩ := Prod.mk.inj (Option.some.inj hstep)
        exact h
      next u hu =>
        obtain ⟨rfl, -⟩ := Prod.mk.inj (Option.some.inj hstep)
        obtain ⟨hfits, hkeeps⟩ := hok inst hmounted u hu
        exact h.call hmounted hfits hkeeps
  | render i =>
    rw [step] at hstep
    split at hstep
    · cases hstep
    next inst hmounted =>
      split at hstep
      next hready =>
        obtain ⟨rfl, -⟩ := Prod.mk.inj (Option.some.inj hstep)
        refine ⟨h.carried.put hmounted fun hcarries => ?_, h.one⟩
        refine ⟨_, rfl, Or.inr ⟨rfl, ?_⟩⟩
        rcases hcarries with ⟨-, hviews⟩ | ⟨hpending, -⟩
        · exact hviews
        · simp [hpending] at hready
      · cases hstep
  | persist i =>
    rw [step] at hstep
    split at hstep
    · cases hstep
    next inst hmounted =>
      split at hstep
      next hpending =>
        obtain ⟨rfl, -⟩ := Prod.mk.inj (Option.some.inj hstep)
        refine ⟨?_, h.one⟩
        rcases hok inst hmounted with hrendered | hrest
        · exact Or.inl (congrArg some hrendered)
        · refine Or.inr ?_
          rcases hrest with hchanged | ⟨k, hki, other, hother, hcarries⟩
          · refine ⟨i, { inst with pending := false }, ?_,
              Or.inl hchanged⟩
            show _ ∈ (s.put i _).mounted i
            rw [mounted_put hmounted, if_pos rfl]
            rfl
          · refine ⟨k, other, ?_, hcarries⟩
            show _ ∈ (s.put i _).mounted k
            rw [mounted_put hmounted, if_neg hki]
            exact hother
      · cases hstep

theorem Inv.kept (h : Inv s) : s.Kept := by
  intro hquiet
  refine ⟨?_, h.one⟩
  rcases h.carried with hstored | ⟨k, inst, hmounted, hcarries⟩
  · exact hstored
  · obtain ⟨hchanged, hpending⟩ := hquiet k inst hmounted
    rcases hcarries with ⟨h, -⟩ | ⟨h, -⟩
    · rw [hchanged] at h
      cases h
    · rw [hpending] at h
      cases h

/-- In a run of careful steps no view is lost. -/
theorem views_kept {initial : List (SavedView β)}
    (hone : OneDefault initial) {acts : List (Act β)}
    (hok : Along step Careful (start initial) acts) :
    Visits step State.Kept (start initial) acts :=
  visits_of_invariant (I := Inv) (fun h hok hstep => step_inv h hok hstep)
    Inv.kept ⟨Or.inl rfl, hone⟩ hok

/-- An instance that mounts when a view is stored deletes it. -/
theorem views_kept_in_turn :
    Visits step State.Kept (start [])
      [.mount "pods", .persist 0,
        .call 0 (.saveView "mine" { body := "" } "view_1" 5),
        .render 0, .persist 0, .mount "", .persist 1,
        .call 1 (.deleteView "view_1"), .render 1, .persist 1] := by
  apply views_kept List.Pairwise.nil
  refine along_cons rfl trivial ?_
  refine along_cons rfl (fun inst h => Or.inl ?_) ?_
  · obtain rfl := Option.some.inj h
    rfl
  refine along_cons rfl (fun inst h u hu => ?_) ?_
  · obtain rfl := Option.some.inj h
    obtain rfl := Option.some.inj hu
    exact ⟨rfl, rfl⟩
  refine along_cons rfl trivial ?_
  refine along_cons rfl (fun inst h => Or.inl ?_) ?_
  · obtain rfl := Option.some.inj h
    rfl
  refine along_cons rfl trivial ?_
  refine along_cons rfl (fun inst h => Or.inl ?_) ?_
  · obtain rfl := Option.some.inj h
    rfl
  refine along_cons rfl (fun inst h u hu => ?_) ?_
  · obtain rfl := Option.some.inj h
    obtain rfl := Option.some.inj hu
    exact ⟨rfl, trivial⟩
  refine along_cons rfl trivial ?_
  refine along_cons rfl (fun inst h => Or.inl ?_) trivial
  obtain rfl := Option.some.inj h
  rfl

def twoSaves : List (Act String) :=
  [.mount "pods", .persist 0, .mount "nodes", .persist 1,
    .call 0 (.saveView "a" { body := "" } "view_1" 5), .render 0, .persist 0,
    .call 1 (.saveView "b" { body := "" } "view_2" 6), .render 1, .persist 1]

def firstView : SavedView String :=
  { id := "view_1", name := "a", resourceType := "pods", createdAt := 5,
    body := "" }

def secondView : SavedView String :=
  { id := "view_2", name := "b", resourceType := "nodes", createdAt := 6,
    body := "" }

/-- An instance that has nothing to write. -/
def written (resourceType : String) (views : List (SavedView String)) :
    Instance String :=
  { resourceType, allViews := views, rendered := views, pending := false }

/-- The second overwrites the view of the first. -/
theorem first_view_lost :
    ∃ s, run step (start []) twoSaves = some (s, []) ∧ ¬s.Kept := by
  refine ⟨{
    storage := some [secondView]
    instances := [some (written "pods" [firstView]),
      some (written "nodes" [secondView])]
    all := [firstView, secondView] }, by decide, fun h => ?_⟩
  refine absurd (h ?_).1 (by decide)
  intro i inst hinst
  match i with
  | 0 | 1 =>
    obtain rfl := Option.some.inj hinst
    exact ⟨rfl, rfl⟩
  | _ + 2 => cases hinst

end SavedViews
