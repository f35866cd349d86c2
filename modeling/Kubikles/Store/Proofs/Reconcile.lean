/-
A list and a watch agree.

# The argument

The cluster is the fold of its own history (`clusterState`), and what a
history says about one uid is one life: ADDED, MODIFIED, DELETED. A
fetch lists the state after some prefix and replays a suffix that starts
no later than that prefix ends, so some events are both in the list and
in the journal. Per uid that does no harm (`replay_converges`): the last
event decides what the cluster has, and the replay ends with that event
or the list is already behind it. The two refusals of the reducer are
the cases to look at. An ADDED is refused where the list has the object,
and then the list has this ADDED. A terminating MODIFIED is refused
where the object is missing, but behind its ADDED, listed or replayed,
an object is missing only once its DELETED was replayed.
-/
import Kubikles.Store.Proofs.Reducer
import Kubikles.Store.Hook

namespace Store

open Machine

variable {α : Type}

-- ======== histories

/-- Where an object is in its life. -/
inductive Phase where
  | unborn
  | alive
  | gone
deriving DecidableEq, Repr

def Phase.next : Phase → EventType → Option Phase
  | .unborn, .added => some .alive
  | .alive, .modified => some .alive
  | .alive, .deleted => some .gone
  | _, _ => none

/-- The phase the events of one object lead to, if they are a life. -/
def life (events : List (ResourceEvent α)) : Option Phase :=
  (events.map (·.type)).foldlM Phase.next .unborn

/-- Per uid, the events of a history are the life of one object. -/
def WellFormed (history : List (ResourceEvent α)) : Prop :=
  ∀ uid ∈ history.filterMap (uidOf ·.resource),
    (life (forUid uid history)).isSome

/-- What an event does to the cluster's entry of its object. -/
def writeOne (entry : Option (Resource α)) (event : ResourceEvent α) :
    Option (Resource α) :=
  match event.type with
  | .added => some event.resource
  | .modified => some event.resource
  | .deleted => none
  | _ => entry

def write (state : ResourceMap α) (event : ResourceEvent α) :
    ResourceMap α :=
  match uidOf event.resource with
  | none => state
  | some uid =>
    match writeOne (state.lookup uid) event with
    | none => state.erase uid
    | some resource => state.insert uid resource

def clusterState (history : List (ResourceEvent α)) : ResourceMap α :=
  history.foldl write ∅

def Lists (items : List (Resource α)) (state : ResourceMap α) : Prop :=
  ∃ order, FinMap.Enumerates order state
    ∧ items = order.filterMap state.lookup

-- ======== one uid

/-- Lookup after a write: its own uid's entry moves by `writeOne`, no
other moves. -/
theorem lookup_write (state : ResourceMap α) (event : ResourceEvent α)
    (uid : String) :
    (write state event).lookup uid
      = if uidOf event.resource = some uid
        then writeOne (state.lookup uid) event else state.lookup uid := by
  unfold write
  cases hu : uidOf event.resource with
  | none => simp
  | some u =>
    dsimp only
    by_cases hne : uid = u
    · subst hne
      rw [if_pos rfl]
      split
      next h => rw [FinMap.lookup_erase, if_pos rfl, h]
      next r h => rw [FinMap.lookup_insert, if_pos rfl, h]
    · have hsome : some u ≠ some uid := fun h => hne (Option.some.inj h).symm
      rw [if_neg hsome]
      split
      next => rw [FinMap.lookup_erase, if_neg hne]
      next => rw [FinMap.lookup_insert, if_neg hne]

theorem lookup_clusterState (history : List (ResourceEvent α))
    (uid : String) :
    (clusterState history).lookup uid
      = (forUid uid history).foldl writeOne none := by
  have hfold : ∀ state : ResourceMap α,
      (history.foldl write state).lookup uid
        = (forUid uid history).foldl writeOne (state.lookup uid) := by
    induction history with
    | nil => exact fun _ => rfl
    | cons e history ih =>
      intro state
      rw [List.foldl_cons, ih, lookup_write, forUid_cons]
      split
      · rfl
      · rfl
  exact hfold ∅

theorem mem_of_foldl_writeOne {events : List (ResourceEvent α)}
    {entry : Option (Resource α)} {r : Resource α}
    (h : events.foldl writeOne entry = some r) :
    entry = some r ∨ ∃ e ∈ events, e.resource = r := by
  induction events generalizing entry with
  | nil => exact Or.inl h
  | cons e events ih =>
    rcases ih h with he | ⟨e', he', hr⟩
    · unfold writeOne at he
      split at he
      · exact Or.inr ⟨e, List.mem_cons_self .., Option.some.inj he⟩
      · exact Or.inr ⟨e, List.mem_cons_self .., Option.some.inj he⟩
      · cases he
      · exact Or.inl he
    · exact Or.inr ⟨e', List.mem_cons_of_mem _ he', hr⟩

theorem uidOf_clusterState {history : List (ResourceEvent α)}
    {uid : String} {r : Resource α}
    (h : (clusterState history).lookup uid = some r) :
    uidOf r = some uid := by
  rw [lookup_clusterState] at h
  rcases mem_of_foldl_writeOne h with hnone | ⟨e, he, rfl⟩
  · cases hnone
  · simpa [forUid] using (List.mem_filter.mp he).2

-- ======== lives

@[simp] theorem life_nil : life ([] : List (ResourceEvent α)) = some .unborn :=
  rfl

theorem life_concat (events : List (ResourceEvent α))
    (e : ResourceEvent α) :
    life (events ++ [e]) = (life events).bind (·.next e.type) := by
  unfold life
  rw [List.map_append, List.foldlM_append]
  simp

theorem life_unborn {events : List (ResourceEvent α)}
    (h : life events = some .unborn) : events = [] := by
  rcases events.eq_nil_or_concat' with rfl | ⟨l, e, rfl⟩
  · rfl
  · rw [life_concat] at h
    obtain ⟨p, -, hp⟩ := Option.bind_eq_some_iff.mp h
    unfold Phase.next at hp
    split at hp <;> cases hp

def Present (e : ResourceEvent α) : Prop :=
  e.type = .added ∨ e.type = .modified

/-- A living object was ADDED first, and every event since says that it
exists. -/
theorem life_alive {events : List (ResourceEvent α)}
    (h : life events = some .alive) :
    ∃ a rest, events = a :: rest ∧ a.type = .added
      ∧ ∀ e ∈ events, Present e := by
  induction events using List.reverseRecOn with
  | nil => cases h
  | append_singleton l e ih =>
    rw [life_concat] at h
    obtain ⟨p, hp, hnext⟩ := Option.bind_eq_some_iff.mp h
    unfold Phase.next at hnext
    split at hnext
    next ht =>
      rw [life_unborn hp]
      refine ⟨e, [], rfl, ht, fun e' he' => ?_⟩
      rw [List.mem_singleton.mp he']
      exact Or.inl ht
    next ht =>
      obtain ⟨a, rest, rfl, ha, hall⟩ := ih hp
      refine ⟨a, rest ++ [e], rfl, ha, fun e' he' => ?_⟩
      rcases List.mem_append.mp he' with hold | hnew
      · exact hall e' hold
      · rw [List.mem_singleton.mp hnew]
        exact Or.inr ht
    next => cases hnext
    next => cases hnext

theorem isSome_foldl_applyOne {events : List (ResourceEvent α)}
    (hall : ∀ e ∈ events, Present e) {entry : Option (Resource α)}
    (h : entry.isSome) : (events.foldl applyOne entry).isSome := by
  induction events generalizing entry with
  | nil => exact h
  | cons e events ih =>
    refine ih (fun e' he' => hall e' (List.mem_cons_of_mem _ he')) ?_
    rcases hall e (List.mem_cons_self ..) with ht | ht
    · simp [applyOne, ht, h]
    · rw [applyOne_modified ht h]
      rfl

theorem isSome_foldl_writeOne {events : List (ResourceEvent α)}
    (hall : ∀ e ∈ events, Present e) (hne : events ≠ []) :
    (events.foldl writeOne none).isSome := by
  rcases events.eq_nil_or_concat' with rfl | ⟨l, e, rfl⟩
  · exact absurd rfl hne
  · rw [List.foldl_append]
    rcases hall e (by simp) with ht | ht
    · simp [writeOne, ht]
    · simp [writeOne, ht]

/-- Replaying a life over a list of the same object that is not older
than the replay's start gives what the whole life gives. -/
theorem replay_one {before listed after : List (ResourceEvent α)}
    (hlife : (life (before ++ listed ++ after)).isSome) :
    (listed ++ after).foldl applyOne
        ((before ++ listed).foldl writeOne none)
      = (before ++ listed ++ after).foldl writeOne none := by
  rw [List.append_assoc] at hlife ⊢
  rcases (listed ++ after).eq_nil_or_concat' with hnil | ⟨l, e, hl⟩
  · obtain ⟨rfl, rfl⟩ := List.append_eq_nil_iff.mp hnil
    simp
  rw [hl, ← List.append_assoc, life_concat] at hlife
  obtain ⟨p', hp'⟩ := Option.isSome_iff_exists.mp hlife
  obtain ⟨p, hp, hnext⟩ := Option.bind_eq_some_iff.mp hp'
  -- The replay and the history end with the same event `e`.
  have hreplay : ∀ entry, (l ++ [e]).foldl applyOne entry
      = applyOne (l.foldl applyOne entry) e := fun _ => List.foldl_concat ..
  have hcluster : (before ++ l ++ [e]).foldl writeOne none
      = writeOne ((before ++ l).foldl writeOne none) e :=
    List.foldl_concat ..
  rw [hl, hreplay, ← List.append_assoc, hcluster]
  unfold Phase.next at hnext
  split at hnext
  next ht =>
    -- `e` is the ADDED: the list is from before it or has exactly it.
    obtain ⟨rfl, rfl⟩ := List.append_eq_nil_iff.mp (life_unborn hp)
    rcases List.append_eq_singleton_iff.mp hl with ⟨rfl, rfl⟩ | ⟨rfl, rfl⟩
    · simp [applyOne, writeOne, ht]
    · simp [applyOne, writeOne, ht]
  next ht =>
    -- `e` is a MODIFIED: the object is there when the replay gets to it.
    obtain ⟨a, rest, hal, ha, hall⟩ := life_alive hp
    have hthere : (l.foldl applyOne
        ((before ++ listed).foldl writeOne none)).isSome := by
      by_cases hlisted : before ++ listed = []
      · obtain ⟨rfl, rfl⟩ := List.append_eq_nil_iff.mp hlisted
        rw [List.nil_append] at hal hall
        subst hal
        refine isSome_foldl_applyOne
          (fun e' he' => hall e' (List.mem_cons_of_mem _ he')) ?_
        simp [applyOne, ha]
      · have hlen : ∀ e' ∈ before ++ listed, Present e' := by
          intro e' he'
          have hmem : e' ∈ before ++ l ++ [e] := by
            rw [List.append_assoc, ← hl, ← List.append_assoc]
            exact List.mem_append_left _ he'
          rcases List.mem_append.mp hmem with hold | hnew
          · exact hall e' hold
          · rw [List.mem_singleton.mp hnew]
            exact Or.inr ht
        exact isSome_foldl_applyOne
          (fun e' he' => hall e' (List.mem_append_right _ he'))
          (isSome_foldl_writeOne hlen hlisted)
    rw [applyOne_modified ht hthere]
    simp [writeOne, ht]
  next ht => simp [applyOne, writeOne, ht]
  next => cases hnext

-- ======== the whole store

theorem WellFormed.life {history : List (ResourceEvent α)}
    (h : WellFormed history) (uid : String) :
    (life (forUid uid history)).isSome := by
  by_cases huid : uid ∈ history.filterMap (uidOf ·.resource)
  · exact h uid huid
  · have hnone : forUid uid history = [] := by
      unfold forUid
      rw [List.filter_eq_nil_iff]
      intro e he hu
      exact huid (List.mem_filterMap.mpr ⟨e, he, by simpa using hu⟩)
    rw [hnone, life_nil]
    rfl

/-- Replaying over a list that is not older than the replay's start
gives the cluster's state after everything. -/
theorem replay_converges {before listed after : List (ResourceEvent α)}
    (hwf : WellFormed (before ++ listed ++ after)) :
    applyResourceEvents (clusterState (before ++ listed)) (listed ++ after)
      = clusterState (before ++ listed ++ after) := by
  refine Finmap.ext_lookup fun uid => ?_
  have hlife := hwf.life uid
  rw [lookup_applyResourceEvents, lookup_clusterState, lookup_clusterState]
  simp only [forUid_append] at hlife ⊢
  exact replay_one hlife

theorem lookup_setItems {state : ResourceMap α}
    (hown : ∀ {uid r}, state.lookup uid = some r → uidOf r = some uid)
    {order : List String} (horder : ∀ k ∈ order, (state.lookup k).isSome)
    (map : ResourceMap α) (uid : String) :
    (setItems map (order.filterMap state.lookup)).lookup uid
      = if uid ∈ order then state.lookup uid else map.lookup uid := by
  induction order generalizing map with
  | nil => simp [setItems]
  | cons k order ih =>
    obtain ⟨r, hr⟩ :=
      Option.isSome_iff_exists.mp (horder k (List.mem_cons_self ..))
    have hcons : setItems map ((k :: order).filterMap state.lookup)
        = setItems (map.insert k r) (order.filterMap state.lookup) := by
      simp [setItems, hr, hown hr]
    rw [hcons, ih fun k' hk' => horder k' (List.mem_cons_of_mem _ hk'),
      FinMap.lookup_insert]
    by_cases hin : uid ∈ order
    · simp [hin]
    · by_cases hk : uid = k
      · subst hk
        simp [hin, hr]
      · simp [hin, hk]

theorem arrayToMap_lists {items : List (Resource α)}
    {history : List (ResourceEvent α)}
    (h : Lists items (clusterState history)) :
    arrayToMap items = clusterState history := by
  obtain ⟨order, horder, rfl⟩ := h
  refine Finmap.ext_lookup fun uid => ?_
  rw [arrayToMap, lookup_setItems uidOf_clusterState
    fun k hk => horder.lookup_isSome hk]
  split
  next => rfl
  next hout =>
    rw [Finmap.lookup_empty]
    symm
    rw [Finmap.lookup_eq_none]
    exact fun hmem => hout (horder.mem_iff.mpr hmem)

-- ======== the hook

section Runs

variable {query : Query}

theorem matched_append (es es' : List (UiEvent α)) :
    Hook.matched query (es ++ es')
      = Hook.matched query es ++ Hook.matched query es' := by
  simp [Hook.matched]

theorem delivered_append (pre post : List (HookAct α)) :
    delivered (pre ++ post) = delivered pre ++ delivered post :=
  List.flatMap_append

theorem delivered_cons (a : HookAct α) (rest : List (HookAct α)) :
    delivered (a :: rest) = delivered [a] ++ delivered rest := by
  rw [← delivered_append, List.singleton_append]

theorem matched_delivered (acts : List (HookAct α)) :
    acts.flatMap (fun a => Hook.matched query (delivered [a]))
      = Hook.matched query (delivered acts) := by
  induction acts with
  | nil => rfl
  | cons a rest ih =>
    rw [List.flatMap_cons, ih, delivered_cons a rest, matched_append]

def HookAct.EndsFetch : HookAct α → Prop
  | .fetchDone _ => True
  | .fetchFailed => True
  | _ => False

/-- While a fetch runs, its journal takes every matching event. -/
theorem run_journal {acts : List (HookAct α)} {h h' : Hook α}
    {out : List (CacheWrite α)} (hopen : h.eventJournal.isSome)
    (hacts : ∀ a ∈ acts, ¬ a.EndsFetch)
    (hrun : run (hookStep query) h acts = some (h', out)) :
    h'.eventJournal = some (h.eventJournal.getD []
      ++ Hook.matched query (delivered acts)) := by
  have hstep : ∀ {a : HookAct α} {h h' : Hook α} {o},
      h.eventJournal.isSome → ¬ a.EndsFetch →
      hookStep query a h = some (h', o) → h'.eventJournal.isSome
        ∧ h'.eventJournal.getD [] = h.eventJournal.getD []
            ++ Hook.matched query (delivered [a]) := by
    intro a h h' o hopen hends ha
    obtain ⟨journal, hj⟩ := Option.isSome_iff_exists.mp hopen
    cases a with
    | handleEvents events =>
      simp only [hookStep, Option.some.injEq, Prod.mk.injEq] at ha
      rw [← ha.1]
      simp [Hook.handleEvents, hj, delivered]
    | fetchStart cached =>
      simp only [hookStep, Hook.fetchStart, if_pos hopen,
        Option.some.injEq, Prod.mk.injEq] at ha
      rw [← ha.1]
      simp [hj, delivered, Hook.matched]
    | listPage items =>
      simp only [hookStep, hj, Option.map_some, Option.some.injEq,
        Prod.mk.injEq] at ha
      rw [← ha.1]
      simp [Hook.listPage, hj, delivered, Hook.matched]
    | fetchDone items => exact absurd trivial hends
    | fetchFailed => exact absurd trivial hends
  have hin : h'.eventJournal.isSome := by
    refine run_invariant (I := fun h => h.eventJournal.isSome) ?_ hopen
      (along_of_forall hacts) hrun
    exact fun hi hok ha => (hstep hi hok ha).1
  have hquiet : ∀ o : List (CacheWrite α),
      o.flatMap (fun _ => ([] : List (ResourceEvent α))) = [] :=
    fun o => by simp
  have hflow := run_flow_eq (I := fun h => h.eventJournal.isSome)
    (fun h => h.eventJournal.getD [])
    (fun a => Hook.matched query (delivered [a])) (fun _ => [])
    (by
      intro a s s' o hi hok ha
      rw [hquiet, List.nil_append]
      exact hstep hi hok ha)
    hopen (along_of_forall hacts) hrun
  obtain ⟨journal, hj⟩ := Option.isSome_iff_exists.mp hin
  rw [matched_delivered, hquiet, List.nil_append, hj] at hflow
  rw [hj, ← hflow]
  rfl

/-- The hook has loaded its query: later fetches keep the snapshot
until they are done. -/
structure Settled (query : Query) (h : Hook α) : Prop where
  current : h.snapshot.query = query
  loaded : h.loadedScope = some query
  kept : h.eventJournal.isSome → h.keepSnapshot = true

/-- Once loaded, a step that completes no list applies its events to
the snapshot and does nothing else to it. -/
theorem step_settled {a : HookAct α} {h h' : Hook α}
    {o : List (CacheWrite α)} (hs : Settled query h)
    (ha : ∀ items, a ≠ .fetchDone items)
    (hstep : hookStep query a h = some (h', o)) :
    Settled query h' ∧ h'.snapshot.map
      = applyResourceEvents h.snapshot.map
          (Hook.matched query (delivered [a])) := by
  cases a with
  | handleEvents events =>
    simp only [hookStep, Option.some.injEq, Prod.mk.injEq] at hstep
    rw [← hstep.1]
    simp only [Hook.handleEvents, hs.current, ne_eq, not_true_eq_false,
      if_false]
    refine ⟨⟨rfl, hs.loaded, fun hj => hs.kept ?_⟩, ?_⟩
    · simpa using hj
    · simp [delivered]
  | fetchStart cached =>
    simp only [hookStep, Option.some.injEq, Prod.mk.injEq] at hstep
    rw [← hstep.1]
    unfold Hook.fetchStart
    split
    next => exact ⟨hs, rfl⟩
    next =>
      cases cached with
      | none => exact ⟨⟨hs.current, hs.loaded, by simp [hs.loaded]⟩, rfl⟩
      | some map =>
        simp only [hs.current, if_true]
        exact ⟨⟨hs.current, hs.loaded, by simp [hs.loaded]⟩, rfl⟩
  | listPage items =>
    simp only [hookStep, Option.map_eq_some_iff, Prod.mk.injEq] at hstep
    obtain ⟨journal, hj, hstep, -⟩ := hstep
    have hkeep := hs.kept (by rw [hj]; rfl)
    rw [← hstep]
    simp only [Hook.listPage, hkeep, if_true]
    exact ⟨⟨hs.current, hs.loaded, fun _ => rfl⟩, rfl⟩
  | fetchDone items => exact absurd rfl (ha items)
  | fetchFailed =>
    simp only [hookStep, Option.map_eq_some_iff, Prod.mk.injEq] at hstep
    obtain ⟨journal, hj, hstep, -⟩ := hstep
    rw [← hstep]
    exact ⟨⟨hs.current, hs.loaded, fun h => by cases h⟩, rfl⟩

theorem run_settled {acts : List (HookAct α)} {h h' : Hook α}
    {out : List (CacheWrite α)} (hs : Settled query h)
    (hacts : ∀ a ∈ acts, ∀ items, a ≠ .fetchDone items)
    (hrun : run (hookStep query) h acts = some (h', out)) :
    h'.snapshot = ⟨query, applyResourceEvents h.snapshot.map
      (Hook.matched query (delivered acts))⟩ := by
  induction acts generalizing h out with
  | nil =>
    simp only [run_nil, Option.some.injEq, Prod.mk.injEq] at hrun
    obtain ⟨rfl, rfl⟩ := hrun
    rw [← hs.current]
    rfl
  | cons a rest ih =>
    obtain ⟨h₁, o₁, o₂, ha, hr, rfl⟩ := run_cons_iff.mp hrun
    obtain ⟨hs₁, hmap⟩ :=
      step_settled hs (hacts a (List.mem_cons_self ..)) ha
    rw [ih hs₁ (fun b hb => hacts b (List.mem_cons_of_mem _ hb)) hr, hmap,
      delivered_cons a rest, matched_append, applyResourceEvents_append]

end Runs

-- ======== the result

/-- A fetch and a watch converge. The history is what happened before
the hook was mounted and what is delivered to it, in any batches: before
the fetch starts, while it runs and after its list is complete. If the
list is the cluster's state at any point of the history behind the
fetch's start, the hook ends with the cluster's state. -/
theorem reconcile_converges {query : Query} {past : List (UiEvent α)}
    {pre mid post : List (HookAct α)} {cached : Option (ResourceMap α)}
    {items : List (Resource α)} {h h' : Hook α}
    {out : List (CacheWrite α)}
    (hrun : run (hookStep query) h
      (pre ++ .fetchStart cached :: (mid ++ .fetchDone items :: post))
        = some (h', out))
    (hidle : ∀ h₁ o₁, run (hookStep query) h pre = some (h₁, o₁) →
      h₁.eventJournal = none)
    (hmid : ∀ a ∈ mid, ¬ a.EndsFetch)
    (hpost : ∀ a ∈ post, ∀ items, a ≠ .fetchDone items)
    {history : List (UiEvent α)}
    (hhistory : history = past ++ delivered (pre ++ mid ++ post))
    (hwf : WellFormed (Hook.matched query history))
    {k : Nat} (hk : (past ++ delivered pre).length ≤ k)
    (hlist : Lists items
      (clusterState (Hook.matched query (history.take k)))) :
    h'.snapshot
      = ⟨query, clusterState (Hook.matched query history)⟩ := by
  obtain ⟨h₁, o₁, _, hpre, hrest₁, rfl⟩ := run_append_iff.mp hrun
  obtain ⟨h₂, o₂, _, hstart, hrest₂, rfl⟩ := run_cons_iff.mp hrest₁
  obtain ⟨h₃, o₃, _, hfetch, hrest₃, rfl⟩ := run_append_iff.mp hrest₂
  obtain ⟨h₄, o₄, o₅, hdone, htail, rfl⟩ := run_cons_iff.mp hrest₃
  -- The journal at the end of the list holds what `mid` delivered.
  have hj₂ : h₂.eventJournal = some [] := by
    simp only [hookStep, Option.some.injEq, Prod.mk.injEq] at hstart
    rw [← hstart.1]
    simp [Hook.fetchStart, hidle h₁ o₁ hpre]
  have hj₃ := run_journal (by rw [hj₂]; rfl) hmid hfetch
  rw [hj₂, Option.getD_some, List.nil_append] at hj₃
  have hh₄ : h₄ = h₃.fetchDone query
      (Hook.matched query (delivered mid)) items := by
    simp only [hookStep, hj₃, Option.map_some, Option.some.injEq,
      Prod.mk.injEq] at hdone
    exact hdone.1.symm
  have hsettled : Settled query h₄ := by
    rw [hh₄]
    exact ⟨rfl, rfl, fun h => by cases h⟩
  have hmap : h₄.snapshot.map = applyResourceEvents (arrayToMap items)
      (Hook.matched query (delivered mid)) := by
    rw [hh₄]
    rfl
  rw [run_settled hsettled hpost htail, hmap]
  -- The list has what came before the fetch and some of what came
  -- since; the journal and the tail of the run replay all of the latter.
  obtain ⟨listed, after, hsplit, htake⟩ : ∃ listed after,
      delivered mid ++ delivered post = listed ++ after
      ∧ history.take k = past ++ delivered pre ++ listed := by
    refine ⟨(delivered mid ++ delivered post).take
        (k - (past ++ delivered pre).length),
      (delivered mid ++ delivered post).drop
        (k - (past ++ delivered pre).length),
      (List.take_append_drop ..).symm, ?_⟩
    rw [hhistory, delivered_append, delivered_append, List.append_assoc,
      ← List.append_assoc past, List.take_append,
      List.take_of_length_le hk]
  have hall : history = past ++ delivered pre ++ listed ++ after := by
    rw [hhistory, delivered_append, delivered_append, List.append_assoc,
      ← List.append_assoc past, hsplit, List.append_assoc _ listed]
  rw [htake, matched_append] at hlist
  rw [hall, matched_append, matched_append] at hwf
  rw [← applyResourceEvents_append, ← matched_append, hsplit,
    matched_append, arrayToMap_lists hlist, replay_converges hwf, hall,
    matched_append _ after, matched_append _ listed]

/-- A hook that is mounted on nothing, fetches, and gets a list older
than its journal. -/
theorem reconcile_converges_old_list :
    let ev (type : EventType) (uid : String) (deletionTimestamp : Option String)
        (body : Nat) : UiEvent Nat :=
      { type, resourceType := "pods", ns := "default", resource :=
          ⟨some { uid := some uid, deletionTimestamp }, body⟩ }
    let query : Query := ⟨"kind", "pods", ["default"]⟩
    let history := [ev .added "u" none 1, ev .modified "u" (some "now") 2,
      ev .added "v" none 3]
    let items := [(ev .added "u" none 1).resource]
    let pre : List (HookAct Nat) := [.handleEvents [ev .added "u" none 1]]
    let mid := [.handleEvents [ev .modified "u" (some "now") 2]]
    let post := [.handleEvents [ev .added "v" none 3]]
    let acts := pre ++ .fetchStart none :: (mid ++ .fetchDone items :: post)
    let start : Hook Nat := ⟨⟨query, ∅⟩, none, ∅, false, none⟩
    ∃ h' out, run (hookStep query) start acts = some (h', out)
      ∧ h'.snapshot
          = ⟨query, clusterState (Hook.matched query history)⟩ := by
  intro ev query history items pre mid post acts start
  have hhistory : history = [] ++ delivered (pre ++ mid ++ post) := rfl
  have hlist : Lists items
      (clusterState (Hook.matched query (history.take 1))) :=
    ⟨["u"], by decide, by decide⟩
  refine ⟨_, _, rfl, ?_⟩
  have hrun : run (hookStep query) start acts = some (_, _) := rfl
  refine reconcile_converges hrun ?_ ?_ ?_ hhistory ?_ (le_refl 1) hlist
  · intro h₁ o₁ h
    rw [← (Prod.mk.inj (Option.some.inj h)).1]
    rfl
  · simp [mid, HookAct.EndsFetch]
  · simp [post]
  · unfold WellFormed
    decide

end Store
