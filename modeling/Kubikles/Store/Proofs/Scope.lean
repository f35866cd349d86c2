/-
What the hook exposes does not depend on the scope it asks for.

# The argument

Every object of a namespaced kind lives in one namespace for as long as
it lives, so a scope either has all of an object's events or none
(`forUid_matched`), and its lists either have the object or do not
(`lookup_listed`). An object in scope is therefore in the store just as
in the cluster (`Current`, by `replay_one` for its own uid), and one out
of scope is not there at all. The heuristic has few answers: the whole
cluster, or exactly the selection (`Fits`). Either way the scope covers
what the display filter lets through, so what is exposed is the cluster
cut down to the selection (`data_eq`), and the scope is not in that.
-/
import Kubikles.Store.Proofs.Reconcile
import Kubikles.Store.Scope

namespace Store

open Machine

variable {α : Type} {currentContext resourceType : String}

-- ======== the choice

def Fits (selected scope : List String) : Prop :=
  scope = [""] ∧ selected ≠ []
    ∨ scope = selected ∧ "" ∉ selected ∧ "*" ∉ selected

theorem namespaceSelection_ne_empty (value : SelectedNamespaces) :
    "" ∉ namespaceSelection value := by
  unfold namespaceSelection
  split
  next => simp
  next hall =>
    intro hmem
    have hmem := (StableSort.sortBy_perm _).mem_iff.mp hmem
    rw [List.mem_dedup] at hmem
    simp [hmem] at hall

/-- The answers of a chooser: the whole cluster or the selection. -/
def Chooser.Sound (choose : Chooser) : Prop :=
  ∀ selected m, "" ∉ selected → Fits selected (choose selected m)

theorem chooseNamespaceScope_sound :
    Chooser.Sound chooseNamespaceScope := by
  intro selected m hempty
  unfold chooseNamespaceScope
  by_cases hnil : selected = []
  · subst hnil
    exact Or.inr ⟨rfl, hempty, by simp⟩
  have hbroad : Fits selected [""] := Or.inl ⟨rfl, hnil⟩
  rw [if_neg (by simpa using hnil)]
  by_cases hall : "*" ∈ selected
  · rw [if_pos (by simpa using hall)]
    exact hbroad
  have hscoped : Fits selected selected := Or.inr ⟨rfl, hempty, hall⟩
  rw [if_neg (by simpa using hall)]
  split
  next => exact hscoped
  next =>
    dsimp only
    split
    next =>
      split
      next => exact hbroad
      next =>
        split
        next => exact hbroad
        next => exact hscoped
    next =>
      split
      next => exact hbroad
      next => exact hscoped

theorem exactScope_sound : Chooser.Sound exactScope := by
  intro selected m hempty
  unfold exactScope
  by_cases hall : "*" ∈ selected
  · rw [if_pos (by simpa using hall)]
    exact Or.inl ⟨rfl, fun hnil => by simp [hnil] at hall⟩
  · rw [if_neg (by simpa using hall)]
    exact Or.inr ⟨rfl, hempty, hall⟩

def Covers (scope : List String) (ns : String) : Prop :=
  scope = [""] ∨ ns ∈ scope

instance coversDecidable (scope : List String) (ns : String) :
    Decidable (Covers scope ns) := inferInstanceAs (Decidable (_ ∨ _))

theorem Fits.covers_of_shows {selected scope : List String}
    (h : Fits selected scope) {item : Resource α} {ns : String}
    (hns : item.metadata.bind (·.ns) = some ns)
    (hshows : View.shows selected item = true) : Covers scope ns := by
  rcases h with ⟨rfl, -⟩ | ⟨rfl, -, hall⟩
  · exact Or.inl rfl
  · refine Or.inr ?_
    simp only [View.shows, hns, Bool.or_eq_true,
      List.contains_eq_mem, decide_eq_true_eq, Option.any_some] at hshows
    exact hshows.resolve_left hall

theorem Fits.covers_scope_iff {selected scope : List String}
    (h : Fits selected scope) {ns : String} :
    Covers scope ns ↔ ∃ name ∈ scope, name = "" ∨ ns = name := by
  rcases h with ⟨rfl, -⟩ | ⟨rfl, hempty, -⟩
  · simp [Covers]
  · constructor
    · intro hcov
      rcases hcov with heq | hmem
      · exact absurd (by rw [heq]; exact List.mem_singleton_self _) hempty
      · exact ⟨ns, hmem, Or.inr rfl⟩
    · intro ⟨name, hmem, hname⟩
      rcases hname with heq | heq
      · exact absurd (heq ▸ hmem) hempty
      · exact Or.inr (heq ▸ hmem)

-- ======== the cluster

def nsOf (item : Resource α) : Option String :=
  item.metadata.bind (·.ns)

def whole (currentContext resourceType : String) : Query :=
  ⟨currentContext, resourceType, [""]⟩

/-- What happens to the objects of a kind, in a history that may also
tell of other contexts. -/
def happened (currentContext resourceType : String)
    (history : List (UiEvent α)) : List (ResourceEvent α) :=
  Hook.matched (whole currentContext resourceType) history

theorem happened_append (es es' : List (UiEvent α)) :
    happened currentContext resourceType (es ++ es')
      = happened currentContext resourceType es
        ++ happened currentContext resourceType es' :=
  matched_append es es'

def clusterAfter (currentContext resourceType : String)
    (history : List (UiEvent α)) : ResourceMap α :=
  clusterState (happened currentContext resourceType history)

theorem uidOf_clusterAfter {history : List (UiEvent α)} {uid : String}
    {r : Resource α}
    (h : (clusterAfter currentContext resourceType history).lookup uid
      = some r) : uidOf r = some uid :=
  uidOf_clusterState h

/-- Well-formed watch events of a namespaced kind: the events of an
object are its life, each with the object's namespace, and that is the
same in all of them. -/
structure Orderly (currentContext resourceType : String)
    (history : List (UiEvent α)) : Prop where
  lives : WellFormed (happened currentContext resourceType history)
  namespaced : ∀ e ∈ happened currentContext resourceType history,
    (nsOf e.resource).isSome
  steady : ∀ e ∈ happened currentContext resourceType history,
    ∀ e' ∈ happened currentContext resourceType history,
      uidOf e.resource = uidOf e'.resource →
      nsOf e.resource = nsOf e'.resource

def Home (currentContext resourceType : String)
    (history : List (UiEvent α)) (uid ns : String) : Prop :=
  ∀ e ∈ happened currentContext resourceType history,
    uidOf e.resource = some uid → nsOf e.resource = some ns

theorem Orderly.exists_home {history : List (UiEvent α)}
    (h : Orderly currentContext resourceType history) (uid : String) :
    ∃ ns, Home currentContext resourceType history uid ns := by
  by_cases hany : ∃ e ∈ happened currentContext resourceType history,
      uidOf e.resource = some uid
  · obtain ⟨e, he, hu⟩ := hany
    obtain ⟨ns, hns⟩ := Option.isSome_iff_exists.mp (h.namespaced e he)
    refine ⟨ns, fun e' he' hu' => ?_⟩
    rw [← hns]
    exact h.steady e' he' e he (hu'.trans hu.symm)
  · refine ⟨"", fun e he hu => ?_⟩
    exact absurd ⟨e, he, hu⟩ hany

theorem Home.mono {history part : List (UiEvent α)} {uid ns : String}
    (h : Home currentContext resourceType history uid ns)
    (hsub : part.Sublist history) :
    Home currentContext resourceType part uid ns := by
  intro e he
  exact h e (((hsub.filter _).map _).mem he)

theorem Home.nsOf_cluster {history : List (UiEvent α)} {uid ns : String}
    (h : Home currentContext resourceType history uid ns)
    {r : Resource α}
    (hr : (clusterAfter currentContext resourceType history).lookup uid
      = some r) : nsOf r = some ns := by
  rw [clusterAfter, lookup_clusterState] at hr
  rcases mem_of_foldl_writeOne hr with hnone | ⟨e, he, rfl⟩
  · cases hnone
  · have he := List.mem_filter.mp he
    exact h e he.1 (by simpa using he.2)

-- ======== the events

/-- The hook's filter, told apart: the event is about an object of this
context, and it is in scope. -/
theorem matching_eq (query : Query) (e : UiEvent α) :
    query.matching e
      = ((whole query.currentContext query.resourceType).matching e
        && Covers query.scope ((nsOf e.resource).getD e.ns)) := by
  have hscope : (query.broad
      || query.scope.contains ((nsOf e.resource).getD e.ns))
        = decide (Covers query.scope ((nsOf e.resource).getD e.ns)) := by
    rw [Bool.eq_iff_iff, decide_eq_true_iff]
    simp [Query.broad, Covers]
  have hin : Query.matching.inScope query e
      = ((uidOf e.resource).isSome
        && decide (Covers query.scope ((nsOf e.resource).getD e.ns))) := by
    rw [← hscope, Bool.and_comm]
    rfl
  have hall : Query.matching.inScope
      (whole query.currentContext query.resourceType) e
        = (uidOf e.resource).isSome := by
    simp [Query.matching.inScope, whole, Query.broad]
  unfold Query.matching
  rw [hin, hall]
  cases truthy e.context with
  | none => rfl
  | some context =>
    show (if context ≠ query.currentContext then _ else _)
      = ((if context ≠ query.currentContext then _ else _) && _)
    split
    · rfl
    · rfl

theorem matched_eq {query : Query} {events : List (UiEvent α)} :
    Hook.matched query events
      = (happened query.currentContext query.resourceType events).filter
          fun e => Covers query.scope ((nsOf e.resource).getD e.ns) := by
  unfold happened Hook.matched
  rw [List.filter_map, List.filter_filter]
  congr 1
  refine List.filter_congr fun e _ => ?_
  rw [matching_eq, Bool.and_comm]
  rfl

theorem forUid_matched (query : Query) {events : List (UiEvent α)}
    {uid ns : String}
    (h : Home query.currentContext query.resourceType events uid ns) :
    forUid uid (Hook.matched query events)
      = if Covers query.scope ns
        then forUid uid
          (happened query.currentContext query.resourceType events)
        else [] := by
  rw [matched_eq, forUid, forUid, List.filter_filter]
  split
  next hcov =>
    refine List.filter_congr fun e he => ?_
    by_cases hu : uidOf e.resource = some uid
    · simp [hu, h e he hu, hcov]
    · simp [hu]
  next hcov =>
    rw [List.filter_eq_nil_iff]
    intro e he hboth
    simp only [Bool.and_eq_true, decide_eq_true_eq] at hboth
    rw [h e he hboth.1] at hboth
    exact hcov hboth.2

-- ======== the lists

/-- A LIST of a namespace, or of all where the name is empty: the
objects that are there, in some order. -/
def ListsIn (ns : String) (items : List (Resource α))
    (state : ResourceMap α) : Prop :=
  ∃ order : List String, order.Nodup
    ∧ (∀ uid, uid ∈ order ↔
        ∃ r, state.lookup uid = some r ∧ (ns = "" ∨ nsOf r = some ns))
    ∧ items = order.filterMap state.lookup

theorem listsIn_of_enumerates {order : List String}
    {state : ResourceMap α} (horder : FinMap.Enumerates order state)
    (ns : String) :
    ListsIn ns ((order.filter fun uid => (state.lookup uid).any
      fun r => ns = "" ∨ nsOf r = some ns).filterMap state.lookup)
      state := by
  refine ⟨_, horder.1.filter _, fun uid => ?_, rfl⟩
  rw [List.mem_filter, horder.mem_iff, ← Finmap.lookup_isSome]
  cases state.lookup uid with
  | none => simp
  | some r => simp

/-- The answer to one request: the namespace at some point of the
history that is not before the fetch began. -/
def Answers (currentContext resourceType : String)
    (history : List (UiEvent α)) (since : Nat) (ns : String)
    (items : List (Resource α)) : Prop :=
  ∃ k, since ≤ k ∧ ListsIn ns items
    (clusterAfter currentContext resourceType (history.take k))

theorem setItems_append (map : ResourceMap α)
    (items items' : List (Resource α)) :
    setItems map (items ++ items')
      = setItems (setItems map items) items' :=
  List.foldl_append ..

section Lists

variable {history : List (UiEvent α)} {since : Nat} {uid ns : String}

theorem lookup_setItems_listsIn
    (hhome : Home currentContext resourceType history uid ns) {k : Nat}
    {name : String} {items : List (Resource α)}
    (h : ListsIn name items
      (clusterAfter currentContext resourceType (history.take k)))
    (map : ResourceMap α) :
    (setItems map items).lookup uid
      = if (name = "" ∨ ns = name)
            ∧ ((clusterAfter currentContext resourceType
              (history.take k)).lookup uid).isSome
        then (clusterAfter currentContext resourceType
          (history.take k)).lookup uid
        else map.lookup uid := by
  obtain ⟨order, -, hmem, rfl⟩ := h
  have hthere : ∀ u ∈ order, ((clusterAfter currentContext resourceType
      (history.take k)).lookup u).isSome := by
    intro u hu
    obtain ⟨r, hr, -⟩ := (hmem u).mp hu
    rw [hr]
    rfl
  rw [lookup_setItems uidOf_clusterAfter hthere]
  refine if_congr ?_ rfl rfl
  rw [hmem, Option.isSome_iff_exists]
  have hthen := hhome.mono (List.take_sublist k history)
  constructor
  · intro ⟨r, hr, hname⟩
    refine ⟨hname.imp_right fun hns => ?_, r, hr⟩
    rw [hthen.nsOf_cluster hr] at hns
    exact Option.some.inj hns
  · intro ⟨hname, r, hr⟩
    refine ⟨r, hr, hname.imp_right fun hns => ?_⟩
    rw [hthen.nsOf_cluster hr, hns]

/-- Filing the lists of many: an object's entry is what one of the lists
has of it, and where none has it, what was there before. -/
theorem lookup_setItems_results
    (hhome : Home currentContext resourceType history uid ns)
    {scope : List String} {results : List (List (Resource α))}
    (h : List.Forall₂ (Answers currentContext resourceType history since)
      scope results) (map : ResourceMap α) :
    (setItems map (listNamespaceScope results)).lookup uid
        = map.lookup uid
      ∧ (∀ name ∈ scope, (name = "" ∨ ns = name) → ∃ k, since ≤ k
        ∧ (clusterAfter currentContext resourceType
          (history.take k)).lookup uid = none)
    ∨ (∃ name ∈ scope, name = "" ∨ ns = name)
      ∧ ∃ k, since ≤ k
        ∧ (setItems map (listNamespaceScope results)).lookup uid
          = (clusterAfter currentContext resourceType
            (history.take k)).lookup uid := by
  induction h generalizing map with
  | nil => exact Or.inl ⟨rfl, fun name hname => by cases hname⟩
  | @cons name items scope results hone hrest ih =>
    obtain ⟨k, hk, hlists⟩ := hone
    have hstep := lookup_setItems_listsIn hhome hlists map
    have hflat : listNamespaceScope (items :: results)
        = items ++ listNamespaceScope results := rfl
    rw [hflat, setItems_append]
    rcases ih (setItems map items) with ⟨hsame, hnone⟩ | ⟨hcov, hthere⟩
    · rw [hsame, hstep]
      split
      next hboth =>
        exact Or.inr ⟨⟨name, List.mem_cons_self .., hboth.1⟩, k, hk, rfl⟩
      next hnot =>
        refine Or.inl ⟨rfl, fun name' hmem hname' => ?_⟩
        rcases List.mem_cons.mp hmem with rfl | hmem
        · refine ⟨k, hk, ?_⟩
          rw [← Option.not_isSome_iff_eq_none]
          exact fun hsome => hnot ⟨hname', hsome⟩
        · exact hnone name' hmem hname'
    · obtain ⟨name', hmem, hname'⟩ := hcov
      exact Or.inr
        ⟨⟨name', List.mem_cons_of_mem _ hmem, hname'⟩, hthere⟩

/-- The complete list has an object of the scope as it was at some point
since the fetch began, and none from outside. -/
theorem lookup_listed
    (hhome : Home currentContext resourceType history uid ns)
    {selected scope : List String} (hfits : Fits selected scope)
    {results : List (List (Resource α))}
    (h : List.Forall₂ (Answers currentContext resourceType history since)
      scope results) :
    (Covers scope ns → ∃ k, since ≤ k
      ∧ (arrayToMap (listNamespaceScope results)).lookup uid
        = (clusterAfter currentContext resourceType
          (history.take k)).lookup uid)
    ∧ (¬ Covers scope ns →
      (arrayToMap (listNamespaceScope results)).lookup uid = none) := by
  rw [hfits.covers_scope_iff]
  rcases lookup_setItems_results hhome h ∅ with ⟨hsame, hnone⟩ | ⟨hcov, hk⟩
  · rw [Finmap.lookup_empty] at hsame
    refine ⟨fun ⟨name, hmem, hname⟩ => ?_, fun _ => hsame⟩
    obtain ⟨k, hk, hgone⟩ := hnone name hmem hname
    exact ⟨k, hk, hsame.trans hgone.symm⟩
  · exact ⟨fun _ => hk, fun hout => absurd hcov hout⟩

end Lists

-- ======== the store

/-- What a store has of an object whose scope was listed when the hook
had heard the first `from` events, and which has heard the rest. -/
def CurrentAt (currentContext resourceType : String)
    (total heard : List (UiEvent α)) (scope : List String)
    (uid ns : String) (entry : Option (Resource α)) : Prop :=
  if Covers scope ns then
    ∃ start k, start ≤ heard.length ∧ start ≤ k
      ∧ entry = (forUid uid (happened currentContext resourceType
          (heard.drop start))).foldl applyOne
        ((clusterAfter currentContext resourceType
          (total.take k)).lookup uid)
  else entry = none

section Current

variable {total heard : List (UiEvent α)} {scope : List String}
  {uid ns : String}

theorem CurrentAt.hear {entry : Option (Resource α)}
    (h : CurrentAt currentContext resourceType total heard scope uid ns
      entry) {events : List (UiEvent α)}
    (hhome : Home currentContext resourceType events uid ns) :
    CurrentAt currentContext resourceType total (heard ++ events) scope
      uid ns ((forUid uid (Hook.matched
        ⟨currentContext, resourceType, scope⟩ events)).foldl applyOne
          entry) := by
  have hfor := forUid_matched ⟨currentContext, resourceType, scope⟩ hhome
  unfold CurrentAt at h ⊢
  rw [hfor]
  by_cases hcov : Covers scope ns
  · simp only [if_pos hcov] at h ⊢
    obtain ⟨start, k, hstart, hk, rfl⟩ := h
    refine ⟨start, k, by rw [List.length_append]; omega, hk, ?_⟩
    rw [List.drop_append_of_le_length hstart, happened_append,
      forUid_append, List.foldl_append]
  · simp only [if_neg hcov] at h ⊢
    exact h

theorem CurrentAt.listed {selected : List String}
    (hfits : Fits selected scope) {since : Nat}
    (hsince : since ≤ heard.length)
    {results : List (List (Resource α))}
    (hlist : List.Forall₂
      (Answers currentContext resourceType total since) scope results)
    (htotal : Home currentContext resourceType total uid ns)
    (hheard : Home currentContext resourceType heard uid ns) :
    CurrentAt currentContext resourceType total heard scope uid ns
      ((forUid uid (Hook.matched ⟨currentContext, resourceType, scope⟩
        (heard.drop since))).foldl applyOne
          ((arrayToMap (listNamespaceScope results)).lookup uid)) := by
  have hfor := forUid_matched ⟨currentContext, resourceType, scope⟩
    (hheard.mono (List.drop_sublist since heard))
  obtain ⟨hin, hout⟩ := lookup_listed htotal hfits hlist
  unfold CurrentAt
  rw [hfor]
  by_cases hcov : Covers scope ns
  · simp only [if_pos hcov]
    obtain ⟨k, hk, heq⟩ := hin hcov
    exact ⟨since, k, hsince, hk, by rw [heq]⟩
  · simp only [if_neg hcov]
    exact hout hcov

/-- A list of the first `k` and a journal from `start` on overlap where
the list is not older than the journal. -/
theorem exists_overlap {start k : Nat} (h : start ≤ k)
    (events : List (UiEvent α)) :
    ∃ before listed after, events.take k = before ++ listed
      ∧ events.drop start = listed ++ after
      ∧ events = before ++ listed ++ after := by
  refine ⟨events.take start, (events.drop start).take (k - start),
    events.drop k, ?_, ?_, ?_⟩
  · rw [← List.take_add, Nat.add_sub_cancel' h]
  · conv_lhs => rw [← List.take_append_drop (k - start)
      (events.drop start), List.drop_drop, Nat.add_sub_cancel' h]
  · rw [← List.take_add, Nat.add_sub_cancel' h, List.take_append_drop]

/-- When all is heard, an object in scope is in the store as it is in
the cluster. -/
theorem CurrentAt.lookup_eq {entry : Option (Resource α)}
    (h : CurrentAt currentContext resourceType total total scope uid ns
      entry) (hwf : Orderly currentContext resourceType total) :
    entry = if Covers scope ns
      then (clusterAfter currentContext resourceType total).lookup uid
      else none := by
  unfold CurrentAt at h
  split
  next hcov =>
    rw [if_pos hcov] at h
    obtain ⟨start, k, -, hk, rfl⟩ := h
    obtain ⟨before, listed, after, htake, hdrop, rfl⟩ :=
      exists_overlap hk total
    have hlife := hwf.lives.life uid
    rw [clusterAfter, clusterAfter, lookup_clusterState,
      lookup_clusterState, htake, hdrop]
    simp only [happened_append, forUid_append] at hlife ⊢
    exact replay_one hlife
  next hcov =>
    rw [if_neg hcov] at h
    exact h

end Current

-- ======== a step

/-- What reaches a visible hook is true: it hears what happens in the
order it happens in, and a list is made of the answers to its
requests. -/
def Honest (currentContext resourceType : String)
    (total : List (UiEvent α)) (v : View α) : ViewAct α → Prop
  | .hook (.handleEvents events) => v.history ++ events <+: total
  | .hook (.fetchDone items) => ∃ results,
      items = listNamespaceScope results
        ∧ List.Forall₂
          (Answers currentContext resourceType total v.since)
          v.scope results
  | _ => True

/-- What holds of a visible hook after every action. -/
structure View.Inv (currentContext resourceType : String)
    (total : List (UiEvent α)) (v : View α) : Prop where
  fits : Fits v.selected v.scope
  heard : v.history <+: total
  since_le : v.since ≤ v.history.length
  journal : ∀ j, v.hook.eventJournal = some j →
    j = Hook.matched (v.query currentContext resourceType)
      (v.history.drop v.since)
  loaded : v.settled = true →
    Settled (v.query currentContext resourceType) v.hook
  current : v.settled = true → ∀ uid ns,
    Home currentContext resourceType total uid ns →
    CurrentAt currentContext resourceType total v.history v.scope uid ns
      (v.hook.snapshot.map.lookup uid)

section Steps

variable {total : List (UiEvent α)} {choose : Chooser} {v v' : View α}

theorem fetchStart_journal (query : Query)
    (cached : Option (ResourceMap α)) {h : Hook α}
    (hidle : h.eventJournal = none) :
    (h.fetchStart query cached).eventJournal = some [] := by
  unfold Hook.fetchStart
  rw [hidle]
  rfl

/-- The effect runs anew: what the store has stays, if it was of this
scope. -/
theorem mount_inv (cached : Option (ResourceMap α))
    (hfits : Fits v.selected v.scope) (hheard : v.history <+: total)
    (hloaded : v.settled = true →
      Settled (v.query currentContext resourceType) v.hook)
    (hcurrent : v.settled = true → ∀ uid ns,
      Home currentContext resourceType total uid ns →
      CurrentAt currentContext resourceType total v.history v.scope uid ns
        (v.hook.snapshot.map.lookup uid)) :
    (v.mount currentContext resourceType cached).Inv currentContext
      resourceType total := by
  have hkeeps : v.settled = true →
      Settled (v.query currentContext resourceType)
          (({ v.hook with eventJournal := none }).fetchStart
            (v.query currentContext resourceType) cached)
        ∧ (({ v.hook with eventJournal := none }).fetchStart
            (v.query currentContext resourceType) cached).snapshot.map
          = v.hook.snapshot.map := by
    intro hset
    have hidle : Settled (v.query currentContext resourceType)
        { v.hook with eventJournal := none } :=
      ⟨(hloaded hset).current, (hloaded hset).loaded,
        fun h => by cases h⟩
    have hstep : hookStep (v.query currentContext resourceType)
        (.fetchStart cached) { v.hook with eventJournal := none }
          = some (_, []) := rfl
    exact step_settled hidle (fun _ h => by cases h) hstep
  refine ⟨hfits, hheard, Nat.le_refl _, ?_, fun hset => (hkeeps hset).1, ?_⟩
  · intro j hj
    have hidle : ({ v.hook with eventJournal := none }
      : Hook α).eventJournal = none := rfl
    have hnil : j = [] := Option.some.inj
      (hj.symm.trans (fetchStart_journal _ cached hidle))
    rw [hnil]
    show [] = Hook.matched _ (v.history.drop v.history.length)
    rw [List.drop_length]
    rfl
  · intro hset uid ns hhome
    show CurrentAt _ _ _ _ _ _ _ (Finmap.lookup uid (Hook.snapshot
      (Hook.fetchStart _ _ _)).map)
    rw [(hkeeps hset).2]
    exact hcurrent hset uid ns hhome

theorem render_inv (hsound : choose.Sound) (value : SelectedNamespaces)
    (measured : Measured) (cached : Option (ResourceMap α))
    (hinv : v.Inv currentContext resourceType total) :
    (v.render currentContext resourceType choose value measured
      cached).Inv currentContext resourceType total := by
  have hfits := hsound _ measured (namespaceSelection_ne_empty value)
  unfold View.render
  dsimp only
  split
  next heq =>
    rw [heq] at hfits
    exact { hinv with fits := hfits }
  next =>
    exact mount_inv cached hfits hinv.heard (fun h => by cases h)
      (fun h => by cases h)

def View.after (act : HookAct α) (hook : Hook α) (v : View α) : View α :=
  { v with
    hook := hook
    history := v.history ++ delivered [act]
    since := v.sinceAfter act
    settled := v.settled || act.completes }

/-- An action of the hook other than a completed list keeps the
store. -/
theorem after_loaded {act : HookAct α} {hook : Hook α}
    {out : List (CacheWrite α)}
    (hinv : v.Inv currentContext resourceType total)
    (hheard : v.history ++ delivered [act] <+: total)
    (hact : ∀ items, act ≠ .fetchDone items)
    (hstep : hookStep (v.query currentContext resourceType) act v.hook
      = some (hook, out)) (hset : v.settled = true) :
    Settled (v.query currentContext resourceType) hook
      ∧ ∀ uid ns, Home currentContext resourceType total uid ns →
        CurrentAt currentContext resourceType total
          (v.history ++ delivered [act]) v.scope uid ns
          (hook.snapshot.map.lookup uid) := by
  obtain ⟨hsettled, hmap⟩ := step_settled (hinv.loaded hset) hact hstep
  refine ⟨hsettled, fun uid ns hhome => ?_⟩
  rw [hmap, lookup_applyResourceEvents]
  apply (hinv.current hset uid ns hhome).hear
  exact hhome.mono ((List.sublist_append_right ..).trans hheard.sublist)

theorem after_quiet {act : HookAct α} {hook : Hook α}
    {out : List (CacheWrite α)}
    (hinv : v.Inv currentContext resourceType total)
    (hheard : v.history ++ delivered [act] <+: total)
    (hact : ∀ items, act ≠ .fetchDone items)
    (hstep : hookStep (v.query currentContext resourceType) act v.hook
      = some (hook, out))
    (hsince : v.sinceAfter act ≤ v.history.length)
    (hjournal : ∀ j, hook.eventJournal = some j →
      j = Hook.matched (v.query currentContext resourceType)
        ((v.history ++ delivered [act]).drop (v.sinceAfter act))) :
    (v.after act hook).Inv currentContext resourceType total := by
  have hcompletes : act.completes = false := by
    cases act with
    | fetchDone items => exact absurd rfl (hact items)
    | _ => rfl
  have hset : (v.after act hook).settled = true → v.settled = true := by
    simp [View.after, hcompletes]
  have hkeep := after_loaded hinv hheard hact hstep
  refine ⟨hinv.fits, hheard, ?_, hjournal, fun h => (hkeep (hset h)).1,
    fun h => (hkeep (hset h)).2⟩
  show v.sinceAfter act ≤ (v.history ++ _).length
  rw [List.length_append]
  omega

theorem after_inv {act : HookAct α} {hook : Hook α}
    {out : List (CacheWrite α)}
    (hinv : v.Inv currentContext resourceType total)
    (hhonest : Honest currentContext resourceType total v (.hook act))
    (hstep : hookStep (v.query currentContext resourceType) act v.hook
      = some (hook, out)) :
    (v.after act hook).Inv currentContext resourceType total := by
  have hsilent : delivered [act] = [] →
      v.history ++ delivered [act] <+: total := by
    intro hnil
    rw [hnil, List.append_nil]
    exact hinv.heard
  have hstep' := hstep
  cases act with
  | handleEvents events =>
    have hdel : delivered [HookAct.handleEvents events] = events := by
      simp [delivered]
    simp only [hookStep, Option.some.injEq, Prod.mk.injEq] at hstep
    obtain ⟨rfl, -⟩ := hstep
    refine after_quiet hinv (by rw [hdel]; exact hhonest)
      (fun _ h => by cases h) hstep' hinv.since_le ?_
    intro j hj
    obtain ⟨j', hj', rfl⟩ := Option.map_eq_some_iff.mp hj
    show _ = Hook.matched _ ((v.history ++ _).drop v.since)
    rw [hinv.journal j' hj', hdel,
      List.drop_append_of_le_length hinv.since_le, matched_append]
  | fetchStart cached =>
    simp only [hookStep, Option.some.injEq, Prod.mk.injEq] at hstep
    obtain ⟨rfl, -⟩ := hstep
    refine after_quiet hinv (hsilent rfl) (fun _ h => by cases h) hstep'
      ?_ ?_
    · unfold View.sinceAfter
      dsimp only
      split
      · exact hinv.since_le
      · exact Nat.le_refl _
    · intro j hj
      show j = Hook.matched _
        ((v.history ++ []).drop (if _ then _ else _))
      rw [List.append_nil]
      by_cases hopen : v.hook.eventJournal.isSome
      · rw [if_pos hopen]
        unfold Hook.fetchStart at hj
        rw [if_pos hopen] at hj
        exact hinv.journal j hj
      · rw [if_neg hopen, List.drop_length]
        rw [fetchStart_journal _ _ (by simpa using hopen)] at hj
        exact (Option.some.inj hj).symm
  | listPage items =>
    obtain ⟨j', hj', hpage⟩ := Option.map_eq_some_iff.mp hstep
    simp only [Prod.mk.injEq] at hpage
    obtain ⟨rfl, -⟩ := hpage
    refine after_quiet hinv (hsilent rfl) (fun _ h => by cases h) hstep'
      hinv.since_le fun j hj => ?_
    show j = Hook.matched _ ((v.history ++ []).drop v.since)
    rw [List.append_nil]
    exact hinv.journal j hj
  | fetchFailed =>
    obtain ⟨j', hj', hfail⟩ := Option.map_eq_some_iff.mp hstep
    simp only [Prod.mk.injEq] at hfail
    obtain ⟨rfl, -⟩ := hfail
    exact after_quiet hinv (hsilent rfl) (fun _ h => by cases h) hstep'
      hinv.since_le fun j hj => by cases hj
  | fetchDone items =>
    obtain ⟨j', hj', hdone⟩ := Option.map_eq_some_iff.mp hstep
    simp only [Prod.mk.injEq] at hdone
    obtain ⟨rfl, -⟩ := hdone
    obtain ⟨results, rfl, hlist⟩ := hhonest
    have hnil : delivered [HookAct.fetchDone
        (listNamespaceScope results)] = [] := rfl
    refine ⟨hinv.fits, hsilent hnil, ?_, fun j hj => (by cases hj),
      fun _ => ⟨rfl, rfl, fun h => (by cases h)⟩, ?_⟩
    · show v.since ≤ (v.history ++ []).length
      rw [List.append_nil]
      exact hinv.since_le
    · intro _ uid ns hhome
      show CurrentAt _ _ _ (v.history ++ []) _ _ _
        ((applyResourceEvents _ j').lookup uid)
      rw [List.append_nil, lookup_applyResourceEvents,
        hinv.journal j' hj']
      exact CurrentAt.listed hinv.fits hinv.since_le hlist hhome
        (hhome.mono hinv.heard.sublist)

theorem viewStep_inv (hsound : choose.Sound) {a : ViewAct α}
    {out : List (CacheWrite α)}
    (hinv : v.Inv currentContext resourceType total)
    (hhonest : Honest currentContext resourceType total v a)
    (hstep : viewStep choose currentContext resourceType a v
      = some (v', out)) :
    v'.Inv currentContext resourceType total := by
  cases a with
  | render value measured cached =>
    simp only [viewStep, Option.some.injEq, Prod.mk.injEq] at hstep
    obtain ⟨rfl, -⟩ := hstep
    exact render_inv hsound value measured cached hinv
  | refresh cached =>
    simp only [viewStep, Option.some.injEq, Prod.mk.injEq] at hstep
    obtain ⟨rfl, -⟩ := hstep
    exact mount_inv cached hinv.fits hinv.heard hinv.loaded hinv.current
  | hook act =>
    obtain ⟨⟨hook, out'⟩, hhook, heq⟩ := Option.map_eq_some_iff.mp hstep
    simp only [Prod.mk.injEq] at heq
    obtain ⟨rfl, -⟩ := heq
    exact after_inv hinv hhonest hhook

theorem first_inv (hsound : choose.Sound) (value : SelectedNamespaces)
    (measured : Measured) (cached : Option (ResourceMap α))
    {past : List (UiEvent α)} (hpast : past <+: total) :
    (View.first currentContext resourceType choose value measured cached
      past).Inv currentContext resourceType total :=
  mount_inv cached
    (hsound _ measured (namespaceSelection_ne_empty value)) hpast
    (fun h => by cases h) (fun h => by cases h)

/-- What is exposed when all is heard: the cluster, as far as it is
selected. -/
theorem data_eq (hwf : Orderly currentContext resourceType total)
    (hinv : v.Inv currentContext resourceType total)
    (hall : v.history = total) (hset : v.settled = true) (uid : String) :
    v.data currentContext resourceType uid
      = ((clusterAfter currentContext resourceType total).lookup
          uid).filter (View.shows v.selected) := by
  obtain ⟨ns, hhome⟩ := hwf.exists_home uid
  have hcur := hinv.current hset uid ns hhome
  rw [hall] at hcur
  have hlookup := hcur.lookup_eq hwf
  have hquery := (hinv.loaded hset).current
  -- What is not in scope is not selected.
  have hshown : (v.hook.snapshot.map.lookup uid).filter
      (View.shows v.selected)
        = ((clusterAfter currentContext resourceType total).lookup
          uid).filter (View.shows v.selected) := by
    rw [hlookup]
    split
    next => rfl
    next hout =>
      symm
      rw [Option.filter_none, Option.filter_eq_none_iff]
      intro r hr hshows
      exact hout (hinv.fits.covers_of_shows (hhome.nsOf_cluster hr) hshows)
  unfold View.data
  split
  next hor =>
    rcases hor with hne | hnone
    · exact absurd hquery hne
    · symm
      rw [Option.filter_eq_none_iff]
      intro r _
      rw [View.shows, List.isEmpty_iff.mp hnone]
      cases r.metadata.bind (·.ns) with
      | none => simp
      | some ns => simp
  next => exact hshown

end Steps

-- ======== the result

/-- What a visible hook exposes does not depend on what chose its
scopes. Two hooks that have heard the same history and now have the same
selection, each with a list of its present scope, expose the same
resources: one chooses by the heuristic, whatever was selected, measured
and refreshed on the way, the other asks for exactly the selected
namespaces. -/
theorem scope_invisible {total : List (UiEvent α)}
    (hwf : Orderly currentContext resourceType total)
    {value value' : SelectedNamespaces} {measured measured' : Measured}
    {cached cached' : Option (ResourceMap α)}
    {past past' : List (UiEvent α)}
    (hpast : past <+: total) (hpast' : past' <+: total)
    {acts acts' : List (ViewAct α)} {v v' : View α}
    {out out' : List (CacheWrite α)}
    (hrun : run (viewStep chooseNamespaceScope currentContext resourceType)
      (View.first currentContext resourceType chooseNamespaceScope value
        measured cached past) acts = some (v, out))
    (hhonest : Along
      (viewStep chooseNamespaceScope currentContext resourceType)
      (Honest currentContext resourceType total)
      (View.first currentContext resourceType chooseNamespaceScope value
        measured cached past) acts)
    (hrun' : run (viewStep exactScope currentContext resourceType)
      (View.first currentContext resourceType exactScope value' measured'
        cached' past') acts' = some (v', out'))
    (hhonest' : Along (viewStep exactScope currentContext resourceType)
      (Honest currentContext resourceType total)
      (View.first currentContext resourceType exactScope value' measured'
        cached' past') acts')
    (hall : v.history = total) (hall' : v'.history = total)
    (hselected : v.selected = v'.selected)
    (hset : v.settled = true) (hset' : v'.settled = true) (uid : String) :
    v.data currentContext resourceType uid
      = v'.data currentContext resourceType uid := by
  have hinv : v.Inv currentContext resourceType total :=
    run_invariant
      (fun hi hok hs => viewStep_inv chooseNamespaceScope_sound hi hok hs)
      (first_inv chooseNamespaceScope_sound value measured cached hpast)
      hhonest hrun
  have hinv' : v'.Inv currentContext resourceType total :=
    run_invariant
      (fun hi hok hs => viewStep_inv exactScope_sound hi hok hs)
      (first_inv exactScope_sound value' measured' cached' hpast')
      hhonest' hrun'
  rw [data_eq hwf hinv hall hset, data_eq hwf hinv' hall' hset', hselected]

def eventIn (type : EventType) (uid ns : String) (body : Nat) :
    UiEvent Nat :=
  { type := type
    resourceType := "pods"
    ns := ""
    resource := ⟨some { uid := some uid, ns := some ns }, body⟩ }

def podHistory : List (UiEvent Nat) :=
  [eventIn .added "u" "a" 1, eventIn .added "w" "b" 2,
    eventIn .modified "u" "a" 3]

def unmeasured : Measured := ⟨["a", "b"], none, {}, 0⟩

/-- It is known to be small, and the whole of it is loaded already. -/
def measuredSmall : Measured :=
  ⟨["a", "b"], some ⟨2, 100, 10, 0⟩, { reuseBroad := true }, 1⟩

/-- The scope goes from the selected namespace to the whole cluster
while the first pod is the only one heard of. -/
def broadens : List (ViewAct Nat) :=
  [.hook (.fetchDone (listNamespaceScope
      [[(eventIn .added "u" "a" 1).resource]])),
    .render (.one "a") measuredSmall none,
    .hook (.handleEvents [eventIn .added "w" "b" 2]),
    .hook (.fetchDone (listNamespaceScope
      [[(eventIn .added "u" "a" 1).resource,
        (eventIn .added "w" "b" 2).resource]])),
    .hook (.handleEvents [eventIn .modified "u" "a" 3])]

/-- The hook that asks for its one namespace hears everything and then
gets its list. -/
def staysScoped : List (ViewAct Nat) :=
  [.hook (.handleEvents podHistory),
    .hook (.fetchDone (listNamespaceScope
      [[(eventIn .modified "u" "a" 3).resource]]))]

theorem podHistory_orderly : Orderly "kind" "pods" podHistory where
  lives := by
    unfold WellFormed
    decide
  namespaced := by decide
  steady := by decide

/-- Both expose the selected pod as it is now, and not the other. -/
theorem scope_invisible_broadens :
    ∃ v out v' out',
      run (viewStep chooseNamespaceScope "kind" "pods")
        (View.first "kind" "pods" chooseNamespaceScope (.one "a")
          unmeasured none (podHistory.take 1)) broadens = some (v, out)
      ∧ run (viewStep exactScope "kind" "pods")
        (View.first "kind" "pods" exactScope (.one "a") unmeasured none [])
          staysScoped = some (v', out')
      ∧ v.scope = [""] ∧ v'.scope = ["a"]
      ∧ ∀ uid, v.data "kind" "pods" uid = v'.data "kind" "pods" uid := by
  have hrun : run (viewStep chooseNamespaceScope "kind" "pods")
      (View.first "kind" "pods" chooseNamespaceScope (.one "a")
        unmeasured none (podHistory.take 1)) broadens = some (_, _) := rfl
  have hrun' : run (viewStep exactScope "kind" "pods")
      (View.first "kind" "pods" exactScope (.one "a") unmeasured none [])
        staysScoped = some (_, _) := rfl
  have hfirst : FinMap.Enumerates ["u"]
      (clusterAfter "kind" "pods" (podHistory.take 1)) := by decide
  have hboth : ∀ k ∈ [2, 3], FinMap.Enumerates ["u", "w"]
      (clusterAfter "kind" "pods" (podHistory.take k)) := by decide
  have hone : Answers "kind" "pods" podHistory 1 "a"
      [(eventIn .added "u" "a" 1).resource] :=
    ⟨1, Nat.le_refl _, listsIn_of_enumerates hfirst "a"⟩
  have htwo : Answers "kind" "pods" podHistory 1 ""
      [(eventIn .added "u" "a" 1).resource,
        (eventIn .added "w" "b" 2).resource] :=
    ⟨2, by decide, listsIn_of_enumerates (hboth 2 (by decide)) ""⟩
  have hlast : Answers "kind" "pods" podHistory 0 "a"
      [(eventIn .modified "u" "a" 3).resource] :=
    ⟨3, by decide, listsIn_of_enumerates (hboth 3 (by decide)) "a"⟩
  have hin : ∀ events ∈ [podHistory.take 2, podHistory],
      events <+: podHistory := by decide
  refine ⟨_, _, _, _, hrun, hrun', rfl, rfl, fun uid =>
    scope_invisible podHistory_orderly (List.take_prefix ..)
      List.nil_prefix hrun ?_ hrun' ?_ rfl rfl rfl rfl rfl uid⟩
  · unfold broadens
    refine along_cons rfl ?_ ?_
    · exact ⟨_, rfl, .cons hone .nil⟩
    refine along_cons rfl trivial ?_
    refine along_cons rfl (hin _ (.head _)) ?_
    refine along_cons rfl ?_ ?_
    · exact ⟨_, rfl, .cons htwo .nil⟩
    exact along_cons rfl (hin _ (.tail _ (.head _))) trivial
  · unfold staysScoped
    refine along_cons rfl (hin _ (.tail _ (.head _))) ?_
    refine along_cons rfl ?_ trivial
    exact ⟨_, rfl, .cons hlast .nil⟩

end Store
