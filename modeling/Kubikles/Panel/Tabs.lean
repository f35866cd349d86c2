/-
The tabs of the bottom panel (frontend/src/context/UIContext.tsx).

# The state

The tabs and the id of the active one are two states. An operation is one
step of both: an updater that is called from another one runs behind it.
What a tab shows is left out, its title apart.

# The argument

Most of the operations keep the order of the tabs that stay, and a tab that
is opened again or pinned stays where it is or goes to its section. The
active tab is another matter: `closeTab` finds a new one, while
`closeTabsToRight` and `closeAllTabs` leave it as it is.
-/
import Kubikles.Lib.Machine
import Mathlib.Data.List.Nodup
import Mathlib.Data.List.Perm.Basic

namespace BottomTabs

/-- The context of a tab, with what is no cluster told apart. -/
inductive Context where
  | undefined
  | null
  | named (name : String)
deriving DecidableEq

/-- `BottomTab`, as it is held. -/
structure BottomTab where
  id : String
  title : String
  pinned : Bool
  context : Context
deriving DecidableEq

/-- `BottomTab`, as it is handed in: where a key is absent, the value is
`none`. -/
structure Opened where
  id : String
  title : String
  pinned : Option Bool := none
  context : Option Context := none
deriving DecidableEq

structure State where
  bottomTabs : List BottomTab
  activeTabId : Option String
deriving DecidableEq

-- ======== operations

/-- `{ ...tab, context: tabContext }`. -/
def Opened.fresh (currentContext : Context) (tab : Opened) : BottomTab :=
  { id := tab.id
    title := tab.title
    pinned := tab.pinned.getD false
    context := tab.context.getD currentContext }

/-- `{ ...prev, ...tab, context: prev.context }`. -/
def Opened.over (tab : Opened) (prev : BottomTab) : BottomTab :=
  { id := tab.id
    title := tab.title
    pinned := tab.pinned.getD prev.pinned
    context := prev.context }

def openTab (currentContext : Context) (tab : Opened) (s : State) :
    State :=
  { bottomTabs :=
      match s.bottomTabs.findIdx? (·.id = tab.id) with
      | some existingIndex => s.bottomTabs.modify existingIndex tab.over
      | none => s.bottomTabs ++ [tab.fresh currentContext]
    activeTabId := some tab.id }

/-- What `togglePinTab` does to one tab. -/
def toggled (tabId : String) (t : BottomTab) : BottomTab :=
  if t.id = tabId then { t with pinned := !t.pinned } else t

def togglePinTab (tabId : String) (s : State) : State :=
  let newTabs := s.bottomTabs.map (toggled tabId)
  { s with
    bottomTabs := newTabs.filter (·.pinned) ++ newTabs.filter (!·.pinned) }

/-- `id || null`. -/
def orNull (id : String) : Option String :=
  if id = "" then none else some id

/-- The active tab after the one at this index is closed. The difference
is not below zero here, as it is after `Math.max`. -/
def afterClosing (closingIndex : Nat) (newTabs : List BottomTab) :
    Option String :=
  if newTabs.length = 0 then none
  else
    let newIndex := min (closingIndex - 1) (newTabs.length - 1)
    newTabs[newIndex]?.bind (orNull ·.id)

def closeTab (tabId : String) (s : State) : State :=
  if (s.bottomTabs.find? (·.id = tabId)).any (·.pinned) then s
  else
    let closingIndex := s.bottomTabs.findIdx (·.id = tabId)
    let newTabs := s.bottomTabs.filter (·.id ≠ tabId)
    { bottomTabs := newTabs
      activeTabId :=
        if s.activeTabId ≠ some tabId then s.activeTabId
        else afterClosing closingIndex newTabs }

def closeOtherTabs (tabId : String) (s : State) : State :=
  { bottomTabs := s.bottomTabs.filter fun t => t.id = tabId || t.pinned
    activeTabId := some tabId }

def closeTabsToRight (tabId : String) (s : State) : State :=
  { s with
    bottomTabs :=
      match s.bottomTabs.findIdx? (·.id = tabId) with
      | none => s.bottomTabs
      | some index =>
        s.bottomTabs.take (index + 1)
          ++ (s.bottomTabs.drop (index + 1)).filter (·.pinned) }

def closeAllTabs (s : State) : State :=
  { s with bottomTabs := s.bottomTabs.filter (·.pinned) }

def reorderTabs (fromIndex toIndex : Nat) (s : State) : State :=
  match s.bottomTabs[fromIndex]? with
  | none => s
  | some removed =>
    { s with
      bottomTabs :=
        (s.bottomTabs.eraseIdx fromIndex).insertIdx toIndex removed }

-- ======== steps

inductive Act where
  | openTab (tab : Opened)
  | togglePinTab (tabId : String)
  | closeTab (tabId : String)
  | closeOtherTabs (tabId : String)
  | closeTabsToRight (tabId : String)
  | closeAllTabs
  | reorderTabs (fromIndex toIndex : Nat)
  | activate (tabId : String)
deriving DecidableEq

def State.has (s : State) (tabId : String) : Prop :=
  ∃ t ∈ s.bottomTabs, t.id = tabId

instance (s : State) (tabId : String) : Decidable (s.has tabId) :=
  inferInstanceAs (Decidable (∃ t ∈ s.bottomTabs, t.id = tabId))

/-- An operation may be called. -/
def Act.allowed (s : State) : Act → Prop
  | .openTab tab => tab.pinned ≠ some true
  | .closeTab tabId | .closeOtherTabs tabId | .closeTabsToRight tabId
  | .activate tabId => s.has tabId
  | .reorderTabs fromIndex toIndex =>
    fromIndex < s.bottomTabs.length ∧ toIndex < s.bottomTabs.length
  | .togglePinTab _ | .closeAllTabs => True

instance (s : State) (a : Act) : Decidable (a.allowed s) := by
  cases a <;> unfold Act.allowed <;> infer_instance

/-- What an operation does. -/
def Act.apply (currentContext : Context) (s : State) : Act → State
  | .openTab tab => BottomTabs.openTab currentContext tab s
  | .togglePinTab tabId => BottomTabs.togglePinTab tabId s
  | .closeTab tabId => BottomTabs.closeTab tabId s
  | .closeOtherTabs tabId => BottomTabs.closeOtherTabs tabId s
  | .closeTabsToRight tabId => BottomTabs.closeTabsToRight tabId s
  | .closeAllTabs => BottomTabs.closeAllTabs s
  | .reorderTabs fromIndex toIndex =>
    BottomTabs.reorderTabs fromIndex toIndex s
  | .activate tabId => { s with activeTabId := some tabId }

/-- The panel, with nothing to put out. -/
def panel (currentContext : Context) : Machine.Step State Act Empty :=
  fun a s =>
    if a.allowed s then some (a.apply currentContext s, []) else none

def start : State := { bottomTabs := [], activeTabId := none }

-- ======== the statement

/-- A pinned tab does not stand behind one that is not. -/
def Ordered (tabs : List BottomTab) : Prop :=
  tabs.Pairwise fun t t' => t'.pinned = true → t.pinned = true

/-- The tabs and the active one fit. -/
structure Consistent (s : State) : Prop where
  unique : (s.bottomTabs.map (·.id)).Nodup
  ordered : Ordered s.bottomTabs
  active : ∀ tabId, s.activeTabId = some tabId → s.has tabId
  null : s.activeTabId = none ↔ s.bottomTabs = []

/-- What one operation leaves of the tabs: no pinned tab is removed, a tab
that was there has the context it had, and another one is the one that is
opened, with the context that it brings or else the current one. -/
structure Kept (currentContext : Context) (a : Act) (s s' : State) :
    Prop where
  pinned : ∀ t ∈ s.bottomTabs, t.pinned = true → s'.has t.id
  context : ∀ t ∈ s.bottomTabs, ∀ t' ∈ s'.bottomTabs, t'.id = t.id →
    t'.context = t.context
  opened : ∀ t' ∈ s'.bottomTabs, s.has t'.id
    ∨ ∃ tab, a = .openTab tab ∧ t'.id = tab.id
      ∧ t'.context = tab.context.getD currentContext

/-- Every state of a run is consistent, and every step of it keeps what it
must. -/
def Holds (currentContext : Context) (acts : List Act) : Prop :=
  Machine.Visits (panel currentContext) Consistent start acts
    ∧ Machine.Along (panel currentContext)
        (fun s a => Kept currentContext a s (a.apply currentContext s))
        start acts

def Around (s : State) (tabId : String) (left : List BottomTab)
    (t : BottomTab) (right : List BottomTab) : Prop :=
  s.bottomTabs = left ++ t :: right ∧ t.id = tabId

/-- An operation that leaves the panel consistent: a pinned tab is not
opened again as one that is not while another pinned one stands to the
right of it, the tab that is active after `closeTab` has an id that is not
empty, `closeTabsToRight` and `closeAllTabs` do not remove the active tab,
and a tab is not moved to a place in the other section. -/
def Careful (s : State) : Act → Prop
  | .openTab tab => tab.pinned = some false →
      ∀ left t right, Around s tab.id left t right →
        t.pinned = true → ∀ t' ∈ right, t'.pinned = false
  | .closeTab tabId => s.activeTabId = some tabId →
      ∀ left t right, Around s tabId left t right →
        t.pinned = false → ∀ t' ∈ left.getLast?.or right.head?, t'.id ≠ ""
  | .closeTabsToRight tabId =>
    ∀ left t right, Around s tabId left t right →
      ∀ t' ∈ right, s.activeTabId = some t'.id → t'.pinned = true
  | .closeAllTabs =>
    ∀ t ∈ s.bottomTabs, s.activeTabId = some t.id → t.pinned = true
  | .reorderTabs fromIndex toIndex =>
    ∀ t ∈ s.bottomTabs[fromIndex]?, ∀ t' ∈ s.bottomTabs[toIndex]?,
      t.pinned = t'.pinned
  | .togglePinTab _ | .closeOtherTabs _ | .activate _ => True

-- ======== tabs and ids

theorem eq_of_id {tabs : List BottomTab} (h : (tabs.map (·.id)).Nodup)
    {t t' : BottomTab} (ht : t ∈ tabs) (ht' : t' ∈ tabs)
    (hid : t.id = t'.id) : t = t' :=
  List.inj_on_of_nodup_map h ht ht' hid

theorem has_iff {s : State} {tabId : String} :
    s.has tabId ↔ tabId ∈ s.bottomTabs.map (·.id) := by
  rw [List.mem_map]
  exact Iff.rfl

theorem around_of_has {s : State} {tabId : String}
    (h : (s.bottomTabs.map (·.id)).Nodup) (hin : s.has tabId) :
    ∃ left t right, Around s tabId left t right
      ∧ (∀ x ∈ left, x.id ≠ tabId) ∧ ∀ x ∈ right, x.id ≠ tabId := by
  obtain ⟨t, ht, rfl⟩ := hin
  obtain ⟨left, right, hs⟩ := List.append_of_mem ht
  rw [hs, List.map_append, List.map_cons, List.nodup_middle,
    List.nodup_cons, List.mem_append, not_or] at h
  refine ⟨left, t, right, ⟨hs, rfl⟩, fun x hx hid => ?_,
    fun x hx hid => ?_⟩
  · exact h.1.1 (List.mem_map.mpr ⟨x, hx, hid⟩)
  · exact h.1.2 (List.mem_map.mpr ⟨x, hx, hid⟩)

theorem findIdx_around {left right : List BottomTab} {t : BottomTab}
    {tabId : String} (hid : t.id = tabId)
    (hleft : ∀ x ∈ left, x.id ≠ tabId) :
    (left ++ t :: right).findIdx (·.id = tabId) = left.length := by
  induction left with
  | nil => simp [List.findIdx_cons, hid]
  | cons x left ih =>
    rw [List.forall_mem_cons] at hleft
    rw [List.cons_append, List.findIdx_cons, ih hleft.2]
    simp [hleft.1]

theorem findIdx?_around {left right : List BottomTab} {t : BottomTab}
    {tabId : String} (hid : t.id = tabId)
    (hleft : ∀ x ∈ left, x.id ≠ tabId) :
    (left ++ t :: right).findIdx? (·.id = tabId)
      = some left.length := by
  rw [List.findIdx?_eq_some_iff_findIdx_eq, findIdx_around hid hleft]
  refine ⟨?_, rfl⟩
  rw [List.length_append, List.length_cons]
  omega

theorem forall_around {s : State} {tabId : String}
    {left right : List BottomTab} {t : BottomTab}
    {p : List BottomTab → BottomTab → List BottomTab → Prop}
    (h : (s.bottomTabs.map (·.id)).Nodup)
    (hat : Around s tabId left t right) :
    (∀ left t right, Around s tabId left t right → p left t right)
      ↔ p left t right := by
  refine ⟨fun hall => hall left t right hat, fun hp => ?_⟩
  intro left' t' right' hat'
  obtain ⟨hs, hid⟩ := hat
  obtain ⟨hs', hid'⟩ := hat'
  have heq : t = t' := by
    apply eq_of_id h
    · rw [hs]; simp
    · rw [hs']; simp
    · rw [hid, hid']
  subst heq
  have hnd := List.Nodup.of_map _ h
  rw [hs, List.nodup_middle, List.nodup_cons, List.mem_append,
    not_or] at hnd
  obtain ⟨rfl, -, rfl⟩ :=
    (List.append_cons_inj_of_notMem hnd.1.1 hnd.1.2).mp
      (hs.symm.trans hs')
  exact hp

-- ======== the order

theorem ordered_middle {left right : List BottomTab} {t : BottomTab} :
    Ordered (left ++ t :: right)
      ↔ Ordered (left ++ right)
        ∧ (t.pinned = true → ∀ x ∈ left, x.pinned = true)
        ∧ (t.pinned = false → ∀ x ∈ right, x.pinned = false) := by
  unfold Ordered
  simp only [List.pairwise_append, List.pairwise_cons, List.mem_cons,
    forall_eq_or_imp]
  constructor
  · rintro ⟨hl, ⟨htr, hr⟩, hlr⟩
    refine ⟨⟨hl, hr, fun x hx => (hlr x hx).2⟩, fun ht x hx => ?_,
      fun ht x hx => ?_⟩
    · exact (hlr x hx).1 ht
    · cases hp : x.pinned with
      | false => rfl
      | true => exact absurd (htr x hx hp) (by simp [ht])
  · rintro ⟨⟨hl, hr, hlr⟩, htl, htr⟩
    refine ⟨hl, ⟨fun x hx hp => ?_, hr⟩, fun x hx =>
      ⟨fun ht => htl ht x hx, hlr x hx⟩⟩
    cases ht : t.pinned with
    | true => rfl
    | false => exact absurd hp (by simp [htr ht x hx])

theorem ordered_sections (tabs : List BottomTab) :
    Ordered (tabs.filter (·.pinned) ++ tabs.filter (!·.pinned)) := by
  refine List.pairwise_append.mpr ⟨?_, ?_, ?_⟩
  · refine List.pairwise_of_forall_mem_list fun t ht _ _ _ => ?_
    exact (List.mem_filter.mp ht).2
  · refine List.pairwise_of_forall_mem_list fun _ _ t ht hp => ?_
    simp [hp] at ht
  · intro t ht _ _ _
    exact (List.mem_filter.mp ht).2

-- ======== consistency

theorem Consistent.of_perm {s s' : State} (h : Consistent s)
    (hids : (s'.bottomTabs.map (·.id)).Perm (s.bottomTabs.map (·.id)))
    (hactive : s'.activeTabId = s.activeTabId)
    (hordered : Ordered s'.bottomTabs) : Consistent s' := by
  refine ⟨hids.nodup_iff.mpr h.unique, hordered, fun tabId hid => ?_, ?_⟩
  · rw [has_iff, hids.mem_iff, ← has_iff]
    exact h.active tabId (hactive ▸ hid)
  · rw [hactive, h.null, ← List.length_eq_zero_iff,
      ← List.length_eq_zero_iff]
    have hlength := hids.length_eq
    rw [List.length_map, List.length_map] at hlength
    rw [hlength]

/-- Where tabs are removed and the active one is left alone, it must be
one of those that stay. -/
theorem consistent_iff_of_sublist {s : State} {tabs : List BottomTab}
    (h : Consistent s) (hsub : tabs.Sublist s.bottomTabs) :
    Consistent ⟨tabs, s.activeTabId⟩
      ↔ ∀ t ∈ s.bottomTabs, s.activeTabId = some t.id → t ∈ tabs := by
  constructor
  · intro h' t ht hid
    obtain ⟨t', ht', hid'⟩ := h'.active t.id hid
    have heq := eq_of_id h.unique (hsub.subset ht') ht hid'
    exact heq ▸ ht'
  · intro hstay
    have hhas : ∀ tabId, s.activeTabId = some tabId →
        ∃ t ∈ tabs, t.id = tabId := by
      intro tabId hid
      obtain ⟨t, ht, rfl⟩ := h.active tabId hid
      exact ⟨t, hstay t ht hid, rfl⟩
    refine ⟨h.unique.sublist (hsub.map _), List.Pairwise.sublist hsub
      h.ordered, hhas, ?_⟩
    constructor
    · intro hnone
      have hnil : s.bottomTabs = [] := h.null.mp hnone
      exact List.sublist_nil.mp (hnil ▸ hsub)
    · intro hnil
      cases hid : s.activeTabId with
      | none => rfl
      | some tabId =>
        obtain ⟨t, ht, -⟩ := hhas tabId hid
        have hempty : tabs = [] := hnil
        rw [hempty] at ht
        cases ht

/-- Where tabs are removed and one of those that stay becomes active, they
stay consistent. -/
theorem Consistent.of_has {s' : State} {tabId : String}
    (hunique : (s'.bottomTabs.map (·.id)).Nodup)
    (hordered : Ordered s'.bottomTabs)
    (hactive : s'.activeTabId = some tabId) (hhas : s'.has tabId) :
    Consistent s' := by
  refine ⟨hunique, hordered, fun id hid => ?_, ?_⟩
  · rw [hactive, Option.some.injEq] at hid
    exact hid ▸ hhas
  · obtain ⟨t, ht, -⟩ := hhas
    rw [hactive]
    simp [List.ne_nil_of_mem ht]

-- ======== what is opened

section Steps

variable {currentContext : Context} {s : State}

theorem openTab_around {tab : Opened} {left right : List BottomTab}
    {t : BottomTab} (hat : Around s tab.id left t right)
    (hleft : ∀ x ∈ left, x.id ≠ tab.id) :
    openTab currentContext tab s
      = ⟨left ++ tab.over t :: right, some tab.id⟩ := by
  unfold openTab
  rw [hat.1, findIdx?_around hat.2 hleft]
  dsimp only
  rw [List.modify_eq_take_cons_drop (by simp)]
  simp

theorem openTab_of_not_has {tab : Opened} (h : ¬ s.has tab.id) :
    openTab currentContext tab s
      = ⟨s.bottomTabs ++ [tab.fresh currentContext], some tab.id⟩ := by
  unfold openTab
  have hnone : s.bottomTabs.findIdx? (·.id = tab.id) = none := by
    rw [List.findIdx?_eq_none_iff]
    intro t ht
    simp only [decide_eq_false_iff_not]
    exact fun hid => h ⟨t, ht, hid⟩
  rw [hnone]

theorem openTab_consistent_iff {tab : Opened} (h : Consistent s)
    (htab : tab.pinned ≠ some true) :
    Consistent (openTab currentContext tab s)
      ↔ Careful s (.openTab tab) := by
  by_cases hin : s.has tab.id
  case neg =>
    rw [openTab_of_not_has hin]
    refine iff_of_true ?_ fun _ left t right hat => ?_
    · refine Consistent.of_has ?_ ?_ rfl ⟨_, List.mem_concat_self, rfl⟩
      · rw [List.map_append, List.nodup_append]
        refine ⟨h.unique, List.nodup_singleton _, fun id hid id' hid' => ?_⟩
        obtain rfl : id' = tab.id := List.mem_singleton.mp hid'
        rintro rfl
        exact hin (has_iff.mpr hid)
      · refine List.pairwise_append.mpr ⟨h.ordered,
          List.pairwise_singleton .., fun _ _ t ht hp => ?_⟩
        obtain rfl := List.mem_singleton.mp ht
        have hpinned : tab.pinned.getD false = true := hp
        cases htp : tab.pinned with
        | none => simp [htp] at hpinned
        | some b =>
          rw [htp, Option.getD_some] at hpinned
          exact absurd (hpinned ▸ htp) htab
    · exact absurd ⟨t, by simp [hat.1], hat.2⟩ hin
  case pos =>
    obtain ⟨left, t, right, hat, hleft, -⟩ := around_of_has h.unique hin
    rw [openTab_around hat hleft, Careful]
    have hsame := h.ordered
    rw [hat.1, ordered_middle] at hsame
    have hids : ((left ++ tab.over t :: right).map (·.id))
        = s.bottomTabs.map (·.id) := by
      simp [hat.1, Opened.over, hat.2]
    have hopened : Consistent ⟨left ++ tab.over t :: right, some tab.id⟩
        ↔ Ordered (left ++ tab.over t :: right) := by
      refine ⟨fun h' => h'.ordered, fun h' => ?_⟩
      refine Consistent.of_has ?_ h' rfl ?_
      · exact hids.symm ▸ h.unique
      · exact ⟨tab.over t, by simp, rfl⟩
    rw [hopened, ordered_middle]
    cases hp : tab.pinned with
    | none =>
      refine iff_of_true ?_ (fun hf => by cases hf)
      simpa only [Opened.over, hp, Option.getD_none] using hsame
    | some b =>
      cases b with
      | true => exact absurd hp htab
      | false =>
        rw [imp_iff_right rfl, forall_around h.unique hat]
        simp only [Opened.over, hp, Option.getD_some, hsame.1,
          Bool.false_eq_true, false_implies, true_and, true_implies]
        refine ⟨fun hright _ => hright, fun hright => ?_⟩
        cases ht : t.pinned with
        | true => exact hright ht
        | false => exact hsame.2.2 ht

-- ======== what is toggled

theorem toggled_id (tabId : String) (t : BottomTab) :
    (toggled tabId t).id = t.id := by
  unfold toggled
  split <;> rfl

theorem toggled_context (tabId : String) (t : BottomTab) :
    (toggled tabId t).context = t.context := by
  unfold toggled
  split <;> rfl

theorem togglePinTab_perm (tabId : String) :
    (togglePinTab tabId s).bottomTabs.Perm
      (s.bottomTabs.map (toggled tabId)) :=
  List.filter_append_perm _ _

theorem togglePinTab_consistent {tabId : String} (h : Consistent s) :
    Consistent (togglePinTab tabId s) := by
  refine h.of_perm ?_ rfl (ordered_sections _)
  have hids := (togglePinTab_perm (s := s) tabId).map (·.id)
  rw [List.map_map] at hids
  have hsame : (BottomTab.id ∘ toggled tabId) = BottomTab.id :=
    funext (toggled_id tabId)
  rwa [show ((fun t : BottomTab => t.id) ∘ toggled tabId)
    = fun t => t.id from hsame] at hids

-- ======== what is closed

theorem closeTab_pinned {tabId : String} {left right : List BottomTab}
    {t : BottomTab} (hat : Around s tabId left t right)
    (hleft : ∀ x ∈ left, x.id ≠ tabId) (hp : t.pinned = true) :
    closeTab tabId s = s := by
  unfold closeTab
  have hnone : left.find? (·.id = tabId) = none := by
    simpa using hleft
  rw [if_pos]
  rw [hat.1, List.find?_append, hnone, Option.none_or,
    List.find?_cons_of_pos (by simpa using hat.2)]
  exact hp

/-- The tab that becomes active is the one to the left, or else the one
that took the place. -/
theorem afterClosing_eq (left right : List BottomTab) :
    afterClosing left.length (left ++ right)
      = (left.getLast?.or right.head?).bind (orNull ·.id) := by
  unfold afterClosing
  rcases List.eq_nil_or_concat left with rfl | ⟨left, x, rfl⟩
  · cases right with
    | nil => simp
    | cons x right => simp
  · rw [if_neg (by simp)]
    simp

theorem closeTab_around {tabId : String} {left right : List BottomTab}
    {t : BottomTab} (hat : Around s tabId left t right)
    (hleft : ∀ x ∈ left, x.id ≠ tabId)
    (hright : ∀ x ∈ right, x.id ≠ tabId) (hp : t.pinned = false) :
    closeTab tabId s = ⟨left ++ right,
      if s.activeTabId ≠ some tabId then s.activeTabId
      else (left.getLast?.or right.head?).bind (orNull ·.id)⟩ := by
  unfold closeTab
  have hnone : left.find? (·.id = tabId) = none := by
    simpa using hleft
  have hfilter : s.bottomTabs.filter (·.id ≠ tabId) = left ++ right := by
    rw [hat.1, List.filter_append, List.filter_cons_of_neg
      (by simpa using hat.2), List.filter_eq_self.mpr (by simpa using hleft),
      List.filter_eq_self.mpr (by simpa using hright)]
  rw [if_neg]
  · dsimp only
    rw [hfilter, hat.1, findIdx_around hat.2 hleft, afterClosing_eq]
  · rw [hat.1, List.find?_append, hnone, Option.none_or,
      List.find?_cons_of_pos (by simpa using hat.2)]
    simp [hp]

theorem closeTab_consistent_iff {tabId : String} (h : Consistent s)
    (hin : s.has tabId) :
    Consistent (closeTab tabId s) ↔ Careful s (.closeTab tabId) := by
  obtain ⟨left, t, right, hat, hleft, hright⟩ :=
    around_of_has h.unique hin
  rw [Careful, forall_around h.unique hat]
  cases hp : t.pinned with
  | true =>
    rw [closeTab_pinned hat hleft hp]
    exact iff_of_true h fun _ hf => by cases hf
  | false =>
    rw [closeTab_around hat hleft hright hp, imp_iff_right rfl]
    have hsub : (left ++ right).Sublist s.bottomTabs := by
      rw [hat.1]
      exact (List.sublist_cons_self t right).append_left left
    by_cases hactive : s.activeTabId = some tabId
    case neg =>
      rw [if_pos hactive, consistent_iff_of_sublist h hsub]
      refine iff_of_true (fun x hx hid => ?_) fun hf => absurd hf hactive
      rw [hat.1, List.mem_append, List.mem_cons] at hx
      rcases hx with hx | rfl | hx
      · exact List.mem_append_left _ hx
      · exact absurd (hat.2 ▸ hid) hactive
      · exact List.mem_append_right _ hx
    case pos =>
      rw [if_neg (by simpa using hactive), imp_iff_right hactive]
      cases hnext : left.getLast?.or right.head? with
      | none =>
        rw [Option.or_eq_none_iff, List.getLast?_eq_none_iff,
          List.head?_eq_none_iff] at hnext
        obtain ⟨rfl, rfl⟩ := hnext
        have hempty : Consistent ⟨[], none⟩ :=
          ⟨List.nodup_nil, List.Pairwise.nil,
            fun _ hf => (by cases hf), iff_of_true rfl rfl⟩
        exact iff_of_true hempty fun _ hf => by cases hf
      | some x =>
        have hx : x ∈ left ++ right := by
          rw [List.mem_append]
          rcases Option.or_eq_some_iff.mp hnext with hx | ⟨-, hx⟩
          · exact .inl (List.mem_of_getLast? hx)
          · exact .inr (List.mem_of_head? hx)
        rw [show (∀ t' ∈ some x, t'.id ≠ "") ↔ x.id ≠ "" by simp,
          Option.bind_some]
        by_cases hid : x.id = ""
        case neg =>
          rw [orNull, if_neg hid]
          refine iff_of_true ?_ hid
          exact Consistent.of_has (h.unique.sublist (hsub.map _))
            (h.ordered.sublist hsub) rfl ⟨x, hx, rfl⟩
        case pos =>
          rw [orNull, if_pos hid]
          refine iff_of_false (fun h' => ?_) fun hf => hf hid
          exact List.ne_nil_of_mem hx (h'.null.mp rfl)

theorem closeOtherTabs_consistent {tabId : String} (h : Consistent s)
    (hin : s.has tabId) : Consistent (closeOtherTabs tabId s) := by
  obtain ⟨t, ht, rfl⟩ := hin
  refine Consistent.of_has (h.unique.sublist
    (List.filter_sublist.map _)) (h.ordered.sublist List.filter_sublist)
    rfl ⟨t, ?_, rfl⟩
  exact List.mem_filter.mpr ⟨ht, by simp⟩

theorem closeTabsToRight_around {tabId : String}
    {left right : List BottomTab} {t : BottomTab}
    (hat : Around s tabId left t right)
    (hleft : ∀ x ∈ left, x.id ≠ tabId) :
    closeTabsToRight tabId s
      = ⟨left ++ t :: right.filter (·.pinned), s.activeTabId⟩ := by
  unfold closeTabsToRight
  rw [hat.1, findIdx?_around hat.2 hleft]
  dsimp only
  rw [List.take_append, List.drop_append, List.take_of_length_le (by omega),
    List.drop_of_length_le (by omega), Nat.add_sub_cancel_left]
  simp

theorem closeTabsToRight_consistent_iff {tabId : String}
    (h : Consistent s) (hin : s.has tabId) :
    Consistent (closeTabsToRight tabId s)
      ↔ Careful s (.closeTabsToRight tabId) := by
  obtain ⟨left, t, right, hat, hleft, hright⟩ :=
    around_of_has h.unique hin
  rw [Careful, forall_around h.unique hat,
    closeTabsToRight_around hat hleft]
  have hsub : (left ++ t :: right.filter (·.pinned)).Sublist
      s.bottomTabs := by
    rw [hat.1]
    exact (List.filter_sublist.cons_cons t).append_left left
  rw [consistent_iff_of_sublist h hsub]
  have hnd := List.Nodup.of_map _ h.unique
  rw [hat.1, List.nodup_append, List.nodup_cons] at hnd
  obtain ⟨-, ⟨hnot, -⟩, hapart⟩ := hnd
  constructor
  · intro hstay x hx hid
    have hmem := hstay x (by rw [hat.1]; simp [hx]) hid
    rw [List.mem_append, List.mem_cons] at hmem
    rcases hmem with hl | rfl | hr
    · exact absurd rfl (hapart x hl x (List.mem_cons_of_mem _ hx))
    · exact absurd hx hnot
    · exact (List.mem_filter.mp hr).2
  · intro hcare x hx hid
    rw [hat.1, List.mem_append, List.mem_cons] at hx
    rw [List.mem_append, List.mem_cons]
    rcases hx with hl | rfl | hr
    · exact .inl hl
    · exact .inr (.inl rfl)
    · exact .inr (.inr (List.mem_filter.mpr ⟨hr, hcare x hr hid⟩))

theorem closeAllTabs_consistent_iff (h : Consistent s) :
    Consistent (closeAllTabs s) ↔ Careful s .closeAllTabs := by
  rw [closeAllTabs,
    consistent_iff_of_sublist h List.filter_sublist, Careful]
  refine forall₂_congr fun t ht => imp_congr_right fun _ => ?_
  exact List.mem_filter.trans (and_iff_right ht)

-- ======== what is moved

theorem reorderTabs_eq {i j : Nat} {t : BottomTab}
    (ht : s.bottomTabs[i]? = some t) :
    reorderTabs i j s
      = { s with bottomTabs := (s.bottomTabs.eraseIdx i).insertIdx j t } := by
  unfold reorderTabs
  rw [ht]

theorem reorderTabs_perm {i j : Nat} (hi : i < s.bottomTabs.length)
    (hj : j < s.bottomTabs.length) :
    (reorderTabs i j s).bottomTabs.Perm s.bottomTabs := by
  rw [reorderTabs_eq (List.getElem?_eq_getElem hi)]
  have hlength := List.length_eraseIdx_of_lt hi
  refine (List.perm_insertIdx _ _ (by omega)).trans ?_
  exact List.getElem_cons_eraseIdx_perm hi

theorem Ordered.pinned_of_le {tabs : List BottomTab} (h : Ordered tabs)
    {i j : Nat} {t t' : BottomTab} (ht : tabs[i]? = some t)
    (ht' : tabs[j]? = some t') (hij : i ≤ j) (hp : t'.pinned = true) :
    t.pinned = true := by
  obtain ⟨hi, rfl⟩ := List.getElem?_eq_some_iff.mp ht
  obtain ⟨hj, rfl⟩ := List.getElem?_eq_some_iff.mp ht'
  rcases Nat.lt_or_eq_of_le hij with hlt | rfl
  · exact List.pairwise_iff_getElem.mp h i j hi hj hlt hp
  · exact hp

theorem mem_take_eraseIdx {tabs : List BottomTab} {i j : Nat}
    {x : BottomTab} (hx : x ∈ (tabs.eraseIdx i).take j) :
    ∃ k, k ≤ j ∧ tabs[k]? = some x := by
  obtain ⟨k, hk⟩ := List.mem_iff_getElem?.mp hx
  rw [List.getElem?_take] at hk
  split at hk
  case isFalse => cases hk
  case isTrue hlt =>
    rw [List.getElem?_eraseIdx] at hk
    split at hk
    · exact ⟨k, by omega, hk⟩
    · exact ⟨k + 1, by omega, hk⟩

theorem mem_drop_eraseIdx {tabs : List BottomTab} {i j : Nat}
    {x : BottomTab} (hx : x ∈ (tabs.eraseIdx i).drop j) :
    ∃ k, j ≤ k ∧ tabs[k]? = some x := by
  obtain ⟨k, hk⟩ := List.mem_iff_getElem?.mp hx
  rw [List.getElem?_drop, List.getElem?_eraseIdx] at hk
  split at hk
  · exact ⟨j + k, by omega, hk⟩
  · exact ⟨j + k + 1, by omega, hk⟩

theorem insertIdx_eq {tabs : List BottomTab} {j : Nat} (t : BottomTab)
    (hj : j ≤ tabs.length) :
    tabs.insertIdx j t = tabs.take j ++ t :: tabs.drop j := by
  induction tabs generalizing j with
  | nil =>
    obtain rfl := Nat.le_zero.mp hj
    rfl
  | cons x tabs ih =>
    cases j with
    | zero => rfl
    | succ j =>
      rw [List.insertIdx_succ_cons, ih (Nat.le_of_succ_le_succ hj)]
      rfl

/-- A tab that is moved is in order where the one that was there is of its
section. -/
theorem ordered_move_iff {tabs : List BottomTab} (h : Ordered tabs)
    {i j : Nat} {t t' : BottomTab} (ht : tabs[i]? = some t)
    (ht' : tabs[j]? = some t') :
    Ordered ((tabs.eraseIdx i).insertIdx j t) ↔ t.pinned = t'.pinned := by
  have hi := (List.getElem?_eq_some_iff.mp ht).1
  have hj := (List.getElem?_eq_some_iff.mp ht').1
  have hlength := List.length_eraseIdx_of_lt hi
  have hrest : Ordered (tabs.eraseIdx i) :=
    List.Pairwise.sublist (List.eraseIdx_sublist ..) h
  rw [insertIdx_eq t (by omega), ordered_middle,
    List.take_append_drop, and_iff_right hrest]
  constructor
  · rintro ⟨hleft, hright⟩
    rcases Nat.lt_trichotomy i j with hlt | rfl | hgt
    · have hmem : t' ∈ (tabs.eraseIdx i).take j := by
        rw [List.mem_iff_getElem?]
        refine ⟨j - 1, ?_⟩
        rw [List.getElem?_take_of_lt (by omega), List.getElem?_eraseIdx,
          if_neg (by omega), Nat.sub_add_cancel (by omega)]
        exact ht'
      rw [Bool.eq_iff_iff]
      exact ⟨fun hp => hleft hp t' hmem,
        h.pinned_of_le ht ht' (Nat.le_of_lt hlt)⟩
    · rw [ht, Option.some.injEq] at ht'
      rw [ht']
    · have hmem : t' ∈ (tabs.eraseIdx i).drop j := by
        rw [List.mem_iff_getElem?]
        refine ⟨0, ?_⟩
        rw [List.getElem?_drop, List.getElem?_eraseIdx,
          if_pos (by omega)]
        exact ht'
      cases hp : t.pinned with
      | true => exact (h.pinned_of_le ht' ht (Nat.le_of_lt hgt) hp).symm
      | false => exact (hright hp t' hmem).symm
  · intro hsame
    refine ⟨fun hp x hx => ?_, fun hp x hx => ?_⟩
    · obtain ⟨k, hk, hx⟩ := mem_take_eraseIdx hx
      exact h.pinned_of_le hx ht' hk (hsame ▸ hp)
    · obtain ⟨k, hk, hx⟩ := mem_drop_eraseIdx hx
      cases hpx : x.pinned with
      | false => rfl
      | true =>
        have hpt := h.pinned_of_le ht' hx hk hpx
        rw [← hsame, hp] at hpt
        cases hpt

theorem reorderTabs_consistent_iff {i j : Nat} (h : Consistent s)
    (hi : i < s.bottomTabs.length) (hj : j < s.bottomTabs.length) :
    Consistent (reorderTabs i j s) ↔ Careful s (.reorderTabs i j) := by
  have hti := List.getElem?_eq_getElem hi
  have htj := List.getElem?_eq_getElem hj
  have hmove := ordered_move_iff h.ordered hti htj
  have hperm := (reorderTabs_perm hi hj).map (·.id)
  rw [Careful, hti, htj]
  simp only [Option.mem_some_iff, forall_eq']
  rw [← hmove]
  rw [reorderTabs_eq hti] at hperm ⊢
  exact ⟨fun h' => h'.ordered, fun h' => h.of_perm hperm rfl h'⟩

-- ======== one step

/-- A step from a consistent panel leaves one where it is careful, and
only there. -/
theorem apply_consistent_iff {a : Act} (h : Consistent s)
    (ha : a.allowed s) :
    Consistent (a.apply currentContext s) ↔ Careful s a := by
  cases a with
  | openTab tab => exact openTab_consistent_iff h ha
  | togglePinTab tabId =>
    exact iff_of_true (togglePinTab_consistent h) trivial
  | closeTab tabId => exact closeTab_consistent_iff h ha
  | closeOtherTabs tabId =>
    exact iff_of_true (closeOtherTabs_consistent h ha) trivial
  | closeTabsToRight tabId => exact closeTabsToRight_consistent_iff h ha
  | closeAllTabs => exact closeAllTabs_consistent_iff h
  | reorderTabs i j => exact reorderTabs_consistent_iff h ha.1 ha.2
  | activate tabId =>
    refine iff_of_true ?_ trivial
    exact Consistent.of_has h.unique h.ordered rfl ha

def Unique (s : State) : Prop := (s.bottomTabs.map (·.id)).Nodup

/-- No step opens a second tab of an id. -/
theorem Unique.apply {a : Act} (h : Unique s) (ha : a.allowed s) :
    Unique (a.apply currentContext s) := by
  cases a with
  | openTab tab =>
    show ((openTab currentContext tab s).bottomTabs.map (·.id)).Nodup
    by_cases hin : s.has tab.id
    · obtain ⟨left, t, right, hat, hleft, -⟩ := around_of_has h hin
      rw [openTab_around hat hleft]
      have hids : ((left ++ tab.over t :: right).map (·.id))
          = s.bottomTabs.map (·.id) := by
        simp [hat.1, Opened.over, hat.2]
      exact hids ▸ h
    · rw [openTab_of_not_has hin]
      dsimp only
      rw [List.map_append, List.nodup_append]
      refine ⟨h, List.nodup_singleton _, fun id hid id' hid' heq => ?_⟩
      obtain rfl : id' = tab.id := List.mem_singleton.mp hid'
      exact hin (has_iff.mpr (heq ▸ hid))
  | togglePinTab tabId =>
    have hids := (togglePinTab_perm (s := s) tabId).map (·.id)
    rw [List.map_map, show (fun t : BottomTab => t.id) ∘ toggled tabId
      = fun t => t.id from funext (toggled_id tabId)] at hids
    exact hids.nodup_iff.mpr h
  | closeTab tabId =>
    show ((closeTab tabId s).bottomTabs.map (·.id)).Nodup
    unfold closeTab
    split
    · exact h
    · exact h.sublist (List.filter_sublist.map _)
  | closeOtherTabs tabId => exact h.sublist (List.filter_sublist.map _)
  | closeTabsToRight tabId =>
    obtain ⟨left, t, right, hat, hleft, -⟩ := around_of_has h ha
    show ((closeTabsToRight tabId s).bottomTabs.map (·.id)).Nodup
    rw [closeTabsToRight_around hat hleft]
    unfold Unique at h
    rw [hat.1] at h
    exact h.sublist (((List.filter_sublist.cons_cons t).append_left left).map _)
  | closeAllTabs => exact h.sublist (List.filter_sublist.map _)
  | reorderTabs i j =>
    exact ((reorderTabs_perm ha.1 ha.2).map _).nodup_iff.mpr h
  | activate tabId => exact h

theorem Kept.of_old {a : Act} {s' : State} (h : Unique s)
    (hold : ∀ t' ∈ s'.bottomTabs, ∃ t ∈ s.bottomTabs,
      t'.id = t.id ∧ t'.context = t.context)
    (hpinned : ∀ t ∈ s.bottomTabs, t.pinned = true → s'.has t.id) :
    Kept currentContext a s s' := by
  refine ⟨hpinned, fun t ht t' ht' hid => ?_, fun t' ht' => ?_⟩
  · obtain ⟨t₀, ht₀, hid₀, hcontext⟩ := hold t' ht'
    rw [hcontext, eq_of_id h ht₀ ht (hid₀.symm.trans hid)]
  · obtain ⟨t, ht, hid, -⟩ := hold t' ht'
    exact .inl ⟨t, ht, hid.symm⟩

theorem Kept.of_subset {a : Act} {s' : State} (h : Unique s)
    (hsub : ∀ t ∈ s'.bottomTabs, t ∈ s.bottomTabs)
    (hpinned : ∀ t ∈ s.bottomTabs, t.pinned = true → t ∈ s'.bottomTabs) :
    Kept currentContext a s s' :=
  Kept.of_old h (fun t ht => ⟨t, hsub t ht, rfl, rfl⟩)
    fun t ht hp => ⟨t, hpinned t ht hp, rfl⟩

theorem openTab_kept {tab : Opened} (h : Unique s) :
    Kept currentContext (.openTab tab) s
      (openTab currentContext tab s) := by
  by_cases hin : s.has tab.id
  case pos =>
    obtain ⟨left, t, right, hat, hleft, -⟩ := around_of_has h hin
    rw [openTab_around hat hleft]
    refine Kept.of_old h (fun t' ht' => ?_) fun t' ht' _ => ?_
    · rw [List.mem_append, List.mem_cons] at ht'
      rw [hat.1]
      rcases ht' with hl | rfl | hr
      · exact ⟨t', by simp [hl], rfl, rfl⟩
      · exact ⟨t, by simp, hat.2.symm, rfl⟩
      · exact ⟨t', by simp [hr], rfl, rfl⟩
    · rw [hat.1, List.mem_append, List.mem_cons] at ht'
      rcases ht' with hl | rfl | hr
      · exact ⟨t', by simp [hl], rfl⟩
      · exact ⟨tab.over t', by simp, hat.2.symm⟩
      · exact ⟨t', by simp [hr], rfl⟩
  case neg =>
    rw [openTab_of_not_has hin]
    refine ⟨fun t ht _ => ⟨t, List.mem_append_left _ ht, rfl⟩,
      fun t ht t' ht' hid => ?_, fun t' ht' => ?_⟩
    · rcases List.mem_append.mp ht' with ht' | ht'
      · rw [eq_of_id h ht' ht hid]
      · obtain rfl := List.mem_singleton.mp ht'
        exact absurd ⟨t, ht, hid.symm⟩ hin
    · rcases List.mem_append.mp ht' with ht' | ht'
      · exact .inl ⟨t', ht', rfl⟩
      · obtain rfl := List.mem_singleton.mp ht'
        exact .inr ⟨tab, rfl, rfl, rfl⟩

theorem togglePinTab_kept {tabId : String} (h : Unique s) :
    Kept currentContext (.togglePinTab tabId) s
      (togglePinTab tabId s) := by
  have hperm := togglePinTab_perm (s := s) tabId
  refine Kept.of_old h (fun t' ht' => ?_) fun t ht _ => ?_
  · obtain ⟨t, ht, rfl⟩ := List.mem_map.mp (hperm.mem_iff.mp ht')
    exact ⟨t, ht, toggled_id tabId t, toggled_context tabId t⟩
  · exact ⟨toggled tabId t,
      hperm.mem_iff.mpr (List.mem_map_of_mem ht), toggled_id tabId t⟩

theorem closeTab_kept {tabId : String} (h : Unique s)
    (hin : s.has tabId) :
    Kept currentContext (.closeTab tabId) s (closeTab tabId s) := by
  obtain ⟨left, t, right, hat, hleft, hright⟩ :=
    around_of_has h hin
  cases hp : t.pinned with
  | true =>
    rw [closeTab_pinned hat hleft hp]
    exact Kept.of_subset h (fun _ ht => ht) fun _ ht _ => ht
  | false =>
    rw [closeTab_around hat hleft hright hp]
    refine Kept.of_subset h (fun x hx => ?_) fun x hx hpx => ?_
    · rw [hat.1]
      rcases List.mem_append.mp hx with hl | hr
      · exact List.mem_append_left _ hl
      · exact List.mem_append_right _ (List.mem_cons_of_mem _ hr)
    · rw [hat.1, List.mem_append, List.mem_cons] at hx
      rcases hx with hl | rfl | hr
      · exact List.mem_append_left _ hl
      · rw [hp] at hpx
        cases hpx
      · exact List.mem_append_right _ hr

theorem closeTabsToRight_kept {tabId : String} (h : Unique s)
    (hin : s.has tabId) :
    Kept currentContext (.closeTabsToRight tabId) s
      (closeTabsToRight tabId s) := by
  obtain ⟨left, t, right, hat, hleft, -⟩ := around_of_has h hin
  rw [closeTabsToRight_around hat hleft]
  refine Kept.of_subset h (fun x hx => ?_) fun x hx hp => ?_
  · rw [List.mem_append, List.mem_cons, List.mem_filter] at hx
    rw [hat.1, List.mem_append, List.mem_cons]
    exact hx.imp_right (Or.imp_right And.left)
  · rw [hat.1, List.mem_append, List.mem_cons] at hx
    rw [List.mem_append, List.mem_cons, List.mem_filter]
    exact hx.imp_right (Or.imp_right fun hr => ⟨hr, hp⟩)

/-- No step removes a pinned tab or changes a context, as long as the ids are
distinct. -/
theorem Unique.kept {a : Act} (h : Unique s) (ha : a.allowed s) :
    Kept currentContext a s (a.apply currentContext s) := by
  cases a with
  | openTab tab => exact openTab_kept h
  | togglePinTab tabId => exact togglePinTab_kept h
  | closeTab tabId => exact closeTab_kept h ha
  | closeOtherTabs tabId =>
    refine Kept.of_subset h (fun t ht => (List.mem_filter.mp ht).1) ?_
    exact fun t ht hp => List.mem_filter.mpr ⟨ht, by simp [hp]⟩
  | closeTabsToRight tabId => exact closeTabsToRight_kept h ha
  | closeAllTabs =>
    refine Kept.of_subset h (fun t ht => (List.mem_filter.mp ht).1) ?_
    exact fun t ht hp => List.mem_filter.mpr ⟨ht, hp⟩
  | reorderTabs i j =>
    have hperm := reorderTabs_perm ha.1 ha.2
    exact Kept.of_subset h (fun t ht => hperm.mem_iff.mp ht)
      fun t ht _ => hperm.mem_iff.mpr ht
  | activate tabId =>
    exact Kept.of_subset h (fun _ ht => ht) fun _ ht _ => ht

theorem apply_kept {a : Act} (h : Consistent s) (ha : a.allowed s) :
    Kept currentContext a s (a.apply currentContext s) :=
  Unique.kept h.unique ha

end Steps

-- ======== runs

theorem start_consistent : Consistent start :=
  ⟨List.nodup_nil, List.Pairwise.nil, fun _ hf => (by cases hf),
    iff_of_true rfl rfl⟩

theorem panel_cases {currentContext : Context} {s s' : State} {a : Act}
    {o : List Empty} (h : panel currentContext a s = some (s', o)) :
    a.allowed s ∧ s' = a.apply currentContext s := by
  unfold panel at h
  split at h
  case isTrue hallowed =>
    simp only [Option.some.injEq, Prod.mk.injEq] at h
    exact ⟨hallowed, h.1.symm⟩
  case isFalse => cases h

/-- The panel is right in a run exactly where every step of it is
careful. -/
theorem panel_right_iff (currentContext : Context) (acts : List Act) :
    Holds currentContext acts
      ↔ Machine.Along (panel currentContext) Careful start acts := by
  have hstep : ∀ {a s s' o}, Consistent s → Careful s a →
      panel currentContext a s = some (s', o) → Consistent s' := by
    intro a s s' o h hcare hs
    obtain ⟨ha, rfl⟩ := panel_cases hs
    exact (apply_consistent_iff h ha).mpr hcare
  have hbad : ∀ {a s s' o}, Consistent s →
      panel currentContext a s = some (s', o) → Consistent s' →
      Careful s a := by
    intro a s s' o h hs h'
    obtain ⟨ha, rfl⟩ := panel_cases hs
    exact (apply_consistent_iff h ha).mp h'
  rw [Holds, Machine.visits_iff_along hstep (fun h => h) hbad
    start_consistent]
  refine and_iff_left_of_imp fun hcare => ?_
  exact hcare.of_invariant hstep
    (fun h hs => apply_kept h (panel_cases hs).1) start_consistent

/-- In every run, careful or not, the ids are distinct in every state, and no
step removes a pinned tab or changes a context. -/
theorem panel_kept (currentContext : Context) (acts : List Act) :
    Machine.Visits (panel currentContext) Unique start acts
      ∧ Machine.Along (panel currentContext)
          (fun s a => Kept currentContext a s (a.apply currentContext s))
          start acts := by
  have hstep : ∀ {a s s' o}, Unique s → True →
      panel currentContext a s = some (s', o) → Unique s' := by
    intro a s s' o h _ hs
    obtain ⟨ha, rfl⟩ := panel_cases hs
    exact h.apply ha
  have hstart : Unique start := List.nodup_nil
  refine ⟨Machine.visits_of_invariant hstep (fun h => h) hstart
    Machine.along_true, ?_⟩
  exact Machine.along_true.of_invariant hstep
    (fun h hs => h.kept (panel_cases hs).1) hstart

/-- Two tabs, and the one to the right of the first is active as it is
closed. -/
theorem panel_stale : ¬ Holds .undefined
    [.openTab ⟨"a", "A", none, none⟩, .openTab ⟨"b", "B", none, none⟩,
      .closeTabsToRight "a"] := by
  intro h
  have hlast := ((h.1.2 _ _ rfl).2 _ _ rfl).2 _ _ rfl
  have hactive := hlast.active "b" rfl
  revert hactive
  decide

end BottomTabs
