/-
The selection of a list view (`useSelection`,
frontend/src/hooks/useSelection.tsx).

# Updates

A call of a setter queues an update. React runs it at the call, if nothing
is queued, or later, in the order of the calls, and it may run it again on
what it ran on before. The update of `toggleItem` reads the last selected
index when it runs; the call has set that index by the time it returns.

# The argument

The index the ref holds is that of the calls made so far
(`Inv.lastSelectedIndex`), so an update that runs at its call does what its
call asks for (`update_eq`). One that runs later does so exactly if the index
that is there by then gives the same (`update_eq_iff_fits`): the ranges from
the two of them differ in items only that are selected already.
-/
import Kubikles.Lib.Machine
import Mathlib.Data.Finset.Card

namespace Selection

open Machine (Step Along Visits visits_iff_along)

-- ======== the model

/-- What a list of items holds as the `metadata.uid` of each. -/
abbrev Items := List (Option String)

/-- The uid of an item that has one (`""` counts as none). -/
def truthy (uid : Option String) : Option String :=
  uid.filter fun uid => uid ≠ ""

def uidsOf (items : Items) : Finset String :=
  (items.filterMap truthy).toFinset

/-- The calls of the hook that change the selection. -/
inductive Call where
  | toggleItem (uid : String) (index : Nat) (items : Option Items)
      (shiftKey : Bool)
  | selectItem (uid : String)
  | deselectItem (uid : String)
  | selectAll (items : Items)
  | deselectAll
  | toggleAll (items : Items)
deriving DecidableEq

def toggle (uid : String) (prev : Finset String) : Finset String :=
  if uid ∈ prev then prev.erase uid else insert uid prev

/-- One turn of the loop over a range. -/
def addItem (items : Items) (next : Finset String) (i : Nat) :
    Finset String :=
  match truthy (items[i]?).join with
  | none => next
  | some uid => insert uid next

def addRange (items : Items) (last index : Nat) (prev : Finset String) :
    Finset String :=
  let start := min last index
  (List.range' start (max last index + 1 - start)).foldl (addItem items) prev

/-- The update a call queues, as it is when the ref holds this index. -/
def Call.update (lastSelectedIndex : Option Nat) (prev : Finset String) :
    Call → Finset String
  | .toggleItem uid index items shiftKey =>
    match shiftKey, lastSelectedIndex, items with
    | true, some last, some items => addRange items last index prev
    | _, _, _ => toggle uid prev
  | .selectItem uid => insert uid prev
  | .deselectItem uid => prev.erase uid
  | .selectAll items => uidsOf items
  | .deselectAll => ∅
  | .toggleAll items => if 0 < prev.card then ∅ else uidsOf items

def Call.setRef (lastSelectedIndex : Option Nat) : Call → Option Nat
  | .toggleItem _ index _ _ => some index
  | .deselectAll => none
  | _ => lastSelectedIndex

/-- The hook, with the calls whose updates have run and those whose updates
are queued. -/
structure State where
  /-- What the updates that have run have made of the selection. -/
  selectedIds : Finset String := ∅
  lastSelectedIndex : Option Nat := none
  /-- The oldest first. -/
  queue : List Call := []
  /-- The newest first. -/
  ran : List Call := []
  /-- What the newest of them ran on. -/
  prev : Finset String := ∅

inductive Act where
  /-- A call, and whether its update runs at once. -/
  | call (eager : Bool) (call : Call)
  | run
  | runAgain

/-- What is selected once the update of a call has run. -/
def State.updated (s : State) (prev : Finset String) (call : Call) :
    Finset String := call.update s.lastSelectedIndex prev

def step : Step State Act Unit
  | .call true c, s =>
    if s.queue = [] then
      some ({ s with
        selectedIds := s.updated s.selectedIds c
        lastSelectedIndex := c.setRef s.lastSelectedIndex
        ran := c :: s.ran
        prev := s.selectedIds }, [])
    else none
  | .call false c, s =>
    some ({ s with
      queue := s.queue ++ [c]
      lastSelectedIndex := c.setRef s.lastSelectedIndex }, [])
  | .run, s =>
    match s.queue with
    | [] => none
    | c :: queue =>
      some ({ s with
        selectedIds := s.updated s.selectedIds c
        queue
        ran := c :: s.ran
        prev := s.selectedIds }, [])
  | .runAgain, s =>
    match s.ran with
    | [] => none
    | c :: _ => some ({ s with selectedIds := s.updated s.prev c }, [])

-- ======== what is asked for

/-- A selection, and the index that was clicked last. -/
structure Sequential where
  selectedIds : Finset String := ∅
  clicked : Option Nat := none

/-- The items between two positions, these included. -/
def between (items : Items) (a b : Nat) : Finset String :=
  uidsOf ((items.take (max a b + 1)).drop (min a b))

def Call.perform (s : Sequential) : Call → Sequential
  | .toggleItem uid index items shiftKey =>
    { clicked := some index
      selectedIds :=
        match shiftKey, s.clicked, items with
        | true, some last, some items =>
          s.selectedIds ∪ between items last index
        | _, _, _ => toggle uid s.selectedIds }
  | .selectItem uid => { s with selectedIds := insert uid s.selectedIds }
  | .deselectItem uid => { s with selectedIds := s.selectedIds.erase uid }
  | .selectAll items => { s with selectedIds := uidsOf items }
  | .deselectAll => {}
  | .toggleAll items =>
    { s with
      selectedIds := if s.selectedIds = ∅ then uidsOf items else ∅ }

/-- Calls one after the other, the newest first. -/
def sequential : List Call → Sequential
  | [] => {}
  | c :: before => c.perform (sequential before)

/-- The selection is that of the calls whose updates have run. -/
def State.Right (s : State) : Prop :=
  s.selectedIds = (sequential s.ran).selectedIds

/-- For a click with shift, the index that was clicked before (`a`) and the
one in the ref (`b`) give the same: what is in one range only is selected
already; and where one of them is missing, the range of the other is the
item itself and what is selected already. -/
def Agree (prev : Finset String) (uid : String) (index : Nat)
    (items : Items) : Option Nat → Option Nat → Prop
  | none, none => True
  | some a, some b =>
    ∀ u, (u ∈ between items a index ↔ u ∈ between items b index) ∨ u ∈ prev
  | some a, none | none, some a =>
    uid ∉ prev ∧ uid ∈ between items a index
      ∧ ∀ u ∈ between items a index, u = uid ∨ u ∈ prev

/-- The index in the ref is as good as the one that was clicked before. -/
def Call.Fits (prev : Finset String) (a b : Option Nat) : Call → Prop
  | .toggleItem uid index (some items) true =>
    Agree prev uid index items a b
  | _ => True

/-- An update that does not run at its call finds an index that fits. -/
def Timely (s : State) : Act → Prop
  | .call _ _ => True
  | .run =>
    ∀ c ∈ s.queue.head?,
      c.Fits s.selectedIds (sequential s.ran).clicked s.lastSelectedIndex
  | .runAgain =>
    ∀ c ∈ s.ran.head?,
      c.Fits s.prev (sequential s.ran.tail).clicked s.lastSelectedIndex

-- ======== updates

variable {prev : Finset String} {items : Items} {uid : String}
  {a b index : Nat} {s s' : State} {c : Call}

theorem mem_uidsOf : uid ∈ uidsOf items
    ↔ ∃ i : Nat, truthy (items[i]?).join = some uid := by
  unfold uidsOf
  rw [List.mem_toFinset, List.mem_filterMap]
  constructor
  · rintro ⟨item, hitem, htruthy⟩
    obtain ⟨i, hi⟩ := List.mem_iff_getElem?.mp hitem
    refine ⟨i, ?_⟩
    rw [hi]
    exact htruthy
  · rintro ⟨i, hi⟩
    cases hitem : items[i]? with
    | none =>
      rw [hitem] at hi
      cases hi
    | some item =>
      rw [hitem] at hi
      exact ⟨item, List.mem_of_getElem? hitem, hi⟩

theorem mem_between : uid ∈ between items a b
    ↔ ∃ i : Nat, min a b ≤ i ∧ i ≤ max a b
        ∧ truthy (items[i]?).join = some uid := by
  unfold between
  rw [mem_uidsOf]
  constructor
  · rintro ⟨i, hi⟩
    rw [List.getElem?_drop, List.getElem?_take] at hi
    split at hi
    next hlt => exact ⟨min a b + i, by omega, by omega, hi⟩
    · cases hi
  · rintro ⟨i, hmin, hmax, hi⟩
    refine ⟨i - min a b, ?_⟩
    rw [List.getElem?_drop, List.getElem?_take, if_pos (by omega),
      show min a b + (i - min a b) = i by omega]
    exact hi

theorem mem_foldl_addItem (positions : List Nat) :
    uid ∈ positions.foldl (addItem items) prev
      ↔ uid ∈ prev
        ∨ ∃ i ∈ positions, truthy (items[i]?).join = some uid := by
  induction positions generalizing prev with
  | nil => simp
  | cons i positions ih =>
    rw [List.foldl_cons, ih, List.exists_mem_cons_iff, ← or_assoc]
    apply or_congr_left
    unfold addItem
    split
    next h => simp [h]
    next v h =>
      rw [h, Finset.mem_insert, or_comm, Option.some.injEq, eq_comm]

theorem addRange_eq (items : Items) (a b : Nat) (prev : Finset String) :
    addRange items a b prev = prev ∪ between items a b := by
  ext uid
  unfold addRange
  rw [mem_foldl_addItem, Finset.mem_union, mem_between]
  apply or_congr_right
  apply exists_congr
  intro i
  rw [List.mem_range'_1, and_assoc]
  apply and_congr_right
  intro hmin
  apply and_congr_left
  intro _
  omega

/-- An update that finds the index that was clicked before does what its
call is for. -/
theorem update_eq (s : Sequential) (c : Call) :
    c.update s.clicked s.selectedIds = (c.perform s).selectedIds := by
  cases c with
  | toggleItem uid index items shiftKey =>
    unfold Call.update Call.perform
    cases shiftKey <;> cases s.clicked <;> cases items <;> try rfl
    exact addRange_eq _ _ _ _
  | selectItem uid => rfl
  | deselectItem uid => rfl
  | selectAll items => rfl
  | deselectAll => rfl
  | toggleAll items =>
    show (if 0 < s.selectedIds.card then ∅ else uidsOf items)
      = if s.selectedIds = ∅ then uidsOf items else ∅
    by_cases h : s.selectedIds = ∅
    · rw [if_pos h, h]
      rfl
    · rw [if_neg h, if_pos (Finset.card_pos.mpr
        (Finset.nonempty_iff_ne_empty.mpr h))]

theorem setRef_eq (s : Sequential) (c : Call) :
    c.setRef s.clicked = (c.perform s).clicked := by
  cases c <;> rfl

-- ======== other indices

/-- A range does what a plain click does exactly if the item is not selected,
is in the range, and is all that the range adds. -/
theorem toggle_eq_addRange_iff :
    toggle uid prev = addRange items a index prev
      ↔ uid ∉ prev ∧ uid ∈ between items a index
        ∧ ∀ u ∈ between items a index, u = uid ∨ u ∈ prev := by
  rw [addRange_eq]
  unfold toggle
  constructor
  · intro h
    have hnot : uid ∉ prev := by
      intro hmem
      rw [if_pos hmem] at h
      have hin : uid ∈ prev.erase uid := by
        rw [h]
        exact Finset.mem_union_left _ hmem
      exact Finset.notMem_erase uid prev hin
    rw [if_neg hnot] at h
    refine ⟨hnot, ?_, fun u hu => ?_⟩
    · have hin := Finset.mem_insert_self uid prev
      rw [h, Finset.mem_union] at hin
      exact hin.resolve_left hnot
    · rw [← Finset.mem_insert, h]
      exact Finset.mem_union_right _ hu
  · rintro ⟨hnot, hin, hall⟩
    rw [if_neg hnot]
    ext u
    rw [Finset.mem_insert, Finset.mem_union]
    constructor
    · rintro (rfl | hu)
      · exact Or.inr hin
      · exact Or.inl hu
    · rintro (hu | hu)
      · exact Or.inr hu
      · exact hall u hu

/-- Two ranges do the same exactly if what is in one of them only is
selected. -/
theorem addRange_eq_iff :
    addRange items b index prev = addRange items a index prev
      ↔ ∀ u, (u ∈ between items a index ↔ u ∈ between items b index)
          ∨ u ∈ prev := by
  rw [addRange_eq, addRange_eq, Finset.ext_iff]
  apply forall_congr'
  intro u
  rw [Finset.mem_union, Finset.mem_union]
  tauto

/-- An update does the same with two indices exactly if the one fits for the
other. -/
theorem update_eq_iff_fits {thn now : Option Nat} :
    c.update now prev = c.update thn prev ↔ c.Fits prev thn now := by
  cases c with
  | toggleItem uid index items shiftKey =>
    cases shiftKey with
    | false => cases items <;> exact iff_of_true rfl trivial
    | true =>
      cases items with
      | none => cases thn <;> cases now <;> exact iff_of_true rfl trivial
      | some items =>
        cases thn with
        | none =>
          cases now with
          | none => exact iff_of_true rfl trivial
          | some b => exact eq_comm.trans toggle_eq_addRange_iff
        | some a =>
          cases now with
          | none => exact toggle_eq_addRange_iff
          | some b => exact addRange_eq_iff
  | _ => exact iff_of_true rfl trivial

-- ======== runs

structure Inv (s : State) : Prop where
  lastSelectedIndex :
    s.lastSelectedIndex = (sequential (s.queue.reverse ++ s.ran)).clicked
  prev : s.ran ≠ [] → s.prev = (sequential s.ran.tail).selectedIds
  right : s.Right

theorem Inv.setRef (h : Inv s) (c : Call) :
    c.setRef s.lastSelectedIndex
      = (sequential (c :: (s.queue.reverse ++ s.ran))).clicked := by
  rw [h.lastSelectedIndex, setRef_eq]
  rfl

theorem updated_eq_iff {before : List Call}
    (hprev : prev = (sequential before).selectedIds) :
    s.updated prev c = (sequential (c :: before)).selectedIds
      ↔ c.Fits prev (sequential before).clicked s.lastSelectedIndex := by
  rw [← update_eq_iff_fits, State.updated, hprev, update_eq]
  rfl

theorem Inv.call {eager : Bool} {o : List Unit} (h : Inv s)
    (hstep : step (.call eager c) s = some (s', o)) : Inv s' := by
  cases eager with
  | false =>
    obtain ⟨rfl, -⟩ := Prod.mk.inj (Option.some.inj hstep)
    refine ⟨?_, h.prev, h.right⟩
    show c.setRef s.lastSelectedIndex = _
    rw [h.setRef, List.reverse_append]
    rfl
  | true =>
    rw [step] at hstep
    split at hstep
    next hqueue =>
      obtain ⟨rfl, -⟩ := Prod.mk.inj (Option.some.inj hstep)
      have href := h.setRef c
      have hlast := h.lastSelectedIndex
      rw [hqueue] at href hlast
      refine ⟨?_, fun _ => h.right, ?_⟩
      · show c.setRef s.lastSelectedIndex
          = (sequential (s.queue.reverse ++ c :: s.ran)).clicked
        rw [href, hqueue]
        rfl
      · show c.update s.lastSelectedIndex s.selectedIds = _
        rw [hlast, h.right]
        exact update_eq _ c
    · cases hstep

/-- A step in time keeps the invariant, and one that leaves the selection
right was in time. -/
theorem step_inv {act : Act} {o : List Unit} (h : Inv s)
    (hstep : step act s = some (s', o)) :
    (Timely s act → Inv s') ∧ (s'.Right → Timely s act) := by
  cases act with
  | call eager c => exact ⟨fun _ => h.call hstep, fun _ => trivial⟩
  | run =>
    rw [step] at hstep
    split at hstep
    · cases hstep
    next c queue hqueue =>
      obtain ⟨rfl, -⟩ := Prod.mk.inj (Option.some.inj hstep)
      have hupdated := updated_eq_iff (s := s) (c := c) h.right
      constructor
      · intro htimely
        refine ⟨?_, fun _ => h.right, ?_⟩
        · show s.lastSelectedIndex
            = (sequential (queue.reverse ++ c :: s.ran)).clicked
          rw [h.lastSelectedIndex, hqueue, List.reverse_cons,
            List.append_assoc]
          rfl
        · exact hupdated.mpr (htimely c (by rw [hqueue]; rfl))
      · intro hright c' hc'
        rw [hqueue] at hc'
        obtain rfl := Option.some.inj hc'
        exact hupdated.mp hright
  | runAgain =>
    rw [step] at hstep
    split at hstep
    · cases hstep
    next c before hran =>
      obtain ⟨rfl, -⟩ := Prod.mk.inj (Option.some.inj hstep)
      have hprev : s.prev = (sequential before).selectedIds := by
        rw [h.prev (by rw [hran]; exact List.cons_ne_nil _ _), hran]
        rfl
      have hupdated := updated_eq_iff (s := s) (c := c) hprev
      unfold State.Right Timely
      rw [hran]
      constructor
      · intro htimely
        refine ⟨?_, fun _ => hprev, hupdated.mpr (htimely c rfl)⟩
        show s.lastSelectedIndex
          = (sequential (s.queue.reverse ++ c :: before)).clicked
        rw [h.lastSelectedIndex, hran]
      · intro hright c' hc'
        obtain rfl := Option.some.inj hc'
        exact hupdated.mp hright

/-- In every run the selection is always that of the calls whose updates have
run exactly if every update that does not run at its call finds an index
that fits. -/
theorem selected_iff_timely (acts : List Act) :
    Visits step State.Right {} acts ↔ Along step Timely {} acts :=
  visits_iff_along (I := Inv) (fun h hok hstep => (step_inv h hstep).1 hok)
    (fun h => h.right) (fun h hstep hP => (step_inv h hstep).2 hP)
    ⟨rfl, fun h => absurd rfl h, rfl⟩

/-- A click on the first of three items, and then one with shift on the last
while the update of the first is queued. -/
def clickThenShift : List Act :=
  let items := [some "a", some "b", some "c"]
  [.call false (.toggleItem "a" 0 (some items) false),
    .call false (.toggleItem "c" 2 (some items) true), .run, .run]

/-- The item between the two is not selected. -/
theorem range_missed : ¬Visits step State.Right {} clickThenShift := by
  intro h
  have hlast := (((h.2 _ _ rfl).2 _ _ rfl).2 _ _ rfl).2 _ _ rfl
  unfold Visits State.Right at hlast
  exact absurd hlast (by decide)

end Selection
