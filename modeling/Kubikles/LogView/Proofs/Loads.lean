/-
The logs shown belong to the selection where no request comes late.

# The argument

A request writes in the name of the target it was made for, whatever is
selected by the time it settles. Where that is the same target (`InTime`)
nothing foreign is written. What was there before the selection changed
goes at once: the effect clears the logs and starts a full load, which
sets `isAllLoaded` as it starts, and the other two flags as it starts or
as it settles (`Inv.more`). So with nothing pending all of them are the
selected target's.
-/
import Kubikles.LogView.Loads

namespace LoadHook

open LogView
open Machine (run Along Visits)

-- ======== what is shown

/-- What is shown belongs to the selection: each entry was put there by
a request for the selected target, and so was each flag. -/
structure Belongs (v : View) : Prop where
  logs : ∀ e ∈ v.logs, e.target = v.target
  hasMoreBefore : v.hasMoreBefore.target = some v.target
  hasMoreAfter : v.hasMoreAfter.target = some v.target
  isAllLoaded : v.isAllLoaded.target = some v.target

/-- A request that settles so writes to the logs or to a flag: all do but
a poll that brings nothing. -/
def Touches (r : Request) (outcome : Outcome) : Prop :=
  match r.loader, outcome with
  | .pollNewerLogs cursor, .pages pages =>
    drainLogPages maxLogPagesPerPoll pages cursor [] ≠ []
  | .pollNewerLogs _, _ => False
  | _, _ => True

instance touchesDecidable (r : Request) (outcome : Outcome) :
    Decidable (Touches r outcome) := by
  unfold Touches
  split
  · exact inferInstance
  · exact isFalse id
  · exact isTrue trivial

/-- No request comes late: what settles was made for the target that is
selected. And what is selected is there to be loaded. -/
def InTime (props : Props) (v : View) : Act → Prop
  | .select target => props.ready target = true
  | .settle i outcome =>
    match v.requests[i]? with
    | none => True
    | some r => Touches r outcome → r.target = v.target
  | _ => True

instance inTimeDecidable (props : Props) (v : View) (a : Act) :
    Decidable (InTime props v a) := by
  cases a with
  | select target => exact inferInstanceAs (Decidable (_ = _))
  | settle i outcome =>
    unfold InTime
    dsimp only
    split
    · exact isTrue trivial
    · exact inferInstance
  | _ => exact isTrue trivial

-- ======== the invariant

/-- The request is a `fetchLogs`. -/
def IsFetch (r : Request) : Prop :=
  ∃ hadLogs changed resolving, r.loader = .fetchLogs hadLogs changed
    resolving

/-- What holds behind every action. Where the flags for more are not the
selected target's, a `fetchLogs` is pending that will set them. -/
structure Inv (props : Props) (v : View) : Prop where
  ready : props.ready v.target = true
  prev : v.prev = v.target
  logs : ∀ e ∈ v.logs, e.target = v.target
  all : v.isAllLoaded.target = some v.target
  more : v.hasMoreBefore.target = some v.target
      ∧ v.hasMoreAfter.target = some v.target
    ∨ ∃ r ∈ v.requests, IsFetch r

section

variable {props : Props} {v : View}

theorem Inv.belongs (h : Inv props v) (hquiet : v.requests = []) :
    Belongs v := by
  rcases h.more with ⟨hbefore, hafter⟩ | ⟨r, hr, -⟩
  · exact ⟨h.logs, hbefore, hafter, h.all⟩
  · rw [hquiet] at hr
    cases hr

theorem mem_shownFor {target : Target} {entries : List LogEntry}
    {e : Shown} (h : e ∈ View.shownFor target entries) :
    e.target = target := by
  obtain ⟨entry, -, rfl⟩ := List.mem_map.mp h
  rfl

-- ======== the calls

theorem Inv.request (h : Inv props v) (loader : Loader) :
    Inv props (v.request loader) :=
  { h with
    more := h.more.imp_right fun ⟨r, hr, hfetch⟩ =>
      ⟨r, List.mem_append_left _ hr, hfetch⟩ }

theorem inv_fetchLogs (hready : props.ready v.target = true)
    (hprev : v.prev = v.target) (hlogs : ∀ e ∈ v.logs, e.target = v.target)
    (hadLogs refreshTarget : Bool) :
    Inv props (v.fetchLogs hadLogs refreshTarget) := by
  refine ⟨hready, hprev, hlogs, rfl, Or.inr ?_⟩
  exact ⟨_, List.mem_append_right _ (List.mem_singleton_self _),
    hadLogs, false, refreshTarget, rfl⟩

theorem inv_loadAllLogs (hready : props.ready v.target = true)
    (hprev : v.prev = v.target)
    (hlogs : ∀ e ∈ v.logs, e.target = v.target) :
    Inv props v.loadAllLogs :=
  ⟨hready, hprev, hlogs, rfl, Or.inl ⟨rfl, rfl⟩⟩

theorem Inv.setBefore (h : Inv props v) (value : Bool) :
    Inv props { v with hasMoreBefore := View.flag v.target value } :=
  { h with more := h.more.imp_left fun hmore => ⟨rfl, hmore.2⟩ }

theorem Inv.setAfter (h : Inv props v) (value : Bool) :
    Inv props { v with hasMoreAfter := View.flag v.target value } :=
  { h with more := h.more.imp_left fun hmore => ⟨hmore.1, rfl⟩ }

theorem Inv.loadOlderLogs (h : Inv props v) :
    Inv props v.loadOlderLogs := by
  unfold View.loadOlderLogs
  split
  next => exact h
  next =>
    dsimp only
    split
    next => exact h.setBefore false
    next =>
      split
      next => exact h
      next =>
        refine Inv.request ?_ _
        exact { h with }

theorem Inv.loadNewerLogs (h : Inv props v) :
    Inv props v.loadNewerLogs := by
  unfold View.loadNewerLogs
  split
  next => exact h
  next =>
    dsimp only
    split
    next => exact h.setAfter false
    next =>
      split
      next => exact h
      next =>
        refine Inv.request ?_ _
        exact { h with }

theorem Inv.pollNewerLogs (h : Inv props v) :
    Inv props v.pollNewerLogs := by
  unfold View.pollNewerLogs
  split
  next => exact h
  next =>
    dsimp only
    split
    next => exact h
    next =>
      refine Inv.request ?_ _
      exact { h with }

-- ======== the effect

/-- The effect on a new target clears the logs and starts a full
load. -/
theorem runEffect_changed (hready : props.ready v.target = true)
    (hchanged : v.prev ≠ v.target) : Inv props (v.runEffect props) := by
  unfold View.runEffect
  rw [if_neg (by simpa using hready), if_pos hchanged]
  dsimp only
  split
  next =>
    refine inv_loadAllLogs ?_ ?_ ?_
    · exact hready
    · rfl
    · exact fun e he => by cases he
  next =>
    refine inv_fetchLogs ?_ ?_ ?_ _ _
    · exact hready
    · rfl
    · exact fun e he => by cases he

theorem Inv.runEffect (h : Inv props v) :
    Inv props (v.runEffect props) := by
  unfold View.runEffect
  rw [if_neg (by simpa using h.ready), if_neg (by simpa using h.prev)]
  have hdone : Inv props { v with initialLoadDone := true } := { h with }
  split
  next => exact inv_loadAllLogs hdone.ready hdone.prev hdone.logs
  next =>
    split
    next => exact h
    next => exact inv_fetchLogs hdone.ready hdone.prev hdone.logs _ _

theorem Inv.select (h : Inv props v) {target : Target}
    (hready : props.ready target = true) :
    Inv props ({ v with target := target }.runEffect props) := by
  by_cases hsame : v.prev = target
  · rw [hsame.symm.trans h.prev]
    exact h.runEffect
  · exact runEffect_changed hready hsame

theorem inv_mount {target : Target} (hready : props.ready target = true) :
    Inv props (View.mount props target) := by
  unfold View.mount View.runEffect
  rw [if_neg (by simpa using hready), if_neg (by simp)]
  split
  next => exact inv_loadAllLogs hready rfl fun e he => by cases he
  next hinitial =>
    have hno : props.initialAll = false := by simpa using hinitial
    rw [if_neg (by simp [hno])]
    exact inv_fetchLogs hready rfl (fun e he => by cases he) _ _

-- ======== the completions

theorem exists_fetch_eraseIdx {r : Request} {i : Nat}
    (hr : v.requests[i]? = some r) (hloader : ¬ IsFetch r)
    (h : ∃ r ∈ v.requests, IsFetch r) :
    ∃ r ∈ v.requests.eraseIdx i, IsFetch r := by
  obtain ⟨r', hmem, hfetch⟩ := h
  obtain ⟨j, hj⟩ := List.mem_iff_getElem?.mp hmem
  refine ⟨r', List.mem_eraseIdx_iff_getElem?.mpr ⟨j, ?_, hj⟩, hfetch⟩
  intro heq
  rw [heq, hr] at hj
  cases hj
  exact hloader hfetch

theorem Inv.take (h : Inv props v) {r : Request} {i : Nat}
    (hr : v.requests[i]? = some r) (hloader : ¬ IsFetch r) :
    Inv props { v with requests := v.requests.eraseIdx i } :=
  { h with more := h.more.imp_right (exists_fetch_eraseIdx hr hloader) }

theorem Inv.setLogs (h : Inv props v) {logs : List Shown}
    (hlogs : ∀ e ∈ logs, e.target = v.target) :
    Inv props { v with logs := logs } :=
  { h with logs := hlogs }

theorem mem_appendUnique {α : Type} {entry : α → LogEntry}
    {existing incoming : List α} {e : α}
    (h : e ∈ appendUnique entry existing incoming) :
    e ∈ existing ∨ e ∈ incoming := by
  unfold appendUnique at h
  induction incoming generalizing existing with
  | nil => exact Or.inl h
  | cons item incoming ih =>
    rw [List.foldl_cons] at h
    rcases ih h with hmem | hmem
    · split at hmem
      · exact Or.inl hmem
      · rcases List.mem_append.mp hmem with hold | hnew
        · exact Or.inl hold
        · rw [List.mem_singleton.mp hnew]
          exact Or.inr (List.mem_cons_self ..)
    · exact Or.inr (List.mem_cons_of_mem _ hmem)

theorem Inv.fetched (h : Inv props v) {r : Request} {i : Nat}
    (htarget : r.target = v.target) (hadLogs changed : Bool)
    (rawLogs : String) :
    Inv props ({ v with requests := v.requests.eraseIdx i }.fetched r
      hadLogs changed rawLogs) := by
  refine ⟨h.ready, h.prev, ?_, h.all, Or.inl ⟨?_, ?_⟩⟩
  · intro e he
    change e ∈ (if _ then _ else _) at he
    split at he
    next => exact h.logs e he
    next => exact (mem_shownFor he).trans htarget
  · exact congrArg some htarget
  · exact congrArg some htarget

theorem Inv.fetchFailed (h : Inv props v) {r : Request} {i : Nat}
    (htarget : r.target = v.target) (hadLogs : Bool) :
    Inv props ({ v with requests := v.requests.eraseIdx i }.fetchFailed r
      hadLogs) := by
  refine ⟨h.ready, h.prev, ?_, h.all, Or.inl ⟨?_, ?_⟩⟩
  · intro e he
    change e ∈ (if _ then _ else _) at he
    split at he
    next => exact h.logs e he
    next => cases he
  · exact congrArg some htarget
  · exact congrArg some htarget

theorem Inv.allLoaded (h : Inv props v) {r : Request}
    (htarget : r.target = v.target) (outcome : Except String String) :
    Inv props (v.allLoaded r outcome) := by
  have hlogs : ∀ entries, ∀ e ∈ View.shownFor r.target entries,
      e.target = v.target :=
    fun _ e he => (mem_shownFor he).trans htarget
  cases outcome with
  | ok rawLogs => exact h.setLogs (hlogs _)
  | error err =>
    exact { h.setLogs (hlogs _) with all := congrArg some htarget }

theorem Inv.olderLoaded (h : Inv props v) {r : Request}
    (htarget : r.target = v.target) (outcome : Except String Page) :
    Inv props (v.olderLoaded r outcome) := by
  have hflag : ∀ value, Inv props
      { v with hasMoreBefore := View.flag r.target value
               loadingBefore := false } := by
    intro value
    rw [htarget]
    exact { h.setBefore value with }
  cases outcome with
  | error err => exact hflag false
  | ok page =>
    unfold View.olderLoaded
    dsimp only
    split
    next =>
      refine (hflag page.hasMore).setLogs fun e he => ?_
      rcases List.mem_append.mp he with hnew | hold
      · exact (mem_shownFor hnew).trans htarget
      · exact h.logs e hold
    next => exact hflag false

theorem Inv.newerLoaded (h : Inv props v) {r : Request}
    (htarget : r.target = v.target) (outcome : Except String Page) :
    Inv props (v.newerLoaded r outcome) := by
  have hflag : ∀ value, Inv props
      { v with hasMoreAfter := View.flag r.target value
               loadingAfter := false } := by
    intro value
    rw [htarget]
    exact { h.setAfter value with }
  cases outcome with
  | error err => exact hflag false
  | ok page =>
    unfold View.newerLoaded
    dsimp only
    split
    next =>
      refine (hflag page.hasMore).setLogs fun e he => ?_
      rcases List.mem_append.mp he with hold | hnew
      · exact h.logs e hold
      · exact (mem_shownFor hnew).trans htarget
    next => exact hflag false

theorem Inv.polled (h : Inv props v) {r : Request} {cursor : String}
    {outcome : Except String (List Page)}
    (htarget : ∀ pages, outcome = .ok pages →
      drainLogPages maxLogPagesPerPoll pages cursor [] ≠ [] →
      r.target = v.target) :
    Inv props (v.polled r cursor outcome) := by
  have hidle : Inv props { v with pollingAfter := false } := { h with }
  cases outcome with
  | error err => exact hidle
  | ok pages =>
    refine hidle.setLogs fun e he => ?_
    rcases mem_appendUnique he with hold | hnew
    · exact h.logs e hold
    · refine (mem_shownFor hnew).trans (htarget pages rfl fun hnil => ?_)
      rw [hnil] at hnew
      cases hnew

/-- A request that settles in time keeps the invariant. -/
theorem Inv.settled (h : Inv props v) {r : Request} {i : Nat}
    (hr : v.requests[i]? = some r) {outcome : Outcome}
    (htarget : Touches r outcome → r.target = v.target) {v' : View}
    (hsettled : { v with requests := v.requests.eraseIdx i }.settled r
      outcome = some v') : Inv props v' := by
  obtain ⟨loader, target⟩ := r
  have htake : ¬ IsFetch ⟨loader, target⟩ →
      Inv props { v with requests := v.requests.eraseIdx i } :=
    h.take hr
  unfold View.settled at hsettled
  dsimp only at hsettled
  split at hsettled
  next hadLogs changed rawLogs =>
    cases hsettled
    exact h.fetched (htarget trivial) hadLogs changed rawLogs
  next hadLogs changed resolving err =>
    cases hsettled
    exact h.fetchFailed (htarget trivial) hadLogs
  next rawLogs =>
    cases hsettled
    exact (htake (by simp [IsFetch])).allLoaded (htarget trivial) _
  next err =>
    cases hsettled
    exact (htake (by simp [IsFetch])).allLoaded (htarget trivial) _
  next page =>
    cases hsettled
    exact (htake (by simp [IsFetch])).olderLoaded (htarget trivial) _
  next err =>
    cases hsettled
    exact (htake (by simp [IsFetch])).olderLoaded (htarget trivial) _
  next page =>
    cases hsettled
    exact (htake (by simp [IsFetch])).newerLoaded (htarget trivial) _
  next err =>
    cases hsettled
    exact (htake (by simp [IsFetch])).newerLoaded (htarget trivial) _
  next cursor pages =>
    cases hsettled
    refine (htake (by simp [IsFetch])).polled fun pages' heq hnew => ?_
    cases heq
    exact htarget hnew
  next cursor err =>
    cases hsettled
    exact (htake (by simp [IsFetch])).polled fun pages heq => by cases heq
  next => cases hsettled

theorem Inv.resolved (h : Inv props v) (i : Nat) (hadLogs : Bool)
    (r : Request) (freshTarget : Option (String × String)) :
    Inv props
      { v with
        requests :=
          v.requests.set i (View.resolvedTo r hadLogs freshTarget) } := by
  have hfetch : IsFetch (View.resolvedTo r hadLogs freshTarget) := by
    cases freshTarget with
    | none => exact ⟨_, _, _, rfl⟩
    | some fresh => exact ⟨_, _, _, rfl⟩
  refine { h with more := h.more.imp_right fun ⟨r', hr', hfetch'⟩ => ?_ }
  obtain ⟨j, hj⟩ := List.mem_iff_getElem?.mp hr'
  by_cases hij : i = j
  · refine ⟨_, List.mem_of_getElem? (i := j) ?_, hfetch⟩
    rw [← hij, List.getElem?_set_self]
    rw [hij]
    exact (List.getElem?_eq_some_iff.mp hj).1
  · refine ⟨r', List.mem_of_getElem? (i := j) ?_, hfetch'⟩
    rw [List.getElem?_set_ne hij]
    exact hj

end

-- ======== a run

/-- A step in time keeps the invariant. -/
theorem inv_step {props : Props} {v v' : View} {a : Act}
    {out : List Empty} (h : Inv props v) (hok : InTime props v a)
    (hstep : step props a v = some (v', out)) : Inv props v' := by
  cases a with
  | select target =>
    cases hstep
    exact h.select hok
  | effect =>
    cases hstep
    exact h.runEffect
  | disconnect =>
    cases hstep
    exact { h with }
  | fetchLogs refreshTarget =>
    cases hstep
    exact inv_fetchLogs h.ready h.prev h.logs _ _
  | loadAllLogs =>
    cases hstep
    exact inv_loadAllLogs h.ready h.prev h.logs
  | loadOlderLogs =>
    cases hstep
    exact h.loadOlderLogs
  | loadNewerLogs =>
    cases hstep
    exact h.loadNewerLogs
  | pollNewerLogs =>
    cases hstep
    exact h.pollNewerLogs
  | resolved i freshTarget =>
    simp only [step] at hstep
    split at hstep
    next hadLogs target hr =>
      cases hstep
      exact h.resolved i hadLogs _ freshTarget
    next => cases hstep
  | settle i outcome =>
    simp only [step] at hstep
    split at hstep
    next => cases hstep
    next r hr =>
      obtain ⟨v₁, hsettled, heq⟩ := Option.map_eq_some_iff.mp hstep
      cases heq
      simp only [InTime, hr] at hok
      exact h.settled hr hok hsettled

/-- Where no request comes late, what is shown belongs to the selection
in every state with no request pending. -/
theorem logs_belong (props : Props) (target : Target) (acts : List Act)
    (hready : props.ready target = true)
    (hok : Along (step props) (InTime props) (View.mount props target)
      acts) :
    Visits (step props) (fun v => v.requests = [] → Belongs v)
      (View.mount props target) acts :=
  Machine.visits_of_invariant inv_step (fun h => h.belongs)
    (inv_mount hready) hok

def tailOf (pod : String) : Target := ⟨pod, "app", false, "", .atEnd⟩

def inDefault : Props := ⟨"default", [], false⟩

def oneByOne : List Act :=
  [.settle 0 (.text "a"), .select (tailOf "b"), .settle 0 (.text "b")]

theorem logs_belong_oneByOne :
    Visits (step inDefault) (fun v => v.requests = [] → Belongs v)
      (View.mount inDefault (tailOf "a")) oneByOne :=
  logs_belong inDefault (tailOf "a") oneByOne (by decide) (by decide)

/-- The first pod's log arrives behind that of the second, which is
selected by then. -/
def late : List Act :=
  [.select (tailOf "b"), .settle 1 (.text "b"), .settle 0 (.text "a")]

/-- The viewer shows the log of a pod that is not selected. -/
theorem late_load_shown :
    ¬ ∀ props target acts, props.ready target = true →
      Visits (step props) (fun v => v.requests = [] → Belongs v)
        (View.mount props target) acts := by
  intro h
  have hselected := (h inDefault (tailOf "a") late (by decide)).2 _ _ rfl
  have hsettled := hselected.2 _ _ rfl
  have hbelongs : Belongs _ := (hsettled.2 _ _ rfl) rfl
  have hbefore := hbelongs.hasMoreBefore
  revert hbefore
  decide

end LoadHook
