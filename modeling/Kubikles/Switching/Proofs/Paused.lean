/-
Pausing a bulk action.

# The argument

All runs of the hook share one flag and one resolver. As long as the flag is
the last click of the runs that have calls ahead of them, and the run that
waits has the resolver (`Inv`), a run waits only while it is paused, and the
next resume reaches it. A confirm sets the flag back and forgets the
resolver, a run that comes to its wait beside another takes the resolver
from it, and a run that was resumed does not look at the flag again for the
item that it waited with. Without these (`Careful`) the invariant is kept.

What a run calls for are the items that have a name, whatever is clicked
(`Came`).
-/
import Kubikles.Switching.Proofs.Cluster

namespace Bulk

open Machine (Step Along run)

-- ======== the purpose

/-- The hook, and of each run whether the last click since it was confirmed
was a pause. -/
structure Watched where
  state : State
  paused : List Bool := []

/-- A call of the API that starts, and whether the last click was a
pause. -/
structure Started where
  run : Nat
  item : Resource
  paused : Bool
deriving DecidableEq

def Phase.calling : Phase → Option Resource
  | .called item _ => some item
  | _ => none

/-- The run that an action takes on to its next wait. -/
def Act.takesOn (s : State) : Act → Option Nat
  | .confirm _ _ => some s.runs.length
  | .proceed r | .respond r | .wake r => some r
  | _ => none

def called (r : Nat) (phase : Phase) (paused : List Bool) : List Started :=
  match phase.calling with
  | some item => [⟨r, item, paused.getD r false⟩]
  | none => []

def starts (a : Act) (s s' : State) (paused : List Bool) : List Started :=
  match a.takesOn s with
  | none => []
  | some r =>
    match s'.runs[r]? with
    | some run => called r run.phase paused
    | none => []

/-- Pause or resume. -/
def Act.isClick : Act → Bool
  | .pause | .resume => true
  | _ => false

/-- The last clicks after a step. -/
def clicks (a : Act) (s' : State) (paused : List Bool) : List Bool :=
  match a with
  | .pause => paused.map fun _ => true
  | .resume => paused.map fun _ => false
  | _ => paused ++ List.replicate (s'.runs.length - paused.length) false

def watch (config : Config) : Step Watched Act Started := fun a w =>
  match step config a w.state with
  | none => none
  | some (s', _) =>
    let paused := clicks a s' w.paused
    some (⟨s', paused⟩, starts a w.state s' paused)

def Phase.waits : Phase → Bool
  | .waiting _ _ => true
  | _ => false

/-- The items that a run has not called for. -/
def Phase.ahead : Phase → List Resource
  | .waiting item rest => item :: rest
  | .resumed item rest => item :: rest
  | .called _ rest => rest
  | .answered _ rest _ => rest
  | .sleeping rest => rest
  | .done => []

def Phase.left : Phase → Nat
  | .waiting _ rest => 5 * rest.length + 5
  | .resumed _ rest => 5 * rest.length + 4
  | .called _ rest => 5 * rest.length + 3
  | .answered _ rest _ => 5 * rest.length + 2
  | .sleeping rest => 5 * rest.length + 1
  | .done => 0

/-- What pausing is to be. -/
structure Kept (config : Config) (w : Watched) (out : List Started) :
    Prop where
  /-- No call of a run starts while it is paused. -/
  notPaused : ∀ e ∈ out, e.paused = false
  /-- The named items are called for once each, in their order. -/
  inOrder : ∀ (r : Nat) run, w.state.runs[r]? = some run →
    (out.filter fun e => e.run = r).map Started.item
        ++ run.phase.ahead.filter Resource.named
      = run.items.filter Resource.named
  /-- A run that waits is paused, and a resume reaches it. -/
  waits : ∀ (r : Nat) run, w.state.runs[r]? = some run →
    run.phase.waits = true →
      w.paused[r]? = some true
        ∧ w.state.hook.resumeResolverRef = some r
  /-- Any other run goes on until it is done. -/
  goesOn : ∀ (r : Nat) run, w.state.runs[r]? = some run →
    run.phase.waits = false →
      run.phase = .done
        ∨ ∃ a s' o run', step config a w.state = some (s', o)
          ∧ s'.runs[r]? = some run' ∧ run'.phase.left < run.phase.left

-- ======== the condition

/-- A run was resumed, and calls for its item next. -/
def Phase.resumes : Phase → Bool
  | .resumed item _ => item.named
  | _ => false

/-- The items before which a run looks at the flag next. -/
def Run.checks (run : Run) : List Resource :=
  match run.phase with
  | .resumed item rest => if item.named then [] else rest
  | .answered _ rest _ => if 0 < run.delayMs then [] else rest
  | .sleeping rest => rest
  | _ => []

/-- Nothing is confirmed while a paused run waits or has calls ahead of it,
a run that was resumed calls before the next pause, and no run comes to its
wait while another one waits. -/
def Careful (config : Config) (w : Watched) : Act → Prop
  | .confirm _ _ =>
    w.state.hook.bulkActionModal.action.any config.api = true →
      w.state.hook.pausedRef = true →
        ∀ run ∈ w.state.runs, run.phase.waits = false
          ∧ run.phase.ahead.filter Resource.named = []
  | .proceed r | .respond r | .wake r =>
    w.state.hook.pausedRef = true →
      ∀ run ∈ w.state.runs[r]?, run.phase.resumes = false
        ∧ (w.state.hook.resumeResolverRef ≠ none → run.checks = [])
  | _ => True

instance Careful.decidable (config : Config) (w : Watched) (a : Act) :
    Decidable (Careful config w a) :=
  match a with
  | .confirm _ _ => inferInstanceAs (Decidable (_ → _ → _))
  | .proceed r | .respond r | .wake r =>
    inferInstanceAs (Decidable (_ → ∀ run ∈ w.state.runs[r]?, _))
  | .openModal _ _ | .close | .pause | .resume | .handle _ _
  | .switching _ => isTrue trivial

variable {config : Config} {w w' : Watched} {out : List Started} {r : Nat}
variable {item : Resource} {rest l : List Resource} {p : Bool}
variable {phase : Phase} {a : Act} {s' : State} {was now : Run}

-- ======== the loop

/-- Where the loop comes from the top, with these items left. -/
inductive Came (p : Bool) (l : List Resource) : Phase → Prop
  | done (h : l.filter Resource.named = []) : Came p l .done
  | waiting {item : Resource} {rest : List Resource} (hp : p = true)
      (h : l = item :: rest) : Came p l (.waiting item rest)
  | called {item : Resource} {rest : List Resource} (hp : p = false)
      (h : l.filter Resource.named
        = item :: rest.filter Resource.named)
      (hlen : rest.length < l.length) : Came p l (.called item rest)

theorem named_eq_false (h : item.name = "") : item.named = false := by
  simp [Resource.named, h]

theorem named_eq_true (h : item.name ≠ "") : item.named = true := by
  simp [Resource.named, h]

theorem filter_unnamed (h : item.name = "") (rest : List Resource) :
    (item :: rest).filter Resource.named = rest.filter Resource.named :=
  List.filter_cons_of_neg (by simp [named_eq_false h])

theorem came_called (hname : item.name ≠ "") (rest : List Resource) :
    Came false (item :: rest) (.called item rest) :=
  .called rfl (List.filter_cons_of_pos (named_eq_true hname))
    (Nat.lt_succ_self _)

theorem Came.skip (h : Came false rest phase) (hname : item.name = "") :
    Came false (item :: rest) phase := by
  have hfilter := filter_unnamed hname rest
  cases h with
  | done h => exact .done (hfilter.trans h)
  | waiting hp _ => cases hp
  | called hp h hlen =>
    exact .called hp (hfilter.trans h) (Nat.lt_succ_of_lt hlen)

theorem came_next (p : Bool) (l : List Resource) : Came p l (next p l) := by
  induction l with
  | nil => exact .done rfl
  | cons item rest ih =>
    unfold next
    cases p with
    | true => exact .waiting rfl rfl
    | false =>
      rw [if_neg Bool.false_ne_true]
      by_cases hname : item.name = ""
      · rw [if_pos hname]
        exact ih.skip hname
      · rw [if_neg hname]
        exact came_called hname rest

theorem Came.left_le (h : Came p l phase) :
    phase.left ≤ 5 * l.length := by
  cases h with
  | done => exact Nat.zero_le _
  | waiting _ h =>
    rw [h, List.length_cons]
    show 5 * _ + 5 ≤ _
    omega
  | called _ _ hlen =>
    show 5 * _ + 3 ≤ _
    omega

theorem Came.order (h : Came p l phase) (paused : List Bool) :
    l.filter Resource.named
      = (Bulk.called r phase paused).map Started.item
        ++ phase.ahead.filter Resource.named := by
  cases h with
  | done h => exact h
  | waiting _ h => exact h ▸ rfl
  | called _ h _ => exact h

theorem mem_called {e : Started} {paused : List Bool}
    (he : e ∈ called r phase paused) :
    e.run = r ∧ e.paused = paused.getD r false
      ∧ phase.calling ≠ none := by
  unfold called at he
  cases hcalling : phase.calling with
  | none =>
    rw [hcalling] at he
    cases he
  | some item =>
    rw [hcalling] at he
    obtain rfl := List.mem_singleton.mp he
    exact ⟨rfl, rfl, nofun⟩

theorem enter_pausedRef (hook : Hook) (r : Nat) (phase : Phase) :
    (hook.enter r phase).pausedRef = hook.pausedRef := by
  cases phase <;> rfl

theorem enter_resolver (hook : Hook) (r : Nat) (phase : Phase) :
    (hook.enter r phase).resumeResolverRef
      = if phase.waits = true then some r
        else hook.resumeResolverRef := by
  cases phase <;> rfl

-- ======== the invariant

/-- What is known of the hook and the clicks, as long as the steps are
careful. -/
structure Inv (w : Watched) (out : List Started) : Prop where
  length : w.paused.length = w.state.runs.length
  flag : w.state.hook.pausedRef = true → ∀ b ∈ w.paused, b = true
  calls : w.state.hook.pausedRef = false → ∀ (r : Nat) run,
    w.state.runs[r]? = some run →
      run.phase.ahead.filter Resource.named ≠ [] →
        w.paused[r]? = some false
  waits : ∀ (r : Nat) run, w.state.runs[r]? = some run →
    run.phase.waits = true → w.state.hook.pausedRef = true
      ∧ w.state.hook.resumeResolverRef = some r
  resolver : ∀ r, w.state.hook.resumeResolverRef = some r →
    ∃ run, w.state.runs[r]? = some run ∧ run.phase.waits = true
  notPaused : ∀ e ∈ out, e.paused = false
  place : ∀ e ∈ out, e.run < w.state.runs.length
  inOrder : ∀ (r : Nat) run, w.state.runs[r]? = some run →
    (out.filter fun e => e.run = r).map Started.item
        ++ run.phase.ahead.filter Resource.named
      = run.items.filter Resource.named

/-- One run, which does not wait, goes on. -/
theorem Inv.set (h : Inv w out) (now : Run) (hrun : w.state.runs[r]? = some was)
    (hwas : was.phase.waits = false)
    (hruns : s'.runs = w.state.runs.set r now)
    (hflag : s'.hook.pausedRef = w.state.hook.pausedRef)
    (hresolver : s'.hook.resumeResolverRef
      = if now.phase.waits = true then some r
        else w.state.hook.resumeResolverRef)
    (hitems : now.items = was.items)
    (hwaits : now.phase.waits = true → w.state.hook.pausedRef = true
      ∧ w.state.hook.resumeResolverRef = none)
    (hcalls : now.phase.calling ≠ none → w.state.hook.pausedRef = false)
    (horder : was.phase.ahead.filter Resource.named
      = (called r now.phase w.paused).map Started.item
        ++ now.phase.ahead.filter Resource.named) :
    Inv ⟨s', w.paused⟩ (out ++ called r now.phase w.paused) := by
  have hlt := (List.getElem?_eq_some_iff.mp hrun).1
  have hnew : ∀ e ∈ called r now.phase w.paused,
      e.run = r ∧ e.paused = false := by
    intro e he
    obtain ⟨hr, hpaused, hcalling⟩ := mem_called he
    refine ⟨hr, ?_⟩
    have hne : was.phase.ahead.filter Resource.named ≠ [] := by
      rw [horder]
      intro hnil
      have hnone := (List.append_eq_nil_iff.mp hnil).1
      exact absurd (List.map_eq_nil_iff.mp hnone) (List.ne_nil_of_mem he)
    rw [hpaused, List.getD_eq_getElem?_getD,
      h.calls (hcalls hcalling) r was hrun hne]
    rfl
  constructor
  case length =>
    show w.paused.length = s'.runs.length
    rw [hruns, List.length_set]
    exact h.length
  case flag => exact fun hp => h.flag (hflag.symm.trans hp)
  case calls =>
    intro hp j other hj hne
    dsimp only at hp hj ⊢
    rw [hflag] at hp
    rw [hruns] at hj
    rcases Place.set_cases hj with ⟨rfl, rfl⟩ | ⟨-, hj⟩
    · refine h.calls hp r was hrun fun hnil => hne ?_
      rw [hnil] at horder
      exact (List.append_eq_nil_iff.mp horder.symm).2
    · exact h.calls hp j other hj hne
  case waits =>
    intro j other hj hw
    dsimp only at hj ⊢
    rw [hruns] at hj
    rw [hflag, hresolver]
    rcases Place.set_cases hj with ⟨rfl, rfl⟩ | ⟨-, hj⟩
    · exact ⟨(hwaits hw).1, if_pos hw⟩
    · obtain ⟨hpaused, hres⟩ := h.waits j other hj hw
      by_cases hnow : now.phase.waits = true
      · rw [(hwaits hnow).2] at hres
        cases hres
      · rw [if_neg hnow]
        exact ⟨hpaused, hres⟩
  case resolver =>
    intro j hj
    dsimp only at hj ⊢
    rw [hresolver] at hj
    rw [hruns]
    by_cases hnow : now.phase.waits = true
    · rw [if_pos hnow] at hj
      obtain rfl := Option.some.inj hj
      exact ⟨now, Place.set_self hrun, hnow⟩
    · rw [if_neg hnow] at hj
      obtain ⟨other, hother, hw⟩ := h.resolver j hj
      have hr : r ≠ j := by
        intro hr
        rw [← hr, hrun] at hother
        rw [← Option.some.inj hother, hwas] at hw
        cases hw
      exact ⟨other, (List.getElem?_set_ne hr).trans hother, hw⟩
  case notPaused =>
    intro e he
    rcases List.mem_append.mp he with he | he
    · exact h.notPaused e he
    · exact (hnew e he).2
  case place =>
    intro e he
    show e.run < s'.runs.length
    rw [hruns, List.length_set]
    rcases List.mem_append.mp he with he | he
    · exact h.place e he
    · rw [(hnew e he).1]
      exact hlt
  case inOrder =>
    intro j other hj
    dsimp only at hj
    rw [hruns] at hj
    rw [List.filter_append, List.map_append]
    rcases Place.set_cases hj with ⟨rfl, rfl⟩ | ⟨hr, hj⟩
    · rw [List.filter_eq_self.mpr fun e he => decide_eq_true (hnew e he).1,
        List.append_assoc, ← horder, hitems]
      exact h.inOrder r was hrun
    · have hnone : (called r now.phase w.paused).filter
          (fun e => e.run = j) = [] :=
        List.filter_eq_nil_iff.mpr fun e he hej =>
          hr ((hnew e he).1.symm.trans (of_decide_eq_true hej))
      rw [hnone, List.map_nil, List.append_nil]
      exact h.inOrder j other hj

theorem Inv.comes (h : Inv w out) (now : Run)
    (hrun : w.state.runs[r]? = some was)
    (hwas : was.phase.waits = false)
    (hruns : s'.runs = w.state.runs.set r now)
    (hflag : s'.hook.pausedRef = w.state.hook.pausedRef)
    (hresolver : s'.hook.resumeResolverRef
      = if now.phase.waits = true then some r
        else w.state.hook.resumeResolverRef)
    (hitems : now.items = was.items)
    (hcame : Came w.state.hook.pausedRef l now.phase)
    (hfilter : was.phase.ahead.filter Resource.named
      = l.filter Resource.named)
    (hcareful : w.state.hook.pausedRef = true → l ≠ [] →
      w.state.hook.resumeResolverRef = none) :
    Inv ⟨s', w.paused⟩ (out ++ called r now.phase w.paused) := by
  refine h.set now hrun hwas hruns hflag hresolver hitems ?_ ?_
    (hfilter.trans (hcame.order w.paused))
  · intro hw
    generalize now.phase = phase at hcame hw
    cases hcame with
    | waiting hp hl =>
      exact ⟨hp, hcareful hp (hl ▸ List.cons_ne_nil _ _)⟩
    | _ => cases hw
  · intro hcalling
    generalize now.phase = phase at hcame hcalling
    cases hcame with
    | called hp _ _ => exact hp
    | _ => exact absurd rfl hcalling

-- ======== the steps

theorem clicks_eq (hclick : a.isClick = false)
    (hlength : w.paused.length = s'.runs.length) :
    clicks a s' w.paused = w.paused := by
  unfold clicks
  cases a with
  | pause => cases hclick
  | resume => cases hclick
  | _ => simp [hlength]

theorem Inv.still (h : Inv w out) (hclick : a.isClick = false)
    (hstarts : ∀ paused, starts a w.state s' paused = [])
    (hruns : s'.runs = w.state.runs)
    (hflag : s'.hook.pausedRef = w.state.hook.pausedRef)
    (hresolver : s'.hook.resumeResolverRef
      = w.state.hook.resumeResolverRef) :
    Inv ⟨s', clicks a s' w.paused⟩
      (out ++ starts a w.state s' (clicks a s' w.paused)) := by
  rw [hstarts, List.append_nil,
    clicks_eq hclick (hruns ▸ h.length)]
  exact {
    length := by simpa only [hruns] using h.length
    flag := by simpa only [hflag] using h.flag
    calls := by simpa only [hruns, hflag] using h.calls
    waits := by simpa only [hruns, hflag, hresolver] using h.waits
    resolver := by simpa only [hruns, hresolver] using h.resolver
    notPaused := h.notPaused
    place := by simpa only [hruns] using h.place
    inOrder := by simpa only [hruns] using h.inOrder }

theorem Inv.went {paused : List Bool} (htakes : a.takesOn w.state = some r)
    (hnow : s'.runs[r]? = some now) (hclicks : clicks a s' w.paused = paused)
    (h : Inv ⟨s', paused⟩ (out ++ called r now.phase paused)) :
    Inv ⟨s', clicks a s' w.paused⟩
      (out ++ starts a w.state s' (clicks a s' w.paused)) := by
  rw [hclicks]
  unfold starts
  rw [htakes]
  dsimp only
  rw [hnow]
  exact h

theorem Inv.pause (h : Inv w out) (hruns : s'.runs = w.state.runs)
    (hflag : s'.hook.pausedRef = true)
    (hresolver : s'.hook.resumeResolverRef
      = w.state.hook.resumeResolverRef) :
    Inv ⟨s', w.paused.map fun _ => true⟩ out where
  length := by simpa only [hruns, List.length_map] using h.length
  flag _ b hb := by
    obtain ⟨_, -, rfl⟩ := List.mem_map.mp hb
    rfl
  calls hp := by
    rw [hflag] at hp
    cases hp
  waits r run hrun hw := by
    dsimp only at hrun ⊢
    rw [hruns] at hrun
    rw [hflag, hresolver]
    exact ⟨rfl, (h.waits r run hrun hw).2⟩
  resolver := by simpa only [hruns, hresolver] using h.resolver
  notPaused := h.notPaused
  place := by simpa only [hruns] using h.place
  inOrder := by simpa only [hruns] using h.inOrder

theorem Inv.resumed (h : Inv w out)
    (hlength : s'.runs.length = w.state.runs.length)
    (hruns : ∀ {r : Nat} {now : Run}, s'.runs[r]? = some now →
      ∃ was, w.state.runs[r]? = some was ∧ now.items = was.items
        ∧ now.phase.ahead = was.phase.ahead ∧ now.phase.waits = false)
    (hflag : s'.hook.pausedRef = false)
    (hresolver : s'.hook.resumeResolverRef = none) :
    Inv ⟨s', w.paused.map fun _ => false⟩ out where
  length := by
    show (w.paused.map _).length = s'.runs.length
    rw [List.length_map, hlength]
    exact h.length
  flag hp := by
    rw [hflag] at hp
    cases hp
  calls _ r now hnow _ := by
    obtain ⟨was, hwas, -⟩ := hruns hnow
    have hlt : r < w.paused.length :=
      h.length ▸ (List.getElem?_eq_some_iff.mp hwas).1
    rw [List.getElem?_map, List.getElem?_eq_getElem hlt]
    rfl
  waits r now hnow hw := by
    obtain ⟨-, -, -, -, hnot⟩ := hruns hnow
    rw [hnot] at hw
    cases hw
  resolver r hr := by
    rw [hresolver] at hr
    cases hr
  notPaused := h.notPaused
  place := by simpa only [hlength] using h.place
  inOrder r now hnow := by
    obtain ⟨was, hwas, hitems, hahead, -⟩ := hruns hnow
    rw [hitems, hahead]
    exact h.inOrder r was hwas

theorem Inv.resolve (h : Inv w out) {s : State}
    (hruns : s.runs = w.state.runs) (hflag : s.hook.pausedRef = false)
    (hresolver : s.hook.resumeResolverRef
      = w.state.hook.resumeResolverRef) :
    Inv ⟨s.resolve, w.paused.map fun _ => false⟩ out := by
  have hnot : ∀ {j : Nat} {was : Run}, w.state.runs[j]? = some was →
      w.state.hook.resumeResolverRef ≠ some j →
        was.phase.waits = false := by
    intro j was hwas hres
    refine Bool.eq_false_iff.mpr fun hw => hres ?_
    exact (h.waits j was hwas hw).2
  unfold State.resolve
  rw [hresolver]
  cases hres : w.state.hook.resumeResolverRef with
  | none =>
    refine h.resumed (hruns ▸ rfl) (fun {j now} hnow => ?_) hflag
      (hresolver.trans hres)
    rw [hruns] at hnow
    exact ⟨now, hnow, rfl, rfl, hnot hnow (hres ▸ nofun)⟩
  | some r =>
    obtain ⟨was, hwas, hw⟩ := h.resolver r hres
    dsimp only
    rw [hruns, hwas]
    dsimp only
    split
    next item rest hphase =>
      refine h.resumed ?_ (fun {j now} hnow => ?_) hflag rfl
      · exact List.length_set
      · change (w.state.runs.set r _)[j]? = some now at hnow
        rcases Place.set_cases hnow with ⟨rfl, rfl⟩ | ⟨hr, hnow⟩
        · exact ⟨was, hwas, rfl, hphase ▸ rfl, rfl⟩
        · refine ⟨now, hnow, rfl, rfl, hnot hnow fun hj => hr ?_⟩
          exact Option.some.inj (hres.symm.trans hj)
    next hother =>
      cases hphase : was.phase with
      | waiting item rest => exact absurd hphase (hother item rest)
      | _ =>
        rw [hphase] at hw
        cases hw

theorem Inv.proceed (h : Inv w out) (hok : Careful config w (.proceed r))
    (hrun : w.state.runs[r]? = some was)
    (hphase : was.phase = .resumed item rest) :
    Inv ⟨w.state.enter r was
        (Bulk.proceed w.state.hook.pausedRef item rest), w.paused⟩
      (out ++ called r (Bulk.proceed w.state.hook.pausedRef item rest)
        w.paused) := by
  have hwas : was.phase.waits = false := hphase ▸ rfl
  have hahead : was.phase.ahead = item :: rest := hphase ▸ rfl
  by_cases hname : item.name = ""
  · have hnext : Bulk.proceed w.state.hook.pausedRef item rest
        = next w.state.hook.pausedRef rest := if_pos hname
    rw [hnext]
    refine h.comes { was with phase := next _ rest } hrun hwas rfl
      (enter_pausedRef ..) (enter_resolver ..) rfl (came_next _ rest) ?_
      fun hp hne => ?_
    · rw [hahead]
      exact filter_unnamed hname rest
    · by_contra hres
      have hchecks := (hok hp was hrun).2 hres
      unfold Run.checks at hchecks
      rw [hphase] at hchecks
      dsimp only at hchecks
      rw [if_neg (Bool.eq_false_iff.mp (named_eq_false hname))] at hchecks
      exact hne hchecks
  · have hp : w.state.hook.pausedRef = false := by
      refine Bool.eq_false_iff.mpr fun hp => ?_
      have hnot := (hok hp was hrun).1
      rw [hphase] at hnot
      exact Bool.false_ne_true (hnot.symm.trans (named_eq_true hname))
    have hcalled : Bulk.proceed w.state.hook.pausedRef item rest
        = .called item rest := if_neg hname
    rw [hcalled]
    refine h.comes { was with phase := .called item rest } hrun hwas rfl
      (enter_pausedRef ..) (enter_resolver ..) rfl
      (hp ▸ came_called hname rest) (congrArg _ hahead) fun hp' => ?_
    rw [hp] at hp'
    cases hp'

def answered (p : Bool) (was : Run) (item : Resource)
    (rest : List Resource) (err : Option String) : Run :=
  { was with
    results := was.results ++ [resultOf item err]
    phase :=
      if 0 < was.delayMs ∧ rest ≠ [] then .sleeping rest
      else next p rest }

theorem Inv.answer {err : Option String} (h : Inv w out)
    (hok : Careful config w (.respond r))
    (hrun : w.state.runs[r]? = some was)
    (hphase : was.phase = .answered item rest err) :
    Inv ⟨w.state.answer r was item rest err, w.paused⟩
      (out ++ called r
        (answered w.state.hook.pausedRef was item rest err).phase
        w.paused) := by
  have hwas : was.phase.waits = false := hphase ▸ rfl
  have hahead : was.phase.ahead = rest := hphase ▸ rfl
  by_cases hsleep : 0 < was.delayMs ∧ rest ≠ []
  · have hnow : (answered w.state.hook.pausedRef was item rest err).phase
        = .sleeping rest := if_pos hsleep
    refine h.set (answered _ was item rest err) hrun hwas rfl
      (enter_pausedRef ..) (enter_resolver ..) rfl ?_ ?_ ?_
    · rw [hnow]
      nofun
    · rw [hnow]
      exact fun hcalling => absurd rfl hcalling
    · rw [hnow, hahead]
      rfl
  · have hnow : (answered w.state.hook.pausedRef was item rest err).phase
        = next w.state.hook.pausedRef rest := if_neg hsleep
    refine h.comes (answered _ was item rest err) hrun hwas rfl
      (enter_pausedRef ..) (enter_resolver ..) rfl
      (hnow ▸ came_next _ rest) (congrArg _ hahead) fun hp hne => ?_
    by_contra hres
    have hchecks := (hok hp was hrun).2 hres
    unfold Run.checks at hchecks
    rw [hphase] at hchecks
    dsimp only at hchecks
    rw [if_neg fun hdelay => hsleep ⟨hdelay, hne⟩] at hchecks
    exact hne hchecks

theorem Inv.wake (h : Inv w out) (hok : Careful config w (.wake r))
    (hrun : w.state.runs[r]? = some was)
    (hphase : was.phase = .sleeping rest) :
    Inv ⟨w.state.enter r was (next w.state.hook.pausedRef rest), w.paused⟩
      (out ++ called r (next w.state.hook.pausedRef rest) w.paused) := by
  have hahead : was.phase.ahead = rest := hphase ▸ rfl
  refine h.comes { was with phase := next _ rest } hrun (hphase ▸ rfl) rfl
    (enter_pausedRef ..) (enter_resolver ..) rfl (came_next _ rest)
    (congrArg _ hahead) fun hp hne => ?_
  by_contra hres
  have hchecks := (hok hp was hrun).2 hres
  unfold Run.checks at hchecks
  rw [hphase] at hchecks
  exact hne hchecks

/-- A run is confirmed, and no paused one waits or has calls ahead of
it. -/
theorem Inv.confirm (h : Inv w out)
    (hok : w.state.hook.pausedRef = true →
      ∀ run ∈ w.state.runs, run.phase.waits = false
        ∧ run.phase.ahead.filter Resource.named = [])
    (action : String) (items : List Resource) (delayMs : Int) :
    Inv ⟨w.state.confirm action items delayMs, w.paused ++ [false]⟩
      (out ++ called w.state.runs.length (next false items)
        (w.paused ++ [false])) := by
  have hcame := came_next false items
  have hnext : (next false items).waits = false := by
    generalize next false items = phase at hcame ⊢
    cases hcame with
    | waiting hp _ => cases hp
    | _ => rfl
  have hold : ∀ {j : Nat} {was : Run}, w.state.runs[j]? = some was →
      was.phase.waits = false := by
    intro j was hwas
    refine Bool.eq_false_iff.mpr fun hw => ?_
    have hnot := (hok (h.waits j was hwas hw).1 was
      (List.mem_of_getElem? hwas)).1
    exact Bool.false_ne_true (hnot.symm.trans hw)
  have hnew : ∀ e ∈ called w.state.runs.length (next false items)
      (w.paused ++ [false]),
      e.run = w.state.runs.length ∧ e.paused = false := by
    intro e he
    obtain ⟨hr, hpaused, -⟩ := mem_called he
    refine ⟨hr, ?_⟩
    rw [hpaused, ← h.length, List.getD_eq_getElem?_getD,
      List.getElem?_concat_length]
    rfl
  constructor
  case length =>
    show (w.paused ++ [false]).length = (w.state.runs ++ [_]).length
    rw [List.length_append, List.length_append, h.length]
    rfl
  case flag =>
    intro hp
    rw [show (w.state.confirm action items delayMs).hook.pausedRef = false
      from enter_pausedRef ..] at hp
    cases hp
  case calls =>
    intro _ j now hj hne
    rcases Place.append_cases hj with hj | ⟨rfl, -⟩
    · refine Place.append_of_some ?_
      cases hp : w.state.hook.pausedRef with
      | false => exact h.calls hp j now hj hne
      | true =>
        exact absurd (hok hp now (List.mem_of_getElem? hj)).2 hne
    · rw [← h.length]
      exact List.getElem?_concat_length
  case waits =>
    intro j now hj hw
    rcases Place.append_cases hj with hj | ⟨-, rfl⟩
    · rw [hold hj] at hw
      cases hw
    · exact absurd hw (Bool.eq_false_iff.mp hnext)
  case resolver =>
    intro j hj
    have hnone : (w.state.confirm action items delayMs).hook.resumeResolverRef
        = none :=
      (enter_resolver ..).trans (if_neg (Bool.eq_false_iff.mp hnext))
    rw [hnone] at hj
    cases hj
  case notPaused =>
    intro e he
    rcases List.mem_append.mp he with he | he
    · exact h.notPaused e he
    · exact (hnew e he).2
  case place =>
    intro e he
    show e.run < (w.state.runs ++ [_]).length
    rw [List.length_append]
    rcases List.mem_append.mp he with he | he
    · exact Nat.lt_succ_of_lt (h.place e he)
    · rw [(hnew e he).1]
      exact Nat.lt_succ_self _
  case inOrder =>
    intro j now hj
    rw [List.filter_append, List.map_append]
    rcases Place.append_cases hj with hj | ⟨rfl, rfl⟩
    · have hlt := (List.getElem?_eq_some_iff.mp hj).1
      rw [List.filter_eq_nil_iff.mpr fun e he hej => Nat.ne_of_gt hlt
        ((hnew e he).1.symm.trans (of_decide_eq_true hej)), List.map_nil,
        List.append_nil]
      exact h.inOrder j now hj
    · rw [List.filter_eq_nil_iff.mpr fun e he hej => Nat.ne_of_lt
        (h.place e he) (of_decide_eq_true hej),
        List.filter_eq_self.mpr fun e he => decide_eq_true (hnew e he).1]
      exact (hcame.order _).symm

theorem inv_step {o : List Started} (h : Inv w out)
    (hok : Careful config w a) (hstep : watch config a w = some (w', o)) :
    Inv w' (out ++ o) := by
  unfold watch at hstep
  split at hstep
  · cases hstep
  next s' _ hs =>
    obtain ⟨rfl, rfl⟩ := Prod.mk.inj (Option.some.inj hstep)
    cases a with
    | openModal action items =>
      rw [step] at hs
      split at hs <;> cases hs <;>
        exact h.still rfl (fun _ => rfl) rfl rfl rfl
    | close =>
      cases hs
      exact h.still rfl (fun _ => rfl) rfl rfl rfl
    | pause =>
      cases hs
      rw [show starts .pause _ _ _ = [] from rfl, List.append_nil]
      exact h.pause rfl rfl rfl
    | resume =>
      cases hs
      rw [show starts .resume _ _ _ = [] from rfl, List.append_nil]
      exact h.resolve rfl rfl rfl
    | confirm items delayMs =>
      have hnone : ∀ paused,
          starts (.confirm items delayMs) w.state w.state paused = [] := by
        intro paused
        show (match w.state.runs[w.state.runs.length]? with
          | some run => called w.state.runs.length run.phase paused
          | none => []) = []
        rw [List.getElem?_eq_none (Nat.le_refl _)]
      rw [step] at hs
      split at hs
      next action hmodal =>
        split at hs
        next hapi =>
          cases hs
          have hany : w.state.hook.bulkActionModal.action.any config.api
              = true := by
            rw [hmodal]
            exact hapi
          have hclicks : clicks (.confirm items delayMs)
              (w.state.confirm action items delayMs) w.paused
                = w.paused ++ [false] := by
            show w.paused ++ List.replicate
              ((w.state.runs ++ [_]).length - w.paused.length) false = _
            rw [List.length_append, h.length, Nat.add_sub_cancel_left]
            rfl
          exact (h.confirm (hok hany) action items delayMs).went rfl
            List.getElem?_concat_length hclicks
        next =>
          cases hs
          exact h.still rfl hnone rfl rfl rfl
      next =>
        cases hs
        exact h.still rfl hnone rfl rfl rfl
    | proceed r =>
      rw [step] at hs
      split at hs
      next was hrun =>
        split at hs
        next item rest hphase =>
          cases hs
          have hinv := h.proceed hok hrun hphase
          exact hinv.went rfl (Place.set_self hrun)
            (clicks_eq rfl hinv.length)
        next => cases hs
      next => cases hs
    | handle r err =>
      rw [step] at hs
      split at hs
      next was hrun =>
        split at hs
        next item rest hphase =>
          cases hs
          have hinv : Inv ⟨w.state.enter r was (.answered item rest err),
              w.paused⟩ (out ++ []) :=
            h.set { was with phase := .answered item rest err } hrun
              (hphase ▸ rfl) rfl (enter_pausedRef ..) (enter_resolver ..)
              rfl (fun hw => absurd hw Bool.false_ne_true)
              (fun hc => absurd rfl hc) (hphase ▸ rfl)
          have hclicks : clicks (.handle r err)
              (w.state.enter r was (.answered item rest err)) w.paused
                = w.paused := clicks_eq rfl hinv.length
          rw [hclicks]
          exact hinv
        next => cases hs
      next => cases hs
    | respond r =>
      rw [step] at hs
      split at hs
      next was hrun =>
        split at hs
        next item rest err hphase =>
          cases hs
          have hinv := h.answer hok hrun hphase
          exact hinv.went rfl (Place.set_self hrun)
            (clicks_eq rfl hinv.length)
        next => cases hs
      next => cases hs
    | wake r =>
      rw [step] at hs
      split at hs
      next was hrun =>
        split at hs
        next rest hphase =>
          cases hs
          have hinv := h.wake hok hrun hphase
          exact hinv.went rfl (Place.set_self hrun)
            (clicks_eq rfl hinv.length)
        next => cases hs
      next => cases hs
    | switching a =>
      rw [step] at hs
      split at hs
      next =>
        cases hs
        exact h.still rfl (fun _ => rfl) rfl rfl rfl
      next => cases hs

-- ======== the result

/-- A run that does not wait can go on. -/
theorem goesOn (config : Config) {s : State} (hrun : s.runs[r]? = some was)
    (hwas : was.phase.waits = false) :
    was.phase = .done
      ∨ ∃ a s' o now, step config a s = some (s', o)
        ∧ s'.runs[r]? = some now ∧ now.phase.left < was.phase.left := by
  have hnext : ∀ (l : List Resource),
      (next s.hook.pausedRef l).left ≤ 5 * l.length :=
    fun l => (came_next _ l).left_le
  cases hphase : was.phase with
  | waiting item rest =>
    rw [hphase] at hwas
    cases hwas
  | resumed item rest =>
    have hstep : step config (.proceed r) s
        = some (s.enter r was
          (Bulk.proceed s.hook.pausedRef item rest), []) := by
      simp only [step, hrun, hphase]
    refine .inr ⟨_, _, _, _, hstep, Place.set_self hrun, ?_⟩
    show (Bulk.proceed s.hook.pausedRef item rest).left
      < 5 * rest.length + 4
    unfold Bulk.proceed
    split
    · have := hnext rest
      omega
    · show 5 * rest.length + 3 < _
      omega
  | called item rest =>
    have hstep : ∃ o, step config (.handle r none) s
        = some (s.enter r was (.answered item rest none), o) := by
      simp only [step, hrun, hphase]
      exact ⟨_, rfl⟩
    obtain ⟨o, hstep⟩ := hstep
    exact .inr ⟨_, _, _, _, hstep, Place.set_self hrun,
      Nat.lt_succ_self _⟩
  | answered item rest err =>
    have hstep : step config (.respond r) s
        = some (s.answer r was item rest err, []) := by
      simp only [step, hrun, hphase]
    refine .inr ⟨_, _, _, answered s.hook.pausedRef was item rest err, hstep,
      Place.set_self hrun, ?_⟩
    show (if _ then Phase.sleeping rest
      else next s.hook.pausedRef rest).left < 5 * rest.length + 2
    split
    · exact Nat.lt_succ_self _
    · have := hnext rest
      omega
  | sleeping rest =>
    have hstep : step config (.wake r) s
        = some (s.enter r was (next s.hook.pausedRef rest), []) := by
      simp only [step, hrun, hphase]
    refine .inr ⟨_, _, _, _, hstep, Place.set_self hrun, ?_⟩
    exact Nat.lt_succ_of_le (hnext rest)
  | done => exact .inl rfl

theorem Inv.kept (h : Inv w out) (config : Config) : Kept config w out where
  notPaused := h.notPaused
  inOrder := h.inOrder
  waits r run hrun hw := by
    obtain ⟨hp, hresolver⟩ := h.waits r run hrun hw
    have hlt : r < w.paused.length :=
      h.length ▸ (List.getElem?_eq_some_iff.mp hrun).1
    refine ⟨?_, hresolver⟩
    rw [List.getElem?_eq_getElem hlt,
      h.flag hp _ (List.getElem_mem hlt)]
  goesOn _ _ hrun hnot := goesOn config hrun hnot

/-- In every run that is careful, from a hook without runs, pausing is what
it is to be. -/
theorem paused_kept (config : Config) (s : State) (w : Watched)
    (acts : List Act) (out : List Started) (hruns : s.runs = [])
    (hresolver : s.hook.resumeResolverRef = none)
    (hok : Along (watch config) (Careful config) ⟨s, []⟩ acts)
    (hrun : run (watch config) ⟨s, []⟩ acts = some (w, out)) :
    Kept config w out := by
  have hnone : ∀ {r : Nat} {run : Run}, s.runs[r]? ≠ some run := by
    intro r run h
    rw [hruns] at h
    cases h
  have hstart : Inv ⟨s, []⟩ [] :=
    { length := hruns ▸ rfl
      flag := fun _ _ h => absurd h List.not_mem_nil
      calls := fun _ _ _ h => absurd h hnone
      waits := fun _ _ h => absurd h hnone
      resolver := fun _ h => by
        rw [hresolver] at h
        cases h
      notPaused := fun _ h => absurd h List.not_mem_nil
      place := fun _ h => absurd h List.not_mem_nil
      inOrder := fun _ _ h => absurd h hnone }
  exact (Machine.run_history_nil inv_step hstart hok hrun).kept config

def pausedBetween : List Act :=
  [.openModal "delete" twoPods, .confirm twoPods 0, .pause, .handle 0 none,
    .respond 0, .resume, .proceed 0, .handle 0 none, .respond 0]

theorem paused_kept_between :
    ∃ w out, run (watch {}) ⟨⟨ContextSwitch.atHome, {}, []⟩, []⟩
        pausedBetween = some (w, out)
      ∧ out.length = 2 ∧ Kept {} w out :=
  ⟨_, _, rfl, rfl, paused_kept {} ⟨ContextSwitch.atHome, {}, []⟩ _
    pausedBetween _ rfl rfl (by decide) rfl⟩

/-- A run is paused, the modal closed and opened again, and another run
confirmed: the first goes on. -/
theorem paused_and_called :
    ∃ (config : Config) (acts : List Act) (w : Watched)
      (out : List Started),
      run (watch config) ⟨⟨ContextSwitch.atHome, {}, []⟩, []⟩ acts
          = some (w, out)
        ∧ ⟨0, ⟨"db", "default"⟩, true⟩ ∈ out ∧ ¬Kept config w out := by
  refine ⟨{}, [.openModal "delete" twoPods, .confirm twoPods 0, .pause,
    .close, .openModal "delete" [⟨"cache", "default"⟩],
    .confirm [⟨"cache", "default"⟩] 0, .handle 0 none, .respond 0], _, _,
    rfl, by decide, fun h => ?_⟩
  exact absurd (h.notPaused ⟨0, ⟨"db", "default"⟩, true⟩ (by decide))
    (by decide)

-- ======== any run

/-- The items that a run has still to call for. -/
def Phase.uncalled : Phase → List Resource
  | .called item rest => item :: rest.filter Resource.named
  | phase => phase.ahead.filter Resource.named

def Config.target (config : Config) (item : Resource) : String × String :=
  (if config.isNamespaced then item.ns else "", item.name)

/-- The calls of each run, and those it has still to make, are for its named
items, each once and in their order. -/
structure InOrder (config : Config) (s : State) (out : List Acted) :
    Prop where
  place : ∀ e ∈ out, e.run < s.runs.length
  calls : ∀ (r : Nat) run, s.runs[r]? = some run →
    (out.filter fun e => e.run = r).map (fun e => (e.ns, e.name))
        ++ run.phase.uncalled.map config.target
      = (run.items.filter Resource.named).map config.target

variable {s : State} {before o : List Acted}

theorem uncalled_next (p : Bool) (l : List Resource) :
    (next p l).uncalled = l.filter Resource.named := by
  have hcame := came_next p l
  generalize next p l = phase at hcame
  cases hcame with
  | done h => exact h.symm
  | waiting _ h => exact h ▸ rfl
  | called _ h => exact h.symm

theorem uncalled_proceed (p : Bool) (item : Resource)
    (rest : List Resource) :
    (proceed p item rest).uncalled = (item :: rest).filter Resource.named := by
  unfold proceed
  split
  next h => rw [uncalled_next, filter_unnamed h]
  next h => exact (List.filter_cons_of_pos (named_eq_true h)).symm

theorem InOrder.set (h : InOrder config s before)
    (hrun : s.runs[r]? = some was) (hruns : s'.runs = s.runs.set r now)
    (hitems : now.items = was.items) (ho : ∀ e ∈ o, e.run = r)
    (hcalls : was.phase.uncalled.map config.target
      = o.map (fun e => (e.ns, e.name))
        ++ now.phase.uncalled.map config.target) :
    InOrder config s' (before ++ o) where
  place e he := by
    rw [hruns, List.length_set]
    rcases List.mem_append.mp he with he | he
    · exact h.place e he
    · exact ho e he ▸ (List.getElem?_eq_some_iff.mp hrun).1
  calls j other hj := by
    rw [hruns] at hj
    rw [List.filter_append]
    rcases Place.set_cases hj with ⟨rfl, rfl⟩ | ⟨hne, hj⟩
    · rw [List.filter_eq_self.mpr fun e he => decide_eq_true (ho e he),
        List.map_append, List.append_assoc, ← hcalls, hitems]
      exact h.calls r was hrun
    · have hnone : o.filter (fun e => e.run = j) = [] :=
        List.filter_eq_nil_iff.mpr fun e he hej =>
          hne ((ho e he).symm.trans (of_decide_eq_true hej))
      rw [hnone, List.append_nil]
      exact h.calls j other hj

/-- What a step keeps, whatever was clicked. -/
theorem InOrder.step (h : InOrder config s before)
    (hs : step config a s = some (s', o)) :
    InOrder config s' (before ++ o) := by
  have hstill : ∀ {t : State}, t.runs = s.runs →
      InOrder config t (before ++ []) := by
    intro t ht
    rw [List.append_nil]
    exact ⟨ht ▸ h.place, ht ▸ h.calls⟩
  have hgoes : ∀ {t : State} {r was} {now : Run}, s.runs[r]? = some was →
      t.runs = s.runs.set r now → now.items = was.items →
      was.phase.uncalled = now.phase.uncalled →
      InOrder config t (before ++ []) :=
    fun hrun hruns hitems hahead => h.set hrun hruns hitems
      (fun _ he => absurd he List.not_mem_nil)
      (congrArg (List.map config.target) hahead)
  cases a with
  | openModal | switching =>
    rw [Bulk.step] at hs
    split at hs <;> cases hs <;> exact hstill rfl
  | close | pause =>
    cases hs
    exact hstill rfl
  | resume =>
    cases hs
    unfold State.resolve
    split
    next => exact hstill rfl
    next r _ =>
      dsimp only
      split
      next was hrun =>
        split
        next hphase => exact hgoes hrun rfl rfl (hphase ▸ rfl)
        next => exact hstill rfl
      next => exact hstill rfl
  | confirm items delayMs =>
    rw [Bulk.step] at hs
    split at hs
    next =>
      split at hs
      · cases hs
        rw [List.append_nil]
        constructor
        · intro e he
          show e.run < (s.runs ++ [_]).length
          rw [List.length_append]
          exact Nat.lt_add_right _ (h.place e he)
        · intro j other hj
          rcases Place.append_cases hj with hj | ⟨rfl, rfl⟩
          · exact h.calls j other hj
          · rw [List.filter_eq_nil_iff.mpr fun e he heq =>
              Nat.ne_of_lt (h.place e he) (of_decide_eq_true heq)]
            exact congrArg (List.map config.target) (uncalled_next ..)
      · cases hs
        exact hstill rfl
    next =>
      cases hs
      exact hstill rfl
  | handle r err =>
    rw [Bulk.step] at hs
    split at hs
    next was hrun =>
      split at hs
      next hphase =>
        cases hs
        exact h.set hrun rfl rfl (by simp) (hphase ▸ rfl)
      next => cases hs
    next => cases hs
  | proceed r | respond r | wake r =>
    rw [Bulk.step] at hs
    split at hs
    next was hrun =>
      split at hs
      next hphase =>
        cases hs
        refine hgoes hrun rfl rfl ?_
        rw [hphase]
        first
          | exact (uncalled_proceed ..).symm
          | exact (uncalled_next ..).symm
          | dsimp only
            split
            · rfl
            · exact (uncalled_next ..).symm
      next => cases hs
    next => cases hs

/-- Whatever is clicked, confirmed or switched meanwhile, the calls of each run
are for its named items, each once and in their order, up to those that it has
still to make. -/
theorem calls_in_order (config : Config) (s s' : State) (acts : List Act)
    (out : List Acted) (hruns : s.runs = [])
    (hrun : run (Bulk.step config) s acts = some (s', out)) :
    InOrder config s' out := by
  refine Machine.run_history_nil (J := InOrder config)
    (fun h _ hs => h.step hs) ⟨fun _ he => absurd he List.not_mem_nil, ?_⟩
    Machine.along_true hrun
  intro r run h
  rw [hruns] at h
  cases h

theorem calls_in_order_deleteBoth :
    ∃ s' out, run (Bulk.step {}) ⟨ContextSwitch.atHome, {}, []⟩ deleteBoth
        = some (s', out)
      ∧ out.length = 2 ∧ InOrder {} s' out :=
  ⟨_, _, rfl, rfl, calls_in_order {} ⟨ContextSwitch.atHome, {}, []⟩ _
    deleteBoth _ rfl rfl⟩

end Bulk
