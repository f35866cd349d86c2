/-
When watching is given up (`WatchFailureWindow` in
frontend/src/utils/streamingCompatibility.ts).

# The argument

For each key there are the times of its failures and the time that it is
connected since. The second is known from the key's last call alone
(`openedAt`). The first are pruned when the key fails, and cleared when it
leaves a connection that held; what is left of them that is recent is what
is recent of the failures since the last reset (`Inv`). As time does not go
back, what was pruned is not recent later.
-/
import Kubikles.Lib.FinMap

namespace WatchFailures

def watchFailureWindowMs : Int := 60000

def watchFailureThreshold : Nat := 5

structure WatchFailureWindow where
  failures : FinMap String (List Int) := ∅
  connectedAt : FinMap String Int := ∅

def WatchFailureWindow.clearHealthyHistory (w : WatchFailureWindow)
    (key : String) (now : Int) : WatchFailureWindow :=
  match w.connectedAt.lookup key with
  | some opened =>
    if watchFailureWindowMs ≤ now - opened then
      { w with failures := w.failures.erase key }
    else w
  | none => w

def WatchFailureWindow.status (w : WatchFailureWindow)
    (key status : String) (now : Int) : WatchFailureWindow :=
  if status = "connected" then
    { w with connectedAt := w.connectedAt.insert key now }
  else
    let w := w.clearHealthyHistory key now
    let w := { w with connectedAt := w.connectedAt.erase key }
    if status = "stopped" then
      { w with failures := w.failures.erase key }
    else w

def recent (now time : Int) : Bool := now - time < watchFailureWindowMs

def WatchFailureWindow.fail (w : WatchFailureWindow) (key : String)
    (now : Int) : Bool × WatchFailureWindow :=
  let w := w.clearHealthyHistory key now
  let w := { w with connectedAt := w.connectedAt.erase key }
  let times := ((w.failures.lookup key).getD []).filter (recent now)
    ++ [now]
  (watchFailureThreshold ≤ times.length,
    { w with failures := w.failures.insert key times })

-- ======== calls

inductive Op where
  | status (status : String)
  | fail
deriving DecidableEq

structure Call where
  key : String
  op : Op
  now : Int
deriving DecidableEq

def WatchFailureWindow.call (w : WatchFailureWindow) (c : Call) :
    WatchFailureWindow :=
  match c.op with
  | .status status => w.status c.key status c.now
  | .fail => (w.fail c.key c.now).2

def run (calls : List Call) : WatchFailureWindow :=
  calls.foldl WatchFailureWindow.call {}

/-- What a call of `fail` returns after other calls. -/
def answer (calls : List Call) (key : String) (now : Int) : Bool :=
  ((run calls).fail key now).1

-- ======== the meaning
-- Calls that were made are listed from the last one on.

/-- When a key was connected, if that was the last call of the key. -/
def openedAt (key : String) (past : List Call) : Option Int :=
  match past.find? fun c => c.key = key with
  | some c => if c.op = .status "connected" then some c.now else none
  | none => none

/-- A connection held for the time of the window. -/
def held (now : Int) (opened : Option Int) : Bool :=
  opened.any fun opened => watchFailureWindowMs ≤ now - opened

/-- A call resets a key: it stops it, or it is the first behind a connection
that held. -/
def Resets (key : String) (c : Call) (past : List Call) : Prop :=
  c.key = key ∧ (c.op = .status "stopped"
    ∨ c.op ≠ .status "connected" ∧ held c.now (openedAt key past) = true)

instance Resets.decidable (key : String) (c : Call) (past : List Call) :
    Decidable (Resets key c past) :=
  inferInstanceAs (Decidable (_ ∧ (_ ∨ _ ∧ _)))

def sinceReset (key : String) : List Call → List Call
  | [] => []
  | c :: past => c :: if Resets key c past then [] else sinceReset key past

def Call.failsOf (key : String) (c : Call) : Bool :=
  c.key = key ∧ c.op = .fail

/-- The recent failures of a key since its last reset. -/
def recentFails (key : String) (now : Int) (past : List Call) : Nat :=
  (sinceReset key past).countP fun c => c.failsOf key && recent now c.now

-- ======== lookups

variable {w w' : WatchFailureWindow} {key : String} {now : Int}
variable {past : List Call} {c : Call}

def WatchFailureWindow.times (w : WatchFailureWindow) (key : String) :
    List Int :=
  (w.failures.lookup key).getD []

@[simp] theorem connectedAt_clearHealthyHistory (w : WatchFailureWindow)
    (key : String) (now : Int) :
    (w.clearHealthyHistory key now).connectedAt = w.connectedAt := by
  unfold WatchFailureWindow.clearHealthyHistory
  split
  · split
    · rfl
    · rfl
  · rfl

theorem lookup_clearHealthyHistory (w : WatchFailureWindow)
    (key other : String) (now : Int) :
    (w.clearHealthyHistory key now).failures.lookup other
      = if other = key ∧ held now (w.connectedAt.lookup key) = true
        then none else w.failures.lookup other := by
  unfold WatchFailureWindow.clearHealthyHistory held
  split
  next opened hopened =>
    rw [hopened, Option.any_some]
    by_cases hlong : watchFailureWindowMs ≤ now - opened
    · rw [if_pos hlong]
      dsimp only
      rw [FinMap.lookup_erase]
      simp [hlong]
    · rw [if_neg hlong, if_neg (by simp [hlong])]
  next hnone =>
    rw [hnone, Option.any_none, if_neg (by simp)]

theorem lookup_connectedAt_call (w : WatchFailureWindow) (c : Call)
    (key : String) :
    (w.call c).connectedAt.lookup key
      = if key = c.key then
          if c.op = .status "connected" then some c.now else none
        else w.connectedAt.lookup key := by
  unfold WatchFailureWindow.call
  cases hop : c.op with
  | fail =>
    simp only [WatchFailureWindow.fail, connectedAt_clearHealthyHistory]
    rw [FinMap.lookup_erase]
    rfl
  | status status =>
    dsimp only
    unfold WatchFailureWindow.status
    by_cases hconnected : status = "connected"
    · rw [if_pos hconnected, hconnected, if_pos rfl]
      exact FinMap.lookup_insert ..
    · have hne : Op.status status ≠ .status "connected" := fun h =>
        hconnected (Op.status.inj h)
      rw [if_neg hconnected, if_neg hne]
      by_cases hstopped : status = "stopped"
      · simp only [if_pos hstopped, connectedAt_clearHealthyHistory]
        exact FinMap.lookup_erase ..
      · simp only [if_neg hstopped, connectedAt_clearHealthyHistory]
        exact FinMap.lookup_erase ..

theorem times_call_other (w : WatchFailureWindow) (h : c.key ≠ key) :
    (w.call c).times key = w.times key := by
  have hne : ¬ (key = c.key) := fun heq => h heq.symm
  unfold WatchFailureWindow.times WatchFailureWindow.call
  cases hop : c.op with
  | fail =>
    simp only [WatchFailureWindow.fail]
    rw [FinMap.lookup_insert, if_neg hne, lookup_clearHealthyHistory,
      if_neg fun h => hne h.1]
  | status status =>
    dsimp only
    unfold WatchFailureWindow.status
    by_cases hconnected : status = "connected"
    · rw [if_pos hconnected]
    · rw [if_neg hconnected]
      by_cases hstopped : status = "stopped"
      · simp only [if_pos hstopped]
        rw [FinMap.lookup_erase, if_neg hne, lookup_clearHealthyHistory,
          if_neg fun h => hne h.1]
      · simp only [if_neg hstopped]
        rw [lookup_clearHealthyHistory, if_neg fun h => hne h.1]

/-- The failures of a key that leaves a connection or fails. -/
def WatchFailureWindow.kept (w : WatchFailureWindow) (key : String)
    (now : Int) : List Int :=
  if held now (w.connectedAt.lookup key) = true then [] else w.times key

theorem times_clearHealthyHistory (w : WatchFailureWindow) (key : String)
    (now : Int) :
    (w.clearHealthyHistory key now).times key = w.kept key now := by
  unfold WatchFailureWindow.times WatchFailureWindow.kept
  rw [lookup_clearHealthyHistory]
  by_cases h : held now (w.connectedAt.lookup key) = true
  · rw [if_pos ⟨rfl, h⟩, if_pos h]
    rfl
  · rw [if_neg fun h' => h h'.2, if_neg h]
    rfl

theorem times_fail (w : WatchFailureWindow) (key : String) (now : Int) :
    (w.fail key now).2.times key
      = (w.kept key now).filter (recent now) ++ [now] := by
  rw [← times_clearHealthyHistory]
  unfold WatchFailureWindow.times
  simp only [WatchFailureWindow.fail]
  rw [FinMap.lookup_insert, if_pos rfl]
  rfl

theorem fail_fst (w : WatchFailureWindow) (key : String) (now : Int) :
    (w.fail key now).1 = true
      ↔ watchFailureThreshold
        ≤ ((w.kept key now).filter (recent now)).length + 1 := by
  rw [← times_clearHealthyHistory]
  simp [WatchFailureWindow.fail, WatchFailureWindow.times]

theorem times_status (w : WatchFailureWindow) (key status : String)
    (now : Int) :
    (w.status key status now).times key
      = if status = "connected" then w.times key
        else if status = "stopped" then [] else w.kept key now := by
  unfold WatchFailureWindow.status
  by_cases hconnected : status = "connected"
  · rw [if_pos hconnected, if_pos hconnected]
    rfl
  · rw [if_neg hconnected, if_neg hconnected]
    by_cases hstopped : status = "stopped"
    · rw [if_pos hstopped]
      simp only [if_pos hstopped]
      unfold WatchFailureWindow.times
      rw [FinMap.lookup_erase, if_pos rfl]
      rfl
    · rw [if_neg hstopped, ← times_clearHealthyHistory]
      simp only [if_neg hstopped]
      rfl

-- ======== the invariant

/-- The times of the failures of a key since its last reset, from the last
one on. -/
def failTimes (key : String) (past : List Call) : List Int :=
  ((sinceReset key past).filter fun c => c.failsOf key).map Call.now

/-- What a window holds after calls, which are listed from the last one
on. -/
structure Inv (past : List Call) (w : WatchFailureWindow) : Prop where
  opened : ∀ key, w.connectedAt.lookup key = openedAt key past
  /-- What is recent now or later is kept. -/
  times : ∀ key now, (∀ c ∈ past, c.now ≤ now) →
    (w.times key).filter (recent now)
      = ((failTimes key past).filter (recent now)).reverse

theorem recentFails_eq (key : String) (now : Int) (past : List Call) :
    recentFails key now past
      = ((failTimes key past).filter (recent now)).length := by
  unfold recentFails failTimes
  rw [List.filter_map, List.length_map, List.filter_filter,
    List.countP_eq_length_filter]
  simp only [Bool.and_comm, Function.comp_apply]

theorem openedAt_cons (key : String) (c : Call) (past : List Call) :
    openedAt key (c :: past)
      = if key = c.key then
          if c.op = .status "connected" then some c.now else none
        else openedAt key past := by
  unfold openedAt
  by_cases h : key = c.key
  · rw [if_pos h, List.find?_cons_of_pos (by simpa using h.symm)]
  · rw [if_neg h, List.find?_cons_of_neg fun h' =>
      h (of_decide_eq_true h').symm]

theorem failTimes_cons (key : String) (c : Call) (past : List Call) :
    failTimes key (c :: past)
      = (if c.failsOf key = true then [c.now] else [])
        ++ if Resets key c past then [] else failTimes key past := by
  unfold failTimes
  rw [sinceReset]
  by_cases hfails : c.failsOf key = true
  · rw [List.filter_cons_of_pos hfails, if_pos hfails]
    split
    · rfl
    · rfl
  · rw [List.filter_cons_of_neg hfails, if_neg hfails]
    split
    · rfl
    · rfl

theorem inv_start : Inv [] {} where
  opened _ := rfl
  times _ _ _ := rfl

theorem Inv.kept (h : Inv past w) (hnow : ∀ c' ∈ past, c'.now ≤ now)
    (hop : c.op ≠ .status "connected") (hstop : c.op ≠ .status "stopped")
    (hkey : c.key = key) :
    (w.kept key c.now).filter (recent now)
      = ((if Resets key c past then [] else failTimes key past).filter
          (recent now)).reverse := by
  unfold WatchFailureWindow.kept
  rw [h.opened key]
  by_cases hheld : held c.now (openedAt key past) = true
  · rw [if_pos hheld, if_pos ⟨hkey, .inr ⟨hop, hheld⟩⟩]
    rfl
  · have hnot : ¬ Resets key c past := by
      rintro ⟨-, hstopped | ⟨-, hh⟩⟩
      · exact hstop hstopped
      · exact hheld hh
    rw [if_neg hheld, if_neg hnot]
    exact h.times key now hnow

theorem Inv.call (h : Inv past w) (c : Call) :
    Inv (c :: past) (w.call c) where
  opened key := by
    rw [lookup_connectedAt_call, openedAt_cons, h.opened]
  times key now hnow := by
    have hlast : c.now ≤ now := hnow c (List.mem_cons_self ..)
    have hpast : ∀ c' ∈ past, c'.now ≤ now := fun c' hc' =>
      hnow c' (List.mem_cons_of_mem _ hc')
    rw [failTimes_cons]
    by_cases hkey : c.key = key
    · cases hop : c.op with
      | fail =>
        have hfails : c.failsOf key = true := by
          simp [Call.failsOf, hkey, hop]
        have hkept := h.kept hpast (by rw [hop]; nofun)
          (by rw [hop]; nofun) hkey
        -- what was pruned is not recent later
        have hprune : ∀ times : List Int,
            (times.filter (recent c.now)).filter (recent now)
              = times.filter (recent now) := by
          intro times
          rw [List.filter_filter]
          refine List.filter_congr fun time _ => ?_
          unfold recent
          simp only [← Bool.decide_and]
          exact decide_eq_decide.mpr ⟨fun hr => hr.1,
            fun hr => ⟨hr, by omega⟩⟩
        have htimes : (w.call c).times key
            = (w.kept key c.now).filter (recent c.now) ++ [c.now] := by
          unfold WatchFailureWindow.call
          rw [hop, hkey]
          exact times_fail w key c.now
        rw [htimes, if_pos hfails, List.filter_append, hprune, hkept,
          List.filter_append, List.reverse_append]
        congr 1
        rw [List.filter_singleton]
        cases recent now c.now with
        | true => rfl
        | false => rfl
      | status status =>
        have hfails : ¬ c.failsOf key = true := by
          simp [Call.failsOf, hop]
        have htimes : (w.call c).times key
            = if status = "connected" then w.times key
              else if status = "stopped" then [] else w.kept key c.now := by
          unfold WatchFailureWindow.call
          rw [hop, hkey]
          exact times_status w key status c.now
        rw [htimes, if_neg hfails, List.nil_append]
        by_cases hconnected : status = "connected"
        · have hnot : ¬ Resets key c past := by
            rintro ⟨-, hstopped | ⟨hne, -⟩⟩
            · rw [hop, hconnected] at hstopped
              exact absurd (Op.status.inj hstopped) (by decide)
            · exact hne (by rw [hop, hconnected])
          rw [if_pos hconnected, if_neg hnot]
          exact h.times key now hpast
        · rw [if_neg hconnected]
          by_cases hstopped : status = "stopped"
          · have hreset : Resets key c past :=
              ⟨hkey, .inl (by rw [hop, hstopped])⟩
            rw [if_pos hstopped, if_pos hreset]
            rfl
          · rw [if_neg hstopped]
            exact h.kept hpast
              (by rw [hop]; exact fun h => hconnected (Op.status.inj h))
              (by rw [hop]; exact fun h => hstopped (Op.status.inj h))
              hkey
    · have hfails : ¬ c.failsOf key = true := by
        simp [Call.failsOf, hkey]
      rw [times_call_other w hkey, if_neg hfails,
        if_neg fun hreset : Resets key c past => hkey hreset.1]
      exact h.times key now hpast

-- ======== runs

theorem run_append (calls : List Call) (c : Call) :
    run (calls ++ [c]) = (run calls).call c := by
  unfold run
  rw [List.foldl_append]
  rfl

theorem inv_run (calls : List Call) : Inv calls.reverse (run calls) := by
  induction calls using List.reverseRecOn with
  | nil => exact inv_start
  | append_singleton calls c ih =>
    rw [run_append, List.reverse_append]
    exact ih.call c

structure SameFor (key : String) (w w' : WatchFailureWindow) : Prop where
  opened : w.connectedAt.lookup key = w'.connectedAt.lookup key
  times : w.times key = w'.times key

theorem SameFor.kept (h : SameFor key w w') (now : Int) :
    w.kept key now = w'.kept key now := by
  unfold WatchFailureWindow.kept
  rw [h.opened, h.times]

theorem SameFor.call (h : SameFor key w w') (hkey : c.key = key) :
    SameFor key (w.call c) (w'.call c) where
  opened := by
    rw [lookup_connectedAt_call, lookup_connectedAt_call, if_pos hkey.symm,
      if_pos hkey.symm]
  times := by
    subst hkey
    unfold WatchFailureWindow.call
    cases c.op with
    | fail =>
      dsimp only
      rw [times_fail, times_fail, h.kept]
    | status status =>
      dsimp only
      rw [times_status, times_status, h.times, h.kept]

theorem SameFor.call_other (h : SameFor key w w') (hkey : c.key ≠ key) :
    SameFor key w (w'.call c) where
  opened := by
    rw [lookup_connectedAt_call, if_neg fun heq => hkey heq.symm]
    exact h.opened
  times := h.times.trans (times_call_other w' hkey).symm

theorem sameFor_filter (key : String) (calls : List Call) :
    SameFor key (run (calls.filter fun c => c.key = key)) (run calls) := by
  induction calls using List.reverseRecOn with
  | nil => exact ⟨rfl, rfl⟩
  | append_singleton calls c ih =>
    rw [List.filter_append, run_append]
    by_cases hkey : c.key = key
    · have hthis : [c].filter (fun c => c.key = key) = [c] :=
        List.filter_eq_self.mpr fun c' hc' =>
          decide_eq_true (List.mem_singleton.mp hc' ▸ hkey)
      rw [hthis, run_append]
      exact ih.call hkey
    · have hnone : [c].filter (fun c => c.key = key) = [] :=
        List.filter_eq_nil_iff.mpr fun c' hc' h =>
          hkey (List.mem_singleton.mp hc' ▸ of_decide_eq_true h)
      rw [hnone, List.append_nil]
      exact ih.call_other hkey

-- ======== the result

def Ordered (calls : List Call) : Prop :=
  calls.Pairwise fun c c' => c.now ≤ c'.now

instance Ordered.decidable (calls : List Call) :
    Decidable (Ordered calls) :=
  inferInstanceAs (Decidable (calls.Pairwise _))

/-- `fail` answers whether the key failed five times within the window since
its last reset, this time included, and what other keys are called for does
not change the answer. -/
theorem fail_right (calls : List Call) (key : String) (now : Int)
    (h : Ordered (calls ++ [⟨key, .fail, now⟩])) :
    (answer calls key now = true
        ↔ 5 ≤ recentFails key now (⟨key, .fail, now⟩ :: calls.reverse))
      ∧ answer (calls.filter fun c => c.key = key) key now
        = answer calls key now := by
  obtain ⟨-, -, hlast⟩ := List.pairwise_append.mp h
  have hnow : ∀ c ∈ calls.reverse, c.now ≤ now := fun c hc =>
    hlast c (List.mem_reverse.mp hc) _ (List.mem_singleton_self _)
  constructor
  · have hkept := (inv_run calls).kept (c := ⟨key, .fail, now⟩) hnow
      nofun nofun rfl
    have hthis : recent now now = true := by
      unfold recent watchFailureWindowMs
      simp
    have hfails : (Call.mk key .fail now).failsOf key = true := by
      simp [Call.failsOf]
    unfold answer
    rw [fail_fst, recentFails_eq, failTimes_cons, if_pos hfails, hkept,
      List.length_reverse, List.filter_append,
      List.filter_cons_of_pos hthis, List.filter_nil,
      List.length_append, List.length_singleton, Nat.add_comm]
    rfl
  · have hsame := (sameFor_filter key calls).kept now
    unfold answer
    rw [Bool.eq_iff_iff, fail_fst, fail_fst, hsame]

/-- A watch that fails four times, another one that fails once, and the
first again a minute after its first failure. -/
def flaky : List Call :=
  [⟨"pods", .fail, 0⟩, ⟨"pods", .fail, 20000⟩, ⟨"nodes", .fail, 20000⟩,
    ⟨"pods", .status "connected", 30000⟩, ⟨"pods", .fail, 40000⟩,
    ⟨"pods", .fail, 50000⟩]

/-- It is not given up yet. -/
theorem fail_right_flaky :
    Ordered (flaky ++ [⟨"pods", .fail, 60000⟩])
      ∧ (answer flaky "pods" 60000 = true
        ↔ 5 ≤ recentFails "pods" 60000
          (⟨"pods", .fail, 60000⟩ :: flaky.reverse))
      ∧ answer (flaky.filter fun c => c.key = "pods") "pods" 60000
        = answer flaky "pods" 60000 :=
  ⟨by decide, fail_right flaky "pods" 60000 (by decide)⟩

/-- A moment earlier it would have been. -/
example : answer flaky "pods" 59999 = true
    ∧ answer flaky "pods" 60000 = false := by decide

end WatchFailures
