/-
The polling budget (frontend/src/utils/pollingBudget.ts).

# Calls

`createPollingBudget` returns a function that runs operations, so many of
them at a time. A call of it is at one place (`Call`), and every
continuation behind an `await` is a step of its own: that of `acquire` when
it was woken, that of the call when it has a slot, and the `finally` when
its operation has come to an end, one way or the other.

# The budget

`release` gives a slot back and wakes the call that has waited longest. But
that one takes the slot later, in a step of its own, and whoever calls in
between finds the slot free. Where nobody does, the slots that are taken and
those that are promised are no more than there are (`Inv.room`); and in any
run nobody waits as long as one of them is free (`Inv.served`).
-/
import Kubikles.Lib.Machine
import Kubikles.Lib.Place

namespace PollingBudget

open Machine (Step run Along Visits)

-- ======== the model

/-- A call of the function that `createPollingBudget` returns. -/
inductive Call where
  /-- It is in `waiting`. -/
  | waiting
  /-- It was taken out of `waiting`, and `acquire` has still to go on. -/
  | woken
  /-- It has its slot, and its operation is not started yet. -/
  | acquired
  | running
  /-- Its operation was resolved or rejected, and the `finally` is to come. -/
  | settled
  | done
deriving DecidableEq

/-- The variables of a budget, and the calls there were. -/
structure State where
  active : Int := 0
  waiting : List Nat := []
  calls : List Call := []
deriving DecidableEq

inductive Action where
  | call
  /-- `acquire` goes on behind its `await`. -/
  | wake (i : Nat)
  /-- A call that has a slot starts its operation, which may throw at
  once. -/
  | start (i : Nat) (throws : Bool)
  /-- The operation of a call is resolved or rejected. -/
  | settle (i : Nat)
  /-- The call goes on to its `finally`. -/
  | finish (i : Nat)
deriving DecidableEq

namespace State

/-- `acquire`, up to its first `await`. -/
def acquire (maxConcurrent : Nat) (s : State) : State :=
  if s.active < maxConcurrent then
    { s with active := s.active + 1, calls := s.calls ++ [.acquired] }
  else
    { s with
      waiting := s.waiting ++ [s.calls.length]
      calls := s.calls ++ [.waiting] }

def setCall (s : State) (i : Nat) (c : Call) : State :=
  { s with calls := s.calls.set i c }

def release (s : State) : State :=
  match s.waiting with
  | [] => { s with active := s.active - 1 }
  | j :: waiting =>
    { s with active := s.active - 1, waiting }.setCall j .woken

end State

/-- The transitions. A step that starts an operation puts out whose it
is. -/
def step (maxConcurrent : Nat) : Step State Action Nat
  | .call, s => some (s.acquire maxConcurrent, [])
  | .wake i, s =>
    if s.calls[i]? = some .woken then
      some ({ s with active := s.active + 1 }.setCall i .acquired, [])
    else none
  | .start i throws, s =>
    if s.calls[i]? = some .acquired then
      if throws then some ((s.setCall i .done).release, [i])
      else some (s.setCall i .running, [i])
    else none
  | .settle i, s =>
    if s.calls[i]? = some .running then some (s.setCall i .settled, [])
    else none
  | .finish i, s =>
    if s.calls[i]? = some .settled then
      some ((s.setCall i .done).release, [])
    else none

-- ======== the budget

def Call.isRunning : Call → Bool
  | .running => true
  | _ => false

def Call.isPending : Call → Bool
  | .woken | .acquired | .settled => true
  | _ => false

def Call.holds : Call → Bool
  | .acquired | .running | .settled => true
  | _ => false

def Call.isWoken : Call → Bool
  | .woken => true
  | _ => false

def Call.wasStarted : Call → Bool
  | .running | .settled | .done => true
  | _ => false

/-- How many operations are running. -/
def State.running (s : State) : Nat := s.calls.countP Call.isRunning

/-- How many calls were woken for a slot they have not taken. -/
def State.promised (s : State) : Nat := s.calls.countP Call.isWoken

/-- What is asked of a budget: no more operations are running than there
are slots, and where a slot is free nobody waits for it once all
continuations have run. -/
structure Kept (maxConcurrent : Nat) (s : State) : Prop where
  bounded : s.running ≤ maxConcurrent
  served : s.running < maxConcurrent →
    (∀ c ∈ s.calls, c.isPending = false) →
      s.waiting = [] ∧ .waiting ∉ s.calls

/-- No call comes in while a slot is free only because a call that was woken
for it has not taken it yet. -/
def NotOvertaken (maxConcurrent : Nat) (s : State) : Action → Prop
  | .call =>
    s.active < maxConcurrent → s.active + s.promised < maxConcurrent
  | _ => True

instance (maxConcurrent : Nat) (s : State) :
    ∀ a, Decidable (NotOvertaken maxConcurrent s a)
  | .call =>
    inferInstanceAs (Decidable (s.active < maxConcurrent →
      s.active + s.promised < maxConcurrent))
  | .wake _ | .start _ _ | .settle _ | .finish _ =>
    inferInstanceAs (Decidable True)

-- ======== the invariant

variable {maxConcurrent : Nat} {s s' : State} {i : Nat} {c d : Call}
variable {a : Action} {out o : List Nat}

/-- What the variables say of the calls. -/
structure Inv (s : State) : Prop where
  active : s.active = s.calls.countP Call.holds
  waiting : ∀ i, i ∈ s.waiting ↔ s.calls[i]? = some .waiting
  nodup : s.waiting.Nodup

def State.total (s : State) : Int := s.active + s.promised

theorem Inv.setCall (h : Inv s) (hc : s.calls[i]? = some c)
    (hcw : c ≠ .waiting) (hdw : d ≠ .waiting) {n : Int}
    (hn : n + c.holds.toNat = s.active + d.holds.toNat) :
    Inv ({ s with active := n }.setCall i d) where
  active := by
    have hcount := Place.countP_set (a := d) (p := Call.holds) hc
    have hactive := h.active
    show n = ((s.calls.set i d).countP Call.holds : Int)
    omega
  waiting := by
    intro j
    show j ∈ s.waiting ↔ (s.calls.set i d)[j]? = some .waiting
    rw [h.waiting j]
    by_cases hij : i = j
    · subst hij
      rw [Place.set_self hc, hc]
      simp [hcw, hdw]
    · rw [List.getElem?_set_ne hij]
  nodup := h.nodup

theorem promised_setCall (hc : s.calls[i]? = some c) (n : Int) :
    ({ s with active := n }.setCall i d).promised + c.isWoken.toNat
      = s.promised + d.isWoken.toNat :=
  Place.countP_set hc

/-- Once a slot is given back, it is promised to a call, if one waits. -/
theorem Inv.release (h : Inv { s with active := s.active - 1 }) :
    Inv s.release
      ∧ (s.release.total = s.total ∧ s.waiting ≠ []
        ∨ s.release.total = s.total - 1 ∧ s.release.waiting = []) := by
  unfold State.release
  split
  next hnil =>
    refine ⟨h, .inr ⟨?_, hnil⟩⟩
    show s.active - 1 + s.promised = s.active + s.promised - 1
    omega
  next j rest hcons =>
    have hj : s.calls[j]? = some .waiting :=
      (h.waiting j).mp (hcons ▸ List.mem_cons_self)
    have hnodup : (j :: rest).Nodup := hcons ▸ h.nodup
    refine ⟨?_, .inl ⟨?_, hcons ▸ List.cons_ne_nil j rest⟩⟩
    · constructor
      · have hcount := Place.countP_set (a := Call.woken) (p := Call.holds) hj
        have hactive : s.active - 1 = s.calls.countP Call.holds := h.active
        show s.active - 1
          = ((s.calls.set j .woken).countP Call.holds : Int)
        simp only [Call.holds, Bool.toNat_false] at hcount
        omega
      · intro k
        show k ∈ rest ↔ (s.calls.set j .woken)[k]? = some .waiting
        have hk : k ∈ j :: rest ↔ s.calls[k]? = some .waiting :=
          hcons ▸ h.waiting k
        by_cases hjk : j = k
        · subst hjk
          rw [Place.set_self hj]
          simp [(List.nodup_cons.mp hnodup).1]
        · rw [List.getElem?_set_ne hjk, ← hk, List.mem_cons]
          simp [Ne.symm hjk]
      · exact (List.nodup_cons.mp hnodup).2
    · have hcount := Place.countP_set (a := Call.woken) (p := Call.isWoken) hj
      simp only [Call.isWoken, Bool.toNat_false, Bool.toNat_true] at hcount
      show s.active - 1 + ((s.calls.set j .woken).countP Call.isWoken : Int)
        = s.active + s.calls.countP Call.isWoken
      omega

/-- What a continuation, or the end of an operation, does to the slots. -/
theorem Inv.step (h : Inv s) (ha : a ≠ .call)
    (hstep : step maxConcurrent a s = some (s', o)) :
    Inv s' ∧ (s'.total = s.total ∧ (s'.waiting ≠ [] → s.waiting ≠ [])
      ∨ s'.total = s.total - 1 ∧ s'.waiting = []) := by
  -- a call that has a slot gives it back
  have hfinish : ∀ {i c}, s.calls[i]? = some c → c.holds = true →
      Inv (s.setCall i .done).release
        ∧ ((s.setCall i .done).release.total = s.total
            ∧ ((s.setCall i .done).release.waiting ≠ [] → s.waiting ≠ [])
          ∨ (s.setCall i .done).release.total = s.total - 1
            ∧ (s.setCall i .done).release.waiting = []) := by
    intro i c hc hholds
    have hw : c.isWoken = false := by
      cases c <;> simp_all [Call.holds, Call.isWoken]
    have hpromised := promised_setCall (d := .done) hc s.active
    have htotal : (s.setCall i .done).total = s.total := by
      rw [hw] at hpromised
      show s.active + ((s.setCall i .done).promised : Int)
        = s.active + s.promised
      simp only [Call.isWoken, Bool.toNat_false, Nat.add_zero] at hpromised
      exact congrArg _ (congrArg _ hpromised)
    obtain ⟨hinv, hcases⟩ := Inv.release (s := s.setCall i .done)
      (h.setCall (n := s.active - 1) hc (by rintro rfl; cases hholds)
        (by decide) (by
        rw [hholds]
        show s.active - 1 + 1 = s.active + 0
        omega))
    rw [htotal] at hcases
    refine ⟨hinv, ?_⟩
    rcases hcases with ⟨ht, hne⟩ | hcases
    · exact .inl ⟨ht, fun _ => hne⟩
    · exact .inr hcases
  cases a with
  | call => exact absurd rfl ha
  | wake i =>
    simp only [PollingBudget.step] at hstep
    split at hstep
    next hc =>
      obtain ⟨rfl, rfl⟩ := Prod.mk.inj (Option.some.inj hstep)
      have hpromised :=
        promised_setCall (d := .acquired) hc (s.active + 1)
      simp only [Call.isWoken, Bool.toNat_false, Bool.toNat_true]
        at hpromised
      refine ⟨h.setCall hc (by decide) (by decide)
        (by simp [Call.holds]), .inl ⟨?_, id⟩⟩
      show s.active + 1
        + (({ s with active := s.active + 1 }.setCall i
          .acquired).promised : Int) = s.active + s.promised
      omega
    · cases hstep
  | start i throws =>
    simp only [PollingBudget.step] at hstep
    split at hstep
    next hc =>
      split at hstep
      · obtain ⟨rfl, rfl⟩ := Prod.mk.inj (Option.some.inj hstep)
        exact hfinish hc rfl
      · obtain ⟨rfl, rfl⟩ := Prod.mk.inj (Option.some.inj hstep)
        exact ⟨h.setCall (n := s.active) hc (by decide) (by decide) rfl,
          .inl ⟨congrArg (s.active + ·) (congrArg _
            (promised_setCall (d := .running) hc s.active)), id⟩⟩
    · cases hstep
  | settle i =>
    simp only [PollingBudget.step] at hstep
    split at hstep
    next hc =>
      obtain ⟨rfl, rfl⟩ := Prod.mk.inj (Option.some.inj hstep)
      exact ⟨h.setCall (n := s.active) hc (by decide) (by decide) rfl,
        .inl ⟨congrArg (s.active + ·) (congrArg _
          (promised_setCall (d := .settled) hc s.active)), id⟩⟩
    · cases hstep
  | finish i =>
    simp only [PollingBudget.step] at hstep
    split at hstep
    next hc =>
      obtain ⟨rfl, rfl⟩ := Prod.mk.inj (Option.some.inj hstep)
      exact hfinish hc rfl
    · cases hstep

/-- Where a call comes in, it waits only if no slot is free. -/
theorem Inv.acquire (maxConcurrent : Nat) (h : Inv s) :
    Inv (s.acquire maxConcurrent)
      ∧ (s.active < maxConcurrent
          ∧ (s.acquire maxConcurrent).total = s.total + 1
          ∧ (s.acquire maxConcurrent).waiting = s.waiting
        ∨ maxConcurrent ≤ s.active
          ∧ (s.acquire maxConcurrent).total = s.total) := by
  have hlast : s.calls[s.calls.length]? = none :=
    List.getElem?_eq_none (Nat.le_refl _)
  have hactive := h.active
  unfold State.acquire
  split
  next hfree =>
    refine ⟨⟨?_, fun j => ?_, h.nodup⟩, .inl ⟨hfree, ?_, rfl⟩⟩
    · show s.active + 1
        = ((s.calls ++ [Call.acquired]).countP Call.holds : Int)
      rw [List.countP_append, hactive]
      rfl
    · show j ∈ s.waiting ↔ (s.calls ++ [.acquired])[j]? = some .waiting
      rw [h.waiting j]
      refine ⟨Place.append_of_some, fun hj => ?_⟩
      rcases Place.append_cases hj with hj | ⟨-, hj⟩
      · exact hj
      · cases hj
    · show s.active + 1
        + ((s.calls ++ [Call.acquired]).countP Call.isWoken : Int)
        = s.active + s.calls.countP Call.isWoken + 1
      rw [List.countP_append]
      simp [Call.isWoken]
      omega
  next hfull =>
    refine ⟨⟨?_, fun j => ?_, ?_⟩, .inr ⟨Int.not_lt.mp hfull, ?_⟩⟩
    · show s.active = ((s.calls ++ [Call.waiting]).countP Call.holds : Int)
      rw [List.countP_append, hactive]
      rfl
    · show j ∈ s.waiting ++ [s.calls.length]
        ↔ (s.calls ++ [.waiting])[j]? = some .waiting
      rw [List.mem_append, List.mem_singleton, h.waiting j]
      constructor
      · rintro (hj | rfl)
        · exact Place.append_of_some hj
        · exact List.getElem?_concat_length
      · intro hj
        rcases Place.append_cases hj with hj | ⟨hj, -⟩
        · exact .inl hj
        · exact .inr hj
    · show (s.waiting ++ [s.calls.length]).Nodup
      refine List.nodup_append.mpr ⟨h.nodup, by simp, fun j hj k hk => ?_⟩
      rw [List.mem_singleton.mp hk]
      rintro rfl
      cases hlast.symm.trans ((h.waiting _).mp hj)
    · show s.active
        + ((s.calls ++ [Call.waiting]).countP Call.isWoken : Int)
        = s.active + s.calls.countP Call.isWoken
      rw [List.countP_append]
      rfl

-- ======== the runs

/-- What holds of the slots in every run. -/
structure Sound (maxConcurrent : Nat) (s : State) : Prop extends Inv s where
  served : s.waiting ≠ [] → maxConcurrent ≤ s.total

theorem Sound.step (h : Sound maxConcurrent s)
    (hstep : step maxConcurrent a s = some (s', o)) :
    Sound maxConcurrent s' := by
  by_cases ha : a = .call
  · subst ha
    obtain ⟨rfl, rfl⟩ := Prod.mk.inj (Option.some.inj hstep)
    obtain ⟨hinv, ⟨-, htotal, hwaiting⟩ | ⟨hfull, htotal⟩⟩ :=
      h.toInv.acquire maxConcurrent
    · refine ⟨hinv, fun hne => ?_⟩
      have := h.served (hwaiting ▸ hne)
      omega
    · refine ⟨hinv, fun _ => ?_⟩
      unfold State.total at htotal ⊢
      omega
  · obtain ⟨hinv, ⟨htotal, hne⟩ | ⟨-, hnil⟩⟩ := h.toInv.step ha hstep
    · exact ⟨hinv, fun hw => htotal ▸ h.served (hne hw)⟩
    · exact ⟨hinv, fun hw => absurd hnil hw⟩

theorem room_step (h : Inv s) (hroom : s.total ≤ maxConcurrent)
    (hok : NotOvertaken maxConcurrent s a)
    (hstep : step maxConcurrent a s = some (s', o)) :
    s'.total ≤ maxConcurrent := by
  by_cases ha : a = .call
  · subst ha
    obtain ⟨rfl, rfl⟩ := Prod.mk.inj (Option.some.inj hstep)
    obtain ⟨-, ⟨hfree, htotal, -⟩ | ⟨-, htotal⟩⟩ :=
      h.acquire maxConcurrent
    · have hlt : s.total < maxConcurrent := hok hfree
      omega
    · omega
  · obtain ⟨-, ⟨htotal, -⟩ | ⟨htotal, -⟩⟩ := h.step ha hstep
    · omega
    · omega

/-- The operations that were started are those of calls that have got so
far, each once. -/
structure Started (s : State) (out : List Nat) : Prop where
  nodup : out.Nodup
  calls : ∀ i ∈ out, ∃ c, s.calls[i]? = some c ∧ c.wasStarted = true

theorem Started.setCall (h : Started s out) (hc : s.calls[i]? = some c)
    (hcd : c.wasStarted = true → d.wasStarted = true) :
    Started (s.setCall i d) out where
  nodup := h.nodup
  calls := by
    intro j hj
    obtain ⟨e, he, hstarted⟩ := h.calls j hj
    by_cases hij : i = j
    · subst hij
      obtain rfl := Option.some.inj (hc.symm.trans he)
      exact ⟨d, Place.set_self hc, hcd hstarted⟩
    · exact ⟨e, (List.getElem?_set_ne hij).trans he, hstarted⟩

theorem Started.start (h : Started s out) (hc : s.calls[i]? = some c)
    (hcs : c.wasStarted = false) (hds : d.wasStarted = true) :
    Started (s.setCall i d) (out ++ [i]) where
  nodup := by
    refine List.nodup_append.mpr ⟨h.nodup, by simp, fun j hj k hk => ?_⟩
    rw [List.mem_singleton.mp hk]
    rintro rfl
    obtain ⟨e, he, hstarted⟩ := h.calls j hj
    obtain rfl := Option.some.inj (hc.symm.trans he)
    rw [hcs] at hstarted
    cases hstarted
  calls := by
    intro j hj
    rcases List.mem_append.mp hj with hj | hj
    · exact (h.setCall hc fun _ => hds).calls j hj
    · rw [List.mem_singleton.mp hj]
      exact ⟨d, Place.set_self hc, hds⟩

theorem Started.release (hw : ∀ i ∈ s.waiting, s.calls[i]? = some .waiting)
    (h : Started s out) : Started s.release out := by
  unfold State.release
  split
  · exact ⟨h.nodup, h.calls⟩
  next j rest hcons =>
    have hj := hw j (hcons ▸ List.mem_cons_self)
    have hset := h.setCall (d := .woken) hj (by decide)
    exact ⟨hset.nodup, hset.calls⟩

/-- A step that starts an operation puts it out, and no other does. -/
theorem Started.step (hinv : Inv s) (h : Started s out)
    (hstep : step maxConcurrent a s = some (s', o)) :
    Started s' (out ++ o) := by
  -- those who wait still do, where a call has come to its end
  have hwaiting : ∀ {i c}, s.calls[i]? = some c → c ≠ .waiting →
      ∀ j ∈ (s.setCall i .done).waiting,
        (s.setCall i .done).calls[j]? = some .waiting := by
    intro i c hc hcw j hj
    have hj' := (hinv.waiting j).mp hj
    refine (List.getElem?_set_ne fun hij => ?_).trans hj'
    subst hij
    exact hcw (Option.some.inj (hc.symm.trans hj'))
  cases a with
  | call =>
    obtain ⟨rfl, rfl⟩ := Prod.mk.inj (Option.some.inj hstep)
    rw [List.append_nil]
    refine ⟨h.nodup, fun j hj => ?_⟩
    obtain ⟨e, he, hstarted⟩ := h.calls j hj
    refine ⟨e, ?_, hstarted⟩
    unfold State.acquire
    split
    · exact Place.append_of_some he
    · exact Place.append_of_some he
  | wake i =>
    simp only [PollingBudget.step] at hstep
    split at hstep
    next hc =>
      obtain ⟨rfl, rfl⟩ := Prod.mk.inj (Option.some.inj hstep)
      rw [List.append_nil]
      have hset := h.setCall (d := .acquired) hc (by decide)
      exact ⟨hset.nodup, hset.calls⟩
    · cases hstep
  | start i throws =>
    simp only [PollingBudget.step] at hstep
    split at hstep
    next hc =>
      split at hstep
      · obtain ⟨rfl, rfl⟩ := Prod.mk.inj (Option.some.inj hstep)
        exact (h.start hc rfl rfl).release (hwaiting hc (by decide))
      · obtain ⟨rfl, rfl⟩ := Prod.mk.inj (Option.some.inj hstep)
        exact h.start hc rfl rfl
    · cases hstep
  | settle i =>
    simp only [PollingBudget.step] at hstep
    split at hstep
    next hc =>
      obtain ⟨rfl, rfl⟩ := Prod.mk.inj (Option.some.inj hstep)
      rw [List.append_nil]
      exact h.setCall hc fun _ => rfl
    · cases hstep
  | finish i =>
    simp only [PollingBudget.step] at hstep
    split at hstep
    next hc =>
      obtain ⟨rfl, rfl⟩ := Prod.mk.inj (Option.some.inj hstep)
      rw [List.append_nil]
      exact (h.setCall hc fun _ => rfl).release (hwaiting hc (by decide))
    · cases hstep

theorem kept_of_sound (h : Sound maxConcurrent s)
    (hroom : s.total ≤ maxConcurrent) : Kept maxConcurrent s where
  bounded := by
    have hle : s.running ≤ s.calls.countP Call.holds :=
      List.countP_mono_left fun c _ hc => by
        cases c <;> simp_all [Call.isRunning, Call.holds]
    have hactive := h.active
    unfold State.total at hroom
    omega
  served := by
    intro hfree hidle
    -- nothing is pending, so whoever has a slot is running
    have hholds : s.calls.countP Call.holds ≤ s.running :=
      List.countP_mono_left fun c hc hh => by
        have := hidle c hc
        cases c <;> simp_all [Call.isRunning, Call.holds, Call.isPending]
    have hpromised : s.promised = 0 :=
      List.countP_eq_zero.mpr fun c hc hw => by
        have := hidle c hc
        cases c <;> simp_all [Call.isWoken, Call.isPending]
    have hactive := h.active
    have hnil : s.waiting = [] := by
      by_contra hne
      have hserved := h.served hne
      unfold State.total at hserved
      omega
    refine ⟨hnil, fun hmem => ?_⟩
    obtain ⟨i, hi⟩ := List.getElem?_of_mem hmem
    exact List.not_mem_nil (hnil ▸ (h.waiting i).mpr hi)

theorem waiting_release (s : State) : s.release.waiting.Sublist s.waiting := by
  unfold State.release
  split
  · exact List.Sublist.refl _
  next hcons => exact hcons ▸ List.sublist_cons_self ..

theorem waiting_step (hstep : step maxConcurrent a s = some (s', o)) :
    s'.waiting.Sublist s.waiting
      ∨ s'.waiting = s.waiting ++ [s.calls.length] := by
  cases a with
  | call =>
    obtain ⟨rfl, rfl⟩ := Prod.mk.inj (Option.some.inj hstep)
    unfold State.acquire
    split
    · exact .inl (List.Sublist.refl _)
    · exact .inr rfl
  | start i throws =>
    simp only [step] at hstep
    split at hstep
    · split at hstep
      · cases hstep
        exact .inl (waiting_release (s.setCall i .done))
      · cases hstep
        exact .inl (List.Sublist.refl _)
    · cases hstep
  | finish i =>
    simp only [step] at hstep
    split at hstep
    · cases hstep
      exact .inl (waiting_release (s.setCall i .done))
    · cases hstep
  | _ =>
    simp only [step] at hstep
    split at hstep
    · cases hstep
      exact .inl (List.Sublist.refl _)
    · cases hstep

/-- In every run, whoever is overtaken: `active` says how many slots are taken,
the calls that wait are queued in the order they came, none waits while a slot
is neither taken nor promised, and every operation is started once at most. -/
theorem budget_fair {acts : List Action}
    (hrun : run (step maxConcurrent) {} acts = some (s, out)) :
    s.active = s.calls.countP Call.holds
      ∧ (∀ i, i ∈ s.waiting ↔ s.calls[i]? = some .waiting)
      ∧ s.waiting.Pairwise (· < ·)
      ∧ (s.waiting ≠ [] → maxConcurrent ≤ s.active + s.promised)
      ∧ out.Nodup := by
  have hinit : Sound maxConcurrent {} :=
    ⟨⟨rfl, by simp, List.nodup_nil⟩, fun h => absurd rfl h⟩
  have hall : s.waiting.Pairwise (· < ·) ∧ Sound maxConcurrent s
      ∧ Started s out := by
    refine Machine.run_history_nil
      (J := fun s out => s.waiting.Pairwise (· < ·) ∧ Sound maxConcurrent s
        ∧ Started s out)
      ?_ ⟨List.Pairwise.nil, hinit, List.nodup_nil, by simp⟩
      Machine.along_true hrun
    intro a s s' o before ⟨hsorted, hsound, hstarted⟩ _ hstep
    refine ⟨?_, hsound.step hstep, hstarted.step hsound.toInv hstep⟩
    rcases waiting_step hstep with hsub | hlast
    · exact hsorted.sublist hsub
    · rw [hlast]
      refine List.pairwise_append.mpr
        ⟨hsorted, List.pairwise_singleton .., fun i hi j hj => ?_⟩
      rw [List.mem_singleton.mp hj]
      exact (List.getElem?_eq_some_iff.mp ((hsound.waiting i).mp hi)).1
  obtain ⟨hsorted, hsound, hstarted⟩ := hall
  exact ⟨hsound.active, hsound.waiting, hsorted, hsound.served, hstarted.nodup⟩

theorem budget_fair_overtaken :
    ∃ s out, run (step 1) {} [.call, .call, .start 0 false, .settle 0,
        .finish 0, .call, .wake 1, .call, .call] = some (s, out)
      ∧ s.waiting = [3, 4] ∧ out.Nodup :=
  ⟨_, _, rfl, rfl, (budget_fair (show run (step 1) {} [.call, .call,
    .start 0 false, .settle 0, .finish 0, .call, .wake 1, .call, .call]
      = _ from rfl)).2.2.2.2⟩

/-- Where no woken call is overtaken, a budget is kept in every state, and
every operation is started once at most. -/
theorem budget_kept {acts : List Action}
    (hok : Along (step maxConcurrent) (NotOvertaken maxConcurrent) {} acts)
    (hrun : run (step maxConcurrent) {} acts = some (s, out)) :
    Kept maxConcurrent s ∧ out.Nodup := by
  have hinit : Sound maxConcurrent {} :=
    ⟨⟨rfl, by simp, List.nodup_nil⟩, fun h => absurd rfl h⟩
  obtain ⟨⟨hsound, hroom⟩, hstarted⟩ := Machine.run_history_nil
    (J := fun s out => (Sound maxConcurrent s ∧ s.total ≤ maxConcurrent)
      ∧ Started s out)
    (fun ⟨⟨hsound, hroom⟩, hstarted⟩ hok hstep =>
      ⟨⟨hsound.step hstep, room_step hsound.toInv hroom hok hstep⟩,
        hstarted.step hsound.toInv hstep⟩)
    ⟨⟨hinit, Int.natCast_nonneg _⟩, List.nodup_nil, by simp⟩ hok hrun
  exact ⟨kept_of_sound hsound hroom, hstarted.nodup⟩

/-- Three calls of which each waits for the one before it. -/
theorem budget_kept_in_turn :
    ∃ s out,
      run (step 1) {} [.call, .call, .start 0 false, .settle 0, .finish 0,
        .wake 1, .call, .start 1 false] = some (s, out)
        ∧ Kept 1 s ∧ out.Nodup := by
  refine ⟨_, _, rfl, budget_kept ?_ (show run (step 1) {} [.call, .call,
    .start 0 false, .settle 0, .finish 0, .wake 1, .call, .start 1 false]
      = _ from rfl)⟩
  decide

/-- A call that comes in between the release of the slot and the wake-up of
the call that waits for it: both run. -/
theorem overtaken_overruns :
    ∃ s out,
      run (step 1) {} [.call, .call, .start 0 false, .settle 0, .finish 0,
        .call, .wake 1, .start 2 false, .start 1 false] = some (s, out)
        ∧ ¬Kept 1 s := by
  refine ⟨_, _, rfl, fun h => ?_⟩
  have htwo : 2 ≤ 1 := h.bounded
  omega

end PollingBudget
