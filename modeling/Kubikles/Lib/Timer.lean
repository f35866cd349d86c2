/-
One-shot timers: a function run later, in a thread of its own, unless
the timer is stopped first.

# The semantics

A timer is *armed* when it is created, *fired* once its delay has
passed and its function's thread exists, and *done* once that function
has had its turn. Stopping an armed timer makes it *stopped* for good.
Stopping a timer that has fired does nothing: its function is already
on its way and may be waiting for a lock.

A table of timers only grows. A timer is named by its position, so a
variable that holds a timer and is overwritten loses the name, not the
timer. Each timer carries what its function captured.
-/
import Mathlib.Data.List.Basic

inductive TimerState where
  | armed
  | fired
  | stopped
  | done
deriving DecidableEq, Repr

/-- A timer and the data its function captured. -/
structure Timer (P : Type*) where
  captured : P
  state : TimerState
deriving DecidableEq, Repr

/-- Every timer ever created, by position. -/
abbrev Timers (P : Type*) := List (Timer P)

namespace Timers

variable {P : Type*}

def start (p : P) (ts : Timers P) : Timers P := ts ++ [⟨p, .armed⟩]

def stop (i : Nat) (ts : Timers P) : Timers P :=
  ts.modify i fun t =>
    if t.state = .armed then { t with state := .stopped } else t

def stopAt : Option Nat → Timers P → Timers P
  | none, ts => ts
  | some i, ts => stop i ts

def fire (i : Nat) (ts : Timers P) : Option (Timers P) :=
  match ts[i]? with
  | some ⟨p, .armed⟩ => some (ts.set i ⟨p, .fired⟩)
  | _ => none

def take (i : Nat) (ts : Timers P) : Option (P × Timers P) :=
  match ts[i]? with
  | some ⟨p, .fired⟩ => some (p, ts.set i ⟨p, .done⟩)
  | _ => none

def Armed (ts : Timers P) : Prop := ∃ t ∈ ts, t.state = .armed

/-- Some timer has fired and its function has not had its turn. -/
def Fired (ts : Timers P) : Prop := ∃ t ∈ ts, t.state = .fired

instance (ts : Timers P) : Decidable (Armed ts) :=
  inferInstanceAs (Decidable (∃ t ∈ ts, t.state = .armed))

instance (ts : Timers P) : Decidable (Fired ts) :=
  inferInstanceAs (Decidable (∃ t ∈ ts, t.state = .fired))

-- ======== what a step does

theorem fire_eq_some {i : Nat} {ts ts' : Timers P}
    (h : fire i ts = some ts') :
    ∃ p, ts[i]? = some ⟨p, .armed⟩ ∧ ts' = ts.set i ⟨p, .fired⟩ := by
  unfold fire at h
  split at h
  next p hp => exact ⟨p, hp, (Option.some.inj h).symm⟩
  next => cases h

theorem armed_start (p : P) (ts : Timers P) : Armed (start p ts) :=
  ⟨⟨p, .armed⟩, by simp [start], rfl⟩

theorem fired_of_fire {i : Nat} {ts ts' : Timers P}
    (h : fire i ts = some ts') : Fired ts' := by
  obtain ⟨p, hp, rfl⟩ := fire_eq_some h
  obtain ⟨hi, -⟩ := List.getElem?_eq_some_iff.mp hp
  exact ⟨⟨p, .fired⟩, List.mem_set hi _, rfl⟩

end Timers
