/-
Reading decimal numbers from the front of a text (JavaScript's `parseInt`
to the base ten and `parseFloat`).

Both leave out white space in front, read a sign and then as much as is a
number, and pass over what is behind it. Numbers are exact, so what is no
finite number is what has no digits, or is infinite by name (`none`).
-/
import Mathlib.Algebra.Order.Field.Power
import Mathlib.Tactic.Ring
import Mathlib.Tactic.FieldSimp
import Mathlib.Tactic.Linarith

namespace Decimal

-- ======== digits

def isDigit (c : Char) : Bool := '0' ≤ c && c ≤ '9'

def digit (c : Char) : Nat := c.toNat - 48

def digits (ds : List Char) : Nat := ds.foldl (fun n c => 10 * n + digit c) 0

theorem digits_append (ds ds' : List Char) :
    digits (ds ++ ds') = digits ds * 10 ^ ds'.length + digits ds' := by
  have hfold : ∀ (ds : List Char) (n : Nat),
      ds.foldl (fun n c => 10 * n + digit c) n
        = n * 10 ^ ds.length + digits ds := by
    intro ds
    induction ds with
    | nil => exact fun n => by simp [digits]
    | cons c ds ih =>
      intro n
      have hcons : digits (c :: ds) = digit c * 10 ^ ds.length
          + digits ds := by
        show ds.foldl _ (10 * 0 + digit c) = _
        rw [ih]
        ring
      rw [List.foldl_cons, ih, hcons, List.length_cons]
      ring
  unfold digits
  rw [List.foldl_append, hfold]
  rfl

theorem digits_cons (c : Char) (ds : List Char) :
    digits (c :: ds) = digit c * 10 ^ ds.length + digits ds := by
  have h := digits_append [c] ds
  rw [List.singleton_append] at h
  rw [h]
  simp [digits]

theorem digits_eq_zero_iff {ds : List Char}
    (h : ∀ c ∈ ds, isDigit c = true) :
    digits ds = 0 ↔ ∀ c ∈ ds, c = '0' := by
  have hzero : ∀ c, isDigit c = true → (digit c = 0 ↔ c = '0') := by
    intro c hc
    unfold isDigit at hc
    rw [Bool.and_eq_true, decide_eq_true_eq, decide_eq_true_eq] at hc
    have hlow : 48 ≤ c.toNat := hc.1
    constructor
    · intro hd
      unfold digit at hd
      have htoNat : c.toNat = '0'.toNat := by
        show c.toNat = 48
        omega
      exact Char.toNat_inj.mp htoNat
    · rintro rfl
      rfl
  induction ds with
  | nil => simp [digits]
  | cons c ds ih =>
    have htail : digits ds = 0 ↔ ∀ c ∈ ds, c = '0' :=
      ih fun c hc => h c (List.mem_cons_of_mem _ hc)
    rw [digits_cons, Nat.add_eq_zero_iff, Nat.mul_eq_zero,
      hzero c (h c List.mem_cons_self), htail, List.forall_mem_cons]
    simp

-- ======== reading

def isSpace (c : Char) : Bool :=
  [9, 10, 11, 12, 13, 32, 0xA0, 0x1680, 0x2028, 0x2029, 0x202F, 0x205F,
    0x3000, 0xFEFF].contains c.toNat
      || (0x2000 ≤ c.toNat && c.toNat ≤ 0x200A)

/-- Whether there is a minus in front, and what is behind the sign. -/
def readSign : List Char → Bool × List Char
  | '-' :: s => (true, s)
  | '+' :: s => (false, s)
  | s => (false, s)

def signed (negative : Bool) (x : ℚ) : ℚ := if negative then -x else x

/-- The exponent in front of a text, 0 if there is none. -/
def readExponent : List Char → Int
  | c :: s =>
    if c = 'e' ∨ c = 'E' then
      let (negative, s) := readSign s
      let ds := s.takeWhile isDigit
      if negative then -(digits ds : Int) else digits ds
    else 0
  | [] => 0

/-- The digits behind a point in front of a text, and what is behind
them. -/
def readFraction : List Char → List Char × List Char
  | '.' :: s => (s.takeWhile isDigit, s.dropWhile isDigit)
  | s => ([], s)

/-- The finite number that `parseInt(s, 10)` gives. -/
def parseInt (s : List Char) : Option ℚ :=
  let (negative, s) := readSign (s.dropWhile isSpace)
  let ds := s.takeWhile isDigit
  if ds = [] then none else some (signed negative (digits ds))

/-- The finite number that `parseFloat(s)` gives. -/
def parseFloat (s : List Char) : Option ℚ :=
  let (negative, s) := readSign (s.dropWhile isSpace)
  let whole := s.takeWhile isDigit
  let (fraction, rest) := readFraction (s.dropWhile isDigit)
  -- what is named `Infinity` has no digits either
  if whole = [] ∧ fraction = [] then none
  else
    some (signed negative (digits (whole ++ fraction)
      / 10 ^ fraction.length * 10 ^ readExponent rest))

end Decimal
