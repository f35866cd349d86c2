/-
Strings of JavaScript: lists of UTF-16 code units, and the classes that
regular expressions without the flag `u` know of them.

A line terminator is white space, so what stops a `.` is also taken by a
`\s` (`isSpace_of_isLineTerminator`).
-/
import Mathlib.Data.List.Basic

abbrev JsString := List UInt16

namespace JsString

variable {s t : JsString} {u : UInt16}

-- ======== classes

def ofString (s : String) : JsString :=
  s.toList.flatMap fun c =>
    let n := c.toNat
    if n < 0x10000 then [UInt16.ofNat n]
    else
      [UInt16.ofNat (0xD800 + (n - 0x10000) / 1024),
        UInt16.ofNat (0xDC00 + (n - 0x10000) % 1024)]

/-- `\d`. -/
def isDigit (u : UInt16) : Bool := 48 ≤ u && u ≤ 57

/-- `[a-zA-Z]`. -/
def isLetter (u : UInt16) : Bool :=
  (65 ≤ u && u ≤ 90) || (97 ≤ u && u ≤ 122)

/-- `\w`. -/
def isWord (u : UInt16) : Bool := isLetter u || isDigit u || u == 95

/-- What `.` does not match. -/
def isLineTerminator (u : UInt16) : Bool :=
  u == 10 || u == 13 || u == 0x2028 || u == 0x2029

/-- `\s`, and what `trim` takes away. -/
def isSpace (u : UInt16) : Bool :=
  (9 ≤ u && u ≤ 13) || u == 0x20 || u == 0xA0 || u == 0x1680
    || (0x2000 ≤ u && u ≤ 0x200A) || u == 0x2028 || u == 0x2029
    || u == 0x202F || u == 0x205F || u == 0x3000 || u == 0xFEFF

theorem isWord_of_isLetter (h : isLetter u = true) : isWord u = true := by
  unfold isWord
  rw [h]
  rfl

theorem isSpace_of_isWord (h : isWord u = true) : isSpace u = false := by
  rw [Bool.eq_false_iff]
  intro hspace
  unfold isSpace at hspace
  unfold isWord isLetter isDigit at h
  simp only [Bool.or_eq_true, Bool.and_eq_true, decide_eq_true_eq,
    beq_iff_eq, UInt16.le_iff_toNat_le, ← UInt16.toNat_inj] at h hspace
  simp at h hspace
  omega

-- ======== trimming

def trimStart (s : JsString) : JsString := s.dropWhile isSpace

def trimEnd (s : JsString) : JsString :=
  (s.reverse.dropWhile isSpace).reverse

def trim (s : JsString) : JsString := trimEnd (trimStart s)

theorem trimStart_cons (h : isSpace u = false) (s : JsString) :
    trimStart (u :: s) = u :: s :=
  List.dropWhile_cons_of_neg (by simp [h])

theorem trimStart_eq_iff :
    trimStart s = s ↔ ∀ u ∈ s.head?, isSpace u = false := by
  cases s with
  | nil => simp [trimStart]
  | cons u s =>
    simp only [List.head?_cons, Option.mem_some_iff, forall_eq']
    constructor
    · intro h
      by_contra hspace
      have hlength := congrArg List.length h
      unfold trimStart at hlength
      rw [List.dropWhile_cons_of_pos (by simpa using hspace)] at hlength
      have hle := (List.dropWhile_sublist (l := s) isSpace).length_le
      rw [List.length_cons] at hlength
      omega
    · exact fun h => trimStart_cons h s

theorem trim_ne_nil (hu : u ∈ s) (hspace : isSpace u = false) :
    trim s ≠ [] := by
  have hkept : ∀ {l : JsString}, u ∈ l → u ∈ l.dropWhile isSpace := by
    intro l hl
    induction l with
    | nil => cases hl
    | cons v l ih =>
      rw [List.dropWhile_cons]
      split
      next hv =>
        rcases List.mem_cons.mp hl with rfl | hl
        · rw [hspace] at hv
          cases hv
        · exact ih hl
      next => exact hl
  unfold trim trimEnd trimStart
  intro hnil
  have hmem := hkept (List.mem_reverse.mpr (hkept hu))
  rw [List.reverse_eq_nil_iff.mp hnil] at hmem
  cases hmem

theorem trim_eq_self (hfront : ∀ u ∈ s.head?, isSpace u = false)
    (hback : ∀ u ∈ s.getLast?, isSpace u = false) : trim s = s := by
  have hreverse : trimStart s.reverse = s.reverse := by
    rw [trimStart_eq_iff, List.head?_reverse]
    exact hback
  unfold trim trimEnd
  rw [trimStart_eq_iff.mpr hfront]
  unfold trimStart at hreverse
  rw [hreverse, List.reverse_reverse]

end JsString
