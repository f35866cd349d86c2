/-
Base64 with the standard alphabet and padding, as Go's
`base64.StdEncoding` reads and writes it.

Three bytes are four digits of six bits. The last group of a text may
be shorter: one byte is two digits, two bytes are three, and `=` fills
the group up. The decoder leaves out line breaks wherever they stand,
takes padding in the last group only, and does not look at the bits a
padded group leaves over. Decoding what was encoded gives the bytes back
(`decodeString_encodeToString`).
-/
import Mathlib.Data.List.Basic

namespace Base64

-- ======== the digits

def alphabet : List Char :=
  "ABCDEFGHIJKLMNOPQRSTUVWXYZabcdefghijklmnopqrstuvwxyz0123456789+/".toList

def digit (n : Nat) : Char := alphabet.getD n '='

def value (c : Char) : Option Nat :=
  if alphabet.idxOf c < 64 then some (alphabet.idxOf c) else none

def lineBreak (c : Char) : Bool := c = '\r' || c = '\n'

theorem value_digit {n : Nat} (h : n < 64) : value (digit n) = some n := by
  have hall : ∀ n : Fin 64, value (digit n) = some n.val := by
    decide +kernel
  exact hall ⟨n, h⟩

theorem digit_not_lineBreak {n : Nat} (h : n < 64) :
    lineBreak (digit n) = false := by
  have hall : ∀ n : Fin 64, lineBreak (digit n) = false := by
    decide +kernel
  exact hall ⟨n, h⟩

theorem digit_ne_pad {n : Nat} (h : n < 64) : digit n ≠ '=' := by
  have hall : ∀ n : Fin 64, digit n ≠ '=' := by decide +kernel
  exact hall ⟨n, h⟩

-- ======== the groups

def encode : List UInt8 → List Char
  | [] => []
  | [a] => [digit (a.toNat / 4), digit (a.toNat % 4 * 16), '=', '=']
  | [a, b] =>
    [digit (a.toNat / 4), digit (a.toNat % 4 * 16 + b.toNat / 16),
      digit (b.toNat % 16 * 4), '=']
  | a :: b :: c :: rest =>
    digit (a.toNat / 4) :: digit (a.toNat % 4 * 16 + b.toNat / 16)
      :: digit (b.toNat % 16 * 4 + c.toNat / 64)
      :: digit (c.toNat % 64) :: encode rest

def first (x y : Nat) : UInt8 := UInt8.ofNat (x * 4 + y / 16)

def second (y z : Nat) : UInt8 := UInt8.ofNat (y % 16 * 16 + z / 4)

def third (z w : Nat) : UInt8 := UInt8.ofNat (z % 4 * 64 + w)

def decode : List Char → Option (List UInt8)
  | [] => some []
  | a :: b :: c :: d :: rest =>
    if rest = [] ∧ c = '=' ∧ d = '=' then do
      let x ← value a
      let y ← value b
      some [first x y]
    else if rest = [] ∧ d = '=' then do
      let x ← value a
      let y ← value b
      let z ← value c
      some [first x y, second y z]
    else do
      let x ← value a
      let y ← value b
      let z ← value c
      let w ← value d
      let bytes ← decode rest
      some (first x y :: second y z :: third z w :: bytes)
  | _ => none

def encodeToString (bytes : List UInt8) : String :=
  String.ofList (encode bytes)

def decodeString (s : String) : Option (List UInt8) :=
  decode (s.toList.filter fun c => !lineBreak c)

-- ======== the round trip

theorem first_eq (a : UInt8) {n : Nat} (h : n < 16) :
    first (a.toNat / 4) (a.toNat % 4 * 16 + n) = a := by
  have hnat : a.toNat / 4 * 4 + (a.toNat % 4 * 16 + n) / 16 = a.toNat := by
    omega
  rw [first, hnat, UInt8.ofNat_toNat]

theorem second_eq (a b : UInt8) {n : Nat} (h : n < 4) :
    second (a.toNat % 4 * 16 + b.toNat / 16) (b.toNat % 16 * 4 + n) = b := by
  have hb := b.toNat_lt
  have hnat : (a.toNat % 4 * 16 + b.toNat / 16) % 16 * 16
      + (b.toNat % 16 * 4 + n) / 4 = b.toNat := by omega
  rw [second, hnat, UInt8.ofNat_toNat]

theorem third_eq (b c : UInt8) :
    third (b.toNat % 16 * 4 + c.toNat / 64) (c.toNat % 64) = c := by
  have hc := c.toNat_lt
  have hnat : (b.toNat % 16 * 4 + c.toNat / 64) % 4 * 64 + c.toNat % 64
      = c.toNat := by omega
  rw [third, hnat, UInt8.ofNat_toNat]

theorem decode_encode (bytes : List UInt8) :
    decode (encode bytes) = some bytes := by
  induction bytes using encode.induct with
  | case1 => rfl
  | case2 a =>
    have ha := a.toNat_lt
    have hx := value_digit (n := a.toNat / 4) (by omega)
    have hy := value_digit (n := a.toNat % 4 * 16) (by omega)
    have heq := first_eq a (n := 0) (by omega)
    rw [Nat.add_zero] at heq
    simp [encode, decode, hx, hy, heq]
  | case3 a b =>
    have ha := a.toNat_lt
    have hb := b.toNat_lt
    have hx := value_digit (n := a.toNat / 4) (by omega)
    have hy := value_digit (n := a.toNat % 4 * 16 + b.toNat / 16)
      (by omega)
    have hz := value_digit (n := b.toNat % 16 * 4) (by omega)
    have hpad := digit_ne_pad (n := b.toNat % 16 * 4) (by omega)
    have hfirst := first_eq a (n := b.toNat / 16) (by omega)
    have hsecond := second_eq a b (n := 0) (by omega)
    rw [Nat.add_zero] at hsecond
    simp [encode, decode, hx, hy, hz, hpad, hfirst, hsecond]
  | case4 a b c rest ih =>
    have ha := a.toNat_lt
    have hb := b.toNat_lt
    have hc := c.toNat_lt
    have hx := value_digit (n := a.toNat / 4) (by omega)
    have hy := value_digit (n := a.toNat % 4 * 16 + b.toNat / 16)
      (by omega)
    have hz := value_digit (n := b.toNat % 16 * 4 + c.toNat / 64)
      (by omega)
    have hw := value_digit (n := c.toNat % 64) (by omega)
    have hpad := digit_ne_pad (n := c.toNat % 64) (by omega)
    have hfirst := first_eq a (n := b.toNat / 16) (by omega)
    have hsecond := second_eq a b (n := c.toNat / 64) (by omega)
    simp [encode, decode, hx, hy, hz, hw, hpad, ih, hfirst, hsecond,
      third_eq]

theorem encode_not_lineBreak (bytes : List UInt8) :
    ∀ c ∈ encode bytes, lineBreak c = false := by
  induction bytes using encode.induct with
  | case1 => simp [encode]
  | case2 a =>
    have ha := a.toNat_lt
    simp only [encode, List.forall_mem_cons]
    exact ⟨digit_not_lineBreak (by omega),
      digit_not_lineBreak (by omega), rfl, rfl, by simp⟩
  | case3 a b =>
    have ha := a.toNat_lt
    have hb := b.toNat_lt
    simp only [encode, List.forall_mem_cons]
    exact ⟨digit_not_lineBreak (by omega),
      digit_not_lineBreak (by omega), digit_not_lineBreak (by omega),
      rfl, by simp⟩
  | case4 a b c rest ih =>
    have ha := a.toNat_lt
    have hb := b.toNat_lt
    have hc := c.toNat_lt
    simp only [encode, List.forall_mem_cons]
    exact ⟨digit_not_lineBreak (by omega),
      digit_not_lineBreak (by omega), digit_not_lineBreak (by omega),
      digit_not_lineBreak (by omega), ih⟩

theorem decodeString_encodeToString (bytes : List UInt8) :
    decodeString (encodeToString bytes) = some bytes := by
  have hall : (encode bytes).filter (fun c => !lineBreak c)
      = encode bytes := by
    rw [List.filter_eq_self]
    intro c hc
    rw [encode_not_lineBreak bytes c hc]
    rfl
  rw [decodeString, encodeToString, String.toList_ofList, hall,
    decode_encode]

end Base64
