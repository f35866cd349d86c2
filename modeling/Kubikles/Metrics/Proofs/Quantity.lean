/-
What the parsers read of a quantity.

What is read of a quantity's text is its number, and its exponent if it has
one (`parseFloat_text`); of a number before a unit that is smaller than one
only the part in front of the point is read (`parseInt_text`). Which unit a
text ends with is seen from its last two characters (`reverse_text`). So
memory is read with the multiplier of the units that are known, and with 1
for all others (`parseMemoryQuantity_text`), and what is read is right
exactly if the multiplier is, or the number is 0 (`quantity_iff`).
-/
import Kubikles.Metrics.Requests

namespace Metrics

open Decimal

variable {n : Number} {q : Quantity} {rest : List Char}

-- ======== numbers

theorem digit_spec {c : Char} (h : isDigit c = true ∨ c = '.') :
    isSpace c = false ∧ c ≠ '-' ∧ c ≠ '+' := by
  have hrange : 46 ≤ c.toNat ∧ c.toNat ≤ 57 := by
    rcases h with h | rfl
    · unfold isDigit at h
      rw [Bool.and_eq_true, decide_eq_true_eq, decide_eq_true_eq] at h
      have hlow : 48 ≤ c.toNat := h.1
      have hhigh : c.toNat ≤ 57 := h.2
      omega
    · decide
  obtain ⟨hlow, hhigh⟩ := hrange
  refine ⟨?_, ?_, ?_⟩
  · unfold isSpace
    rw [Bool.or_eq_false_iff, Bool.and_eq_false_iff]
    refine ⟨Bool.eq_false_iff.mpr fun hmem => ?_, Or.inl ?_⟩
    · have hmem := List.contains_iff_mem.mp hmem
      simp only [List.mem_cons, List.not_mem_nil, or_false] at hmem
      omega
    · exact decide_eq_false (by omega)
  · rintro rfl
    exact absurd hlow (by decide)
  · rintro rfl
    exact absurd hlow (by decide)

/-- The text of a number behind its sign, and something behind it. -/
def Number.body (n : Number) (rest : List Char) : List Char :=
  n.whole ++ (fractionText n.fraction ++ rest)

theorem text_append (n : Number) (rest : List Char) :
    n.text ++ rest = signText n.sign ++ n.body rest := by
  unfold Number.text Number.body
  simp only [List.append_assoc]

theorem body_cons (n : Number) (rest : List Char) :
    ∃ c s, n.body rest = c :: s ∧ (isDigit c = true ∨ c = '.') := by
  unfold Number.body
  cases hwhole : n.whole with
  | cons c ds =>
    refine ⟨c, _, rfl, Or.inl (n.whole_digits c ?_)⟩
    rw [hwhole]
    exact List.mem_cons_self
  | nil =>
    cases hfraction : n.fraction with
    | some ds => exact ⟨'.', _, rfl, Or.inr rfl⟩
    | none =>
      rcases n.ne with hne | hne
      · exact absurd hwhole hne
      · rw [hfraction] at hne
        exact absurd rfl hne

theorem readSign_text (n : Number) (rest : List Char) :
    readSign ((n.text ++ rest).dropWhile isSpace)
      = (n.negative, n.body rest) := by
  rw [text_append]
  unfold Number.negative
  cases n.sign with
  | none =>
    obtain ⟨c, s, hbody, hc⟩ := body_cons n rest
    obtain ⟨hspace, hminus, hplus⟩ := digit_spec hc
    rw [signText, List.nil_append, hbody,
      List.dropWhile_cons_of_neg (by simp [hspace])]
    unfold readSign
    split
    next h => exact absurd (List.cons.inj h).1 hminus
    next h => exact absurd (List.cons.inj h).1 hplus
    next => rfl
  | some negative => cases negative <;> rfl

theorem takeWhile_digits {ds : List Char}
    (hds : ∀ c ∈ ds, isDigit c = true)
    (hrest : ∀ c ∈ rest.head?, isDigit c = false) :
    (ds ++ rest).takeWhile isDigit = ds
      ∧ (ds ++ rest).dropWhile isDigit = rest := by
  rw [List.takeWhile_append_of_pos hds, List.dropWhile_append_of_pos hds]
  cases rest with
  | nil => exact ⟨List.append_nil ds, rfl⟩
  | cons c rest =>
    have hc := hrest c rfl
    rw [List.takeWhile_cons_of_neg (by simp [hc]),
      List.dropWhile_cons_of_neg (by simp [hc])]
    exact ⟨List.append_nil ds, rfl⟩

def Behind (rest : List Char) : Prop :=
  ∀ c ∈ rest.head?, isDigit c = false ∧ c ≠ '.'

theorem read_body (hrest : Behind rest) :
    (n.body rest).takeWhile isDigit = n.whole
      ∧ readFraction ((n.body rest).dropWhile isDigit)
        = (n.fraction.getD [], rest) := by
  have hdigits := n.fraction_digits
  unfold Number.body
  cases hfraction : n.fraction with
  | none =>
    rw [fractionText, List.nil_append]
    obtain ⟨htake, hdrop⟩ := takeWhile_digits n.whole_digits
      fun c hc => (hrest c hc).1
    rw [htake, hdrop]
    refine ⟨rfl, ?_⟩
    unfold readFraction
    split
    next s =>
      exact absurd rfl (hrest '.' rfl).2
    next => rfl
  | some ds =>
    have hpoint : ∀ c ∈ ('.' :: ds ++ rest).head?, isDigit c = false := by
      intro c hc
      cases hc
      rfl
    obtain ⟨htake, hdrop⟩ := takeWhile_digits n.whole_digits hpoint
    rw [hfraction, Option.getD_some] at hdigits
    obtain ⟨htake', hdrop'⟩ := takeWhile_digits hdigits
      fun c hc => (hrest c hc).1
    show (n.whole ++ ('.' :: ds ++ rest)).takeWhile isDigit = _ ∧
      readFraction ((n.whole ++ ('.' :: ds ++ rest)).dropWhile isDigit) = _
    rw [htake, hdrop]
    refine ⟨rfl, ?_⟩
    show ((ds ++ rest).takeWhile isDigit, (ds ++ rest).dropWhile isDigit)
      = (ds, rest)
    rw [htake']
    exact congrArg _ hdrop'

theorem parseFloat_number (hrest : Behind rest) :
    parseFloat (n.text ++ rest)
      = some (n.value * 10 ^ readExponent rest) := by
  obtain ⟨hwhole, hfraction⟩ := read_body (n := n) hrest
  unfold parseFloat
  rw [readSign_text]
  dsimp only
  rw [hwhole, hfraction]
  dsimp only
  rw [if_neg (by
    rintro ⟨hnil, hnil'⟩
    rcases n.ne with hne | hne
    · exact hne hnil
    · exact hne hnil')]
  unfold Number.value signed
  split
  · rw [neg_mul]
  · rfl

def Number.front (n : Number) : ℚ := signed n.negative (digits n.whole)

theorem parseInt_number (hrest : Behind rest) :
    finite (parseInt (n.text ++ rest)) = n.front := by
  have hwhole := (read_body (n := n) hrest).1
  unfold parseInt Number.front
  rw [readSign_text]
  dsimp only
  rw [hwhole]
  split
  next hnil =>
    rw [hnil]
    unfold finite signed
    simp [digits]
  next => rfl

theorem front_eq_iff (n : Number) : n.front = n.value ↔ n.Whole := by
  have hpow : (10 : ℚ) ^ (n.fraction.getD []).length ≠ 0 :=
    pow_ne_zero _ (by norm_num)
  have hsigned : ∀ x y : ℚ, signed n.negative x = signed n.negative y
      ↔ x = y := by
    intro x y
    unfold signed
    split
    · exact neg_inj
    · exact Iff.rfl
  unfold Number.front Number.value
  rw [hsigned, digits_append, eq_div_iff hpow, Number.Whole,
    ← digits_eq_zero_iff n.fraction_digits]
  push_cast
  constructor
  · intro h
    have hzero : (digits (n.fraction.getD []) : ℚ) = 0 := by linarith
    exact_mod_cast hzero
  · intro h
    rw [h]
    simp

-- ======== suffixes

theorem behind_suffix (s : Suffix) : Behind s.text := by
  intro c hc
  cases s with
  | exponent upper sign ds ne hds =>
    cases upper <;> cases hc <;> decide
  | none => cases hc
  | nano | micro | milli | kilo | mega | giga | tera | peta | exa | kibi
  | mebi | gibi | tebi | pebi | exbi => cases hc; decide

def Suffix.power : Suffix → Int
  | .exponent _ sign ds _ _ =>
    if sign = some true then -(digits ds : Int) else digits ds
  | _ => 0

theorem readExponent_suffix (s : Suffix) : readExponent s.text = s.power := by
  cases s with
  | exponent upper sign ds ne hds =>
    have htake : ds.takeWhile isDigit = ds :=
      List.takeWhile_eq_self_iff.mpr hds
    have hsign : readSign (signText sign ++ ds)
        = (decide (sign = some true), ds) := by
      cases sign with
      | some negative => cases negative <;> rfl
      | none =>
        obtain ⟨c, ds, rfl⟩ := List.exists_cons_of_ne_nil ne
        obtain ⟨-, hminus, hplus⟩ :=
          digit_spec (Or.inl (hds c List.mem_cons_self))
        unfold readSign signText
        split
        next h => exact absurd (List.cons.inj h).1 hminus
        next h => exact absurd (List.cons.inj h).1 hplus
        next => rfl
    have he : (if upper then 'E' else 'e') = 'e'
        ∨ (if upper then 'E' else 'e') = 'E' := by
      cases upper
      · exact Or.inl rfl
      · exact Or.inr rfl
    rw [Suffix.text, Suffix.power, readExponent, if_pos he, hsign]
    dsimp only
    rw [htake]
    simp only [decide_eq_true_eq]
  | none => rfl
  | nano | micro | milli | kilo | mega | giga | tera | peta | exa | kibi
  | mebi | gibi | tebi | pebi | exbi => rfl

theorem parseFloat_text (q : Quantity) :
    parseFloat q.text = some (q.number.value * 10 ^ q.suffix.power) := by
  unfold Quantity.text
  rw [parseFloat_number (behind_suffix _), readExponent_suffix]

theorem parseInt_text (q : Quantity) :
    finite (parseInt q.text) = q.number.front :=
  parseInt_number (behind_suffix _)

-- ======== ends

theorem number_concat (n : Number) :
    ∃ s c, n.text = s ++ [c] ∧ (isDigit c = true ∨ c = '.') := by
  unfold Number.text
  cases hfraction : n.fraction with
  | none =>
    have hne : n.whole ≠ [] := by
      rcases n.ne with hne | hne
      · exact hne
      · rw [hfraction] at hne
        exact absurd rfl hne
    refine ⟨signText n.sign ++ n.whole.dropLast, n.whole.getLast hne, ?_,
      Or.inl (n.whole_digits _ (List.getLast_mem hne))⟩
    rw [fractionText, List.append_nil, List.append_assoc,
      List.dropLast_append_getLast]
  | some ds =>
    have hdigits := n.fraction_digits
    rw [hfraction, Option.getD_some] at hdigits
    rcases List.eq_nil_or_concat ds with rfl | ⟨ds', c, rfl⟩
    · exact ⟨signText n.sign ++ n.whole, '.', rfl, Or.inr rfl⟩
    · refine ⟨signText n.sign ++ n.whole ++ '.' :: ds', c, ?_,
        Or.inl (hdigits c (by simp))⟩
      rw [fractionText]
      simp

theorem endsWith_digit {s : List Char} {c : Char}
    (h : isDigit c = true ∨ c = '.') :
    ∀ unit ∈ [['n'], ['u'], ['m'], ['T', 'i'], ['G', 'i'], ['M', 'i'],
      ['K', 'i'], ['T'], ['G'], ['M'], ['K']],
      endsWith (s ++ [c]) unit = false := by
  have hlast : ∀ a ∈ ['n', 'u', 'm', 'i', 'T', 'G', 'M', 'K'],
      (a == c) = false := by
    intro a ha
    refine beq_false_of_ne ?_
    rintro rfl
    have hnone : ['n', 'u', 'm', 'i', 'T', 'G', 'M', 'K'].all
        (fun a => !isDigit a) = true := by decide
    rcases h with h | rfl
    · have hno := List.all_eq_true.mp hnone a ha
      rw [h] at hno
      cases hno
    · revert ha
      decide
  unfold endsWith
  rw [List.reverse_append]
  simp only [List.forall_mem_cons, List.reverse_cons, List.reverse_nil,
    List.nil_append, List.cons_append, List.isPrefixOf,
    Bool.and_eq_false_iff]
  simp [hlast]

/-- What a quantity's text ends with is seen from its unit and the digit or
the point in front of it. -/
theorem endsWith_text (q : Quantity) :
    ∃ s c, (isDigit c = true ∨ c = '.') ∧ ∀ unit, endsWith q.text unit
      = unit.reverse.isPrefixOf (q.suffix.text.reverse ++ c :: s) := by
  obtain ⟨s, c, htext, hc⟩ := number_concat q.number
  refine ⟨s.reverse, c, hc, fun unit => ?_⟩
  unfold endsWith Quantity.text
  rw [htext, List.reverse_append, List.reverse_append]
  rfl

theorem endsWith_exponent (h : q.suffix.text = [] ∨ ∃ upper sign ds ne hds,
      q.suffix = .exponent upper sign ds ne hds) :
    ∀ unit ∈ [['n'], ['u'], ['m'], ['T', 'i'], ['G', 'i'], ['M', 'i'],
      ['K', 'i'], ['T'], ['G'], ['M'], ['K']],
      endsWith q.text unit = false := by
  rcases h with h | ⟨upper, sign, ds, ne, hds, h⟩
  · obtain ⟨s, c, htext, hc⟩ := number_concat q.number
    have hsame : q.text = s ++ [c] := by
      unfold Quantity.text
      rw [h, List.append_nil, htext]
    rw [hsame]
    exact endsWith_digit hc
  · obtain ⟨ds', c, rfl⟩ :=
      (List.eq_nil_or_concat ds).resolve_left ne
    have hsame : q.text = (q.number.text ++ (if upper then 'E' else 'e')
        :: (signText sign ++ ds')) ++ [c] := by
      unfold Quantity.text
      rw [h, Suffix.text, List.concat_eq_append]
      simp only [List.append_assoc, List.cons_append]
    rw [hsame]
    exact endsWith_digit (Or.inl (hds c (by simp)))

theorem text_ne (q : Quantity) : q.text ≠ [] := by
  obtain ⟨s, c, htext, -⟩ := number_concat q.number
  unfold Quantity.text
  rw [htext]
  simp

-- ======== what is read

/-- The multiplier that memory is read with: that of a unit that is known,
and 1 for any other. -/
def Suffix.memoryRead : Suffix → ℚ
  | .mega => 10 ^ 6
  | .giga => 10 ^ 9
  | .tera => 10 ^ 12
  | .kibi => 1024
  | .mebi => 1024 ^ 2
  | .gibi => 1024 ^ 3
  | .tebi => 1024 ^ 4
  | s => 10 ^ s.power

theorem parseMemoryQuantity_unit {multiplier : ℚ}
    (hfind : units.find? (fun unit => endsWith q.text unit.1)
      = some (q.suffix.text, multiplier)) :
    parseMemoryQuantity q.text = q.number.value * multiplier := by
  have htake : q.text.take (q.text.length - q.suffix.text.length)
      = q.number.text := by
    unfold Quantity.text
    rw [List.length_append, Nat.add_sub_cancel, List.take_left]
  have hnumber : parseFloat q.number.text = some q.number.value := by
    have hnil : Behind [] := fun c hc => by cases hc
    have h := parseFloat_number (n := q.number) hnil
    rw [List.append_nil] at h
    rw [h]
    simp [readExponent]
  unfold parseMemoryQuantity
  rw [if_neg (text_ne q), hfind]
  dsimp only
  rw [htake, hnumber]
  rfl

theorem parseMemoryQuantity_none
    (hfind : units.find? (fun unit => endsWith q.text unit.1) = none) :
    parseMemoryQuantity q.text
      = q.number.value * 10 ^ q.suffix.power := by
  unfold parseMemoryQuantity
  rw [if_neg (text_ne q), hfind]
  dsimp only
  rw [parseFloat_text]
  rfl

theorem parseMemoryQuantity_text (q : Quantity) :
    parseMemoryQuantity q.text
      = q.number.value * q.suffix.memoryRead := by
  have hnone : (∀ unit ∈ [['n'], ['u'], ['m'], ['T', 'i'], ['G', 'i'],
        ['M', 'i'], ['K', 'i'], ['T'], ['G'], ['M'], ['K']],
        endsWith q.text unit = false) →
      units.find? (fun unit => endsWith q.text unit.1) = none := by
    intro h
    refine List.find?_eq_none.mpr fun unit hunit => ?_
    rw [h unit.1 ?_]
    · exact Bool.false_ne_true
    · revert unit
      decide
  obtain ⟨s, c, -, hends⟩ := endsWith_text q
  cases hs : q.suffix with
  | none =>
    have hpower : q.suffix.power = 0 := by rw [hs]; rfl
    rw [parseMemoryQuantity_none (hnone (endsWith_exponent (Or.inl (by
      rw [hs]; rfl)))), hs]
    rfl
  | exponent upper sign ds ne hds =>
    rw [parseMemoryQuantity_none (hnone (endsWith_exponent (Or.inr
      ⟨upper, sign, ds, ne, hds, hs⟩))), hs]
    rfl
  | nano | micro | milli | kilo | peta | exa | pebi | exbi =>
    rw [hs] at hends
    rw [parseMemoryQuantity_none, hs]
    · rfl
    · simp [units, hends, Suffix.text, List.isPrefixOf]
  | mega | giga | tera | kibi | mebi | gibi | tebi =>
    rw [hs] at hends
    rw [parseMemoryQuantity_unit, Suffix.memoryRead]
    simp [units, hends, Suffix.text, List.isPrefixOf, hs]

def Quantity.cpuRead (q : Quantity) : ℚ :=
  match q.suffix with
  | .nano => q.number.front / 10 ^ 6
  | .micro => q.number.front / 10 ^ 3
  | .milli => q.number.front
  | s => q.number.value * 10 ^ s.power * 1000

theorem parseCpuQuantity_text (q : Quantity) :
    parseCpuQuantity q.text = q.cpuRead := by
  have hmap : ∀ (x : Option ℚ) (k : ℚ), finite (x.map (· / k))
      = finite x / k := by
    intro x k
    cases x with
    | none => exact (zero_div k).symm
    | some x => rfl
  have hplain : endsWith q.text ['n'] = false →
      endsWith q.text ['u'] = false → endsWith q.text ['m'] = false →
      parseCpuQuantity q.text
        = q.number.value * 10 ^ q.suffix.power * 1000 := by
    intro hn hu hm
    unfold parseCpuQuantity
    rw [if_neg (text_ne q), hn, hu, hm, parseFloat_text]
    rfl
  obtain ⟨s, c, -, hends⟩ := endsWith_text q
  unfold Quantity.cpuRead
  cases hs : q.suffix with
  | nano =>
    rw [hs] at hends
    unfold parseCpuQuantity
    rw [if_neg (text_ne q), if_pos (by simp [hends, Suffix.text]), hmap,
      parseInt_text]
  | micro =>
    rw [hs] at hends
    unfold parseCpuQuantity
    rw [if_neg (text_ne q), if_neg (by simp [hends, Suffix.text]),
      if_pos (by simp [hends, Suffix.text]), hmap, parseInt_text]
  | milli =>
    rw [hs] at hends
    unfold parseCpuQuantity
    rw [if_neg (text_ne q), if_neg (by simp [hends, Suffix.text]),
      if_neg (by simp [hends, Suffix.text]),
      if_pos (by simp [hends, Suffix.text]), parseInt_text]
  | none =>
    have hnone := endsWith_exponent (q := q) (Or.inl (by rw [hs]; rfl))
    rw [hplain (hnone _ (by simp)) (hnone _ (by simp)) (hnone _ (by simp)),
      hs]
  | exponent upper sign ds ne hds =>
    have hnone := endsWith_exponent (q := q) (Or.inr
      ⟨upper, sign, ds, ne, hds, hs⟩)
    rw [hplain (hnone _ (by simp)) (hnone _ (by simp)) (hnone _ (by simp)),
      hs]
  | kilo | mega | giga | tera | peta | exa | kibi | mebi | gibi | tebi | pebi
  | exbi =>
    rw [hs] at hends
    have hend : ∀ c ∈ ['n', 'u', 'm'], endsWith q.text [c] = false := by
      simp [hends, Suffix.text, List.isPrefixOf]
    rw [hplain (hend _ (by simp)) (hend _ (by simp)) (hend _ (by simp)),
      hs]

-- ======== denotation

theorem mul_eq_mul_iff_zero {x k k' : ℚ} (hk : k ≠ k') :
    x * k = x * k' ↔ x = 0 := by
  rw [mul_eq_mul_left_iff]
  constructor
  · rintro (h | h)
    · exact absurd h hk
    · exact h
  · exact Or.inr

theorem parseMemoryQuantity_iff (q : Quantity) :
    parseMemoryQuantity q.text = q.value ↔ q.MemoryKnown := by
  rw [parseMemoryQuantity_text]
  unfold Quantity.value Quantity.MemoryKnown
  cases q.suffix with
  | none | mega | giga | tera | kibi | mebi | gibi | tebi =>
    simp [Suffix.memoryRead, Suffix.multiplier, Suffix.power]
  | exponent upper sign ds ne hds =>
    simp only [Suffix.memoryRead, Suffix.multiplier, Suffix.power]
  | nano | micro | milli | kilo | peta | exa | pebi | exbi =>
    exact mul_eq_mul_iff_zero (by
      norm_num [Suffix.memoryRead, Suffix.multiplier, Suffix.power])

theorem parseCpuQuantity_iff (q : Quantity) :
    parseCpuQuantity q.text = q.value * 1000 ↔ q.CpuKnown := by
  have hfront : ∀ {x : ℚ}, x ≠ 0 → (q.number.front * x
      = q.number.value * x ↔ q.number.Whole) := by
    intro x hx
    rw [mul_left_inj' hx, front_eq_iff]
  rw [parseCpuQuantity_text]
  unfold Quantity.value Quantity.CpuKnown Quantity.cpuRead
  cases q.suffix with
  | nano =>
    have h := hfront (x := 1 / 10 ^ 6) (by norm_num)
    dsimp only [Suffix.multiplier]
    rw [← h]
    constructor <;> intro h' <;> linarith
  | micro =>
    have h := hfront (x := 1 / 10 ^ 3) (by norm_num)
    dsimp only [Suffix.multiplier]
    rw [← h]
    constructor <;> intro h' <;> linarith
  | milli =>
    have h := hfront (x := 1) one_ne_zero
    dsimp only [Suffix.multiplier]
    rw [← h]
    constructor <;> intro h' <;> linarith
  | none => simp [Suffix.multiplier, Suffix.power]
  | exponent upper sign ds ne hds =>
    simp only [Suffix.multiplier, Suffix.power]
  | kilo | mega | giga | tera | peta | exa | kibi | mebi | gibi | tebi | pebi
  | exbi =>
    dsimp only
    rw [mul_assoc, mul_assoc]
    exact mul_eq_mul_iff_zero (by
      norm_num [Suffix.multiplier, Suffix.power])

/-- A quantity is read as what it stands for exactly if its notation is
known: of memory all units but the small ones, `k`, `P`, `E`, `Pi` and
`Ei`, of CPU the small ones before whole numbers, and no other; and any
exponent. -/
theorem quantity_iff (q : Quantity) :
    (parseMemoryQuantity q.text = q.value ↔ q.MemoryKnown)
      ∧ (parseCpuQuantity q.text = q.value * 1000 ↔ q.CpuKnown) :=
  ⟨parseMemoryQuantity_iff q, parseCpuQuantity_iff q⟩

def one : Number where
  sign := none
  whole := ['1']
  fraction := none
  whole_digits := List.all_eq_true.mp (by decide)
  fraction_digits := List.all_eq_true.mp (by decide)
  ne := by decide

/-- A kilobyte and a pebibyte are read as one byte, a kilocore as one
core. -/
theorem kilo_read_as_one :
    (⟨one, .kilo⟩ : Quantity).text = ['1', 'k']
      ∧ parseMemoryQuantity ['1', 'k'] = 1
      ∧ parseMemoryQuantity ['1', 'P', 'i'] = 1
      ∧ parseCpuQuantity ['1', 'k'] = 1000
      ∧ (⟨one, .kilo⟩ : Quantity).value = 1000
      ∧ parseMemoryQuantity (⟨one, .kilo⟩ : Quantity).text
        ≠ (⟨one, .kilo⟩ : Quantity).value := by
  decide +kernel

end Metrics
