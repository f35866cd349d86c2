/-
Times as RFC 3339 texts: what Go's `time.Parse` and `Time.Format` do with
the layouts `time.RFC3339` and `time.RFC3339Nano`.

# Times

A `Time` is a day, the nanoseconds since midnight and the offset of its
zone, valid by construction. It stands for an instant (`Time.instant`), a
number of nanoseconds, and the next nanosecond of the clock is the next
instant (`Time.instant_next`).

# Texts

`parse` is the one parser both layouts have: a fraction is accepted
behind the seconds whatever the layout says, an hour may have one digit,
a comma may stand for the point, and the offset of a zone may be as long
as 24 hours and 60 minutes. `format` writes the fraction without
trailing zeros; `stamp` writes all nine digits, which makes a text of
thirty bytes for a time in UTC. Both are read back
(`parse_format`, `parse_stamp`), and stamps are ordered like the instants
they stand for (`stamp_lt_iff`).
-/
import Mathlib.Tactic.Ring
import Kubikles.Lib.Text

namespace Rfc3339

-- ======== days

def leap (year : Nat) : Bool :=
  year % 4 = 0 && (year % 100 ≠ 0 || year % 400 = 0)

def daysIn (leap : Bool) : Nat → Nat
  | 2 => if leap then 29 else 28
  | 4 | 6 | 9 | 11 => 30
  | _ => 31

def daysBeforeMonth (leap : Bool) : Nat → Nat
  | 0 => 0
  | 1 => 0
  | month + 2 => daysBeforeMonth leap (month + 1) + daysIn leap (month + 1)

def daysBeforeYear (year : Nat) : Nat :=
  365 * year + ((year + 3) / 4 + (year + 399) / 400 - (year + 99) / 100)

def yearLength (leap : Bool) : Nat := if leap then 366 else 365

theorem daysIn_pos (leap : Bool) (month : Nat) :
    1 ≤ daysIn leap month := by
  unfold daysIn
  split
  · split <;> omega
  all_goals omega

theorem daysBeforeMonth_end (leap : Bool) :
    daysBeforeMonth leap 12 + daysIn leap 12 = yearLength leap := by
  cases leap <;> rfl

theorem daysBeforeYear_succ (year : Nat) :
    daysBeforeYear (year + 1)
      = daysBeforeYear year + yearLength (leap year) := by
  have hfour : (year + 1 + 3) / 4
      = (year + 3) / 4 + if year % 4 = 0 then 1 else 0 := by
    split <;> omega
  have hcentury : (year + 1 + 99) / 100
      = (year + 99) / 100 + if year % 100 = 0 then 1 else 0 := by
    split <;> omega
  have hera : (year + 1 + 399) / 400
      = (year + 399) / 400 + if year % 400 = 0 then 1 else 0 := by
    split <;> omega
  have hfew : (year + 99) / 100 ≤ (year + 3) / 4 := by omega
  have hcases : (year % 4 ≠ 0 ∧ year % 100 ≠ 0 ∧ year % 400 ≠ 0)
      ∨ (year % 4 = 0 ∧ year % 100 ≠ 0 ∧ year % 400 ≠ 0)
      ∨ (year % 4 = 0 ∧ year % 100 = 0 ∧ year % 400 ≠ 0)
      ∨ (year % 4 = 0 ∧ year % 100 = 0 ∧ year % 400 = 0) := by
    omega
  rw [daysBeforeYear, daysBeforeYear, hfour, hcentury, hera, yearLength,
    leap]
  generalize (year + 3) / 4 = a at *
  generalize (year + 99) / 100 = b at *
  generalize (year + 399) / 400 = c at *
  rcases hcases with ⟨h₁, h₂, h₃⟩ | ⟨h₁, h₂, h₃⟩ | ⟨h₁, h₂, h₃⟩ | ⟨h₁, h₂, h₃⟩ <;>
    simp only [h₁, h₂, h₃, if_true, if_false, decide_true, decide_false,
      ne_eq, not_true, not_false_eq_true, Bool.and_true, Bool.and_false,
      Bool.or_true, Bool.or_false, Bool.false_eq_true] <;>
    omega

def daysBefore (year month day : Nat) : Nat :=
  daysBeforeYear year + daysBeforeMonth (leap year) month + (day - 1)

theorem daysBeforeMonth_succ (leap : Bool) {month : Nat} (h : 1 ≤ month) :
    daysBeforeMonth leap (month + 1)
      = daysBeforeMonth leap month + daysIn leap month := by
  obtain ⟨month, rfl⟩ := Nat.exists_eq_add_of_le' h
  rfl

theorem daysBeforeMonth_add_le (leap : Bool) {month month' : Nat}
    (hpos : 1 ≤ month) (h : month < month') :
    daysBeforeMonth leap month + daysIn leap month
      ≤ daysBeforeMonth leap month' := by
  induction month', h using Nat.le_induction with
  | base => exact (daysBeforeMonth_succ leap hpos).ge
  | succ month' hle ih =>
    rw [daysBeforeMonth_succ leap (by omega)]
    omega

theorem daysBeforeYear_add_le {year year' : Nat} (h : year < year') :
    daysBeforeYear year + yearLength (leap year) ≤ daysBeforeYear year' := by
  induction year', h using Nat.le_induction with
  | base => exact (daysBeforeYear_succ year).ge
  | succ year' hle ih =>
    rw [daysBeforeYear_succ]
    omega

-- ======== times

def dayNanos : Nat := 86400000000000

theorem dayNanos_pos : 0 < dayNanos := by decide

/-- A day, the nanoseconds since midnight, and the offset of the zone in
minutes. -/
structure Fields where
  year : Nat
  month : Nat
  day : Nat
  nanos : Nat
  offset : Int
deriving DecidableEq

structure Fields.Valid (f : Fields) : Prop where
  month_pos : 1 ≤ f.month
  month_le : f.month ≤ 12
  day_pos : 1 ≤ f.day
  day_le : f.day ≤ daysIn (leap f.year) f.month
  nanos_lt : f.nanos < dayNanos

instance (f : Fields) : Decidable f.Valid :=
  decidable_of_iff
    (1 ≤ f.month ∧ f.month ≤ 12 ∧ 1 ≤ f.day
      ∧ f.day ≤ daysIn (leap f.year) f.month ∧ f.nanos < dayNanos)
    ⟨fun ⟨h₁, h₂, h₃, h₄, h₅⟩ => ⟨h₁, h₂, h₃, h₄, h₅⟩,
      fun ⟨h₁, h₂, h₃, h₄, h₅⟩ => ⟨h₁, h₂, h₃, h₄, h₅⟩⟩

structure Time extends Fields where
  valid : toFields.Valid
deriving DecidableEq

/-- The nanoseconds from the beginning of year 0, on the clock of the
zone. -/
def Fields.clock (f : Fields) : Nat :=
  daysBefore f.year f.month f.day * dayNanos + f.nanos

/-- The instant: the nanoseconds from the beginning of year 0 in UTC. -/
def Time.instant (t : Time) : Int := t.clock - t.offset * 60000000000

def secondOf (instant : Int) : Int := instant / 1000000000

def Fields.nextDay (f : Fields) : Fields :=
  if f.day + 1 ≤ daysIn (leap f.year) f.month then
    { f with day := f.day + 1 }
  else if f.month + 1 ≤ 12 then { f with month := f.month + 1, day := 1 }
  else { f with year := f.year + 1, month := 1, day := 1 }

def Fields.next (f : Fields) : Fields :=
  if f.nanos + 1 < dayNanos then { f with nanos := f.nanos + 1 }
  else { f.nextDay with nanos := 0 }

theorem Fields.Valid.nextDay {f : Fields} (h : f.Valid) :
    f.nextDay.Valid := by
  unfold Fields.nextDay
  split
  next hday => exact { h with day_pos := by simp, day_le := hday }
  next =>
    split
    next hmonth =>
      exact { h with
        month_pos := by simp
        month_le := hmonth
        day_pos := Nat.le_refl 1
        day_le := daysIn_pos .. }
    next =>
      exact { h with
        month_pos := Nat.le_refl 1
        month_le := by simp
        day_pos := Nat.le_refl 1
        day_le := daysIn_pos .. }

theorem Fields.Valid.next {f : Fields} (h : f.Valid) : f.next.Valid := by
  unfold Fields.next
  split
  next hnanos => exact { h with nanos_lt := hnanos }
  next => exact { h.nextDay with nanos_lt := dayNanos_pos }

/-- `t.Add(time.Nanosecond)`. -/
def Time.next (t : Time) : Time := ⟨t.toFields.next, t.valid.next⟩

theorem Fields.daysBefore_nextDay {f : Fields} (h : f.Valid) :
    daysBefore f.nextDay.year f.nextDay.month f.nextDay.day
      = daysBefore f.year f.month f.day + 1 := by
  have := h.day_pos
  have := h.day_le
  unfold Fields.nextDay
  split
  · simp only [daysBefore]
    omega
  · split
    · simp only [daysBefore, daysBeforeMonth_succ _ h.month_pos]
      omega
    · have hmonth : f.month = 12 := by
        have := h.month_le
        omega
      have hend := daysBeforeMonth_end (leap f.year)
      have hfirst : daysBeforeMonth (leap (f.year + 1)) 1 = 0 := rfl
      simp only [hmonth] at *
      simp only [daysBefore, daysBeforeYear_succ, hfirst]
      omega

theorem Fields.clock_next {f : Fields} (h : f.Valid) :
    f.next.clock = f.clock + 1 := by
  have := h.nanos_lt
  unfold Fields.next
  split
  · exact (Nat.add_assoc ..).symm
  · simp only [Fields.clock, Fields.daysBefore_nextDay h, Nat.succ_mul]
    omega

theorem Fields.offset_next (f : Fields) : f.next.offset = f.offset := by
  unfold Fields.next Fields.nextDay
  split
  · rfl
  · split
    · rfl
    · split <;> rfl

def Fields.DayBefore (f g : Fields) : Prop :=
  f.year < g.year ∨ (f.year = g.year ∧ (f.month < g.month
    ∨ (f.month = g.month ∧ f.day < g.day)))

theorem Fields.Valid.daysBefore_lt {f g : Fields} (hf : f.Valid)
    (hg : g.Valid) (h : f.DayBefore g) :
    daysBefore f.year f.month f.day < daysBefore g.year g.month g.day := by
  have := hf.day_pos
  have := hf.day_le
  have := hg.day_pos
  unfold daysBefore
  rcases h with h | ⟨hyear, h | ⟨hmonth, h⟩⟩
  · have hend := daysBeforeMonth_end (leap f.year)
    have hle : daysBeforeMonth (leap f.year) f.month
        + daysIn (leap f.year) f.month ≤ yearLength (leap f.year) := by
      rcases Nat.lt_or_ge f.month 12 with hlt | hge
      · have := daysBeforeMonth_add_le (leap f.year) hf.month_pos hlt
        omega
      · rw [show f.month = 12 from Nat.le_antisymm hf.month_le hge]
        omega
    have := daysBeforeYear_add_le h
    omega
  · rw [← hyear]
    have := daysBeforeMonth_add_le (leap f.year) hf.month_pos h
    omega
  · rw [← hyear, ← hmonth]
    omega

/-- Clocks are ordered like days, and on one day like the time of
day. -/
theorem Fields.Valid.clock_lt_iff {f g : Fields} (hf : f.Valid)
    (hg : g.Valid) :
    f.clock < g.clock ↔ f.year < g.year ∨ (f.year = g.year
      ∧ (f.month < g.month ∨ (f.month = g.month
        ∧ (f.day < g.day ∨ (f.day = g.day ∧ f.nanos < g.nanos))))) := by
  have hfn := hf.nanos_lt
  have hgn := hg.nanos_lt
  have hlt : ∀ {f g : Fields}, f.Valid → g.Valid → f.DayBefore g →
      f.clock < g.clock := by
    intro f g hf hg h
    have hdays := Nat.mul_le_mul_right dayNanos (hf.daysBefore_lt hg h)
    rw [Nat.succ_mul] at hdays
    have := hf.nanos_lt
    unfold Fields.clock
    omega
  by_cases hbefore : f.DayBefore g
  · have := hlt hf hg hbefore
    unfold Fields.DayBefore at hbefore
    omega
  · by_cases hafter : g.DayBefore f
    · have := hlt hg hf hafter
      unfold Fields.DayBefore at hafter
      omega
    · have hsame : f.year = g.year ∧ f.month = g.month
          ∧ f.day = g.day := by
        unfold Fields.DayBefore at hbefore hafter
        omega
      have hclock : f.clock < g.clock ↔ f.nanos < g.nanos := by
        unfold Fields.clock
        rw [hsame.1, hsame.2.1, hsame.2.2]
        exact Nat.add_lt_add_iff_left
      omega

theorem Time.instant_next (t : Time) : t.next.instant = t.instant + 1 := by
  have hclock : t.next.toFields.clock = t.toFields.clock + 1 :=
    Fields.clock_next t.valid
  have hoffset : t.next.toFields.offset = t.toFields.offset :=
    Fields.offset_next t.toFields
  unfold Time.instant
  rw [hclock, hoffset]
  omega

-- ======== digits

def digit (n : Nat) : UInt8 := UInt8.ofNat (48 + n)

def isDigit (b : UInt8) : Bool := 48 ≤ b && b ≤ 57

def digitVal (b : UInt8) : Nat := b.toNat - 48

def digits : Nat → Nat → Text
  | 0, _ => []
  | w + 1, n => digit (n / 10 ^ w) :: digits w (n % 10 ^ w)

def readDigits : Nat → Nat → Text → Option (Nat × Text)
  | 0, acc, s => some (acc, s)
  | w + 1, acc, b :: s =>
    if isDigit b then readDigits w (acc * 10 + digitVal b) s else none
  | _ + 1, _, [] => none

theorem digit_spec {n : Nat} (h : n < 10) :
    isDigit (digit n) = true ∧ digitVal (digit n) = n := by
  have : ∀ n < 10, isDigit (digit n) = true ∧ digitVal (digit n) = n := by
    decide
  exact this n h

theorem digit_lt_iff {n m : Nat} (hn : n < 10) (hm : m < 10) :
    digit n < digit m ↔ n < m := by
  have : ∀ n < 10, ∀ m < 10, digit n < digit m ↔ n < m := by decide
  exact this n hn m hm

theorem digits_length (w n : Nat) : (digits w n).length = w := by
  induction w generalizing n with
  | zero => rfl
  | succ w ih => exact congrArg (· + 1) (ih _)

theorem pow_ten_pos (w : Nat) : 0 < 10 ^ w := Nat.pow_pos (by decide)

theorem div_pow_lt {w n : Nat} (h : n < 10 ^ (w + 1)) : n / 10 ^ w < 10 := by
  rw [Nat.div_lt_iff_lt_mul (pow_ten_pos w), ← Nat.pow_succ']
  exact h

theorem digits_isDigit {w n : Nat} (h : n < 10 ^ w) :
    ∀ b ∈ digits w n, isDigit b = true := by
  induction w generalizing n with
  | zero => exact fun _ h => nomatch h
  | succ w ih =>
    intro b hb
    rcases List.mem_cons.mp hb with rfl | hb
    · exact (digit_spec (div_pow_lt h)).1
    · exact ih (Nat.mod_lt _ (pow_ten_pos w)) b hb

theorem readDigits_digits {w n : Nat} (h : n < 10 ^ w) (acc : Nat)
    (s : Text) :
    readDigits w acc (digits w n ++ s) = some (acc * 10 ^ w + n, s) := by
  induction w generalizing n acc with
  | zero =>
    have : n = 0 := by omega
    simp [readDigits, digits, this]
  | succ w ih =>
    obtain ⟨hdigit, hval⟩ := digit_spec (div_pow_lt h)
    simp only [digits, List.cons_append, readDigits, hdigit, hval,
      if_true]
    rw [ih (Nat.mod_lt _ (pow_ten_pos w))]
    congr 2
    calc (acc * 10 + n / 10 ^ w) * 10 ^ w + n % 10 ^ w
      _ = acc * 10 ^ (w + 1) + (10 ^ w * (n / 10 ^ w) + n % 10 ^ w) := by
          ring
      _ = acc * 10 ^ (w + 1) + n := by rw [Nat.div_add_mod]

/-- Numbers of one width are ordered like texts, whatever is behind
them. -/
theorem digits_append_lt_iff {w n m : Nat} (hn : n < 10 ^ w)
    (hm : m < 10 ^ w) (s s' : Text) :
    digits w n ++ s < digits w m ++ s' ↔ n < m ∨ (n = m ∧ s < s') := by
  induction w generalizing n m with
  | zero =>
    have : n = 0 := by omega
    have : m = 0 := by omega
    simp [digits, *]
  | succ w ih =>
    have hpos := pow_ten_pos w
    have hdigit := digit_lt_iff (div_pow_lt hn) (div_pow_lt hm)
    have heq : digit (n / 10 ^ w) = digit (m / 10 ^ w)
        ↔ n / 10 ^ w = m / 10 ^ w := by
      refine ⟨fun h => ?_, fun h => h ▸ rfl⟩
      rw [← (digit_spec (div_pow_lt hn)).2, h,
        (digit_spec (div_pow_lt hm)).2]
    simp only [digits, List.cons_append]
    rw [List.cons_lt_cons_iff, hdigit, heq,
      ih (Nat.mod_lt _ hpos) (Nat.mod_lt _ hpos)]
    -- the order of two numbers is that of their halves
    have hn' := Nat.div_add_mod n (10 ^ w)
    have hm' := Nat.div_add_mod m (10 ^ w)
    have hnlt := Nat.mod_lt n hpos
    have hmlt := Nat.mod_lt m hpos
    rcases Nat.lt_trichotomy (n / 10 ^ w) (m / 10 ^ w) with h | h | h
    · have := Nat.mul_le_mul_left (10 ^ w) h
      rw [Nat.mul_succ] at this
      have hlt : n < m := by omega
      simp [h, hlt]
    · rw [h] at hn'
      have hlt : n % 10 ^ w < m % 10 ^ w ↔ n < m := by omega
      have heq : n % 10 ^ w = m % 10 ^ w ↔ n = m := by omega
      simp [h, hlt, heq]
    · have := Nat.mul_le_mul_left (10 ^ w) h
      rw [Nat.mul_succ] at this
      have hlt : ¬ n < m := by omega
      have hne : n ≠ m := by omega
      simp [hlt, hne, h.ne', Nat.not_lt.mpr h.le]

-- ======== fractions

/-- A fraction of so many digits at most, without trailing zeros. -/
def fractionDigits : Nat → Nat → Text
  | 0, _ => []
  | w + 1, n =>
    if n = 0 then []
    else digit (n / 10 ^ w) :: fractionDigits w (n % 10 ^ w)

def fractionVal : Nat → Text → Nat
  | 0, _ => 0
  | _ + 1, [] => 0
  | w + 1, b :: s => digitVal b * 10 ^ w + fractionVal w s

theorem fractionVal_fractionDigits {w n : Nat} (h : n < 10 ^ w) :
    fractionVal w (fractionDigits w n) = n := by
  induction w generalizing n with
  | zero =>
    have : n = 0 := by omega
    rw [this]
    rfl
  | succ w ih =>
    unfold fractionDigits
    split
    next hzero => exact hzero.symm
    next =>
      rw [fractionVal, (digit_spec (div_pow_lt h)).2,
        ih (Nat.mod_lt _ (pow_ten_pos w)), Nat.mul_comm]
      exact Nat.div_add_mod ..

theorem fractionVal_digits {w n : Nat} (h : n < 10 ^ w) :
    fractionVal w (digits w n) = n := by
  induction w generalizing n with
  | zero =>
    have : n = 0 := by omega
    rw [this]
    rfl
  | succ w ih =>
    rw [digits, fractionVal, (digit_spec (div_pow_lt h)).2,
      ih (Nat.mod_lt _ (pow_ten_pos w)), Nat.mul_comm]
    exact Nat.div_add_mod ..

theorem fractionDigits_isDigit {w n : Nat} (h : n < 10 ^ w) :
    ∀ b ∈ fractionDigits w n, isDigit b = true := by
  induction w generalizing n with
  | zero => exact fun _ h => nomatch h
  | succ w ih =>
    intro b hb
    unfold fractionDigits at hb
    split at hb
    next => cases hb
    next =>
      rcases List.mem_cons.mp hb with rfl | hb
      · exact (digit_spec (div_pow_lt h)).1
      · exact ih (Nat.mod_lt _ (pow_ten_pos w)) b hb

/-- Read a fraction: a point or comma, and digits, of which the first
nine count. -/
def readFraction : Text → Nat × Text
  | point :: b :: s =>
    if (point = 46 ∨ point = 44) ∧ isDigit b then
      (fractionVal 9 ((b :: s).takeWhile isDigit),
        (b :: s).dropWhile isDigit)
    else (0, point :: b :: s)
  | s => (0, s)

/-- The text ends or goes on with something that belongs to no
fraction. -/
def EndsFraction (s : Text) : Prop :=
  ∀ b ∈ s.head?, isDigit b = false ∧ b ≠ 46 ∧ b ≠ 44

theorem readFraction_point {ds s : Text} (hne : ds ≠ [])
    (hds : ∀ b ∈ ds, isDigit b = true) (hs : EndsFraction s) :
    readFraction (46 :: ds ++ s) = (fractionVal 9 ds, s) := by
  cases ds with
  | nil => exact absurd rfl hne
  | cons b ds =>
    have htake : (b :: (ds ++ s)).takeWhile isDigit = b :: ds := by
      rw [← List.cons_append, List.takeWhile_append_of_pos hds]
      cases s with
      | nil => simp
      | cons c s => simp [(hs c rfl).1]
    have hdrop : (b :: (ds ++ s)).dropWhile isDigit = s := by
      rw [← List.cons_append, List.dropWhile_append_of_pos hds]
      cases s with
      | nil => simp
      | cons c s => simp [(hs c rfl).1]
    simp only [List.cons_append, readFraction,
      hds b (List.mem_cons_self ..), true_or, and_self, if_true, htake,
      hdrop]

theorem readFraction_none {s : Text} (hs : EndsFraction s) :
    readFraction s = (0, s) := by
  unfold readFraction
  split
  next point b s =>
    obtain ⟨-, hpoint, hcomma⟩ := hs point rfl
    rw [if_neg]
    rintro ⟨h | h, -⟩
    · exact hpoint h
    · exact hcomma h
  next => rfl

-- ======== zones

def formatZone (offset : Int) : Text :=
  if offset = 0 then [90]
  else
    (if offset < 0 then 45 else 43) :: digits 2 (offset.natAbs / 60)
      ++ 58 :: digits 2 (offset.natAbs % 60)

def readZone : Text → Option (Int × Text)
  | 90 :: s => some (0, s)
  | sign :: s => do
      let (hours, s) ← readDigits 2 0 s
      let (minutes, s) ← match s with
        | 58 :: s => readDigits 2 0 s
        | _ => none
      if 24 < hours ∨ 60 < minutes then none
      else if sign = 43 then some ((hours * 60 + minutes : Nat), s)
      else if sign = 45 then some (-(hours * 60 + minutes : Nat), s)
      else none
  | [] => none

theorem readZone_formatZone {offset : Int} (h : offset.natAbs < 1500) :
    readZone (formatZone offset) = some (offset, []) := by
  unfold formatZone
  split
  next hzero =>
    rw [hzero]
    rfl
  next hne =>
    have hhours : offset.natAbs / 60 < 10 ^ 2 := by omega
    have hminutes : offset.natAbs % 60 < 10 ^ 2 := by omega
    have hread := readDigits_digits hhours 0
      (58 :: digits 2 (offset.natAbs % 60))
    have hread' := readDigits_digits hminutes 0 []
    rw [List.append_nil, Nat.zero_mul, Nat.zero_add] at hread'
    rw [Nat.zero_mul, Nat.zero_add] at hread
    have hbounds : ¬ (24 < offset.natAbs / 60 ∨ 60 < offset.natAbs % 60) := by
      omega
    have hsum : offset.natAbs / 60 * 60 + offset.natAbs % 60
        = offset.natAbs := by omega
    split
    next hneg =>
      have hvalue : -(offset.natAbs : Int) = offset := by omega
      show readZone (45 :: (_ ++ _)) = _
      rw [readZone, hread]
      · simp only [bind, Option.bind, hread', hbounds, if_false, hsum, hvalue]
        exact if_neg (by decide)
      · decide
    next hpos =>
      have hvalue : (offset.natAbs : Int) = offset := by omega
      show readZone (43 :: (_ ++ _)) = _
      rw [readZone, hread]
      · simp only [bind, Option.bind, hread', hbounds, if_false, hsum, hvalue]
        rfl
      · decide

theorem formatZone_endsFraction (offset : Int) :
    EndsFraction (formatZone offset) := by
  intro b hb
  unfold formatZone at hb
  split at hb
  · cases hb
    decide
  · split at hb <;>
    · cases hb
      decide

-- ======== texts

def nanosOf (hour minute second nanosecond : Nat) : Nat :=
  ((hour * 60 + minute) * 60 + second) * 1000000000 + nanosecond

/-- `t.Hour()`. -/
def Fields.hour (f : Fields) : Nat := f.nanos / 1000000000 / 60 / 60

/-- `t.Minute()`. -/
def Fields.minute (f : Fields) : Nat := f.nanos / 1000000000 / 60 % 60

/-- `t.Second()`. -/
def Fields.second (f : Fields) : Nat := f.nanos / 1000000000 % 60

/-- `t.Nanosecond()`. -/
def Fields.nanosecond (f : Fields) : Nat := f.nanos % 1000000000

def literal (b : UInt8) : Text → Option Text
  | [] => none
  | c :: s => if c = b then some s else none

def readHour (s : Text) : Option (Nat × Text) :=
  match readDigits 2 0 s with
  | some r => some r
  | none => readDigits 1 0 s

def ofFields (year month day hour minute second nanosecond : Nat)
    (offset : Int) : Option Time :=
  let f : Fields :=
    ⟨year, month, day, nanosOf hour minute second nanosecond, offset⟩
  if h : (hour < 24 ∧ minute < 60 ∧ second < 60) ∧ f.Valid then
    some ⟨f, h.2⟩
  else none

/-- `time.Parse`, with `time.RFC3339` or `time.RFC3339Nano`. -/
def parse (s : Text) : Option Time := do
  let (year, s) ← readDigits 4 0 s
  let s ← literal 45 s
  let (month, s) ← readDigits 2 0 s
  let s ← literal 45 s
  let (day, s) ← readDigits 2 0 s
  let s ← literal 84 s
  let (hour, s) ← readHour s
  let s ← literal 58 s
  let (minute, s) ← readDigits 2 0 s
  let s ← literal 58 s
  let (second, s) ← readDigits 2 0 s
  let (nanosecond, s) := readFraction s
  let (offset, s) ← readZone s
  if s = [] then
    ofFields year month day hour minute second nanosecond offset
  else none

def formatYear (year : Nat) : Text :=
  if year < 10000 then digits 4 year
  else (Nat.toDigits 10 year).map fun c => UInt8.ofNat c.toNat

def formatTime (f : Fields) : Text :=
  digits 2 f.hour ++ 58 :: (digits 2 f.minute ++ 58 :: digits 2 f.second)

def formatWith (fraction : Text) (f : Fields) : Text :=
  formatYear f.year ++ 45 :: (digits 2 f.month ++ 45 :: (digits 2 f.day
    ++ 84 :: (formatTime f ++ (fraction ++ formatZone f.offset))))

/-- `t.Format(time.RFC3339Nano)`. -/
def format (t : Time) : Text :=
  formatWith
    (if t.nanosecond = 0 then [] else 46 :: fractionDigits 9 t.nanosecond)
    t.toFields

def stamp (t : Time) : Text :=
  formatWith (46 :: digits 9 t.nanosecond) t.toFields

theorem nanosOf_fields (f : Fields) :
    nanosOf f.hour f.minute f.second f.nanosecond = f.nanos := by
  unfold nanosOf Fields.hour Fields.minute Fields.second Fields.nanosecond
  omega

theorem Fields.Valid.clock_fields {f : Fields} (h : f.Valid) :
    f.hour < 24 ∧ f.minute < 60 ∧ f.second < 60
      ∧ f.nanosecond < 1000000000 := by
  have hnanos := h.nanos_lt
  unfold dayNanos at hnanos
  unfold Fields.hour Fields.minute Fields.second Fields.nanosecond
  omega

theorem daysIn_le (leap : Bool) (month : Nat) : daysIn leap month ≤ 31 := by
  unfold daysIn
  split
  · split <;> omega
  all_goals omega

theorem parse_formatWith {fraction : Text} {t : Time}
    (hyear : t.year < 10000) (hoffset : t.offset.natAbs < 1500)
    (hfraction : readFraction (fraction ++ formatZone t.offset)
      = (t.nanosecond, formatZone t.offset)) :
    parse (formatWith fraction t.toFields) = some t := by
  obtain ⟨hhour, hminute, hsecond, -⟩ := t.valid.clock_fields
  have hday := t.valid.day_le.trans (daysIn_le _ _)
  have hmonth := t.valid.month_le
  have hread : ∀ {n : Nat}, n < 10 ^ 2 → ∀ s,
      readDigits 2 0 (digits 2 n ++ s) = some (n, s) := by
    intro n hn s
    have h := readDigits_digits hn 0 s
    rwa [Nat.zero_mul, Nat.zero_add] at h
  have hreadYear : ∀ s, readDigits 4 0 (digits 4 t.year ++ s)
      = some (t.year, s) := by
    intro s
    have h := readDigits_digits (w := 4) hyear 0 s
    rwa [Nat.zero_mul, Nat.zero_add] at h
  have hfields : ofFields t.year t.month t.day t.hour t.minute t.second
      t.nanosecond t.offset = some t := by
    unfold ofFields
    simp only [nanosOf_fields]
    rw [dif_pos ⟨⟨hhour, hminute, hsecond⟩, t.valid⟩]
  unfold parse formatWith formatYear formatTime
  rw [if_pos hyear]
  simp only [List.append_assoc, List.cons_append, hreadYear,
    hread (show t.month < 10 ^ 2 by omega),
    hread (show t.day < 10 ^ 2 by omega),
    hread (show t.hour < 10 ^ 2 by omega),
    hread (show t.minute < 10 ^ 2 by omega),
    hread (show t.second < 10 ^ 2 by omega), readHour, literal, if_true,
    Option.bind_eq_bind, Option.bind_some, hfraction,
    readZone_formatZone hoffset, hfields]

theorem parse_format {t : Time} (hyear : t.year < 10000)
    (hoffset : t.offset.natAbs < 1500) : parse (format t) = some t := by
  refine parse_formatWith hyear hoffset ?_
  have hnano := t.valid.clock_fields.2.2.2
  have hzone := formatZone_endsFraction t.offset
  split
  next hzero =>
    rw [hzero, List.nil_append]
    exact readFraction_none hzone
  next hne =>
    have hds : fractionDigits 9 t.nanosecond ≠ [] := by
      rw [fractionDigits, if_neg hne]
      exact List.cons_ne_nil _ _
    rw [readFraction_point hds (fractionDigits_isDigit hnano) hzone,
      fractionVal_fractionDigits hnano]

theorem parse_stamp {t : Time} (hyear : t.year < 10000)
    (hoffset : t.offset.natAbs < 1500) : parse (stamp t) = some t := by
  refine parse_formatWith hyear hoffset ?_
  have hnano := t.valid.clock_fields.2.2.2
  have hds : digits 9 t.nanosecond ≠ [] := List.cons_ne_nil _ _
  rw [readFraction_point hds (digits_isDigit hnano)
    (formatZone_endsFraction t.offset), fractionVal_digits hnano]

theorem stamp_length {t : Time} (hyear : t.year < 10000)
    (hoffset : t.offset = 0) : (stamp t).length = 30 := by
  simp [stamp, formatWith, formatYear, formatTime, formatZone, hyear,
    hoffset, digits_length]

-- ======== stamps in UTC

theorem Fields.Valid.nanos_lt_iff {f g : Fields} (hf : f.Valid)
    (hg : g.Valid) :
    f.nanos < g.nanos ↔ f.hour < g.hour ∨ (f.hour = g.hour
      ∧ (f.minute < g.minute ∨ (f.minute = g.minute
        ∧ (f.second < g.second ∨ (f.second = g.second
          ∧ f.nanosecond < g.nanosecond))))) := by
  obtain ⟨-, hfm, hfs, hfn⟩ := hf.clock_fields
  obtain ⟨-, hgm, hgs, hgn⟩ := hg.clock_fields
  rw [← nanosOf_fields f, ← nanosOf_fields g]
  unfold nanosOf
  omega

theorem stamp_lt_iff {t u : Time} (ht : t.year < 10000)
    (hu : u.year < 10000) (hto : t.offset = 0) (huo : u.offset = 0) :
    stamp t < stamp u ↔ t.instant < u.instant := by
  obtain ⟨hth, htm, hts, htn⟩ := t.valid.clock_fields
  obtain ⟨huh, hum, hus, hun⟩ := u.valid.clock_fields
  have htday := t.valid.day_le.trans (daysIn_le _ _)
  have huday := u.valid.day_le.trans (daysIn_le _ _)
  have htmonth := t.valid.month_le
  have humonth := u.valid.month_le
  have hsep : ∀ (b : UInt8) (s s' : Text), b :: s < b :: s' ↔ s < s' := by
    intro b s s'
    rw [List.cons_lt_cons_iff]
    simp
  have hinstant : t.instant < u.instant ↔ t.clock < u.clock := by
    unfold Time.instant
    rw [hto, huo]
    omega
  rw [hinstant, t.valid.clock_lt_iff u.valid,
    t.valid.nanos_lt_iff u.valid]
  unfold stamp formatWith formatYear formatTime
  rw [if_pos ht, if_pos hu, hto, huo]
  simp only [List.append_assoc, List.cons_append]
  rw [digits_append_lt_iff (w := 4) ht hu, hsep,
    digits_append_lt_iff (w := 2) (by omega) (by omega), hsep,
    digits_append_lt_iff (w := 2) (by omega) (by omega), hsep,
    digits_append_lt_iff (w := 2) (by omega) (by omega), hsep,
    digits_append_lt_iff (w := 2) (by omega) (by omega), hsep,
    digits_append_lt_iff (w := 2) (by omega) (by omega), hsep,
    digits_append_lt_iff (w := 9) htn hun]
  simp

theorem stamp_printable {t : Time} (hyear : t.year < 10000)
    (hoffset : t.offset = 0) : ∀ b ∈ stamp t, 32 < b := by
  obtain ⟨hth, htm, hts, htn⟩ := t.valid.clock_fields
  have htday := t.valid.day_le.trans (daysIn_le _ _)
  have htmonth := t.valid.month_le
  have hdigits : ∀ {w n : Nat}, n < 10 ^ w → ∀ b ∈ digits w n, 32 < b := by
    intro w n h b hb
    have hdigit := digits_isDigit h b hb
    simp only [isDigit, Bool.and_eq_true, decide_eq_true_eq] at hdigit
    exact lt_of_lt_of_le (by decide) hdigit.1
  intro b hb
  simp only [stamp, formatWith, formatYear, if_pos hyear, formatTime,
    hoffset, formatZone, if_true, List.mem_append, List.mem_cons,
    List.not_mem_nil, or_false] at hb
  rcases hb with hb | rfl | hb | rfl | hb | rfl | (hb | rfl | hb | rfl | hb)
    | (rfl | hb) | rfl
  · exact hdigits (w := 4) hyear b hb
  · decide
  · exact hdigits (w := 2) (by omega) b hb
  · decide
  · exact hdigits (w := 2) (by omega) b hb
  · decide
  · exact hdigits (w := 2) (by omega) b hb
  · decide
  · exact hdigits (w := 2) (by omega) b hb
  · decide
  · exact hdigits (w := 2) (by omega) b hb
  · decide
  · exact hdigits (w := 9) htn b hb
  · decide

end Rfc3339
