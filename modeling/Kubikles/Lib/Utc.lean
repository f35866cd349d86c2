/-
Comparing times in UTC by their texts.

# Texts

A time in UTC is written down to the seconds, with a fraction or none,
and a `Z` (`Utc`). The text has thirty bytes if the fraction has nine
digits.

# Order

Down to the seconds the order of the texts is that of the times
(`upTo_lt_iff`). Behind that a digit stands before `Z`. So a text of
thirty bytes comes before a shorter one that it agrees with up to the
`Z`, though its time is not earlier (`stamp_lt_utc`); in all other cases
the order is right, with the thirty-first byte on left out.
-/
import Kubikles.Lib.Rfc3339

namespace Rfc3339

variable {w n m : Nat} {s s' tail tail' fraction : Text} {t u : Time}

-- ======== seconds

/-- The text of a day and a time of day down to the seconds, with
something behind it. -/
def upTo (f : Fields) (tail : Text) : Text :=
  digits 4 f.year ++ 45 :: (digits 2 f.month ++ 45 :: (digits 2 f.day
    ++ 84 :: (digits 2 f.hour ++ 58 :: (digits 2 f.minute
      ++ 58 :: (digits 2 f.second ++ tail)))))

theorem formatWith_utc {f : Fields} (hyear : f.year < 10000)
    (hoffset : f.offset = 0) (fraction : Text) :
    formatWith fraction f = upTo f (fraction ++ [90]) := by
  unfold formatWith formatYear formatTime upTo
  rw [if_pos hyear, hoffset]
  simp only [List.append_assoc, List.cons_append]
  rfl

theorem upTo_length (f : Fields) (tail : Text) :
    (upTo f tail).length = 19 + tail.length := by
  simp only [upTo, List.length_append, List.length_cons, digits_length]
  omega

theorem upTo_take (f : Fields) (tail : Text) (k : Nat) :
    (upTo f tail).take (19 + k) = upTo f (tail.take k) := by
  have hnil : ∀ tail, upTo f tail = upTo f [] ++ tail := by
    intro tail
    simp only [upTo, List.append_assoc, List.cons_append, List.nil_append]
  rw [hnil tail, hnil (tail.take k), List.take_append, upTo_length,
    List.take_of_length_le (by rw [upTo_length]; exact Nat.le_add_right ..)]
  congr 2
  rw [List.length_nil]
  omega

theorem upTo_dropLast (f : Fields) (tail : Text) (b : UInt8) :
    (upTo f (tail ++ [b])).dropLast = upTo f tail := by
  have hconcat : upTo f (tail ++ [b]) = upTo f tail ++ [b] := by
    simp only [upTo, List.append_assoc, List.cons_append]
  rw [hconcat, List.dropLast_concat]

def Fields.floor (f : Fields) : Fields :=
  { f with nanos := f.nanos - f.nanosecond }

theorem Fields.Valid.floor {f : Fields} (h : f.Valid) : f.floor.Valid :=
  { h with nanos_lt := (Nat.sub_le ..).trans_lt h.nanos_lt }

theorem instant_utc (ht : t.offset = 0) : t.instant = t.clock := by
  unfold Time.instant
  rw [ht]
  omega

theorem clock_floor (f : Fields) :
    f.floor.clock + f.nanosecond = f.clock
      ∧ secondOf f.clock * 1000000000 = f.floor.clock := by
  unfold Fields.floor Fields.clock Fields.nanosecond secondOf dayNanos
  dsimp only
  omega

theorem secondOf_lt_iff (ht : t.offset = 0) (hu : u.offset = 0) :
    secondOf t.instant < secondOf u.instant
      ↔ t.year < u.year ∨ (t.year = u.year
        ∧ (t.month < u.month ∨ (t.month = u.month
          ∧ (t.day < u.day ∨ (t.day = u.day
            ∧ (t.hour < u.hour ∨ (t.hour = u.hour
              ∧ (t.minute < u.minute ∨ (t.minute = u.minute
                ∧ t.second < u.second))))))))) := by
  have hlt := t.valid.floor.clock_lt_iff u.valid.floor
  have hnanos := t.valid.floor.nanos_lt_iff u.valid.floor
  have hzero : ∀ f : Fields, f.floor.nanosecond = 0 ∧ f.floor.hour = f.hour
      ∧ f.floor.minute = f.minute ∧ f.floor.second = f.second := by
    intro f
    unfold Fields.floor Fields.nanosecond Fields.hour Fields.minute
      Fields.second
    dsimp only
    omega
  obtain ⟨htn, hth, htm, hts⟩ := hzero t.toFields
  obtain ⟨hun, huh, hum, hus⟩ := hzero u.toFields
  rw [htn, hth, htm, hts, hun, huh, hum, hus] at hnanos
  rw [hnanos] at hlt
  have hseconds : secondOf t.instant < secondOf u.instant
      ↔ t.floor.clock < u.floor.clock := by
    rw [instant_utc ht, instant_utc hu]
    have htclock := (clock_floor t.toFields).2
    have huclock := (clock_floor u.toFields).2
    omega
  rw [hseconds, hlt]
  simp only [Fields.floor, lt_irrefl, and_false, or_false]

theorem secondOf_eq_iff (ht : t.offset = 0) (hu : u.offset = 0) :
    secondOf t.instant = secondOf u.instant
      ↔ t.year = u.year ∧ t.month = u.month ∧ t.day = u.day
        ∧ t.hour = u.hour ∧ t.minute = u.minute ∧ t.second = u.second := by
  have hlt := secondOf_lt_iff ht hu
  have hgt := secondOf_lt_iff hu ht
  omega

theorem instant_lt_iff (ht : t.offset = 0) (hu : u.offset = 0) :
    t.instant < u.instant ↔ secondOf t.instant < secondOf u.instant
      ∨ (secondOf t.instant = secondOf u.instant
        ∧ t.nanosecond < u.nanosecond) := by
  have htn := t.valid.clock_fields.2.2.2
  have hun := u.valid.clock_fields.2.2.2
  rw [instant_utc ht, instant_utc hu]
  obtain ⟨htsum, htclock⟩ := clock_floor t.toFields
  obtain ⟨husum, huclock⟩ := clock_floor u.toFields
  omega

/-- Texts are ordered like the seconds, and in one second like what is
behind it. -/
theorem upTo_lt_iff (ht : t.year < 10000) (hu : u.year < 10000)
    (hto : t.offset = 0) (huo : u.offset = 0) (tail tail' : Text) :
    upTo t.toFields tail < upTo u.toFields tail'
      ↔ secondOf t.instant < secondOf u.instant
        ∨ (secondOf t.instant = secondOf u.instant ∧ tail < tail') := by
  obtain ⟨hth, htm, hts, -⟩ := t.valid.clock_fields
  obtain ⟨huh, hum, hus, -⟩ := u.valid.clock_fields
  have htday := t.valid.day_le.trans (daysIn_le _ _)
  have huday := u.valid.day_le.trans (daysIn_le _ _)
  have htmonth := t.valid.month_le
  have humonth := u.valid.month_le
  have hsep : ∀ (b : UInt8) (s s' : Text), b :: s < b :: s' ↔ s < s' := by
    intro b s s'
    rw [List.cons_lt_cons_iff]
    simp
  unfold upTo
  rw [digits_append_lt_iff (w := 4) ht hu, hsep,
    digits_append_lt_iff (w := 2) (by omega) (by omega), hsep,
    digits_append_lt_iff (w := 2) (by omega) (by omega), hsep,
    digits_append_lt_iff (w := 2) (by omega) (by omega), hsep,
    digits_append_lt_iff (w := 2) (by omega) (by omega), hsep,
    digits_append_lt_iff (w := 2) (by omega) (by omega),
    secondOf_lt_iff hto huo, secondOf_eq_iff hto huo]
  by_cases htail : tail < tail'
  · simp only [htail, and_true]
    omega
  · simp only [htail, and_false, or_false]

theorem digits_append_prefix_iff (hn : n < 10 ^ w) (hm : m < 10 ^ w)
    (s s' : Text) :
    digits w n ++ s <+: digits w m ++ s' ↔ n = m ∧ s <+: s' := by
  constructor
  · rintro ⟨rest, hrest⟩
    rw [List.append_assoc] at hrest
    obtain ⟨hdigits, htail⟩ := List.append_inj hrest
      (by rw [digits_length, digits_length])
    have hlt := digits_append_lt_iff hn hm [] []
    have hgt := digits_append_lt_iff hm hn [] []
    rw [hdigits] at hlt hgt
    simp only [lt_irrefl, and_false, or_false, false_iff] at hlt hgt
    exact ⟨by omega, rest, htail⟩
  · rintro ⟨rfl, hs⟩
    exact (List.prefix_append_right_inj _).mpr hs

/-- A text begins another if it is of the same second and what is behind
begins what is behind. -/
theorem upTo_prefix_iff (ht : t.year < 10000) (hu : u.year < 10000)
    (hto : t.offset = 0) (huo : u.offset = 0) (tail tail' : Text) :
    upTo t.toFields tail <+: upTo u.toFields tail'
      ↔ secondOf t.instant = secondOf u.instant ∧ tail <+: tail' := by
  obtain ⟨hth, htm, hts, -⟩ := t.valid.clock_fields
  obtain ⟨huh, hum, hus, -⟩ := u.valid.clock_fields
  have htday := t.valid.day_le.trans (daysIn_le _ _)
  have huday := u.valid.day_le.trans (daysIn_le _ _)
  have htmonth := t.valid.month_le
  have humonth := u.valid.month_le
  have hsep : ∀ (b : UInt8) (s s' : Text),
      b :: s <+: b :: s' ↔ s <+: s' := fun b s s' =>
    List.prefix_cons_inj b
  unfold upTo
  rw [digits_append_prefix_iff (w := 4) ht hu, hsep,
    digits_append_prefix_iff (w := 2) (by omega) (by omega), hsep,
    digits_append_prefix_iff (w := 2) (by omega) (by omega), hsep,
    digits_append_prefix_iff (w := 2) (by omega) (by omega), hsep,
    digits_append_prefix_iff (w := 2) (by omega) (by omega), hsep,
    digits_append_prefix_iff (w := 2) (by omega) (by omega),
    secondOf_eq_iff hto huo]
  tauto

-- ======== fractions

/-- A fraction of a second that is read as so many nanoseconds. -/
inductive IsFraction (nanosecond : Nat) : Text → Prop
  | none (h : nanosecond = 0) : IsFraction nanosecond []
  | point (ds : Text) (hne : ds ≠ []) (hds : ∀ b ∈ ds, isDigit b = true)
      (h : fractionVal 9 ds = nanosecond) :
      IsFraction nanosecond (46 :: ds)

/-- The text is written of the time, in UTC, as `time.RFC3339` or
`time.RFC3339Nano` have it or with more digits. -/
structure Utc (s : Text) (t : Time) : Prop where
  year : t.year < 10000
  offset : t.offset = 0
  text : ∃ fraction, IsFraction t.nanosecond fraction
    ∧ s = formatWith fraction t.toFields

theorem utc_format (hyear : t.year < 10000) (hoffset : t.offset = 0) :
    Utc (format t) t := by
  have hnano := t.valid.clock_fields.2.2.2
  refine ⟨hyear, hoffset, _, ?_, rfl⟩
  split
  next hzero => exact .none hzero
  next hne =>
    refine .point _ ?_ (fractionDigits_isDigit hnano)
      (fractionVal_fractionDigits hnano)
    rw [fractionDigits, if_neg hne]
    exact List.cons_ne_nil _ _

theorem digit_of_isDigit {b : UInt8} (h : isDigit b = true) :
    digitVal b < 10 ∧ digit (digitVal b) = b := by
  unfold isDigit at h
  rw [Bool.and_eq_true, decide_eq_true_eq, decide_eq_true_eq,
    UInt8.le_iff_toNat_le, UInt8.le_iff_toNat_le] at h
  have h : 48 ≤ b.toNat ∧ b.toNat ≤ 57 := h
  unfold digitVal digit
  refine ⟨by omega, ?_⟩
  rw [Nat.add_sub_cancel' h.1]
  exact UInt8.ofNat_toNat

theorem fractionVal_lt (w : Nat) {ds : Text}
    (hds : ∀ b ∈ ds, isDigit b = true) : fractionVal w ds < 10 ^ w := by
  induction w generalizing ds with
  | zero =>
    rw [fractionVal]
    exact Nat.one_pos
  | succ w ih =>
    cases ds with
    | nil =>
      rw [fractionVal]
      exact pow_ten_pos _
    | cons b ds =>
      have hb := (digit_of_isDigit (hds b (List.mem_cons_self ..))).1
      have hrest := ih fun b hb => hds b (List.mem_cons_of_mem _ hb)
      have hmul := Nat.mul_le_mul_right (10 ^ w)
        (Nat.le_of_lt_succ hb)
      rw [fractionVal, Nat.pow_succ]
      omega

/-- So many digits and a `Z` come before a fraction and a `Z`, of which
one byte more counts than the digits, if the number is smaller, or if the
fraction is shorter and begins it. -/
theorem digits_lt_fraction (h : n < 10 ^ w) {ds : Text}
    (hds : ∀ b ∈ ds, isDigit b = true) :
    digits w n ++ [90] < (ds ++ [90]).take (w + 1)
      ↔ n < fractionVal w ds ∨ (ds.length < w ∧ ds <+: digits w n) := by
  have hbefore : ∀ {b : UInt8}, isDigit b = true → b < 90 := by
    intro b hb
    unfold isDigit at hb
    rw [Bool.and_eq_true, decide_eq_true_eq, decide_eq_true_eq] at hb
    exact lt_of_le_of_lt hb.2 (by decide)
  induction w generalizing n ds with
  | zero =>
    rw [digits, List.nil_append, fractionVal]
    simp only [Nat.not_lt_zero, false_and, or_false, iff_false]
    cases ds with
    | nil => simp
    | cons b ds =>
      have hb := hbefore (hds b (List.mem_cons_self ..))
      rw [List.cons_append, List.take_succ_cons, List.take_zero,
        List.cons_lt_cons_iff]
      rintro (hlt | ⟨-, hlt⟩)
      · exact absurd (hlt.trans hb) (lt_irrefl _)
      · exact absurd hlt (lt_irrefl _)
  | succ w ih =>
    obtain ⟨hdigit, hval⟩ := digit_spec (div_pow_lt h)
    rw [digits, List.cons_append]
    cases ds with
    | nil =>
      -- A digit stands before `Z`.
      refine iff_of_true ?_ (Or.inr ⟨Nat.succ_pos _, List.nil_prefix⟩)
      exact List.cons_lt_cons_iff.mpr (Or.inl (hbefore hdigit))
    | cons b ds =>
      have hrest : ∀ b ∈ ds, isDigit b = true :=
        fun b hb => hds b (List.mem_cons_of_mem _ hb)
      obtain ⟨hb, hbdigit⟩ :=
        digit_of_isDigit (hds b (List.mem_cons_self ..))
      have hltval := fractionVal_lt w hrest
      have hmod := Nat.mod_lt n (pow_ten_pos w)
      have hdiv := Nat.div_add_mod n (10 ^ w)
      have heq : digit (n / 10 ^ w) = b
          ↔ n / 10 ^ w = digitVal b := by
        refine ⟨fun heq => ?_, fun heq => ?_⟩
        · rw [← hval, heq]
        · rw [heq, hbdigit]
      have hlt : digit (n / 10 ^ w) < b ↔ n / 10 ^ w < digitVal b := by
        conv_lhs => rw [← hbdigit]
        exact digit_lt_iff (div_pow_lt h) hb
      have htail := propext (ih hmod hrest)
      rw [List.cons_append, List.take_succ_cons, List.cons_lt_cons_iff,
        hlt, heq, htail, fractionVal, List.length_cons,
        Nat.succ_lt_succ_iff, List.cons_prefix_cons, eq_comm (a := b),
        heq]
      rcases Nat.lt_trichotomy (n / 10 ^ w) (digitVal b)
        with hcase | hcase | hcase
      · have hmul := Nat.mul_le_mul_left (10 ^ w) hcase
        rw [Nat.mul_succ, Nat.mul_comm _ (digitVal b)] at hmul
        exact iff_of_true (Or.inl hcase) (Or.inl (by omega))
      · rw [hcase, Nat.mul_comm] at hdiv
        have hn : n < digitVal b * 10 ^ w + fractionVal w ds
            ↔ n % 10 ^ w < fractionVal w ds := by omega
        simp only [hcase, lt_irrefl, false_or, true_and, hn]
      · have hmul := Nat.mul_le_mul_left (10 ^ w) hcase
        rw [Nat.mul_succ, Nat.mul_comm _ (digitVal b)] at hmul
        refine iff_of_false ?_ ?_
        · rintro (hlt | ⟨heq, -⟩)
          · omega
          · omega
        · rintro (hlt | ⟨-, heq, -⟩)
          · omega
          · omega

-- ======== stamps

/-- A stamp of thirty bytes comes before a text, of which thirty bytes
count, if its time is earlier, or if the text is shorter and the stamp
begins with it up to the `Z`. -/
theorem stamp_lt_utc (h : Utc s t) (hu : u.year < 10000)
    (huo : u.offset = 0) :
    stamp u < s.take 30 ↔ u.instant < t.instant
      ∨ (s.length < 30 ∧ s.dropLast <+: stamp u) := by
  obtain ⟨fraction, hfraction, rfl⟩ := h.text
  have hun := u.valid.clock_fields.2.2.2
  have hstamp : stamp u = upTo u.toFields (46 :: (digits 9 u.nanosecond
      ++ [90])) := formatWith_utc hu huo _
  rw [formatWith_utc h.year h.offset, upTo_take _ _ 11, upTo_dropLast,
    upTo_length, hstamp, upTo_lt_iff hu h.year huo h.offset,
    upTo_prefix_iff h.year hu h.offset huo, instant_lt_iff huo h.offset,
    eq_comm (a := secondOf t.instant)]
  cases hfraction with
  | none hzero =>
    have hlt : (46 : UInt8) :: (digits 9 u.nanosecond ++ [90])
        < ([] ++ [90] : Text).take 11 := by
      refine List.cons_lt_cons_iff.mpr (Or.inl ?_)
      decide
    have hshort : 19 + ([] ++ [90] : Text).length < 30 := by decide
    simp only [hlt, hzero, hshort, Nat.not_lt_zero, and_false, or_false,
      and_true, true_and, List.nil_prefix]
  | point ds hne hds hval =>
    have hlt := digits_lt_fraction (w := 9) hun hds
    have hcons : (46 : UInt8) :: (digits 9 u.nanosecond ++ [90])
        < ((46 :: ds) ++ [90]).take 11
          ↔ digits 9 u.nanosecond ++ [90] < (ds ++ [90]).take 10 := by
      rw [List.cons_append, List.take_succ_cons, List.cons_lt_cons_iff]
      simp
    have hshort : 19 + ((46 :: ds) ++ [90]).length < 30
        ↔ ds.length < 9 := by
      rw [List.length_append, List.length_cons, List.length_singleton]
      omega
    have hbegins : ds.length < 9 →
        (ds <+: digits 9 u.nanosecond ++ [90]
          ↔ ds <+: digits 9 u.nanosecond) := by
      intro hlength
      refine ⟨fun hpre => ?_, fun hpre =>
        hpre.trans (List.prefix_append _ _)⟩
      refine List.prefix_of_prefix_length_le hpre
        (List.prefix_append _ _) ?_
      rw [digits_length]
      exact hlength.le
    rw [hcons, hlt, hval, hshort, List.cons_prefix_cons]
    by_cases hlength : ds.length < 9
    · rw [hbegins hlength]
      simp only [hlength, true_and]
      tauto
    · simp only [hlength, false_and, or_false]

end Rfc3339
