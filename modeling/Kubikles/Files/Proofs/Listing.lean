/-
What is read of a directory's listing.

The words of a line are those of its columns and of the name
(`fields_line`). The time is found at its place but for a device whose
second number has four digits, which looks like a year, so what is read is
the name as its words are joined, up to an arrow (`parseLine_line`). What
is read is always a name that would be read as it is (`Legible`), so every
entry is listed as it is exactly if each is one that is read so, and no
device's number looks like a year (`listing_iff`).
-/
import Kubikles.Files.Listing
import Mathlib.Data.List.Nodup

namespace Files

open Text

variable {e : Entry} {w : Widths} {s : Text} {n : Nat}

-- ======== numbers

theorem toNat_digit {c : Char} (h : c.isDigit = true) :
    48 ≤ c.toNat ∧ c.toNat ≤ 57
      ∧ (UInt8.ofNat c.toNat).toNat = c.toNat := by
  unfold Char.isDigit at h
  rw [Bool.and_eq_true, decide_eq_true_eq, decide_eq_true_eq] at h
  have hlow : 48 ≤ c.toNat := h.1
  have hhigh : c.toNat ≤ 57 := h.2
  refine ⟨hlow, hhigh, ?_⟩
  rw [UInt8.toNat_ofNat']
  omega

theorem isDigit_decimal : ∀ b ∈ decimal n, isDigit b = true := by
  intro b hb
  obtain ⟨c, hc, rfl⟩ := List.mem_map.mp hb
  obtain ⟨hlow, hhigh, heq⟩ := toNat_digit
    (Nat.isDigit_of_mem_toDigits (by omega) (by omega) hc)
  unfold isDigit
  rw [Bool.and_eq_true, decide_eq_true_eq, decide_eq_true_eq,
    UInt8.le_iff_toNat_le, UInt8.le_iff_toNat_le, heq]
  exact ⟨hlow, hhigh⟩

theorem decimal_ne_nil (n : Nat) : decimal n ≠ [] := by
  unfold decimal
  rw [Ne, List.map_eq_nil_iff]
  exact Nat.toDigits_ne_nil

theorem digit_spec {b : UInt8} (h : isDigit b = true) :
    plain b = true ∧ b ≠ 43 ∧ b ≠ 45 ∧ b ≠ colon := by
  have hne : ∀ a : UInt8, isDigit a = false → b ≠ a := by
    rintro a ha rfl
    rw [h] at ha
    cases ha
  refine ⟨?_, hne _ (by decide), hne _ (by decide), hne _ (by decide)⟩
  unfold isDigit at h
  rw [Bool.and_eq_true, decide_eq_true_eq, decide_eq_true_eq] at h
  unfold plain
  rw [Bool.and_eq_true, decide_eq_true_eq, decide_eq_true_eq]
  exact ⟨le_trans (by decide) h.1, le_trans h.2 (by decide)⟩

theorem readSign_digits (h : ∀ b ∈ s, isDigit b = true) :
    readSign s = (false, s) := by
  cases s with
  | nil => rfl
  | cons b s =>
    obtain ⟨-, hplus, hminus, -⟩ := digit_spec (h b List.mem_cons_self)
    rw [readSign, if_neg hplus, if_neg hminus]

theorem isNumber_decimal (n : Nat) : isNumber (decimal n) = true := by
  unfold isNumber
  rw [readSign_digits isDigit_decimal]
  rw [Bool.and_eq_true, List.all_eq_true, decide_eq_true_eq]
  exact ⟨decimal_ne_nil n, isDigit_decimal⟩

theorem digitsValue_decimal (n : Nat) : digitsValue (decimal n) = n := by
  have hfold : ∀ (cs : List Char) (init : Nat),
      (∀ c ∈ cs, c.isDigit = true) →
      (cs.map fun c => UInt8.ofNat c.toNat).foldl
          (fun n b => 10 * n + (b.toNat - 48)) init
        = Nat.ofDigitChars 10 cs init := by
    intro cs
    induction cs with
    | nil => exact fun init _ => Nat.ofDigitChars_nil.symm
    | cons c cs ih =>
      intro init h
      rw [List.map_cons, List.foldl_cons, Nat.ofDigitChars_cons,
        ih _ fun c hc => h c (List.mem_cons_of_mem _ hc),
        (toNat_digit (h c List.mem_cons_self)).2.2]
      rfl
  unfold digitsValue decimal
  rw [hfold _ _ fun c hc =>
    Nat.isDigit_of_mem_toDigits (by omega) (by omega) hc]
  exact Nat.ofDigitChars_ten_toDigits

theorem parseInt_decimal (h : n < 2 ^ 63) : parseInt (decimal n) = n := by
  unfold parseInt
  rw [if_pos (isNumber_decimal n), readSign_digits isDigit_decimal]
  show min (2 ^ 63 - 1) ((digitsValue (decimal n) : Nat) : Int) = n
  rw [digitsValue_decimal]
  omega

-- ======== words

theorem word_of_plain (h : ∀ b ∈ s, plain b = true) (hne : s ≠ []) :
    Word s :=
  ⟨solid_of_plain h, hne⟩

theorem plain_decimal : ∀ b ∈ decimal n, plain b = true := fun b hb =>
  (digit_spec (isDigit_decimal b hb)).1

theorem word_decimal (n : Nat) : Word (decimal n) :=
  word_of_plain plain_decimal (decimal_ne_nil n)

theorem isDigit_twoDigits (h : n < 100) :
    ∀ b ∈ twoDigits n, isDigit b = true := by
  have hall : ∀ n < 100, (twoDigits n).all isDigit = true := by decide
  exact List.all_eq_true.mp (hall n h)

theorem mem_date {b : UInt8} {t : Stamp} (h : b ∈ t.date) :
    isDigit b = true ∨ b = 45 := by
  have hmonth := t.month_le
  have hday := t.day_le
  unfold Stamp.date at h
  rw [List.mem_append, List.mem_append, List.mem_cons, List.mem_cons] at h
  rcases h with (h | h | h) | h | h
  · exact Or.inl (isDigit_decimal b h)
  · exact Or.inr h
  · exact Or.inl (isDigit_twoDigits (by omega) b h)
  · exact Or.inr h
  · exact Or.inl (isDigit_twoDigits (by omega) b h)

theorem mem_time {b : UInt8} {t : Stamp} (h : b ∈ t.time) :
    isDigit b = true ∨ b = colon := by
  have hhour := t.hour_lt
  have hminute := t.minute_lt
  unfold Stamp.time at h
  rw [List.mem_append, List.mem_cons] at h
  rcases h with h | h | h
  · exact Or.inl (isDigit_twoDigits (by omega) b h)
  · exact Or.inr h
  · exact Or.inl (isDigit_twoDigits (by omega) b h)

theorem date_length (t : Stamp) : 5 < t.date.length := by
  have hyear : 0 < (decimal t.year).length :=
    List.length_pos_iff.mpr (decimal_ne_nil _)
  unfold Stamp.date twoDigits
  simp only [List.length_append, List.length_cons, List.length_nil]
  omega

theorem Stamp.date_spec (t : Stamp) :
    Word t.date ∧ looksLikeTime t.date = false
      ∧ looksLikeYear t.date = false := by
  have hlength := date_length t
  have hne : t.date ≠ [] := by
    intro hnil
    rw [hnil] at hlength
    cases hlength
  refine ⟨word_of_plain (fun b hb => ?_) hne, ?_, ?_⟩
  · rcases mem_date hb with hb | rfl
    · exact (digit_spec hb).1
    · decide
  · unfold looksLikeTime
    rw [Bool.and_eq_false_iff]
    refine Or.inr (decide_eq_false ?_)
    omega
  · unfold looksLikeYear
    rw [Bool.and_eq_false_iff]
    refine Or.inl (decide_eq_false ?_)
    omega

theorem Stamp.time_spec (t : Stamp) :
    Word t.time ∧ looksLikeTime t.time = true := by
  refine ⟨word_of_plain (fun b hb => ?_) ?_, ?_⟩
  · rcases mem_time hb with hb | rfl
    · exact (digit_spec hb).1
    · decide
  · exact List.append_ne_nil_of_right_ne_nil _ (List.cons_ne_nil _ _)
  · unfold looksLikeTime
    rw [Bool.and_eq_true, List.contains_iff_mem, decide_eq_true_eq]
    refine ⟨?_, le_refl 5⟩
    exact List.mem_append_right _ List.mem_cons_self

def Entry.sizeWords (e : Entry) : List Text :=
  match e.type.device? with
  | some (major, minor) => [decimal major ++ [44], decimal minor]
  | none => [decimal e.size]

theorem word_major (major : Nat) : Word (decimal major ++ [44]) := by
  refine word_of_plain (fun b hb => ?_)
    (List.append_ne_nil_of_left_ne_nil (decimal_ne_nil _) _)
  rcases List.mem_append.mp hb with hb | hb
  · exact plain_decimal b hb
  · rw [List.mem_singleton.mp hb]
    decide

theorem fields_sizeColumn (w : Widths) (e : Entry) (t : Text) :
    fields (e.sizeColumn w ++ space :: t) = e.sizeWords ++ fields t := by
  unfold Entry.sizeColumn Entry.sizeWords
  cases e.type.device? with
  | none => exact fields_padLeft (word_decimal _).1 (word_decimal _).2 _ t
  | some numbers =>
    obtain ⟨major, minor⟩ := numbers
    dsimp only
    rw [List.append_assoc, List.cons_append,
      fields_padLeft (word_major _).1 (word_major _).2,
      fields_padLeft (word_decimal _).1 (word_decimal _).2]
    rfl

theorem FileType.char_spec (t : FileType) :
    plain t.char = true ∧ t.char ≠ 116 := by
  cases t <;> simp only [FileType.char] <;> decide

theorem Entry.mode_word (e : Entry) : Word e.mode := by
  refine word_of_plain (fun b hb => ?_) (List.cons_ne_nil _ _)
  rcases List.mem_cons.mp hb with rfl | hb
  · exact e.type.char_spec.1
  · exact e.bits_plain b hb

theorem fields_line (w : Widths) (e : Entry) :
    fields (e.line w)
      = [e.mode, decimal e.links, e.owner, e.group] ++ (e.sizeWords
        ++ (e.stamp.date :: e.stamp.time :: fields e.name)) := by
  unfold Entry.line
  rw [fields_word e.mode_word.1 e.mode_word.2,
    fields_padLeft (word_decimal _).1 (word_decimal _).2,
    fields_padRight e.owner_word.1 e.owner_word.2,
    fields_padRight e.group_word.1 e.group_word.2, fields_sizeColumn,
    fields_word e.stamp.date_spec.1.1 e.stamp.date_spec.1.2,
    fields_word e.stamp.time_spec.1.1 e.stamp.time_spec.1.2]
  rfl

-- ======== lines

def Entry.yearLike (e : Entry) : Bool :=
  match e.type.device? with
  | some (_, minor) => (decimal minor).length = 4
  | none => false

def Entry.readName (e : Entry) : Option Text :=
  if e.yearLike then
    some (cutArrow (joinWords
      (e.stamp.date :: e.stamp.time :: fields e.name)))
  else if fields e.name = [] then none
  else some (cutArrow (joinWords (fields e.name)))

/-- What is told of a file. -/
structure Facts where
  name : Text
  isDir : Bool
  size : Int
  owner : Text
  group : Text
deriving DecidableEq

def FileInfo.facts (fi : FileInfo) : Facts where
  name := fi.name
  isDir := fi.isDir
  size := fi.size
  owner := fi.owner
  group := fi.group

/-- What is printed of an entry under a name; a device has no size. -/
def Entry.facts (e : Entry) (name : Text) : Facts where
  name
  isDir := e.type = .directory
  size := if e.type.device?.isSome then 0 else e.size
  owner := e.owner
  group := e.group

theorem parseLsLine_eq {line perms links owner group sizeStr : Text}
    {rest : List Text}
    (h : fields line = perms :: links :: owner :: group :: sizeStr :: rest) :
    parseLsLine line
      = if rest.length + 5 < 8 then none
        else
          (if findName 5 rest = 0 ∨ findName 5 rest ≥ rest.length + 5 then
            if rest.length + 5 ≥ 9 then some 8 else none
          else some (findName 5 rest)).map fun start =>
            { name := cutArrow (joinWords ((perms :: links :: owner :: group
                :: sizeStr :: rest).drop start))
              isDir := perms.head? = some 100
              size := parseInt sizeStr
              permissions := perms
              owner
              group
              modTime := joinWords (((perms :: links :: owner :: group
                :: sizeStr :: rest).take start).drop 5) } := by
  unfold parseLsLine
  rw [h]
  rfl

theorem findName_stamp (i : Nat) (t : Stamp) (rest : List Text) :
    findName i (t.date :: t.time :: rest) = i + 2 := by
  obtain ⟨-, hdate, hyear⟩ := t.date_spec
  obtain ⟨-, htime⟩ := t.time_spec
  rw [findName, if_neg (by simp [hdate]), if_neg (by simp [hyear]), findName,
    if_pos htime]

theorem mode_head (e : Entry) :
    decide (e.mode.head? = some 100) = decide (e.type = .directory) := by
  unfold Entry.mode
  rw [List.head?_cons]
  cases e.type <;> simp [FileType.char]

theorem parseInt_major (major : Nat) :
    parseInt (decimal major ++ [44]) = 0 := by
  have hnot : isNumber (decimal major ++ [44]) = false := by
    obtain ⟨b, ds, hds⟩ := List.exists_cons_of_ne_nil
      (decimal_ne_nil major)
    have hb : b ∈ decimal major := hds ▸ List.mem_cons_self
    obtain ⟨-, hplus, hminus, -⟩ := digit_spec (isDigit_decimal b hb)
    have hsign : readSign (decimal major ++ [44])
        = (false, decimal major ++ [44]) := by
      rw [hds, List.cons_append, readSign, if_neg hplus, if_neg hminus]
    unfold isNumber
    rw [hsign]
    dsimp only
    rw [List.all_append, Bool.and_eq_false_iff]
    refine Or.inr ?_
    rw [Bool.and_eq_false_iff]
    exact Or.inr rfl
  unfold parseInt
  rw [hnot, if_neg Bool.false_ne_true]

theorem looksLikeTime_decimal (n : Nat) :
    looksLikeTime (decimal n) = false := by
  unfold looksLikeTime
  rw [Bool.and_eq_false_iff]
  refine Or.inl (Bool.eq_false_iff.mpr fun h => ?_)
  have hmem := List.contains_iff_mem.mp h
  exact (digit_spec (isDigit_decimal _ hmem)).2.2.2 rfl

theorem looksLikeYear_decimal (n : Nat) :
    looksLikeYear (decimal n) = decide ((decimal n).length = 4) := by
  unfold looksLikeYear
  rw [isNumber_decimal, Bool.and_true]

/-- What is read of an entry's line. -/
theorem parseLsLine_line (w : Widths) (e : Entry) :
    (parseLsLine (trimSpace (e.line w))).map FileInfo.facts
      = e.readName.map e.facts := by
  have hline := (fields_trimSpace (e.line w)).trans (fields_line w e)
  cases hdevice : e.type.device? with
  | none =>
    have hfields : fields (trimSpace (e.line w)) = e.mode
        :: decimal e.links :: e.owner :: e.group :: decimal e.size
        :: e.stamp.date :: e.stamp.time :: fields e.name := by
      rw [hline]
      unfold Entry.sizeWords
      rw [hdevice]
      rfl
    have hyear : e.yearLike = false := by
      unfold Entry.yearLike
      rw [hdevice]
    have hfacts : ∀ name, e.facts name
        = ⟨name, decide (e.type = .directory), e.size, e.owner,
          e.group⟩ := by
      intro name
      unfold Entry.facts
      rw [hdevice]
      rfl
    unfold Entry.readName
    rw [parseLsLine_eq hfields, findName_stamp, hyear,
      if_neg Bool.false_ne_true]
    by_cases hname : fields e.name = []
    · rw [if_pos hname, hname, if_pos (by simp)]
      rfl
    · have hlength := List.length_pos_iff.mpr hname
      rw [if_neg hname, if_neg (by simp; omega), if_neg (by simp; omega)]
      show some (FileInfo.facts _) = some (e.facts _)
      rw [hfacts]
      unfold FileInfo.facts
      dsimp only
      rw [mode_head, parseInt_decimal e.size_lt]
      rfl
  | some numbers =>
    obtain ⟨major, minor⟩ := numbers
    have hfields : fields (trimSpace (e.line w)) = e.mode
        :: decimal e.links :: e.owner :: e.group
        :: (decimal major ++ [44]) :: decimal minor
        :: e.stamp.date :: e.stamp.time :: fields e.name := by
      rw [hline]
      unfold Entry.sizeWords
      rw [hdevice]
      rfl
    have hyear : e.yearLike = decide ((decimal minor).length = 4) := by
      unfold Entry.yearLike
      rw [hdevice]
    have hfacts : ∀ name, e.facts name
        = ⟨name, decide (e.type = .directory), 0, e.owner, e.group⟩ := by
      intro name
      unfold Entry.facts
      rw [hdevice]
      rfl
    unfold Entry.readName
    rw [parseLsLine_eq hfields, findName, looksLikeTime_decimal,
      if_neg Bool.false_ne_true, looksLikeYear_decimal, ← hyear,
      findName_stamp]
    cases e.yearLike with
    | true =>
      rw [if_pos rfl, if_pos rfl, if_neg (by simp),
        if_neg (by simp)]
      show some (FileInfo.facts _) = some (e.facts _)
      rw [hfacts]
      unfold FileInfo.facts
      dsimp only
      rw [mode_head, parseInt_major]
      rfl
    | false =>
      rw [if_neg Bool.false_ne_true, if_neg Bool.false_ne_true]
      by_cases hname : fields e.name = []
      · rw [if_pos hname, hname, if_neg (by simp), if_pos (by simp),
          if_neg (by simp)]
        rfl
      · have hlength := List.length_pos_iff.mpr hname
        rw [if_neg hname, if_neg (by simp),
          if_neg (by simp; omega)]
        show some (FileInfo.facts _) = some (e.facts _)
        rw [hfacts]
        unfold FileInfo.facts
        dsimp only
        rw [mode_head, parseInt_major]
        rfl

-- ======== arrows

theorem cutArrow_spec (s : Text) : ¬ arrow <:+: cutArrow s := by
  induction s with
  | nil =>
    intro h
    cases List.infix_nil.mp h
  | cons b s ih =>
    have hfront : ∀ s, cutArrow s <+: s := by
      intro s
      induction s with
      | nil => exact List.prefix_rfl
      | cons b s ih =>
        rw [cutArrow]
        split
        · exact List.nil_prefix
        · exact List.prefix_cons_inj b |>.mpr ih
    rw [cutArrow]
    split
    next =>
      intro h
      cases List.infix_nil.mp h
    next hnot =>
      intro h
      rcases List.infix_cons_iff.mp h with h | h
      · have hlong : arrow <+: b :: s :=
          h.trans ((List.prefix_cons_inj b).mpr (hfront s))
        exact hnot (List.isPrefixOf_iff_prefix.mpr hlong)
      · exact ih h

theorem cutArrow_eq (h : ¬ arrow <:+: s) : cutArrow s = s := by
  induction s with
  | nil => rfl
  | cons b s ih =>
    rw [List.infix_cons_iff, not_or] at h
    rw [cutArrow, if_neg fun hp => h.1
      (List.isPrefixOf_iff_prefix.mp hp), ih h.2]

theorem cutArrow_append {u : Text} (h : space ∉ u) (s : Text) :
    cutArrow (u ++ s) = u ++ cutArrow s := by
  induction u with
  | nil => rfl
  | cons b u ih =>
    rw [List.mem_cons, not_or] at h
    have hnot : arrow.isPrefixOf (b :: u ++ s) = false := by
      have hb : ((32 : UInt8) == b) = false := beq_false_of_ne h.1
      show ((32 : UInt8) == b && _) = false
      rw [hb]
      rfl
    rw [List.cons_append] at hnot
    rw [List.cons_append, cutArrow, hnot, if_neg Bool.false_ne_true,
      ih h.2]
    rfl

theorem Word.space_notMem {u : Text} (h : Word u) : space ∉ u :=
  h.1.notMem rfl (by decide)

theorem cutArrow_join {ws : List Text} (hws : ∀ u ∈ ws, Word u)
    (hne : ws ≠ []) :
    ∃ ws', ws' ≠ [] ∧ ws' <+: ws
      ∧ cutArrow (joinWords ws) = joinWords ws' := by
  induction ws with
  | nil => exact absurd rfl hne
  | cons u ws ih =>
    have hu := (hws u List.mem_cons_self).space_notMem
    cases ws with
    | nil =>
      refine ⟨[u], List.cons_ne_nil _ _, List.prefix_rfl, ?_⟩
      have happend := cutArrow_append hu []
      rw [List.append_nil, cutArrow, List.append_nil] at happend
      rw [joinWords_singleton]
      exact happend
    | cons u' ws =>
      obtain ⟨ws', hne', hfront, heq⟩ := ih
        (fun u hu => hws u (List.mem_cons_of_mem _ hu))
        (List.cons_ne_nil _ _)
      rw [joinWords_cons_cons, cutArrow_append hu, cutArrow]
      split
      · refine ⟨[u], List.cons_ne_nil _ _,
          (List.prefix_cons_inj u).mpr List.nil_prefix, ?_⟩
        rw [joinWords_singleton, List.append_nil]
      · refine ⟨u :: ws', List.cons_ne_nil _ _,
          (List.prefix_cons_inj u).mpr hfront, ?_⟩
        rw [heq]
        obtain ⟨u'', ws'', rfl⟩ := List.exists_cons_of_ne_nil hne'
        rw [joinWords_cons_cons]

-- ======== names

/-- A name that is read as it is: its white space are single spaces
between words, and it has no arrow. -/
structure Legible (name : Text) : Prop where
  single : SingleSpaced name
  arrow : ¬ arrow <:+: name

theorem legible_cut {ws : List Text} (hws : ∀ u ∈ ws, Word u)
    (hne : ws ≠ []) : Legible (cutArrow (joinWords ws)) := by
  refine ⟨?_, cutArrow_spec _⟩
  obtain ⟨ws', -, hfront, heq⟩ := cutArrow_join hws hne
  rw [heq]
  exact singleSpaced_join fun u hu => hws u (hfront.subset hu)

theorem word_fields {u : Text} (h : u ∈ fields s) : Word u :=
  mem_fields h

theorem Legible.read {name : Text} (h : Legible name) (hne : name ≠ []) :
    fields name ≠ [] ∧ cutArrow (joinWords (fields name)) = name := by
  have hsingle : joinWords (fields name) = name := h.single
  constructor
  · intro hnil
    rw [hnil] at hsingle
    exact hne hsingle.symm
  · rw [hsingle]
    exact cutArrow_eq h.arrow

theorem word_stamp {u : Text} {t : Stamp}
    (h : u ∈ t.date :: t.time :: fields s) : Word u := by
  rcases List.mem_cons.mp h with rfl | h
  · exact t.date_spec.1
  · rcases List.mem_cons.mp h with rfl | h
    · exact t.time_spec.1
    · exact word_fields h

theorem Entry.readName_legible {name : Text} (h : e.readName = some name) :
    Legible name := by
  unfold Entry.readName at h
  split at h
  · cases h
    exact legible_cut (fun u hu => word_stamp hu) (List.cons_ne_nil _ _)
  · split at h
    · cases h
    next hne =>
      cases h
      exact legible_cut (fun u hu => word_fields hu) hne

/-- The name that is listed: the directory itself is left out. -/
def Entry.listedName (e : Entry) : Option Text :=
  e.readName.filter (· ≠ dot)

theorem legible_dot : Legible dot := by
  refine ⟨by decide, ?_⟩
  intro h
  have hlength := h.length_le
  cases hlength with
  | step h => cases h

theorem Entry.listedName_dot (h : e.name = dot) : e.listedName = none := by
  have hyear : e.yearLike = false := by
    unfold Entry.yearLike
    rw [e.dot_type h]
    rfl
  obtain ⟨hne, hread⟩ := legible_dot.read (List.cons_ne_nil _ _)
  unfold Entry.listedName Entry.readName
  rw [hyear, h, if_neg Bool.false_ne_true, if_neg hne, hread]
  rfl

/-- An entry whose name is legible, and that is no device that is taken for
a year, is listed under its name. -/
theorem Entry.listedName_eq (hlegible : Legible e.name)
    (hyear : e.yearLike = false) (hdot : e.name ≠ dot) :
    e.listedName = some e.name := by
  obtain ⟨hne, hread⟩ := hlegible.read e.name_ne
  unfold Entry.listedName Entry.readName
  rw [hyear, if_neg Bool.false_ne_true, if_neg hne, hread]
  exact Option.filter_some_pos (decide_eq_true hdot)

-- ======== listing

theorem trimSpace_cons {b : UInt8} (hb : plain b = true) (s : Text) :
    ∃ t, trimSpace (b :: s) = b :: t := by
  have hruns : runes (b :: s) = ⟨[b], false⟩ :: runes s := by
    unfold runes
    rw [runesBehind, spaceLength_plain hb]
  have hkeep : ∀ (r : Rune) (rs : List Rune), r.isSpace = false →
      ∃ rs', (r :: rs).rdropWhile Rune.isSpace = r :: rs' := by
    intro r rs hr
    unfold List.rdropWhile
    rw [List.reverse_cons, List.dropWhile_append]
    split
    · refine ⟨[], ?_⟩
      rw [List.dropWhile_cons_of_neg (by simp [hr])]
      rfl
    · rw [List.reverse_append]
      exact ⟨_, rfl⟩
  obtain ⟨rs', hrs'⟩ := hkeep ⟨[b], false⟩ (runes s) rfl
  refine ⟨ofRunes rs', ?_⟩
  unfold trimSpace
  rw [hruns, List.dropWhile_cons_of_neg (by simp), hrs']
  rfl

/-- What is read of a line of the listing. -/
theorem parseLine_line (w : Widths) (e : Entry) :
    (parseLine (e.line w)).map FileInfo.facts
      = e.listedName.map e.facts := by
  have hread := parseLsLine_line w e
  obtain ⟨hplain, htotal⟩ := e.type.char_spec
  obtain ⟨t, ht⟩ : ∃ t, trimSpace (e.line w) = e.type.char :: t :=
    trimSpace_cons hplain _
  have hnot : ¬ (trimSpace (e.line w) = []
      ∨ total.isPrefixOf (trimSpace (e.line w))) := by
    rw [ht]
    rintro (h | h)
    · cases h
    · have hhead := (List.cons_prefix_cons.mp
        (List.isPrefixOf_iff_prefix.mp h)).1
      exact htotal hhead.symm
  unfold parseLine Entry.listedName
  dsimp only
  rw [if_neg hnot]
  cases hparse : parseLsLine (trimSpace (e.line w)) with
  | none =>
    rw [hparse, Option.map_none] at hread
    rw [Option.map_eq_none_iff.mp hread.symm]
    rfl
  | some fi =>
    rw [hparse, Option.map_some] at hread
    obtain ⟨name, hname, hfacts⟩ :=
      Option.map_eq_some_iff.mp hread.symm
    have hsame : fi.name = name := (congrArg Facts.name hfacts).symm
    rw [hname]
    dsimp only
    by_cases hdot : name = dot
    · rw [if_neg fun hne => hne (hsame.trans hdot),
        Option.filter_some_neg (by simp [hdot])]
      rfl
    · rw [if_pos fun heq => hdot (hsame.symm.trans heq),
        Option.filter_some_pos (by simp [hdot]), Option.map_some,
        Option.map_some, hfacts]

theorem newline_notMem_line (w : Widths) (e : Entry) :
    newline ∉ e.line w := by
  have hword : ∀ {u : Text}, Word u → newline ∉ u := fun h =>
    h.1.notMem rfl (by decide)
  have hpad : ∀ (n : Nat) {u : Text}, Word u → newline ∉ padLeft n u := by
    intro n u hu hmem
    rcases List.mem_append.mp hmem with h | h
    · cases (List.mem_replicate.mp h).2
    · exact hword hu h
  have hcolumn : newline ∉ e.sizeColumn w := by
    unfold Entry.sizeColumn
    split
    · rw [List.mem_append, List.mem_cons]
      rintro (h | h | h)
      · exact hpad _ (word_major _) h
      · cases h
      · exact hpad _ (word_decimal _) h
    · exact hpad _ (word_decimal _)
  have hright : ∀ (n : Nat) {u : Text}, Word u →
      newline ∉ padRight n u := by
    intro n u hu hmem
    rcases List.mem_append.mp hmem with h | h
    · exact hword hu h
    · cases (List.mem_replicate.mp h).2
  have hspace : newline ≠ space := by decide
  unfold Entry.line
  simp only [List.mem_append, List.mem_cons, not_or]
  exact ⟨hword e.mode_word, hspace, hpad _ (word_decimal _), hspace,
    hright _ e.owner_word, hspace, hright _ e.group_word, hspace, hcolumn,
    hspace, hword e.stamp.date_spec.1, hspace, hword e.stamp.time_spec.1,
    hspace, e.name_line⟩

/-- The line of the blocks, and what is behind the last line, are no
files. -/
theorem parseLine_total (n : Nat) :
    parseLine (total ++ space :: decimal n) = none := by
  have htotal : Word total :=
    word_of_plain (List.all_eq_true.mp (by decide)) (by decide)
  unfold parseLine
  rw [trimSpace_pair htotal.1 (word_decimal n).1 htotal.2
    (word_decimal n).2]
  refine if_pos (Or.inr ?_)
  exact List.isPrefixOf_iff_prefix.mpr (List.prefix_append _ _)

theorem parseListOutput_listing (sort : SliceSort)
    (toLower : Text → Text) (w : Widths) (d : Directory) :
    ((parseListOutput sort toLower (d.listing w)).map
        FileInfo.facts).Perm
      (d.entries.filterMap fun e => e.listedName.map e.facts) := by
  have hlines : split (d.listing w) = (total ++ space :: decimal d.blocks)
      :: (d.entries.map (Entry.line w) ++ [[]]) := by
    unfold Directory.listing
    rw [split_unlines, List.cons_append]
    intro l hl
    rcases List.mem_cons.mp hl with rfl | hl
    · rw [List.mem_append, List.mem_cons]
      rintro (h | h | h)
      · revert h
        decide
      · cases h
      · exact (word_decimal _).1.notMem rfl (by decide) h
    · obtain ⟨e, -, rfl⟩ := List.mem_map.mp hl
      exact newline_notMem_line w e
  have hread : ((split (d.listing w)).filterMap parseLine).map
        FileInfo.facts
      = d.entries.filterMap fun e => e.listedName.map e.facts := by
    rw [hlines, List.filterMap_cons, parseLine_total, List.filterMap_append,
      List.filterMap_map]
    show (_ ++ []).map FileInfo.facts = _
    rw [List.append_nil, List.map_filterMap]
    exact List.filterMap_congr fun e _ => parseLine_line w e
  rw [← hread]
  exact (sort.perm _ _).map _

-- ======== years

def Numeral (s : Text) : Prop := ∃ b t, s = b :: t ∧ isDigit b = true

theorem Numeral.append (h : Numeral s) (t : Text) : Numeral (s ++ t) := by
  obtain ⟨b, s', rfl, hb⟩ := h
  exact ⟨b, s' ++ t, rfl, hb⟩

theorem Stamp.date_numeral (t : Stamp) : Numeral t.date := by
  obtain ⟨b, ds, hds⟩ := List.exists_cons_of_ne_nil (decimal_ne_nil t.year)
  have hb : isDigit b = true :=
    isDigit_decimal b (hds ▸ List.mem_cons_self)
  have hyear : Numeral (decimal t.year) := ⟨b, ds, hds, hb⟩
  unfold Stamp.date
  rw [List.append_assoc]
  exact hyear.append _

theorem Stamp.time_numeral (t : Stamp) : Numeral t.time := by
  have hhour := t.hour_lt
  exact ⟨_, _, rfl, isDigit_twoDigits (by omega : t.hour < 100) _
    List.mem_cons_self⟩

theorem Numeral.cutArrow_space (h : Numeral s) :
    cutArrow (space :: s) = space :: cutArrow s := by
  obtain ⟨b, t, rfl, hb⟩ := h
  have hminus := (digit_spec hb).2.2.1
  rw [cutArrow, if_neg]
  intro harrow
  have htail := (List.cons_prefix_cons.mp
    (List.isPrefixOf_iff_prefix.mp harrow)).2
  exact hminus (List.cons_prefix_cons.mp htail).1.symm

/-- What is read of a device that is taken for a year begins with the
date. -/
theorem Entry.readName_numeral {name : Text} (hyear : e.yearLike = true)
    (h : e.readName = some name) : Numeral name := by
  unfold Entry.readName at h
  rw [if_pos hyear, joinWords_cons_cons,
    cutArrow_append e.stamp.date_spec.1.space_notMem] at h
  cases h
  exact e.stamp.date_numeral.append _

theorem Entry.readName_length {name : Text} (hyear : e.yearLike = true)
    (hlegible : Legible e.name) (hnumeral : Numeral e.name)
    (h : e.readName = some name) : e.name.length < name.length := by
  obtain ⟨hne, hread⟩ := hlegible.read e.name_ne
  have hsingle : joinWords (fields e.name) = e.name := hlegible.single
  obtain ⟨u, us, hus⟩ := List.exists_cons_of_ne_nil hne
  unfold Entry.readName at h
  rw [if_pos hyear, joinWords_cons_cons,
    cutArrow_append e.stamp.date_spec.1.space_notMem, hus,
    joinWords_cons_cons, ← hus,
    (e.stamp.time_numeral.append _).cutArrow_space,
    cutArrow_append e.stamp.time_spec.1.space_notMem, hsingle,
    hnumeral.cutArrow_space, cutArrow_eq hlegible.arrow] at h
  cases h
  simp only [List.length_append, List.length_cons]
  omega

-- ======== entries

def Directory.files (d : Directory) : List Facts :=
  (d.entries.filter (·.name ≠ dot)).map fun e => e.facts e.name

def Entry.Readable (e : Entry) : Prop :=
  Legible e.name ∧ e.yearLike = false

theorem listed_of_readable {d : Directory}
    (h : ∀ e ∈ d.entries, e.name ≠ dot → e.Readable) :
    (d.entries.filterMap fun e => e.listedName.map e.facts) = d.files := by
  unfold Directory.files
  generalize d.entries = entries at h
  induction entries with
  | nil => rfl
  | cons e entries ih =>
    have htail := ih fun e he => h e (List.mem_cons_of_mem _ he)
    rw [List.filterMap_cons, List.filter_cons]
    by_cases hdot : e.name = dot
    · rw [Entry.listedName_dot hdot, if_neg (by simp [hdot])]
      exact htail
    · obtain ⟨hlegible, hyear⟩ := h e List.mem_cons_self hdot
      rw [Entry.listedName_eq hlegible hyear hdot,
        if_pos (decide_eq_true hdot), List.map_cons, ← htail]
      rfl

theorem Entry.told {d : Directory} (hperm : (d.entries.filterMap fun e =>
      e.listedName.map e.facts).Perm d.files)
    (he : e ∈ d.entries) (hdot : e.name ≠ dot) :
    ∃ e' ∈ d.entries, e'.name ≠ dot ∧ e'.readName = some e.name := by
  have htold : e.facts e.name ∈ d.files :=
    List.mem_map_of_mem (List.mem_filter.mpr ⟨he, decide_eq_true hdot⟩)
  obtain ⟨e', he', hlisted⟩ :=
    List.mem_filterMap.mp (hperm.mem_iff.mpr htold)
  obtain ⟨name, hname, hfacts⟩ := Option.map_eq_some_iff.mp hlisted
  have hsame : name = e.name := congrArg Facts.name hfacts
  refine ⟨e', he', fun hdot' => ?_, ?_⟩
  · rw [Entry.listedName_dot hdot'] at hname
    cases hname
  · rw [← hsame]
    exact (Option.filter_eq_some_iff.mp hname).1

/-- No device's number is taken for a year: the shortest of such names
would be what is read of a shorter one. -/
theorem Entry.not_yearLike {d : Directory}
    (hperm : (d.entries.filterMap fun e =>
      e.listedName.map e.facts).Perm d.files)
    (hlegible : ∀ e ∈ d.entries, e.name ≠ dot → Legible e.name) (n : Nat) :
    ∀ e ∈ d.entries, e.name ≠ dot → e.name.length = n →
      e.yearLike = false := by
  have horigin : ∀ e ∈ d.entries, e.name ≠ dot → e.yearLike = true →
      ∃ e' ∈ d.entries, e'.name ≠ dot ∧ e'.yearLike = true
        ∧ e'.readName = some e.name := by
    intro e he hdot hyear
    obtain ⟨e', he', hdot', hread⟩ := Entry.told hperm he hdot
    cases hyear' : e'.yearLike with
    | true => exact ⟨e', he', hdot', hyear', hread⟩
    | false =>
      have hlisted := Entry.listedName_eq (hlegible e' he' hdot') hyear'
        hdot'
      have hown := (Option.filter_eq_some_iff.mp hlisted).1
      rw [hread] at hown
      have hsame := List.inj_on_of_nodup_map d.names_distinct he he'
        (Option.some.inj hown)
      rw [hsame, hyear'] at hyear
      cases hyear
  induction n using Nat.strong_induction_on with
  | _ n ih =>
    intro e he hdot hlength
    by_contra hnot
    have hyear : e.yearLike = true := by simpa using hnot
    obtain ⟨e', he', hdot', hyear', hread⟩ := horigin e he hdot hyear
    obtain ⟨e'', -, -, hyear'', hread'⟩ := horigin e' he' hdot' hyear'
    have hlonger := Entry.readName_length hyear'
      (hlegible e' he' hdot') (Entry.readName_numeral hyear'' hread')
      hread
    rw [hlength] at hlonger
    rw [ih _ hlonger e' he' hdot' rfl] at hyear'
    cases hyear'

theorem deleteFile_iff (dirPath name name' : Text) :
    deleteFile (pathOf dirPath name) = deleteFile (pathOf dirPath name')
      ↔ name = name' := by
  constructor
  · intro h
    have hpath := (List.cons.inj (List.cons.inj (List.cons.inj h).2).2).1
    exact (List.cons.inj (List.append_cancel_left hpath)).2
  · intro h
    rw [h]

/-- What is listed of a directory, whatever its names, is its files, and
deleting one by its name means that file and no other, exactly if every
name but the directory's own is one whose white space are single spaces
between words, without an arrow, and no device has a second number of four
digits. -/
theorem listing_iff (sort : SliceSort) (toLower : Text → Text)
    (w : Widths) (d : Directory) (dirPath : Text) :
    (((parseListOutput sort toLower (d.listing w)).map
          FileInfo.facts).Perm d.files
        ∧ ∀ fi ∈ parseListOutput sort toLower (d.listing w),
          ∀ e ∈ d.entries,
            deleteFile (pathOf dirPath fi.name)
                = deleteFile (pathOf dirPath e.name)
              ↔ fi.facts = e.facts e.name)
      ↔ ∀ e ∈ d.entries, e.name ≠ dot → e.Readable := by
  have hlisting := parseListOutput_listing sort toLower w d
  constructor
  · rintro ⟨hperm, -⟩
    have hlisted := hlisting.symm.trans hperm
    have hlegible : ∀ e ∈ d.entries, e.name ≠ dot → Legible e.name := by
      intro e he hdot
      obtain ⟨e', -, -, hread⟩ := Entry.told hlisted he hdot
      exact Entry.readName_legible hread
    intro e he hdot
    exact ⟨hlegible e he hdot,
      Entry.not_yearLike hlisted hlegible _ e he hdot rfl⟩
  · intro hreadable
    have hperm := hlisting
    rw [listed_of_readable hreadable] at hperm
    refine ⟨hperm, ?_⟩
    intro fi hfi e he
    obtain ⟨e', he', hfacts⟩ := List.mem_map.mp
      (hperm.mem_iff.mp (List.mem_map_of_mem hfi))
    have hname : e'.name = fi.name := congrArg Facts.name hfacts
    rw [deleteFile_iff]
    constructor
    · intro hsame
      have hentry := List.inj_on_of_nodup_map d.names_distinct
        (List.mem_filter.mp he').1 he (hname.trans hsame)
      rw [← hfacts, hentry]
    · intro hsame
      exact congrArg Facts.name hsame

def inOrder : SliceSort := ⟨fun _ files => files, fun _ _ => List.Perm.rfl⟩

/-- A file whose name has two spaces, and one whose name has one. -/
def spaced (name : Text) (hline : newline ∉ name) (hne : name ≠ [])
    (hdot : name ≠ dot) : Entry where
  type := .regular
  bits := ofString "rw-r--r--"
  links := 1
  owner := ofString "root"
  group := ofString "root"
  size := 7
  stamp := ⟨2024, 1, 15, 10, 30, by decide, by decide, by decide, by decide⟩
  name
  bits_plain := List.all_eq_true.mp (by decide)
  owner_word := word_of_plain (List.all_eq_true.mp (by decide)) (by decide)
  group_word := word_of_plain (List.all_eq_true.mp (by decide)) (by decide)
  size_lt := by decide
  name_line := hline
  name_ne := hne
  dot_type := fun h => absurd h hdot

def notes : Directory where
  blocks := 8
  entries := [
    spaced (ofString "a  b") (by decide) (by decide) (by decide),
    spaced (ofString "a b") (by decide) (by decide) (by decide)]
  names_distinct := by decide

/-- Both are listed under the name that has one: deleting what is listed
first deletes the other. -/
theorem double_space_deletes_other :
    (parseListOutput inOrder id (notes.listing ⟨1, 4, 4, 4, 0, 0⟩)).map
        FileInfo.name = [ofString "a b", ofString "a b"]
      ∧ notes.entries.map Entry.name
        = [ofString "a  b", ofString "a b"]
      ∧ ¬ ((parseListOutput inOrder id
          (notes.listing ⟨1, 4, 4, 4, 0, 0⟩)).map FileInfo.facts).Perm
        notes.files := by
  decide +kernel

end Files
