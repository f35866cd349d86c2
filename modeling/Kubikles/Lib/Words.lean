/-
White space in texts: `strings.TrimSpace` and `strings.Fields`.

A text is read from the left as runes (`runes`). All that matters of a
rune is whether it is white space, so a rune that is not is taken byte by
byte: no byte inside of it begins a white space one, be it well formed or
not.

# Columns

The words of lines that are written in columns.

A line has its words behind runs of white space, and `fields` reads them
off: what is on one side of a space does not matter to the words on the
other (`fields_space`), so a line that is put together of padded columns
has the words of its columns. The words of a text are solid and joined
with single spaces they are the words again (`fields_join`), but only a
text that is written so already is what comes of it (`SingleSpaced`).
-/
import Kubikles.Lib.Scanner

namespace Text

variable {s t w : Text}

-- ======== runes

/-- A white space rune, or a byte of something else. -/
structure Rune where
  bytes : Text
  isSpace : Bool
deriving DecidableEq

def space1 (a : UInt8) : Bool := (9 ≤ a && a ≤ 13) || a == 32

def space2 (a b : UInt8) : Bool := a == 0xC2 && (b == 0x85 || b == 0xA0)

/-- White space in three bytes: U+1680, U+2000 to U+200A, U+2028, U+2029,
U+202F, U+205F and U+3000. -/
def space3 (a b c : UInt8) : Bool :=
  (a == 0xE1 && b == 0x9A && c == 0x80)
    || (a == 0xE2 && b == 0x80
      && ((0x80 ≤ c && c ≤ 0x8A) || c == 0xA8 || c == 0xA9 || c == 0xAF))
    || (a == 0xE2 && b == 0x81 && c == 0x9F)
    || (a == 0xE3 && b == 0x80 && c == 0x80)

/-- The number of bytes of the white space rune at the front, 0 if there
is none. -/
def spaceLength : Text → Nat
  | [] => 0
  | [a] => if space1 a then 1 else 0
  | [a, b] => if space1 a then 1 else if space2 a b then 2 else 0
  | a :: b :: c :: _ =>
    if space1 a then 1 else if space2 a b then 2
    else if space3 a b c then 3 else 0

def runesBehind : Nat → Text → List Rune
  | _, [] => []
  | skip + 1, _ :: rest => runesBehind skip rest
  | 0, a :: rest =>
    match spaceLength (a :: rest) with
    | 0 => ⟨[a], false⟩ :: runesBehind 0 rest
    | n + 1 => ⟨a :: rest.take n, true⟩ :: runesBehind n rest

def runes (s : Text) : List Rune := runesBehind 0 s

def ofRunes (rs : List Rune) : Text := rs.flatMap Rune.bytes

/-- `strings.TrimSpace`. -/
def trimSpace (s : Text) : Text :=
  ofRunes (((runes s).dropWhile Rune.isSpace).rdropWhile Rune.isSpace)

/-- `strings.Fields`. -/
def fields (s : Text) : List Text :=
  (((runes s).splitOnP Rune.isSpace).map ofRunes).filter (· ≠ [])

-- ======== breaks

theorem spaceLength_append {b : UInt8} (hb : b < 0x80) (hne : s ≠ [])
    (t : Text) : spaceLength (s ++ b :: t) = spaceLength s := by
  have hlt : ∀ a : UInt8, 0x80 ≤ a → (b == a) = false := fun a ha =>
    beq_false_of_ne fun heq => absurd (heq ▸ ha) (not_le.mpr hb)
  have hle : decide (0x80 ≤ b) = false := decide_eq_false (not_le.mpr hb)
  have hspace2 : ∀ a, space2 a b = false := fun a => by
    unfold space2
    rw [hlt 0x85 (by decide), hlt 0xA0 (by decide)]
    exact Bool.and_false _
  have hspace3 : ∀ a c, space3 a c b = false := fun a c => by
    unfold space3
    rw [hlt 0x80 (by decide), hlt 0xA8 (by decide), hlt 0xA9 (by decide),
      hlt 0xAF (by decide), hlt 0x9F (by decide), hle]
    simp
  have hmiddle : ∀ a c, space3 a b c = false := fun a c => by
    unfold space3
    rw [hlt 0x9A (by decide), hlt 0x80 (by decide), hlt 0x81 (by decide)]
    simp
  match s with
  | [a] =>
    cases t with
    | nil =>
      show spaceLength [a, b] = spaceLength [a]
      simp only [spaceLength, hspace2, Bool.false_eq_true, if_false]
    | cons c t =>
      show spaceLength (a :: b :: c :: t) = spaceLength [a]
      simp only [spaceLength, hspace2, hmiddle, Bool.false_eq_true,
        if_false]
  | [a, c] =>
    show spaceLength (a :: c :: b :: t) = spaceLength [a, c]
    simp only [spaceLength, hspace3, Bool.false_eq_true, if_false]
  | _ :: _ :: _ :: _ => rfl

theorem spaceLength_le (s : Text) : spaceLength s ≤ s.length := by
  match s with
  | [] => exact Nat.zero_le _
  | [a] =>
    rw [spaceLength]
    split <;> simp
  | [a, b] =>
    rw [spaceLength]
    split
    · simp
    · split <;> simp
  | a :: b :: c :: rest =>
    rw [spaceLength]
    split
    · simp
    · split
      · simp
      · split <;> simp

theorem runesBehind_append {b : UInt8} (hb : b < 0x80) (t : Text)
    {skip : Nat} (h : skip ≤ s.length) :
    runesBehind skip (s ++ b :: t)
      = runesBehind skip s ++ runes (b :: t) := by
  induction s generalizing skip with
  | nil =>
    obtain rfl := Nat.le_zero.mp h
    rfl
  | cons a s ih =>
    rw [List.cons_append]
    cases skip with
    | succ skip =>
      rw [runesBehind, runesBehind, ih (Nat.le_of_succ_le_succ h)]
    | zero =>
      have hlength := spaceLength_append hb (List.cons_ne_nil a s) t
      have hle := spaceLength_le (a :: s)
      rw [List.cons_append] at hlength
      rw [runesBehind, runesBehind, hlength]
      cases hspace : spaceLength (a :: s) with
      | zero =>
        show _ :: runesBehind 0 _ = _ :: runesBehind 0 _ ++ _
        rw [ih (Nat.zero_le _)]
        rfl
      | succ n =>
        rw [hspace, List.length_cons] at hle
        have hn : n ≤ s.length := Nat.le_of_succ_le_succ hle
        show _ :: runesBehind n _ = _ :: runesBehind n _ ++ _
        rw [ih hn, List.take_append_of_le_length hn]
        rfl

theorem runes_append {b : UInt8} (hb : b < 0x80) (s t : Text) :
    runes (s ++ b :: t) = runes s ++ runes (b :: t) :=
  runesBehind_append hb t (Nat.zero_le _)

theorem runes_space1 {b : UInt8} (hb : space1 b = true) (s : Text) :
    runes (b :: s) = ⟨[b], true⟩ :: runes s := by
  have hlength : spaceLength (b :: s) = 1 := by
    match s with
    | [] => simp [spaceLength, hb]
    | [_] => simp [spaceLength, hb]
    | _ :: _ :: _ => simp [spaceLength, hb]
  show runesBehind 0 (b :: s) = _
  rw [runesBehind, hlength]
  rfl

theorem ofRunes_runes (s : Text) : ofRunes (runes s) = s := by
  suffices h : ∀ skip, ofRunes (runesBehind skip s) = s.drop skip from h 0
  induction s with
  | nil => exact fun skip => List.drop_nil.symm
  | cons a s ih =>
    intro skip
    cases skip with
    | succ skip => exact ih skip
    | zero =>
      rw [runesBehind]
      cases spaceLength (a :: s) with
      | zero =>
        show a :: ofRunes (runesBehind 0 s) = _
        rw [ih]
        rfl
      | succ n =>
        show a :: s.take n ++ ofRunes (runesBehind n s) = _
        rw [ih, List.cons_append, List.take_append_drop]
        rfl

-- ======== words

def Solid (w : Text) : Prop := ∀ r ∈ runes w, r.isSpace = false

instance (w : Text) : Decidable (Solid w) :=
  inferInstanceAs (Decidable (∀ r ∈ runes w, _))

theorem Solid.notMem {b : UInt8} (h : Solid w) (hb : space1 b = true)
    (hascii : b < 0x80) : b ∉ w := by
  intro hmem
  obtain ⟨s, t, rfl⟩ := List.append_of_mem hmem
  have hspace : (⟨[b], true⟩ : Rune) ∈ runes (s ++ b :: t) := by
    rw [runes_append hascii, runes_space1 hb]
    exact List.mem_append_right _ (List.mem_cons_self ..)
  cases h _ hspace

theorem runes_ne_nil (hne : s ≠ []) : runes s ≠ [] := by
  intro hnil
  apply hne
  rw [← ofRunes_runes s, hnil]
  rfl

theorem runes_pair (w t : Text) :
    runes (w ++ space :: t) = runes w ++ ⟨[space], true⟩ :: runes t := by
  rw [runes_append (by decide), runes_space1 rfl]

theorem fields_pair (hw : Solid w) (ht : Solid t) (hwne : w ≠ [])
    (htne : t ≠ []) : fields (w ++ space :: t) = [w, t] := by
  unfold fields
  rw [runes_pair, List.splitOnP_append_cons_of_forall_mem hw _ rfl,
    List.splitOnP_eq_singleton ht, List.map_cons, List.map_singleton,
    ofRunes_runes, ofRunes_runes]
  refine List.filter_eq_self.mpr fun v hv => ?_
  rcases List.mem_cons.mp hv with rfl | hv
  · exact decide_eq_true hwne
  · rw [List.mem_singleton.mp hv]
    exact decide_eq_true htne

theorem trimSpace_pair (hw : Solid w) (ht : Solid t) (hwne : w ≠ [])
    (htne : t ≠ []) :
    trimSpace (w ++ space :: t) = w ++ space :: t := by
  obtain ⟨r, ws, hws⟩ := List.exists_cons_of_ne_nil (runes_ne_nil hwne)
  obtain ⟨ts, r', hts⟩ :=
    (List.eq_nil_or_concat' (runes t)).resolve_left (runes_ne_nil htne)
  have hr : ¬ r.isSpace = true := by
    rw [hw r (hws ▸ List.mem_cons_self ..)]
    exact Bool.false_ne_true
  have hr' : ¬ r'.isSpace = true := by
    rw [ht r' (hts ▸ List.mem_append_right _ (List.mem_singleton_self r'))]
    exact Bool.false_ne_true
  have hrunes : runes (w ++ space :: t)
      = (r :: ws ++ ⟨[space], true⟩ :: ts) ++ [r'] := by
    rw [runes_pair, hws, hts]
    simp
  unfold trimSpace
  rw [hrunes, List.cons_append, List.cons_append,
    List.dropWhile_cons_of_neg hr, ← List.cons_append, ← List.cons_append,
    List.rdropWhile_concat_neg _ _ _ hr', ← hrunes, ofRunes_runes]

-- ======== printed characters

def plain (b : UInt8) : Bool := 33 ≤ b && b ≤ 126

theorem spaceLength_plain {b : UInt8} (h : plain b = true) (s : Text) :
    spaceLength (b :: s) = 0 := by
  unfold plain at h
  rw [Bool.and_eq_true, decide_eq_true_eq, decide_eq_true_eq] at h
  obtain ⟨hlow, hhigh⟩ := h
  rw [UInt8.le_iff_toNat_le] at hlow hhigh
  have hhigh : b.toNat ≤ 126 := hhigh
  have hlow : 33 ≤ b.toNat := hlow
  have hspace1 : space1 b = false := by
    unfold space1
    rw [Bool.or_eq_false_iff, Bool.and_eq_false_iff]
    refine ⟨Or.inr (decide_eq_false fun h => ?_), beq_false_of_ne ?_⟩
    · have : b.toNat ≤ 13 := h
      omega
    · rintro rfl
      exact absurd hlow (by decide)
  have hne : ∀ a : UInt8, 126 < a.toNat → (b == a) = false := by
    intro a ha
    refine beq_false_of_ne ?_
    rintro rfl
    omega
  have hspace2 : ∀ c, space2 b c = false := fun c => by
    unfold space2
    rw [hne 0xC2 (by decide), Bool.false_and]
  have hspace3 : ∀ c d, space3 b c d = false := fun c d => by
    unfold space3
    rw [hne 0xE1 (by decide), hne 0xE2 (by decide), hne 0xE3 (by decide)]
    rfl
  match s with
  | [] => simp only [spaceLength, hspace1, Bool.false_eq_true, if_false]
  | [c] =>
    simp only [spaceLength, hspace1, hspace2, Bool.false_eq_true, if_false]
  | c :: d :: _ =>
    simp only [spaceLength, hspace1, hspace2, hspace3,
      Bool.false_eq_true, if_false]

theorem solid_of_plain (h : ∀ b ∈ w, plain b = true) : Solid w := by
  induction w with
  | nil => exact fun r hr => absurd hr List.not_mem_nil
  | cons b w ih =>
    have hrunes : runes (b :: w) = ⟨[b], false⟩ :: runes w := by
      show runesBehind 0 (b :: w) = _
      rw [runesBehind, spaceLength_plain (h b (List.mem_cons_self ..))]
      rfl
    intro r hr
    rw [hrunes] at hr
    rcases List.mem_cons.mp hr with rfl | hr
    · rfl
    · exact ih (fun c hc => h c (List.mem_cons_of_mem _ hc)) r hr

-- ======== the end of a line

theorem trimSpace_dropCR (s : Text) :
    trimSpace (Scanner.dropCR s) = trimSpace s := by
  unfold Scanner.dropCR
  split
  next hlast =>
    obtain ⟨t, rfl⟩ := List.getLast?_eq_some_iff.mp hlast
    have hrunes : runes (t ++ [Scanner.carriageReturn])
        = runes t ++ [⟨[Scanner.carriageReturn], true⟩] :=
      runes_append (by decide) t []
    rw [List.dropLast_concat]
    unfold trimSpace
    rw [hrunes, List.dropWhile_append]
    split
    next hnil =>
      rw [List.isEmpty_iff.mp hnil]
      rfl
    next hne => rw [List.rdropWhile_concat_pos _ _ _ rfl]
  · rfl

-- ======== the end of a text

/-- Where trailing newlines are trimmed and one is put back, the empty
lines at the end are gone. -/
theorem rdropWhile_unlines {lines : List Text}
    (h : ∀ l ∈ lines, newline ∉ l) :
    (if (unlines lines).rdropWhile (· = newline) ≠ [] then
        (unlines lines).rdropWhile (· = newline) ++ [newline]
      else (unlines lines).rdropWhile (· = newline))
      = unlines (lines.rdropWhile (· = [])) := by
  induction lines using List.reverseRecOn with
  | nil => rfl
  | append_singleton lines l ih =>
    have hl : newline ∉ l := h l (List.mem_append_right _
      (List.mem_singleton_self l))
    have hconcat : unlines (lines ++ [l])
        = unlines lines ++ l ++ [newline] := by
      rw [unlines_append, unlines_cons, unlines_nil, List.append_assoc]
    have hend : (unlines (lines ++ [l])).rdropWhile (· = newline)
        = (unlines lines ++ l).rdropWhile (· = newline) := by
      rw [hconcat]
      exact List.rdropWhile_concat_pos _ _ _ (decide_eq_true rfl)
    rw [hend]
    rcases List.eq_nil_or_concat' l with rfl | ⟨l, b, rfl⟩
    · have hempty : (lines ++ [[]]).rdropWhile (· = [])
          = lines.rdropWhile (· = []) :=
        List.rdropWhile_concat_pos _ _ _ (decide_eq_true rfl)
      rw [List.append_nil, hempty]
      exact ih fun m hm => h m (List.mem_append_left _ hm)
    · have hb : ¬ decide (b = newline) = true := fun hb => hl
        (of_decide_eq_true hb ▸ List.mem_append_right _
          (List.mem_singleton_self b))
      have hne : ∀ t : Text, t ++ [b] ≠ [] := fun t =>
        List.append_ne_nil_of_right_ne_nil _ (List.cons_ne_nil _ _)
      have hkeep : (unlines lines ++ (l ++ [b])).rdropWhile (· = newline)
          = unlines lines ++ (l ++ [b]) := by
        rw [← List.append_assoc]
        exact List.rdropWhile_concat_neg _ _ _ hb
      have hlast : (lines ++ [l ++ [b]]).rdropWhile (· = [])
          = lines ++ [l ++ [b]] :=
        List.rdropWhile_concat_neg _ _ _
          fun hnil => hne l (of_decide_eq_true hnil)
      rw [hkeep, hlast, hconcat, if_pos]
      rw [← List.append_assoc]
      exact hne _

end Text

namespace Text

variable {s t w : Text}

-- ======== positions

theorem spaceLength_cases (h : spaceLength s ≠ 0) :
    (∃ a t, s = a :: t ∧ space1 a = true ∧ spaceLength s = 1)
      ∨ (∃ a b t, s = a :: b :: t ∧ space1 a = false
        ∧ space2 a b = true ∧ spaceLength s = 2)
      ∨ ∃ a b c t, s = a :: b :: c :: t ∧ space1 a = false
        ∧ space2 a b = false ∧ space3 a b c = true
        ∧ spaceLength s = 3 := by
  match s with
  | [] => exact absurd rfl h
  | [a] =>
    by_cases h1 : space1 a = true
    · exact Or.inl ⟨a, [], rfl, h1, by simp [spaceLength, h1]⟩
    · exact absurd (by simp [spaceLength, h1]) h
  | [a, b] =>
    by_cases h1 : space1 a = true
    · exact Or.inl ⟨a, [b], rfl, h1, by simp [spaceLength, h1]⟩
    · by_cases h2 : space2 a b = true
      · exact Or.inr (Or.inl ⟨a, b, [], rfl, by simpa using h1, h2,
          by simp [spaceLength, h1, h2]⟩)
      · exact absurd (by simp [spaceLength, h1, h2]) h
  | a :: b :: c :: t =>
    by_cases h1 : space1 a = true
    · exact Or.inl ⟨a, b :: c :: t, rfl, h1, by simp [spaceLength, h1]⟩
    · by_cases h2 : space2 a b = true
      · exact Or.inr (Or.inl ⟨a, b, c :: t, rfl, by simpa using h1, h2,
          by simp [spaceLength, h1, h2]⟩)
      · by_cases h3 : space3 a b c = true
        · exact Or.inr (Or.inr ⟨a, b, c, t, rfl, by simpa using h1,
            by simpa using h2, h3, by simp [spaceLength, h1, h2, h3]⟩)
        · exact absurd (by simp [spaceLength, h1, h2, h3]) h

theorem spaceLength_of_take (h : spaceLength s ≠ 0) (t : Text) :
    spaceLength (s.take (spaceLength s) ++ t) = spaceLength s := by
  rcases spaceLength_cases h with ⟨a, rest, rfl, h1, hlength⟩
    | ⟨a, b, rest, rfl, h1, h2, hlength⟩
    | ⟨a, b, c, rest, rfl, h1, h2, h3, hlength⟩
  · rw [hlength]
    show spaceLength (a :: t) = 1
    rcases t with _ | ⟨b, _ | ⟨c, t⟩⟩ <;> simp [spaceLength, h1]
  · rw [hlength]
    show spaceLength (a :: b :: t) = 2
    cases t with
    | nil => simp [spaceLength, h1, h2]
    | cons c t => simp [spaceLength, h1, h2]
  · rw [hlength]
    show spaceLength (a :: b :: c :: t) = 3
    simp [spaceLength, h1, h2, h3]

theorem spaceLength_append_of_ne_zero (h : spaceLength s ≠ 0) (t : Text) :
    spaceLength (s ++ t) = spaceLength s := by
  have htake := spaceLength_of_take h (s.drop (spaceLength s) ++ t)
  rwa [← List.append_assoc, List.take_append_drop] at htake

-- ======== runes

theorem runesBehind_eq (skip : Nat) (s : Text) :
    runesBehind skip s = runes (s.drop skip) := by
  induction skip generalizing s with
  | zero => rfl
  | succ skip ih =>
    cases s with
    | nil => rfl
    | cons b s => exact ih s

theorem runes_suffix {rs rs' : List Rune} (h : runes s = rs ++ rs') :
    runes (ofRunes rs') = rs' := by
  induction rs generalizing s with
  | nil =>
    rw [List.nil_append] at h
    rw [← h, ofRunes_runes]
  | cons r rs ih =>
    cases s with
    | nil => cases h
    | cons b s =>
      unfold runes at h
      rw [runesBehind] at h
      split at h
      · exact ih (List.cons.inj h).2
      next n _ =>
        have htail := (List.cons.inj h).2
        rw [runesBehind_eq] at htail
        exact ih htail

/-- So are those in front. -/
theorem runes_front {rs rs' : List Rune} (h : runes s = rs ++ rs') :
    runes (ofRunes rs) = rs := by
  induction rs generalizing s with
  | nil => rfl
  | cons r rs ih =>
    have hs := ofRunes_runes s
    cases s with
    | nil => cases h
    | cons b s =>
      rw [h] at hs
      unfold runes at h
      rw [runesBehind] at h
      split at h
      next hzero =>
        obtain ⟨rfl, htail⟩ := List.cons.inj h
        have hlength : spaceLength (b :: ofRunes rs) = 0 := by
          by_contra hne
          have happend := spaceLength_append_of_ne_zero hne (ofRunes rs')
          have htext : b :: ofRunes rs ++ ofRunes rs' = b :: s := by
            rw [← hs]
            simp [ofRunes]
          rw [htext, hzero] at happend
          exact hne happend.symm
        show runesBehind 0 (b :: ofRunes rs) = _
        rw [runesBehind, hlength]
        show _ :: runes (ofRunes rs) = _
        rw [ih htail]
      next n hsucc =>
        obtain ⟨rfl, htail⟩ := List.cons.inj h
        rw [runesBehind_eq] at htail
        have hle := spaceLength_le (b :: s)
        rw [hsucc, List.length_cons] at hle
        have htake : (s.take n).length = n := by
          rw [List.length_take]
          omega
        have hlength : spaceLength (b :: (s.take n ++ ofRunes rs))
            = n + 1 := by
          have hof := spaceLength_of_take (s := b :: s)
            (by rw [hsucc]; exact Nat.succ_ne_zero n) (ofRunes rs)
          rwa [hsucc] at hof
        show runesBehind 0 (b :: (s.take n ++ ofRunes rs)) = _
        rw [runesBehind, hlength]
        show _ :: runesBehind n _ = _
        rw [runesBehind_eq, List.take_append_of_le_length htake.ge,
          List.take_of_length_le htake.le,
          List.drop_append_of_le_length htake.ge,
          List.drop_of_length_le htake.le, List.nil_append, ih htail]

-- ======== words

def runeWords (rs : List Rune) : List Text :=
  ((rs.splitOnP Rune.isSpace).map ofRunes).filter (· ≠ [])

theorem runeWords_space {r : Rune} (hr : r.isSpace = true)
    (rs rs' : List Rune) :
    runeWords (rs ++ r :: rs') = runeWords rs ++ runeWords rs' := by
  unfold runeWords
  rw [List.splitOnP_append_cons rs rs' hr, List.map_append,
    List.filter_append]

theorem runeWords_spaces {rs : List Rune} (h : ∀ r ∈ rs, r.isSpace = true)
    (rs' : List Rune) : runeWords (rs ++ rs') = runeWords rs' := by
  induction rs with
  | nil => rfl
  | cons r rs ih =>
    have hword := runeWords_space (h r List.mem_cons_self) [] (rs ++ rs')
    rw [List.nil_append] at hword
    rw [List.cons_append, hword, ih fun r hr =>
      h r (List.mem_cons_of_mem _ hr)]
    rfl

theorem runeWords_trailing {rs' : List Rune}
    (h : ∀ r ∈ rs', r.isSpace = true) (rs : List Rune) :
    runeWords (rs ++ rs') = runeWords rs := by
  cases rs' with
  | nil => rw [List.append_nil]
  | cons r rs' =>
    have hrest := runeWords_spaces (fun r hr =>
      h r (List.mem_cons_of_mem _ hr)) ([] : List Rune)
    rw [List.append_nil] at hrest
    rw [runeWords_space (h r List.mem_cons_self), hrest]
    exact List.append_nil _

theorem fields_space (s t : Text) :
    fields (s ++ space :: t) = fields s ++ fields t := by
  show runeWords (runes _) = _
  rw [runes_pair]
  exact runeWords_space rfl _ _

theorem fields_solid (hw : Solid w) (hne : w ≠ []) : fields w = [w] := by
  unfold fields
  rw [List.splitOnP_eq_singleton hw, List.map_singleton, ofRunes_runes]
  exact List.filter_cons_of_pos (decide_eq_true hne)

theorem fields_word (hw : Solid w) (hne : w ≠ []) (t : Text) :
    fields (w ++ space :: t) = w :: fields t := by
  rw [fields_space, fields_solid hw hne]
  rfl

theorem fields_replicate (n : Nat) (t : Text) :
    fields (List.replicate n space ++ t) = fields t := by
  induction n with
  | zero => rfl
  | succ n ih =>
    have hspace := fields_space [] (List.replicate n space ++ t)
    rw [List.nil_append] at hspace
    rw [List.replicate_succ, List.cons_append, hspace, ih]
    rfl

theorem splitOnP_head {p : Rune → Bool} {rs l : List Rune}
    {others : List (List Rune)} (h : rs.splitOnP p = l :: others) :
    (∀ r ∈ l, p r = false) ∧ ∃ post, rs = l ++ post := by
  induction rs generalizing l others with
  | nil =>
    rw [List.splitOnP_nil] at h
    cases h
    exact ⟨fun r hr => absurd hr List.not_mem_nil, [], rfl⟩
  | cons r rs ih =>
    rw [List.splitOnP_cons_eq_if_modifyHead] at h
    split at h
    next =>
      cases h
      exact ⟨fun r hr => absurd hr List.not_mem_nil, r :: rs, rfl⟩
    next hr =>
      obtain ⟨first, rest, hsplit⟩ :=
        List.exists_cons_of_ne_nil (List.splitOnP_ne_nil p rs)
      rw [hsplit, List.modifyHead_cons] at h
      cases h
      obtain ⟨hfirst, post, heq⟩ := ih hsplit
      refine ⟨fun c hc => ?_, post, congrArg (r :: ·) heq⟩
      rcases List.mem_cons.mp hc with rfl | hc
      · exact Bool.not_eq_true _ ▸ hr
      · exact hfirst c hc

theorem mem_splitOnP {p : Rune → Bool} {rs l : List Rune}
    (h : l ∈ rs.splitOnP p) :
    (∀ r ∈ l, p r = false) ∧ ∃ pre post, rs = pre ++ (l ++ post) := by
  induction rs generalizing l with
  | nil =>
    rw [List.splitOnP_nil, List.mem_singleton] at h
    subst h
    exact ⟨fun r hr => absurd hr List.not_mem_nil, [], [], rfl⟩
  | cons r rs ih =>
    rw [List.splitOnP_cons_eq_if_modifyHead] at h
    split at h
    next =>
      rcases List.mem_cons.mp h with rfl | h
      · exact ⟨fun r hr => absurd hr List.not_mem_nil, [], r :: rs, rfl⟩
      · obtain ⟨hl, pre, post, heq⟩ := ih h
        exact ⟨hl, r :: pre, post, congrArg (r :: ·) heq⟩
    next hr =>
      obtain ⟨first, others, hsplit⟩ :=
        List.exists_cons_of_ne_nil (List.splitOnP_ne_nil p rs)
      rw [hsplit, List.modifyHead_cons] at h
      rcases List.mem_cons.mp h with rfl | h
      · have hwhole : (r :: rs).splitOnP p = (r :: first) :: others := by
          rw [List.splitOnP_cons_eq_if_modifyHead, if_neg hr, hsplit]
          rfl
        obtain ⟨hl, post, heq⟩ := splitOnP_head hwhole
        exact ⟨hl, [], post, heq⟩
      · obtain ⟨hl, pre, post, heq⟩ := ih
          (hsplit ▸ List.mem_cons_of_mem first h)
        exact ⟨hl, r :: pre, post, congrArg (r :: ·) heq⟩

theorem mem_fields (h : w ∈ fields s) : Solid w ∧ w ≠ [] := by
  obtain ⟨hmem, hne⟩ := List.mem_filter.mp h
  obtain ⟨l, hl, rfl⟩ := List.mem_map.mp hmem
  obtain ⟨hsolid, pre, post, hrunes⟩ := mem_splitOnP hl
  refine ⟨?_, of_decide_eq_true hne⟩
  have hsuffix := runes_suffix hrunes
  unfold Solid
  rw [runes_front hsuffix]
  exact hsolid

theorem fields_trimSpace (s : Text) : fields (trimSpace s) = fields s := by
  have hruns : runes s = (runes s).takeWhile Rune.isSpace
      ++ (((runes s).dropWhile Rune.isSpace).rdropWhile Rune.isSpace
        ++ ((runes s).dropWhile Rune.isSpace).rtakeWhile Rune.isSpace) := by
    rw [List.rdropWhile_append_rtakeWhile, List.takeWhile_append_dropWhile]
  have htrimmed := runes_front (runes_suffix hruns)
  show runeWords (runes (ofRunes _)) = runeWords (runes s)
  rw [htrimmed]
  conv_rhs => rw [hruns]
  rw [runeWords_spaces fun r hr => List.mem_takeWhile_imp hr,
    runeWords_trailing fun r hr => List.mem_rtakeWhile_imp hr]

-- ======== joining

def joinWords (ws : List Text) : Text := [space].intercalate ws

@[simp] theorem joinWords_singleton (w : Text) : joinWords [w] = w :=
  List.intercalate_singleton

theorem joinWords_cons_cons (w w' : Text) (ws : List Text) :
    joinWords (w :: w' :: ws) = w ++ space :: joinWords (w' :: ws) := by
  unfold joinWords
  rw [List.intercalate_cons_cons]
  simp

theorem fields_join {ws : List Text} (h : ∀ w ∈ ws, Solid w ∧ w ≠ []) :
    fields (joinWords ws) = ws := by
  induction ws with
  | nil => rfl
  | cons w ws ih =>
    obtain ⟨hw, hne⟩ := h w List.mem_cons_self
    cases ws with
    | nil =>
      rw [joinWords_singleton]
      exact fields_solid hw hne
    | cons w' ws =>
      rw [joinWords_cons_cons, fields_word hw hne,
        ih fun w hw => h w (List.mem_cons_of_mem _ hw)]

def SingleSpaced (s : Text) : Prop := joinWords (fields s) = s

instance (s : Text) : Decidable (SingleSpaced s) :=
  inferInstanceAs (Decidable (_ = _))

theorem singleSpaced_join {ws : List Text}
    (h : ∀ w ∈ ws, Solid w ∧ w ≠ []) : SingleSpaced (joinWords ws) :=
  congrArg joinWords (fields_join h)

-- ======== columns

def padLeft (width : Nat) (w : Text) : Text :=
  List.replicate (width - w.length) space ++ w

def padRight (width : Nat) (w : Text) : Text :=
  w ++ List.replicate (width - w.length) space

theorem fields_padLeft (hw : Solid w) (hne : w ≠ []) (width : Nat)
    (t : Text) : fields (padLeft width w ++ space :: t) = w :: fields t := by
  unfold padLeft
  rw [List.append_assoc, fields_replicate, fields_word hw hne]

theorem fields_padRight (hw : Solid w) (hne : w ≠ []) (width : Nat)
    (t : Text) : fields (padRight width w ++ space :: t) = w :: fields t := by
  unfold padRight
  rw [fields_space]
  cases width - w.length with
  | zero =>
    rw [List.replicate_zero, List.append_nil, fields_solid hw hne]
    rfl
  | succ n =>
    rw [List.replicate_succ, fields_word hw hne]
    have hreplicate := fields_replicate n ([] : Text)
    rw [List.append_nil] at hreplicate
    rw [hreplicate]
    rfl

end Text
