/-
What the words of a command line are written with.

# Counting

The quotes and backslashes of a command line are those its words are made
of and more (`count_run`). So a command line that has no more of them than
what its words stand for has none that mean something (`bare_of_marks`),
and one that has as many backslashes more as its words have single quotes
quotes nothing else with them (`usual_of_marks`).

# Well made words

No byte that stands for itself in a word is one the shell takes for
something else, and no single quote is in single quotes (`run_wellMade`).
-/
import Kubikles.Lib.Shell

namespace Shell

open Text (space newline)

variable {b c : UInt8} {s : Text} {w : Word} {m m' : Mode} {ts : List Token}

-- ======== counting

def Piece.source : Piece → Text
  | .bare b => [b]
  | .escape b => [backslash, b]
  | .single s => quote :: (s ++ [quote])
  | .double s => doubleQuote :: (s ++ [doubleQuote])

def Word.source (w : Word) : Text := w.flatMap Piece.source

def Token.source : Token → Text
  | .word w => Word.source w
  | _ => []

def Mode.source : Mode → Text
  | .between => []
  | .comment => []
  | .operator _ => []
  | .word w => Word.source w
  | .escape w => Word.source w ++ [backslash]
  | .single w s => Word.source w ++ quote :: s
  | .double w s => Word.source w ++ doubleQuote :: s
  | .doubleEscape w s => Word.source w ++ doubleQuote :: (s ++ [backslash])

theorem source_concat (w : Word) (p : Piece) :
    Word.source (w ++ [p]) = Word.source w ++ p.source := by
  unfold Word.source
  rw [List.flatMap_append, List.flatMap_singleton]

theorem count_inWord {c : UInt8} (h : inWord w b = some m) :
    m.source.count c ≤ (Word.source w).count c + [b].count c := by
  unfold inWord at h
  split at h
  next hb =>
    cases h
    rw [hb, Mode.source, List.count_append]
  next =>
    split at h
    next hb =>
      cases h
      rw [hb, Mode.source, List.count_append]
    next =>
      split at h
      next hb =>
        cases h
        rw [hb, Mode.source, List.count_append]
      next =>
        split at h
        · cases h
        · cases h
          rw [Mode.source, source_concat, List.count_append]
          rfl

theorem count_start {c : UInt8} (h : start b = some (ts, m)) :
    (ts.flatMap Token.source).count c + m.source.count c
      ≤ [b].count c := by
  unfold start at h
  split at h
  · cases h
    exact Nat.zero_le _
  · split at h
    · cases h
      exact Nat.zero_le _
    · split at h
      · cases h
        exact Nat.zero_le _
      · split at h
        · cases h
          exact Nat.zero_le _
        · obtain ⟨m', hm', heq⟩ := Option.map_eq_some_iff.mp h
          cases heq
          have hword := count_inWord (c := c) hm'
          show 0 + _ ≤ _
          rw [Nat.zero_add]
          exact hword.trans (by simp [Word.source])

/-- What a step keeps is what it has been given. -/
theorem count_step {c : UInt8} (h : step m b = some (ts, m')) :
    (ts.flatMap Token.source).count c + m'.source.count c
      ≤ m.source.count c + [b].count c := by
  cases m with
  | between =>
    rw [step] at h
    exact (count_start h).trans (Nat.le_add_left _ _)
  | comment =>
    rw [step] at h
    split at h <;> cases h <;> exact Nat.zero_le _
  | operator o =>
    rw [step] at h
    split at h
    · cases h
      exact Nat.zero_le _
    · obtain ⟨⟨ts', m''⟩, hstart, heq⟩ := Option.map_eq_some_iff.mp h
      cases heq
      exact (count_start hstart).trans (Nat.le_add_left _ _)
  | word w =>
    rw [step] at h
    split at h
    · obtain ⟨⟨ts', m''⟩, hstart, heq⟩ := Option.map_eq_some_iff.mp h
      cases heq
      have hle := count_start (c := c) hstart
      rw [List.flatMap_cons, List.count_append]
      show (Word.source w).count c + (ts'.flatMap Token.source).count c
        + m''.source.count c ≤ (Word.source w).count c + _
      omega
    · obtain ⟨m'', hword, heq⟩ := Option.map_eq_some_iff.mp h
      cases heq
      have hle := count_inWord (c := c) hword
      show 0 + _ ≤ (Word.source w).count c + _
      omega
  | escape w =>
    rw [step] at h
    split at h
    · split at h
      · cases h
        exact Nat.zero_le _
      · cases h
        simp only [Mode.source, List.flatMap_nil, List.count_nil,
          List.count_append]
        omega
    · cases h
      simp only [Mode.source, List.flatMap_nil, List.count_nil,
        List.count_append, source_concat, Piece.source, List.count_cons]
      omega
  | single w s =>
    rw [step] at h
    split at h
    next hb =>
      cases h
      simp only [Mode.source, List.flatMap_nil, List.count_nil,
        List.count_append, source_concat, Piece.source, List.count_cons,
        hb]
      omega
    next =>
      cases h
      simp only [Mode.source, List.flatMap_nil, List.count_nil,
        List.count_append, List.count_cons]
      omega
  | double w s =>
    rw [step] at h
    split at h
    next hb =>
      cases h
      simp only [Mode.source, List.flatMap_nil, List.count_nil,
        List.count_append, source_concat, Piece.source, List.count_cons,
        hb]
      omega
    next =>
      split at h
      next hb =>
        cases h
        simp only [Mode.source, List.flatMap_nil, List.count_nil,
          List.count_append, List.count_cons, hb]
        omega
      next =>
        split at h
        · cases h
        · cases h
          simp only [Mode.source, List.flatMap_nil, List.count_nil,
            List.count_append, List.count_cons]
          omega
  | doubleEscape w s =>
    rw [step] at h
    split at h
    · cases h
      simp only [Mode.source, List.flatMap_nil, List.count_nil,
        List.count_append, List.count_cons]
      omega
    · split at h
      · cases h
        simp only [Mode.source, List.flatMap_nil, List.count_nil,
          List.count_append, List.count_cons]
        omega
      · cases h
        simp only [Mode.source, List.flatMap_nil, List.count_nil,
          List.count_append, List.count_cons]
        omega

theorem count_finish {c : UInt8} (h : finish m = some ts) :
    (ts.flatMap Token.source).count c ≤ m.source.count c := by
  cases m with
  | between | comment | operator o =>
    cases h
    exact Nat.zero_le _
  | word w =>
    cases h
    rw [List.flatMap_singleton]
    rfl
  | escape w | single w s | double w s | doubleEscape w s => cases h

theorem count_run {c : UInt8} (h : run m s = some ts) :
    (ts.flatMap Token.source).count c ≤ m.source.count c + s.count c := by
  induction s generalizing m ts with
  | nil => exact count_finish h
  | cons b s ih =>
    rw [run] at h
    split at h
    next ts' m' hstep =>
      obtain ⟨ts'', hrun, rfl⟩ := Option.map_eq_some_iff.mp h
      have hone := count_step (c := c) hstep
      have hrest := ih hrun
      have hcons : (b :: s).count c = [b].count c + s.count c := by
        rw [← List.singleton_append, List.count_append]
      rw [List.flatMap_append, List.count_append, hcons]
      omega
    next => cases h

-- ======== well made

/-- A byte that stands for itself is none that means something else, and a
single quote is in no single quotes. -/
def Piece.WellMade : Piece → Prop
  | .bare b => inert b = true
  | .single s => quote ∉ s
  | _ => True

/-- Pieces of a word, the first of which begins no comment. -/
structure Word.WellMade (w : Word) : Prop where
  pieces : ∀ p ∈ w, p.WellMade
  comment : w.head? ≠ some (.bare hash)

/-- So is what is being read; what is read of a word holds a piece. -/
def Mode.WellMade : Mode → Prop
  | .word w => Word.WellMade w ∧ w ≠ []
  | .escape w => Word.WellMade w
  | .single w s => Word.WellMade w ∧ quote ∉ s
  | .double w _ => Word.WellMade w
  | .doubleEscape w _ => Word.WellMade w
  | _ => True

def Token.WellMade : Token → Prop
  | .word w => Word.WellMade w ∧ w ≠ []
  | _ => True

theorem wellMade_nil : Word.WellMade [] := ⟨by simp, by simp⟩

theorem Word.WellMade.concat {p : Piece} (h : Word.WellMade w)
    (hp : p.WellMade) (hcomment : w = [] → p ≠ .bare hash) :
    Word.WellMade (w ++ [p]) := by
  obtain ⟨hpieces, hhead⟩ := h
  constructor
  · intro q hq
    rcases List.mem_append.mp hq with hq | hq
    · exact hpieces q hq
    · rw [List.mem_singleton.mp hq]
      exact hp
  · cases w with
    | nil => exact fun heq => hcomment rfl (Option.some.inj heq)
    | cons q w => exact hhead

theorem inWord_wellMade (hw : Word.WellMade w)
    (hdelimits : delimits b = false) (hcomment : w = [] → b ≠ hash)
    (h : inWord w b = some m) : m.WellMade := by
  unfold inWord at h
  split at h
  · cases h
    exact hw
  next hbackslash =>
    split at h
    · cases h
      exact ⟨hw, List.not_mem_nil⟩
    next hquote =>
      split at h
      · cases h
        exact hw
      next hdouble =>
        split at h
        · cases h
        next hother =>
          cases h
          rw [not_or] at hother
          have hinert : inert b = true := by
            unfold inert special
            simp [hdelimits, hbackslash, hquote, hdouble, hother.1,
              hother.2]
          refine ⟨hw.concat hinert fun hnil heq => ?_,
            List.append_ne_nil_of_right_ne_nil _ (List.cons_ne_nil _ _)⟩
          exact hcomment hnil (Piece.bare.inj heq)

theorem start_wellMade (h : start b = some (ts, m)) :
    (∀ t ∈ ts, t.WellMade) ∧ m.WellMade := by
  unfold start at h
  split at h
  · cases h
    exact ⟨by simp, trivial⟩
  next hblank =>
    split at h
    · cases h
      exact ⟨by simp [Token.WellMade], trivial⟩
    next hline =>
      split at h
      · cases h
        exact ⟨by simp, trivial⟩
      next hoperator =>
        split at h
        · cases h
          exact ⟨by simp, trivial⟩
        next hhash =>
          obtain ⟨m', hm', heq⟩ := Option.map_eq_some_iff.mp h
          cases heq
          have hdelimits : delimits b = false := by
            unfold delimits
            simp [hblank, hline, hoperator]
          exact ⟨by simp, inWord_wellMade wellMade_nil hdelimits
            (fun _ => hhash) hm'⟩

theorem step_wellMade (hm : m.WellMade) (h : step m b = some (ts, m')) :
    (∀ t ∈ ts, t.WellMade) ∧ m'.WellMade := by
  have hconcat : ∀ (w : Word) (p : Piece), w ++ [p] ≠ [] := fun w p =>
    List.append_ne_nil_of_right_ne_nil w (List.cons_ne_nil p [])
  cases m with
  | between => exact start_wellMade h
  | comment =>
    rw [step] at h
    split at h <;> cases h <;> exact ⟨by simp [Token.WellMade], trivial⟩
  | operator o =>
    rw [step] at h
    split at h
    · cases h
      exact ⟨by simp [Token.WellMade], trivial⟩
    · obtain ⟨⟨ts', m''⟩, hstart, heq⟩ := Option.map_eq_some_iff.mp h
      cases heq
      obtain ⟨hts, hm'⟩ := start_wellMade hstart
      refine ⟨fun t ht => ?_, hm'⟩
      rcases List.mem_cons.mp ht with rfl | ht
      · exact trivial
      · exact hts t ht
  | word w =>
    rw [step] at h
    split at h
    · obtain ⟨⟨ts', m''⟩, hstart, heq⟩ := Option.map_eq_some_iff.mp h
      cases heq
      obtain ⟨hts, hm'⟩ := start_wellMade hstart
      refine ⟨fun t ht => ?_, hm'⟩
      rcases List.mem_cons.mp ht with rfl | ht
      · exact hm
      · exact hts t ht
    next hdelimits =>
      obtain ⟨m'', hword, heq⟩ := Option.map_eq_some_iff.mp h
      cases heq
      exact ⟨by simp, inWord_wellMade hm.1
        (Bool.eq_false_iff.mpr hdelimits) (fun hnil => absurd hnil hm.2)
        hword⟩
  | escape w =>
    rw [step] at h
    split at h
    · split at h
      · cases h
        exact ⟨by simp, trivial⟩
      next hne =>
        cases h
        exact ⟨by simp, hm, hne⟩
    · cases h
      exact ⟨by simp, hm.concat trivial fun _ => by simp, hconcat _ _⟩
  | single w s =>
    rw [step] at h
    split at h
    · cases h
      exact ⟨by simp, hm.1.concat hm.2 fun _ => by simp, hconcat _ _⟩
    next hb =>
      cases h
      refine ⟨by simp, hm.1, ?_⟩
      rw [List.mem_append, List.mem_singleton, not_or]
      exact ⟨hm.2, Ne.symm hb⟩
  | double w s =>
    rw [step] at h
    split at h
    · cases h
      exact ⟨by simp, hm.concat trivial fun _ => by simp, hconcat _ _⟩
    · split at h
      · cases h
        exact ⟨by simp, hm⟩
      · split at h
        · cases h
        · cases h
          exact ⟨by simp, hm⟩
  | doubleEscape w s =>
    rw [step] at h
    split at h
    · cases h
      exact ⟨by simp, hm⟩
    · split at h <;> cases h <;> exact ⟨by simp, hm⟩

theorem run_wellMade (hm : m.WellMade) (h : run m s = some ts) :
    ∀ t ∈ ts, t.WellMade := by
  induction s generalizing m ts with
  | nil =>
    rw [run] at h
    cases m with
    | between | comment | operator o =>
      cases h
      simp [Token.WellMade]
    | word w =>
      cases h
      intro t ht
      rw [List.mem_singleton.mp ht]
      exact hm
    | escape w | single w s | double w s | doubleEscape w s => cases h
  | cons b s ih =>
    rw [run] at h
    split at h
    next ts' m' hstep =>
      obtain ⟨ts'', hrun, rfl⟩ := Option.map_eq_some_iff.mp h
      obtain ⟨hts, hm'⟩ := step_wellMade hm hstep
      intro t ht
      rcases List.mem_append.mp ht with ht | ht
      · exact hts t ht
      · exact ih hm' hrun t ht
    next => cases h

-- ======== marks

def Piece.marks : Piece → Text
  | .bare _ => []
  | .escape _ => [backslash]
  | .single _ => [quote, quote]
  | .double _ => [doubleQuote, doubleQuote]

theorem count_source (c : UInt8) (ps : List Piece) :
    (ps.flatMap Piece.source).count c
      = (ps.flatMap Piece.text).count c
        + (ps.flatMap Piece.marks).count c := by
  induction ps with
  | nil => rfl
  | cons p ps ih =>
    simp only [List.flatMap_cons, List.count_append, ih]
    cases p <;>
      simp only [Piece.source, Piece.text, Piece.marks, List.count_cons,
        List.count_nil, List.count_append] <;>
      omega

theorem bare_of_marks {ps : List Piece}
    (h : ∀ c ∈ [quote, doubleQuote, backslash],
      (ps.flatMap Piece.marks).count c = 0) :
    ∀ p ∈ ps, ∃ b, p = .bare b := by
  have hnone : ∀ c ∈ [quote, doubleQuote, backslash], ∀ p ∈ ps,
      c ∉ p.marks := fun c hc p hp hmem =>
    List.count_eq_zero.mp (h c hc) (List.mem_flatMap.mpr ⟨p, hp, hmem⟩)
  intro p hp
  cases p with
  | bare b => exact ⟨b, rfl⟩
  | escape b =>
    exact absurd List.mem_cons_self (hnone backslash (by simp) _ hp)
  | single s =>
    exact absurd List.mem_cons_self (hnone quote (by simp) _ hp)
  | double s =>
    exact absurd List.mem_cons_self (hnone doubleQuote (by simp) _ hp)

/-- A piece that the usual way to quote makes, or a bare one. -/
def Piece.Usual : Piece → Prop
  | .bare _ => True
  | .escape b => b = quote
  | .single _ => True
  | .double _ => False

/-- Where no quotes are double, a single quote has a backslash of its own.
If there are no more backslashes than that, all pieces are usual. -/
theorem usual_of_marks {ps : List Piece} (hmade : ∀ p ∈ ps, p.WellMade)
    (hdouble : (ps.flatMap Piece.marks).count doubleQuote = 0) :
    (ps.flatMap Piece.text).count quote
        ≤ (ps.flatMap Piece.marks).count backslash
      ∧ ((ps.flatMap Piece.marks).count backslash
          ≤ (ps.flatMap Piece.text).count quote →
        ∀ p ∈ ps, p.Usual) := by
  induction ps with
  | nil => exact ⟨le_refl _, fun _ p hp => absurd hp List.not_mem_nil⟩
  | cons p ps ih =>
    rw [List.flatMap_cons, List.count_append] at hdouble
    obtain ⟨hle, husual⟩ := ih
      (fun p hp => hmade p (List.mem_cons_of_mem _ hp)) (by omega)
    have hp := hmade p List.mem_cons_self
    -- what a piece adds to the two counts
    have hpiece : p.text.count quote ≤ p.marks.count backslash
        ∧ (p.marks.count backslash ≤ p.text.count quote →
          p.Usual) := by
      cases p with
      | bare b =>
        have hb := (inert_spec hp).2.2.1
        refine ⟨?_, fun _ => trivial⟩
        rw [Piece.text, List.count_singleton, if_neg (by simpa using hb)]
        exact Nat.zero_le _
      | escape b =>
        rw [Piece.text, List.count_singleton]
        by_cases hb : b = quote
        · rw [if_pos (by simpa using hb)]
          exact ⟨le_refl 1, fun _ => hb⟩
        · rw [if_neg (by simpa using hb)]
          refine ⟨Nat.zero_le _, fun h => ?_⟩
          cases h
      | single s =>
        refine ⟨?_, fun _ => trivial⟩
        rw [Piece.text, List.count_eq_zero.mpr hp]
        exact Nat.zero_le _
      | double s =>
        have htwo : (Piece.double s).marks.count doubleQuote = 2 := rfl
        omega
    simp only [List.flatMap_cons, List.count_append]
    refine ⟨by omega, fun h q hq => ?_⟩
    rcases List.mem_cons.mp hq with rfl | hq
    · exact hpiece.2 (by omega)
    · exact husual (by omega) q hq

end Shell
