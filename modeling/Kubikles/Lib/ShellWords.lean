/-
The words of a command line.

# First words

The first word of a text without single quotes has only bytes that stand
for themselves, or is quoted in another way than with them
(`run_unquoted`).

# Command lines

The words of a list are those of its tokens, in their order
(`flatten_parse`), so what a command line is read as tells what its words
stand for (`Reads.words_text`), and how many marks there can be in it
(`Reads.marks_le`).
-/
import Kubikles.Lib.ShellMarks

namespace Shell

open Text (space newline)

variable {b : UInt8} {u s : Text} {w : Word} {m m' : Mode} {ts : List Token}

-- ======== first words

def Mode.word? : Mode → Option Word
  | .word w => some w
  | .escape w => some w
  | .single w _ => some w
  | .double w _ => some w
  | .doubleEscape w _ => some w
  | _ => none

theorem inWord_begun (h : inWord w b = some m) :
    ∃ w', m.word? = some (w ++ w') := by
  unfold inWord at h
  split at h
  · cases h
    exact ⟨[], (List.append_nil w).symm ▸ rfl⟩
  · split at h
    · cases h
      exact ⟨[], (List.append_nil w).symm ▸ rfl⟩
    · split at h
      · cases h
        exact ⟨[], (List.append_nil w).symm ▸ rfl⟩
      · split at h
        · cases h
        · cases h
          exact ⟨[.bare b], rfl⟩

/-- A word that is begun is ended with the next byte, or goes on. -/
theorem step_begun (hne : w ≠ []) (hm : m.word? = some w)
    (h : step m b = some (ts, m')) :
    (∃ ts', ts = .word w :: ts')
      ∨ (ts = [] ∧ ∃ w', m'.word? = some (w ++ w')) := by
  have hsame : m'.word? = some w → ∃ w', m'.word? = some (w ++ w') :=
    fun h => ⟨[], (List.append_nil w).symm ▸ h⟩
  cases m with
  | between | comment | operator o => cases hm
  | word w =>
    cases hm
    rw [step] at h
    split at h
    · obtain ⟨r, hstart, heq⟩ := Option.map_eq_some_iff.mp h
      cases heq
      exact Or.inl ⟨r.1, rfl⟩
    · obtain ⟨m'', hword, heq⟩ := Option.map_eq_some_iff.mp h
      cases heq
      exact Or.inr ⟨rfl, inWord_begun hword⟩
  | escape w =>
    cases hm
    rw [step] at h
    split at h
    · cases h
      exact Or.inr ⟨rfl, hsame rfl⟩
    · cases h
      exact Or.inr ⟨rfl, _, rfl⟩
  | single w s =>
    cases hm
    rw [step] at h
    split at h
    · cases h
      exact Or.inr ⟨rfl, _, rfl⟩
    · cases h
      exact Or.inr ⟨rfl, hsame rfl⟩
  | double w s =>
    cases hm
    rw [step] at h
    split at h
    · cases h
      exact Or.inr ⟨rfl, _, rfl⟩
    · split at h
      · cases h
        exact Or.inr ⟨rfl, hsame rfl⟩
      · split at h
        · cases h
        · cases h
          exact Or.inr ⟨rfl, hsame rfl⟩
  | doubleEscape w s =>
    cases hm
    rw [step] at h
    split at h
    · cases h
      exact Or.inr ⟨rfl, hsame rfl⟩
    · split at h <;> cases h <;> exact Or.inr ⟨rfl, hsame rfl⟩

theorem run_begun (hne : w ≠ []) (hm : m.word? = some w)
    (h : run m s = some ts) :
    ∃ w' ts', ts = .word (w ++ w') :: ts' := by
  induction s generalizing m w ts with
  | nil =>
    cases m with
    | word w =>
      cases hm
      cases h
      exact ⟨[], [], (List.append_nil w).symm ▸ rfl⟩
    | between | comment | operator o => cases hm
    | escape w | single w s | double w s | doubleEscape w s => cases h
  | cons b s ih =>
    rw [run] at h
    split at h
    next ts₁ m' hstep =>
      obtain ⟨ts₂, hrun, rfl⟩ := Option.map_eq_some_iff.mp h
      rcases step_begun hne hm hstep with ⟨ts', rfl⟩ | ⟨rfl, w', hw'⟩
      · exact ⟨[], ts' ++ ts₂, (List.append_nil w).symm ▸ rfl⟩
      · obtain ⟨w'', ts', rfl⟩ := ih
          (List.append_ne_nil_of_left_ne_nil hne w') hw' hrun
        exact ⟨w' ++ w'', ts', by rw [List.append_assoc]; rfl⟩
    next => cases h

theorem run_double {s' : Text}
    (hm : m = .double w s' ∨ m = .doubleEscape w s')
    (h : run m s = some ts) :
    ∃ s'' w' ts', ts = .word (w ++ .double s'' :: w') :: ts' := by
  induction s generalizing m s' with
  | nil => rcases hm with rfl | rfl <;> cases h
  | cons b s ih =>
    rw [run] at h
    split at h
    next ts₁ m' hstep =>
      obtain ⟨ts₂, hrun, rfl⟩ := Option.map_eq_some_iff.mp h
      rcases hm with rfl | rfl
      · rw [step] at hstep
        split at hstep
        · cases hstep
          obtain ⟨w', ts', rfl⟩ := run_begun
            (List.append_ne_nil_of_right_ne_nil w (List.cons_ne_nil _ []))
            rfl hrun
          refine ⟨s', w', ts', ?_⟩
          rw [List.append_assoc]
          rfl
        · split at hstep
          · cases hstep
            exact ih (Or.inr rfl) hrun
          · split at hstep
            · cases hstep
            · cases hstep
              exact ih (Or.inl rfl) hrun
      · rw [step] at hstep
        split at hstep
        · cases hstep
          exact ih (Or.inl rfl) hrun
        · split at hstep <;> cases hstep <;> exact ih (Or.inl rfl) hrun
    next => cases h

theorem run_comment {ts' : List Token}
    (h : run .comment s = some (.word w :: ts')) : False := by
  induction s with
  | nil => cases h
  | cons b s ih =>
    rw [run, step] at h
    split at h
    next ts₁ m' hstep =>
      split at hstep
      · cases hstep
        obtain ⟨ts₂, -, heq⟩ := Option.map_eq_some_iff.mp h
        cases heq
      · cases hstep
        obtain ⟨ts₂, hrun, rfl⟩ := Option.map_eq_some_iff.mp h
        exact ih hrun
    next => cases h

theorem run_operator {o : UInt8} {ts' : List Token}
    (h : run (.operator o) s = some (.word w :: ts')) : False := by
  cases s with
  | nil => cases h
  | cons b s =>
    rw [run, step] at h
    split at h
    next ts₁ m' hstep =>
      obtain ⟨ts₂, -, heq⟩ := Option.map_eq_some_iff.mp h
      split at hstep
      · cases hstep
        cases heq
      · obtain ⟨r, -, heq'⟩ := Option.map_eq_some_iff.mp hstep
        cases heq'
        cases heq
    next => cases h

/-- A word is another with pieces behind it, which are bare if they are
usual. -/
def Grows (w w₀ : Word) : Prop :=
  ∃ w', w₀ = w ++ w'
    ∧ ((∀ p ∈ w', p.Usual) → ∀ p ∈ w', ∃ b, p = .bare b)

theorem Grows.refl (w : Word) : Grows w w :=
  ⟨[], (List.append_nil w).symm, fun _ p hp => by cases hp⟩

theorem Grows.unusual {p : Piece} (hp : ¬ p.Usual) (w w' : Word) :
    Grows w (w ++ p :: w') :=
  ⟨p :: w', rfl, fun hall => absurd (hall p List.mem_cons_self) hp⟩

theorem Grows.bare {w₀ : Word} (h : Grows (w ++ [.bare b]) w₀) :
    Grows w w₀ := by
  obtain ⟨w', rfl, hbare⟩ := h
  refine ⟨.bare b :: w', by rw [List.append_assoc]; rfl, ?_⟩
  intro husual p hp
  rcases List.mem_cons.mp hp with rfl | hp
  · exact ⟨b, rfl⟩
  · exact hbare (fun q hq => husual q (List.mem_cons_of_mem _ hq)) p hp

/-- A text without single quotes, a space and then no word: if what is the
first word has nothing but usual pieces, all that the text has added to it
are bare. -/
theorem run_unquoted (hu : quote ∉ u)
    (hs : ∀ w' ts', run .between s ≠ some (.word w' :: ts'))
    (hm : m = .between ∧ w = [] ∨ m = .escape w ∨ m = .word w ∧ w ≠ [])
    {w₀ : Word} {ts' : List Token}
    (h : run m (u ++ space :: s) = some (.word w₀ :: ts')) :
    Grows w w₀ := by
  have hescape : ∀ {w : Word} {b : UInt8} {t : Text}, b ≠ quote →
      run (.word (w ++ [.escape b])) t = some (.word w₀ :: ts') →
      Grows w w₀ := by
    intro w b t hb h
    obtain ⟨w', ts'', heq⟩ := run_begun
      (List.append_ne_nil_of_right_ne_nil w (List.cons_ne_nil _ [])) rfl h
    cases heq
    rw [List.append_assoc]
    exact Grows.unusual (p := .escape b) hb w w'
  induction u generalizing m w with
  | nil =>
    rw [List.nil_append] at h
    rcases hm with ⟨rfl, rfl⟩ | rfl | ⟨rfl, -⟩
    · rw [run_space] at h
      exact absurd h (hs w₀ ts')
    · have hstep : step (.escape w) space
          = some ([], .word (w ++ [.escape space])) := rfl
      rw [run_cons_nil hstep] at h
      exact hescape (by decide) h
    · rw [run_word_space] at h
      obtain ⟨ts'', -, heq⟩ := Option.map_eq_some_iff.mp h
      cases heq
      exact Grows.refl _
  | cons b u ih =>
    rw [List.mem_cons, not_or] at hu
    obtain ⟨hb, hu⟩ := hu
    replace ih := fun {m w} => @ih m w hu
    -- a byte that does not end the word
    have hword : ∀ {w m'}, inWord w b = some m' →
        run m' (u ++ space :: s) = some (.word w₀ :: ts') →
        Grows w w₀ := by
      intro w m' hin hrun
      unfold inWord at hin
      split at hin
      · cases hin
        exact ih (Or.inr (Or.inl rfl)) hrun
      · rw [if_neg (Ne.symm hb)] at hin
        split at hin
        · cases hin
          obtain ⟨s', w', ts'', heq⟩ := run_double (Or.inl rfl) hrun
          cases heq
          exact Grows.unusual (p := .double s') id w w'
        · split at hin
          · cases hin
          · cases hin
            have hne : w ++ [Piece.bare b] ≠ [] :=
              List.append_ne_nil_of_right_ne_nil w
                (List.cons_ne_nil _ [])
            exact (ih (Or.inr (Or.inr ⟨rfl, hne⟩)) hrun).bare
    rw [List.cons_append, run] at h
    split at h
    next ts₁ m' hstep =>
      obtain ⟨ts₂, hrun, heq⟩ := Option.map_eq_some_iff.mp h
      rcases hm with ⟨rfl, rfl⟩ | rfl | ⟨rfl, hne⟩
      · rw [step, start] at hstep
        split at hstep
        · cases hstep
          rw [← heq, List.nil_append] at h
          exact ih (Or.inl ⟨rfl, rfl⟩) (hrun.trans (congrArg some heq))
        · split at hstep
          · cases hstep
            cases heq
          · split at hstep
            · cases hstep
              exact absurd (hrun.trans (congrArg some heq)) run_operator
            · split at hstep
              · cases hstep
                exact absurd (hrun.trans (congrArg some heq)) run_comment
              · obtain ⟨m'', hin, heq'⟩ := Option.map_eq_some_iff.mp hstep
                cases heq'
                exact hword hin (hrun.trans (congrArg some heq))
      · rw [step] at hstep
        split at hstep
        · split at hstep
          next hnil =>
            cases hstep
            exact ih (Or.inl ⟨rfl, hnil⟩)
              (hrun.trans (congrArg some heq))
          next hne =>
            cases hstep
            exact ih (Or.inr (Or.inr ⟨rfl, hne⟩))
              (hrun.trans (congrArg some heq))
        · cases hstep
          exact hescape (Ne.symm hb) (hrun.trans (congrArg some heq))
      · rw [step] at hstep
        split at hstep
        · obtain ⟨r, -, heq'⟩ := Option.map_eq_some_iff.mp hstep
          cases heq'
          cases heq
          exact Grows.refl _
        · obtain ⟨m'', hin, heq'⟩ := Option.map_eq_some_iff.mp hstep
          cases heq'
          exact hword hin (hrun.trans (congrArg some heq))
    next => cases h

-- ======== parsing

def words : List Token → List Word
  | [] => []
  | .word w :: ts => w :: words ts
  | _ :: ts => words ts

theorem words_newlines (h : ts.all (· = .newline) = true) :
    words ts = [] := by
  induction ts with
  | nil => rfl
  | cons t ts ih =>
    rw [List.all_cons, Bool.and_eq_true, decide_eq_true_eq] at h
    rw [h.1]
    exact ih h.2

/-- The words of a list are those of its tokens. -/
theorem flatten_parse {cmd : Command} {list : AndList}
    (h : parse cmd ts = some list) :
    list.flatten.flatten = cmd ++ words ts := by
  induction ts generalizing cmd list with
  | nil =>
    rw [parse] at h
    split at h
    · cases h
    · cases h
      simp [words]
  | cons t ts ih =>
    cases t with
    | word w =>
      rw [parse] at h
      rw [ih h, words, List.append_assoc]
      rfl
    | newline =>
      rw [parse] at h
      split at h
      next hnil =>
        rw [ih h, hnil]
        rfl
      next =>
        split at h
        next hall =>
          cases h
          simp [words, words_newlines hall]
        next => cases h
    | operator o =>
      rw [parse] at h
      split at h
      · cases h
      · split at h
        · obtain ⟨list', hlist', rfl⟩ := Option.map_eq_some_iff.mp h
          have hwords := ih hlist'
          rw [List.flatten_cons, List.flatten_append, hwords]
          simp [words]
        · split at h
          · split at h
            next list' hlist' =>
              have hwords := ih hlist'
              cases list' with
              | nil => cases h
              | cons pipeline list' =>
                cases h
                rw [List.flatten_cons] at hwords
                rw [List.flatten_cons, List.cons_append,
                  List.flatten_cons, hwords]
                rfl
            next => cases h
          · cases h

/-- The first command has the words before it. -/
theorem parse_first {cmd : Command} {list : AndList}
    (h : parse cmd ts = some list) :
    ∃ args cmds list', list = ((cmd ++ args) :: cmds) :: list' := by
  have hself : cmd = cmd ++ [] := (List.append_nil cmd).symm
  induction ts generalizing cmd list with
  | nil =>
    rw [parse] at h
    split at h
    · cases h
    · cases h
      exact ⟨[], [], [], by rw [← hself]⟩
  | cons t ts ih =>
    cases t with
    | word w =>
      rw [parse] at h
      obtain ⟨args, cmds, list', rfl⟩ := ih h (List.append_nil _).symm
      exact ⟨w :: args, cmds, list', by rw [List.append_assoc]; rfl⟩
    | newline =>
      rw [parse] at h
      split at h
      next hnil =>
        obtain ⟨args, cmds, list', rfl⟩ := ih h rfl
        exact ⟨args, cmds, list', by rw [hnil]⟩
      next =>
        split at h
        · cases h
          exact ⟨[], [], [], by rw [← hself]⟩
        · cases h
    | operator o =>
      rw [parse] at h
      split at h
      · cases h
      · split at h
        · obtain ⟨list', -, rfl⟩ := Option.map_eq_some_iff.mp h
          exact ⟨[], [], list', by rw [← hself]⟩
        · split at h
          · split at h
            next list' _ =>
              cases list' with
              | nil => cases h
              | cons pipeline list' =>
                cases h
                exact ⟨[], pipeline, list', by rw [← hself]⟩
            next => cases h
          · cases h

/-- If the first command has more words than those before, the next token
is one. -/
theorem parse_next {cmd : Command} (hne : cmd ≠ []) {x : Word}
    {args : List Word} {cmds : List Command} {list : AndList}
    (h : parse cmd ts = some (((cmd ++ x :: args) :: cmds) :: list)) :
    ∃ ts', ts = .word x :: ts' := by
  have hself : cmd ≠ cmd ++ x :: args := by
    intro heq
    have hlength := congrArg List.length heq
    simp at hlength
  cases ts with
  | nil =>
    rw [parse, if_neg hne] at h
    exact absurd (List.cons.inj (List.cons.inj (Option.some.inj h)).1).1
      hself
  | cons t ts =>
    cases t with
    | word w =>
      rw [parse] at h
      obtain ⟨args', cmds', list', heq⟩ := parse_first h
      have hcmd := (List.cons.inj (List.cons.inj heq).1).1
      rw [List.append_assoc] at hcmd
      have hx := (List.cons.inj (List.append_cancel_left hcmd)).1
      exact ⟨ts, by rw [hx]⟩
    | newline =>
      rw [parse, if_neg hne] at h
      split at h
      · exact absurd
          (List.cons.inj (List.cons.inj (Option.some.inj h)).1).1 hself
      · cases h
    | operator o =>
      rw [parse, if_neg hne] at h
      split at h
      · obtain ⟨list', -, heq⟩ := Option.map_eq_some_iff.mp h
        exact absurd (List.cons.inj (List.cons.inj heq).1).1 hself
      · split at h
        · split at h
          next list' _ =>
            cases list' with
            | nil => cases h
            | cons pipeline list' =>
              exact absurd (List.cons.inj
                (List.cons.inj (Option.some.inj h)).1).1 hself
          next => cases h
        · cases h

theorem source_words (ts : List Token) :
    ts.flatMap Token.source = (words ts).flatten.flatMap Piece.source := by
  induction ts with
  | nil => rfl
  | cons t ts ih =>
    rw [List.flatMap_cons, ih]
    cases t with
    | word w =>
      rw [words, List.flatten_cons, List.flatMap_append]
      rfl
    | operator o | newline => rfl

-- ======== command lines

variable {input : Text} {vs : List (List (List Text))}

/-- What is known of a command line that is read: its words stand for these
texts, are well made and taken as they are. -/
structure Reads (input : Text) (vs : List (List (List Text)))
    (ts : List Token) (list : AndList) : Prop where
  tokens : tokens input = some ts
  parse : parse [] ts = some list
  texts : list.map (fun pipeline => pipeline.map fun cmd =>
    cmd.map Word.text) = vs
  literal : ∀ w ∈ words ts, Word.literal w = true

theorem reads_of_shell (h : shell input = some vs) :
    ∃ ts list, Reads input vs ts list := by
  unfold shell at h
  split at h
  next ts hts =>
    split at h
    next list hlist =>
      split at h
      next hall =>
        refine ⟨ts, list, hts, hlist, Option.some.inj h, ?_⟩
        intro w hw
        have hflat := flatten_parse hlist
        rw [List.nil_append] at hflat
        rw [← hflat] at hw
        obtain ⟨cmd, hcmd, hw⟩ := List.mem_flatten.mp hw
        obtain ⟨pipeline, hpipeline, hcmd⟩ := List.mem_flatten.mp hcmd
        have hcmds := List.all_eq_true.mp hall pipeline hpipeline
        have hwords := List.all_eq_true.mp hcmds cmd hcmd
        exact List.all_eq_true.mp hwords w hw
      next => cases h
    next => cases h
  next => cases h

theorem Reads.shell {list : AndList} (h : Reads input vs ts list) :
    shell input = some vs := by
  have hall : (list.all fun pipeline => pipeline.all fun cmd =>
      cmd.all Word.literal) = true := by
    refine List.all_eq_true.mpr fun pipeline hpipeline => ?_
    refine List.all_eq_true.mpr fun cmd hcmd => ?_
    refine List.all_eq_true.mpr fun w hw => h.literal w ?_
    have hflat := flatten_parse h.parse
    rw [List.nil_append] at hflat
    rw [← hflat]
    exact List.mem_flatten.mpr ⟨cmd,
      List.mem_flatten.mpr ⟨pipeline, hpipeline, hcmd⟩, hw⟩
  unfold Shell.shell
  rw [h.tokens]
  dsimp only
  rw [h.parse]
  dsimp only
  rw [if_pos hall, h.texts]

namespace Reads

variable {list : AndList} (h : Reads input vs ts list)
include h

theorem words_text : (words ts).map Word.text = vs.flatten.flatten := by
  have hflat := flatten_parse h.parse
  rw [List.nil_append] at hflat
  rw [← hflat, ← h.texts, List.map_flatten, List.map_flatten]

theorem wellMade {w : Word} (hw : w ∈ words ts) :
    Word.WellMade w ∧ w ≠ [] := by
  have hmem : ∀ {ts : List Token}, w ∈ words ts → .word w ∈ ts := by
    intro ts
    induction ts with
    | nil => exact fun h => by cases h
    | cons t ts ih =>
      intro hw
      cases t with
      | word w' =>
        rcases List.mem_cons.mp hw with rfl | hw
        · exact List.mem_cons_self
        · exact List.mem_cons_of_mem _ (ih hw)
      | operator o | newline => exact List.mem_cons_of_mem _ (ih hw)
  exact run_wellMade (m := .between) trivial h.tokens _ (hmem hw)

theorem pieces_wellMade : ∀ p ∈ (words ts).flatten, p.WellMade := by
  intro p hp
  obtain ⟨w, hw, hp⟩ := List.mem_flatten.mp hp
  exact (h.wellMade hw).1.pieces p hp

theorem pieces_text : (words ts).flatten.flatMap Piece.text
    = vs.flatten.flatten.flatten := by
  rw [← h.words_text]
  induction words ts with
  | nil => rfl
  | cons w ws ih =>
    rw [List.flatten_cons, List.flatMap_append, ih]
    rfl

theorem marks_le (c : UInt8) :
    vs.flatten.flatten.flatten.count c
      + ((words ts).flatten.flatMap Piece.marks).count c
      ≤ input.count c := by
  have hcount := count_run (c := c) h.tokens
  have hnone : Mode.source .between = [] := rfl
  rw [source_words, count_source, h.pieces_text, hnone,
    List.count_nil] at hcount
  omega

end Reads

-- ======== bare words

theorem text_bare (u : Text) : Word.text (u.map .bare) = u := by
  induction u with
  | nil => rfl
  | cons b u ih =>
    unfold Word.text at ih ⊢
    rw [List.map_cons, List.flatMap_cons, ih]
    rfl

theorem eq_map_bare (h : ∀ p ∈ w, ∃ b, p = .bare b) :
    w = (Word.text w).map .bare := by
  induction w with
  | nil => rfl
  | cons p w ih =>
    obtain ⟨b, rfl⟩ := h p List.mem_cons_self
    have htail := ih fun p hp => h p (List.mem_cons_of_mem _ hp)
    unfold Word.text at htail ⊢
    rw [List.flatMap_cons, List.map_append, ← htail]
    rfl

/-- A bare word is taken as it is unless it begins with a tilde or is a
pattern. -/
theorem literal_bare (u : Text) :
    Word.literal (u.map .bare) = true
      ↔ u.head? ≠ some 126 ∧ pattern (u.map fun b => (b, false)) = false := by
  have hbytes : (u.map Piece.bare).flatMap Piece.bytes
      = u.map fun b => (b, false) := by
    induction u with
    | nil => rfl
    | cons b u ih =>
      rw [List.map_cons, List.flatMap_cons, ih]
      rfl
  have htilde : Word.tilde (u.map .bare) = true ↔ u.head? = some 126 := by
    unfold Word.tilde
    rw [Bool.and_eq_true, decide_eq_true_eq, List.head?_map]
    constructor
    · rintro ⟨h, -⟩
      cases hu : u.head? with
      | none =>
        rw [hu] at h
        cases h
      | some b =>
        rw [hu] at h
        rw [Piece.bare.inj (Option.some.inj h)]
    · intro h
      rw [h]
      refine ⟨rfl, List.all_eq_true.mpr fun p hp => ?_⟩
      obtain ⟨b, -, rfl⟩ :=
        List.mem_map.mp ((List.takeWhile_sublist _).subset hp)
      rfl
  unfold Word.literal
  rw [hbytes, Bool.and_eq_true, Bool.not_eq_true', Bool.not_eq_true',
    Ne, ← htilde, Bool.not_eq_true]

theorem bare_of_wellMade (hmade : Word.WellMade w) (hne : w ≠ [])
    (hbare : ∀ p ∈ w, ∃ b, p = .bare b) : Bare (Word.text w) := by
  have heq := eq_map_bare hbare
  refine ⟨fun hnil => ?_, fun b hb => ?_, fun hhead => ?_⟩
  · rw [hnil] at heq
    exact hne heq
  · exact hmade.pieces (.bare b) (heq ▸ List.mem_map_of_mem hb)
  · apply hmade.comment
    rw [heq, List.head?_map, hhead]
    rfl

theorem parse_words (cmd : Command) (ws : List Word) (ts : List Token) :
    parse cmd (ws.map .word ++ ts) = parse (cmd ++ ws) ts := by
  induction ws generalizing cmd with
  | nil => rw [List.map_nil, List.nil_append, List.append_nil]
  | cons w ws ih =>
    rw [List.map_cons, List.cons_append, parse, ih, List.append_assoc]
    rfl

end Shell
