/-
What a POSIX shell reads of a command line.

# Tokens

A command line is read byte by byte (`step`). A word is made of pieces: of
bytes that stand for themselves, of a byte behind a backslash, and of what
is in quotes. What has a substitution in it is not read (`none`), nor is a
quote that is not closed.

# Commands

Simple commands are joined to pipelines and pipelines to a list by `&&`
(`parse`). Other operators are not read.

# Words

A word is taken as it is unless it begins with a tilde, which is a home
directory, or is a pattern, in place of which there may be other names
(`Word.literal`).

# Quoting

A text of bytes that mean nothing else is a word of its own (`Bare`), and
so is any text in single quotes (`run_quoted`, `literal_quotedWord`).
-/
import Kubikles.Lib.Text

namespace Shell

open Text (space newline)

-- ======== pieces

inductive Piece where
  | bare (b : UInt8)
  | escape (b : UInt8)
  | single (s : Text)
  | double (s : Text)
deriving DecidableEq

abbrev Word := List Piece

def Piece.text : Piece → Text
  | .bare b => [b]
  | .escape b => [b]
  | .single s => s
  | .double s => s

def Word.text (w : Word) : Text := w.flatMap Piece.text

inductive Token where
  | word (w : Word)
  | operator (s : Text)
  | newline
deriving DecidableEq

-- ======== bytes

/-- `'&'`. -/
def ampersand : UInt8 := 38

/-- `'|'`. -/
def bar : UInt8 := 124

/-- `'\''`. -/
def quote : UInt8 := 39

/-- `'"'`. -/
def doubleQuote : UInt8 := 34

/-- `'\\'`. -/
def backslash : UInt8 := 92

/-- `'$'`. -/
def dollar : UInt8 := 36

def backquote : UInt8 := 96

/-- `'#'`. -/
def hash : UInt8 := 35

def blank (b : UInt8) : Bool := b == space || b == 9

/-- It begins an operator: one of `& | ; < > ( )`. -/
def operatorByte (b : UInt8) : Bool :=
  b == ampersand || b == bar || b == 59 || b == 60 || b == 62 || b == 40
    || b == 41

def operatorPair (o b : UInt8) : Bool :=
  [(ampersand, ampersand), (bar, bar), (59, 59), (60, 60), (62, 62),
    (60, ampersand), (62, ampersand), (60, 62), (62, bar)].contains (o, b)

def delimits (b : UInt8) : Bool :=
  blank b || b == newline || operatorByte b

def special (b : UInt8) : Bool :=
  b == backslash || b == quote || b == doubleQuote || b == dollar
    || b == backquote

def inert (b : UInt8) : Bool := !delimits b && !special b

-- ======== reading

/-- What is being read. -/
inductive Mode where
  | between
  | comment
  | operator (o : UInt8)
  | word (w : Word)
  | escape (w : Word)
  | single (w : Word) (s : Text)
  | double (w : Word) (s : Text)
  | doubleEscape (w : Word) (s : Text)
deriving DecidableEq

def inWord (w : Word) (b : UInt8) : Option Mode :=
  if b = backslash then some (.escape w)
  else if b = quote then some (.single w [])
  else if b = doubleQuote then some (.double w [])
  else if b = dollar ∨ b = backquote then none
  else some (.word (w ++ [.bare b]))

def start (b : UInt8) : Option (List Token × Mode) :=
  if blank b then some ([], .between)
  else if b = newline then some ([.newline], .between)
  else if operatorByte b then some ([], .operator b)
  else if b = hash then some ([], .comment)
  else (inWord [] b).map fun m => ([], m)

def step : Mode → UInt8 → Option (List Token × Mode)
  | .between, b => start b
  | .comment, b =>
    if b = newline then some ([.newline], .between)
    else some ([], .comment)
  | .operator o, b =>
    if operatorPair o b then some ([.operator [o, b]], .between)
    else (start b).map fun r => (.operator [o] :: r.1, r.2)
  | .word w, b =>
    if delimits b then (start b).map fun r => (.word w :: r.1, r.2)
    else (inWord w b).map fun m => ([], m)
  | .escape w, b =>
    if b = newline then
      -- the line is continued
      if w = [] then some ([], .between) else some ([], .word w)
    else some ([], .word (w ++ [.escape b]))
  | .single w s, b =>
    if b = quote then some ([], .word (w ++ [.single s]))
    else some ([], .single w (s ++ [b]))
  | .double w s, b =>
    if b = doubleQuote then some ([], .word (w ++ [.double s]))
    else if b = backslash then some ([], .doubleEscape w s)
    else if b = dollar ∨ b = backquote then none
    else some ([], .double w (s ++ [b]))
  | .doubleEscape w s, b =>
    if b = newline then some ([], .double w s)
    else if b = doubleQuote ∨ b = backslash ∨ b = dollar ∨ b = backquote
      then some ([], .double w (s ++ [b]))
    else some ([], .double w (s ++ [backslash, b]))

def finish : Mode → Option (List Token)
  | .between => some []
  | .comment => some []
  | .operator o => some [.operator [o]]
  | .word w => some [.word w]
  | _ => none

def run : Mode → Text → Option (List Token)
  | m, [] => finish m
  | m, b :: s =>
    match step m b with
    | some (ts, m') => (run m' s).map (ts ++ ·)
    | none => none

def tokens (input : Text) : Option (List Token) := run .between input

-- ======== commands

abbrev Command := List Word

/-- Pipelines, each if the one before has succeeded. -/
abbrev AndList := List (List Command)

def pipe (cmd : Command) : AndList → Option AndList
  | [] => none
  | pipeline :: list => some ((cmd :: pipeline) :: list)

/-- The list of what is still to be read, behind the words of a command. A
line may end where a command is still to come. -/
def parse : Command → List Token → Option AndList
  | cmd, [] => if cmd = [] then none else some [[cmd]]
  | cmd, .word w :: ts => parse (cmd ++ [w]) ts
  | cmd, .newline :: ts =>
    if cmd = [] then parse [] ts
    else if ts.all (· = .newline) then some [[cmd]]
    else none
  | cmd, .operator o :: ts =>
    if cmd = [] then none
    else if o = [ampersand, ampersand] then
      (parse [] ts).map fun list => [cmd] :: list
    else if o = [bar] then
      match parse [] ts with
      | some list => pipe cmd list
      | none => none
    else none

-- ======== words

/-- The bytes of a word, and whether they are quoted. -/
def Piece.bytes : Piece → List (UInt8 × Bool)
  | .bare b => [(b, false)]
  | .escape b => [(b, true)]
  | .single s => s.map fun b => (b, true)
  | .double s => s.map fun b => (b, true)

/-- It begins with a tilde that stands for a home directory: no part of it
is quoted, up to the first slash. -/
def Word.tilde (w : Word) : Bool :=
  w.head? = some (.bare 126)
    && (w.takeWhile (· ≠ .bare 47)).all fun p =>
      match p with
      | .bare _ => true
      | _ => false

/-- The end of a bracket expression: there is one before any slash. -/
def bracketEnds : List (UInt8 × Bool) → Bool
  | [] => false
  | (b, quoted) :: rest =>
    if b = 47 then false
    else if b = 93 ∧ quoted = false then true
    else bracketEnds rest

/-- Behind a `[`: a bracket expression has at least one member, which may
be a `]`, and may be one of what it does not match. -/
def bracket (rest : List (UInt8 × Bool)) : Bool :=
  match (if rest.head? = some (33, false) then rest.tail else rest) with
  | [] => false
  | (b, _) :: rest => b ≠ 47 && bracketEnds rest

/-- A pattern: it has a `*`, a `?` or a bracket expression. -/
def pattern : List (UInt8 × Bool) → Bool
  | [] => false
  | (b, quoted) :: rest =>
    (!quoted && (b == 42 || b == 63 || (b == 91 && bracket rest)))
      || pattern rest

def Word.literal (w : Word) : Bool :=
  !w.tilde && !pattern (w.flatMap Piece.bytes)

/-- The commands of a command line with their words. -/
def shell (input : Text) : Option (List (List (List Text))) :=
  match tokens input with
  | some ts =>
    match parse [] ts with
    | some list =>
      if list.all fun pipeline => pipeline.all fun cmd =>
          cmd.all Word.literal then
        some (list.map fun pipeline => pipeline.map fun cmd =>
          cmd.map Word.text)
      else none
    | none => none
  | none => none

variable {b c : UInt8} {u s rest : Text} {w : Word} {m m' : Mode}
  {ts : List Token}

-- ======== what is read

theorem inert_spec (h : inert b = true) :
    delimits b = false ∧ b ≠ backslash ∧ b ≠ quote ∧ b ≠ doubleQuote
      ∧ b ≠ dollar ∧ b ≠ backquote := by
  unfold inert special at h
  simp only [Bool.and_eq_true, Bool.not_eq_true', Bool.or_eq_false_iff,
    beq_eq_false_iff_ne] at h
  tauto

theorem inWord_inert (h : inert b = true) (w : Word) :
    inWord w b = some (.word (w ++ [.bare b])) := by
  obtain ⟨-, hbackslash, hquote, hdouble, hdollar, hback⟩ := inert_spec h
  unfold inWord
  rw [if_neg hbackslash, if_neg hquote, if_neg hdouble,
    if_neg (by tauto)]

theorem run_cons_some (h : step m b = some (ts, m')) (s : Text) :
    run m (b :: s) = (run m' s).map (ts ++ ·) := by
  rw [run, h]

theorem run_cons_nil (h : step m b = some ([], m')) (s : Text) :
    run m (b :: s) = run m' s := by
  rw [run_cons_some h]
  cases run m' s <;> rfl

theorem run_inert (h : ∀ b ∈ u, inert b = true) (w : Word) (s : Text) :
    run (.word w) (u ++ s) = run (.word (w ++ u.map .bare)) s := by
  induction u generalizing w with
  | nil => rw [List.map_nil, List.append_nil, List.nil_append]
  | cons b u ih =>
    have hb := h b List.mem_cons_self
    have hstep : step (.word w) b
        = some ([], .word (w ++ [.bare b])) := by
      rw [step, (inert_spec hb).1, if_neg Bool.false_ne_true,
        inWord_inert hb]
      rfl
    rw [List.cons_append, run_cons_nil hstep,
      ih fun b hb => h b (List.mem_cons_of_mem _ hb), List.append_assoc]
    rfl

/-- A text that is read as one word of the bytes it has: none of them means
something else, also not at its front. -/
structure Bare (u : Text) : Prop where
  ne : u ≠ []
  inert : ∀ b ∈ u, inert b = true
  comment : u.head? ≠ some hash

theorem Bare.run (h : Bare u) (s : Text) :
    Shell.run .between (u ++ s) = Shell.run (.word (u.map .bare)) s := by
  obtain ⟨hne, hinert, hcomment⟩ := h
  cases u with
  | nil => exact absurd rfl hne
  | cons b u =>
    have hb := hinert b List.mem_cons_self
    have hhash : b ≠ hash := fun hb => hcomment (congrArg some hb)
    have hdelimits := (inert_spec hb).1
    unfold delimits at hdelimits
    simp only [Bool.or_eq_false_iff, beq_eq_false_iff_ne] at hdelimits
    obtain ⟨⟨hblank, hline⟩, hoperator⟩ := hdelimits
    have hstep : step .between b = some ([], .word [.bare b]) := by
      rw [step, start, hblank, if_neg Bool.false_ne_true, if_neg hline,
        hoperator, if_neg Bool.false_ne_true, if_neg hhash,
        inWord_inert hb]
      rfl
    rw [List.cons_append, run_cons_nil hstep,
      run_inert fun b hb => hinert b (List.mem_cons_of_mem _ hb)]
    rfl

theorem run_space (s : Text) :
    run .between (space :: s) = run .between s :=
  run_cons_nil rfl s

theorem run_word_space (w : Word) (s : Text) :
    run (.word w) (space :: s)
      = (run .between s).map (.word w :: ·) := by
  have hstep : step (.word w) space = some ([.word w], .between) := rfl
  exact run_cons_some hstep s

theorem Bare.run_space (h : Bare u) (s : Text) :
    Shell.run .between (u ++ space :: s)
      = (Shell.run .between s).map (.word (u.map .bare) :: ·) := by
  rw [h.run, run_word_space]

theorem run_and (s : Text) :
    run .between (ampersand :: ampersand :: s)
      = (run .between s).map (.operator [ampersand, ampersand] :: ·) := by
  have hfirst : step .between ampersand
      = some ([], .operator ampersand) := rfl
  have hsecond : step (.operator ampersand) ampersand
      = some ([.operator [ampersand, ampersand]], .between) := rfl
  rw [run_cons_nil hfirst, run_cons_some hsecond]
  rfl

-- ======== quoting

/-- The usual way to quote a text: it is put in single quotes, and each
single quote in it is taken out of them. -/
def escapeQuotes (s : Text) : Text :=
  s.flatMap fun b =>
    if b = quote then [quote, backslash, quote, quote] else [b]

def quoted (s : Text) : Text := quote :: (escapeQuotes s ++ [quote])

/-- The pieces that are left when some of a quoted piece is read. -/
def quotedPieces : Text → Text → Word
  | s', [] => [.single s']
  | s', b :: s =>
    if b = quote then .single s' :: .escape quote :: quotedPieces [] s
    else quotedPieces (s' ++ [b]) s

theorem run_escapeQuotes (w : Word) (s' s rest : Text) :
    run (.single w s') (escapeQuotes s ++ quote :: rest)
      = run (.word (w ++ quotedPieces s' s)) rest := by
  induction s generalizing w s' with
  | nil => exact run_cons_nil rfl rest
  | cons b s ih =>
    have hcons : escapeQuotes (b :: s)
        = (if b = quote then [quote, backslash, quote, quote] else [b])
          ++ escapeQuotes s := rfl
    rw [hcons, quotedPieces]
    split
    next hb =>
      have hclose : step (.single w s') quote
          = some ([], .word (w ++ [.single s'])) := rfl
      have hback : ∀ w, step (.word w) backslash
          = some ([], .escape w) := fun _ => rfl
      have hescape : ∀ w, step (.escape w) quote
          = some ([], .word (w ++ [.escape quote])) := fun _ => rfl
      have hopen : ∀ w, step (.word w) quote
          = some ([], .single w []) := fun _ => rfl
      simp only [List.cons_append, List.nil_append]
      rw [run_cons_nil hclose, run_cons_nil (hback _),
        run_cons_nil (hescape _), run_cons_nil (hopen _), ih]
      simp only [List.append_assoc, List.cons_append, List.nil_append]
    next hb =>
      have hstep : step (.single w s') b
          = some ([], .single w (s' ++ [b])) := by
        rw [step, if_neg hb]
      rw [List.append_assoc, List.singleton_append, run_cons_nil hstep,
        ih]

def quotedWord (s : Text) : Word := quotedPieces [] s

theorem run_quoted (s rest : Text) :
    run .between (quoted s ++ rest) = run (.word (quotedWord s)) rest := by
  have hopen : step .between quote = some ([], .single [] []) := rfl
  unfold quoted
  rw [List.cons_append, List.append_assoc, run_cons_nil hopen]
  exact run_escapeQuotes [] [] s rest

theorem text_quotedWord (s : Text) : Word.text (quotedWord s) = s := by
  have h : ∀ s' s, Word.text (quotedPieces s' s) = s' ++ s := by
    intro s' s
    induction s generalizing s' with
    | nil => simp [quotedPieces, Word.text, Piece.text]
    | cons b s ih =>
      have htail := ih []
      unfold Word.text at htail ih ⊢
      rw [quotedPieces]
      split
      next hb =>
        rw [List.flatMap_cons, List.flatMap_cons, htail, hb]
        rfl
      next hb =>
        rw [ih, List.append_assoc]
        rfl
  exact h [] s

theorem quoted_bytes {p : Piece} (h : ∀ b, p ≠ .bare b) :
    ∀ x ∈ p.bytes, x.2 = true := by
  intro x hx
  cases p with
  | bare b => exact absurd rfl (h b)
  | escape b =>
    rw [List.mem_singleton.mp hx]
  | single s =>
    obtain ⟨b, -, rfl⟩ := List.mem_map.mp hx
    rfl
  | double s =>
    obtain ⟨b, -, rfl⟩ := List.mem_map.mp hx
    rfl

theorem pattern_quoted {bs : List (UInt8 × Bool)}
    (h : ∀ x ∈ bs, x.2 = true) : pattern bs = false := by
  induction bs with
  | nil => rfl
  | cons x bs ih =>
    obtain ⟨b, quoted⟩ := x
    have hx : quoted = true := h (b, quoted) List.mem_cons_self
    rw [pattern, ih fun x hx => h x (List.mem_cons_of_mem _ hx), hx]
    rfl

theorem literal_quotedWord (s : Text) :
    Word.literal (quotedWord s) = true := by
  have hbare : ∀ s' s, ∀ p ∈ quotedPieces s' s, ∀ b, p ≠ .bare b := by
    intro s' s
    induction s generalizing s' with
    | nil =>
      intro p hp b hb
      rw [quotedPieces, List.mem_singleton] at hp
      rw [hp] at hb
      cases hb
    | cons b s ih =>
      intro p hp b' hb'
      rw [quotedPieces] at hp
      split at hp
      · rcases List.mem_cons.mp hp with rfl | hp
        · cases hb'
        · rcases List.mem_cons.mp hp with rfl | hp
          · cases hb'
          · exact ih [] p hp b' hb'
      · exact ih _ p hp b' hb'
  have htilde : Word.tilde (quotedWord s) = false := by
    unfold Word.tilde
    rw [Bool.and_eq_false_iff]
    refine Or.inl (decide_eq_false fun hhead => ?_)
    exact hbare [] s _ (List.mem_of_mem_head? hhead) _ rfl
  have hpattern : pattern ((quotedWord s).flatMap Piece.bytes)
      = false := by
    refine pattern_quoted fun x hx => ?_
    obtain ⟨p, hp, hx⟩ := List.mem_flatMap.mp hx
    exact quoted_bytes (hbare [] s p hp) x hx
  unfold Word.literal
  rw [htilde, hpattern]
  rfl

end Shell
