/-
JSON texts, as Go's `encoding/json` reads them.

# Values

A value keeps its literals as they are written: a number its digits, a
string what stands between its quotes. What a program is told of them is
read out of the literal (`unquote`, `Json.int`), so a value that is passed
on is passed on as it came. White space between the tokens is forgotten.

# Decoding

`json.Unmarshal` fills a target that it is given: `null` leaves a string as
it is, a member that comes twice is decoded twice, and a member is a field
of a struct where their names are the same but for their case
(`foldName`). A value of the wrong kind is an error, and where there is one
the target is not used.
-/
import Kubikles.Lib.FinMap
import Kubikles.Lib.Text

inductive Json where
  | null
  | bool (value : Bool)
  /-- A number, as it is written. -/
  | num (literal : Text)
  /-- A string, as it is written between its quotes. -/
  | str (raw : Text)
  | arr (items : List Json)
  | obj (members : List (Text × Json))

namespace Json

-- ======== tokens

def isSpace (b : UInt8) : Bool := b = 32 || b = 9 || b = 10 || b = 13

def isDigit (b : UInt8) : Bool := 48 ≤ b && b ≤ 57

/-- `'"'`. -/
def quote : UInt8 := 34

/-- `'\\'`. -/
def backslash : UInt8 := 92

def skipSpace (s : Text) : Text := s.dropWhile isSpace

def hexVal (b : UInt8) : Option Nat :=
  if 48 ≤ b && b ≤ 57 then some (b.toNat - 48)
  else if 97 ≤ b && b ≤ 102 then some (b.toNat - 87)
  else if 65 ≤ b && b ≤ 70 then some (b.toNat - 55)
  else none

def hex4 (a b c d : UInt8) : Option Nat := do
  let a ← hexVal a
  let b ← hexVal b
  let c ← hexVal c
  let d ← hexVal d
  return ((a * 16 + b) * 16 + c) * 16 + d

def escape (b : UInt8) : Option UInt8 :=
  if b = quote || b = backslash || b = 47 then some b
  else if b = 98 then some 8
  else if b = 102 then some 12
  else if b = 110 then some 10
  else if b = 114 then some 13
  else if b = 116 then some 9
  else none

/-- What a string holds, and what is behind its closing quote. -/
def readString : Text → Option (Text × Text)
  | [] => none
  | b :: s =>
    if b = quote then some ([], s)
    else if b = backslash then
      match s with
      | [] => none
      | e :: s =>
        if e = 117 then
          match s with
          | a :: b :: c :: d :: s =>
            if (hex4 a b c d).isSome then
              (readString s).map fun (raw, s) =>
                (backslash :: e :: a :: b :: c :: d :: raw, s)
            else none
          | _ => none
        else if (escape e).isSome then
          (readString s).map fun (raw, s) => (backslash :: e :: raw, s)
        else none
    else if b < 32 then none
    else (readString s).map fun (raw, s) => (b :: raw, s)

def readSign (signs : Text) : Text → Text × Text
  | b :: s => if b ∈ signs then ([b], s) else ([], b :: s)
  | [] => ([], [])

def readDigits (s : Text) : Option (Text × Text) :=
  match s.span isDigit with
  | ([], _) => none
  | (digits, s) => some (digits, s)

/-- The integer part of a number: no zero in front of other digits. -/
def readInteger : Text → Option (Text × Text)
  | b :: s =>
    if b = 48 then some ([b], s) else readDigits (b :: s)
  | [] => none

def readFraction : Text → Option (Text × Text)
  | b :: s =>
    if b = 46 then (readDigits s).map fun (digits, s) => (b :: digits, s)
    else some ([], b :: s)
  | [] => some ([], [])

def readExponent : Text → Option (Text × Text)
  | b :: s =>
    if b = 101 || b = 69 then
      let (sign, s) := readSign [43, 45] s
      (readDigits s).map fun (digits, s) => (b :: sign ++ digits, s)
    else some ([], b :: s)
  | [] => some ([], [])

def readNumber (s : Text) : Option (Text × Text) := do
  let (sign, s) := readSign [45] s
  let (integer, s) ← readInteger s
  let (fraction, s) ← readFraction s
  let (exponent, s) ← readExponent s
  return (sign ++ integer ++ fraction ++ exponent, s)

def readWord : Text → Text → Option Text
  | [], s => some s
  | c :: word, b :: s => if b = c then readWord word s else none
  | _ :: _, [] => none

-- ======== values

mutual

/-- A value, nested so deep at most. The first argument bounds the calls;
three for each byte are enough. -/
def readValue : Nat → Nat → Text → Option (Json × Text)
  | 0, _, _ => none
  | fuel + 1, depth, s =>
    match skipSpace s with
    | [] => none
    | b :: s =>
      if b = quote then
        (readString s).map fun (raw, s) => (.str raw, s)
      else if b = 123 then
        match depth with
        | 0 => none
        | depth + 1 => readObject fuel depth s
      else if b = 91 then
        match depth with
        | 0 => none
        | depth + 1 => readArray fuel depth s
      else if b = 116 then
        (readWord (Text.ofString "rue") s).map fun s => (.bool true, s)
      else if b = 102 then
        (readWord (Text.ofString "alse") s).map fun s =>
          (.bool false, s)
      else if b = 110 then
        (readWord (Text.ofString "ull") s).map fun s => (.null, s)
      else
        (readNumber (b :: s)).map fun (literal, s) => (.num literal, s)
termination_by structural fuel => fuel

def readObject : Nat → Nat → Text → Option (Json × Text)
  | 0, _, _ => none
  | fuel + 1, depth, s =>
    match skipSpace s with
    | [] => none
    | b :: s =>
      if b = 125 then some (.obj [], s)
      else (readMembers fuel depth (b :: s)).map fun (members, s) =>
        (.obj members, s)
termination_by structural fuel => fuel

/-- The members of an object, up to its closing brace. -/
def readMembers :
    Nat → Nat → Text → Option (List (Text × Json) × Text)
  | 0, _, _ => none
  | fuel + 1, depth, s => do
      let s ← readWord [quote] (skipSpace s)
      let (key, s) ← readString s
      let s ← readWord [58] (skipSpace s)
      let (value, s) ← readValue fuel depth s
      match skipSpace s with
      | [] => none
      | b :: s =>
        if b = 44 then do
          let (members, s) ← readMembers fuel depth s
          return ((key, value) :: members, s)
        else if b = 125 then return ([(key, value)], s)
        else none
termination_by structural fuel => fuel

def readArray : Nat → Nat → Text → Option (Json × Text)
  | 0, _, _ => none
  | fuel + 1, depth, s =>
    match skipSpace s with
    | [] => none
    | b :: s =>
      if b = 93 then some (.arr [], s)
      else (readItems fuel depth (b :: s)).map fun (items, s) =>
        (.arr items, s)
termination_by structural fuel => fuel

/-- The items of an array, up to its closing bracket. -/
def readItems : Nat → Nat → Text → Option (List Json × Text)
  | 0, _, _ => none
  | fuel + 1, depth, s => do
      let (value, s) ← readValue fuel depth s
      match skipSpace s with
      | [] => none
      | b :: s =>
        if b = 44 then do
          let (items, s) ← readItems fuel depth s
          return (value :: items, s)
        else if b = 93 then return ([value], s)
        else none
termination_by structural fuel => fuel

end

def maxNestingDepth : Nat := 10000

def parse (s : Text) : Option Json := do
  let (value, s) ← readValue (3 * s.length + 3) maxNestingDepth s
  if skipSpace s = [] then return value else none

/-- `json.Valid`. -/
def valid (s : Text) : Bool := (parse s).isSome

def commas : List Text → Text
  | [] => []
  | [s] => s
  | s :: rest => s ++ 44 :: commas rest

mutual

/-- `json.Compact`: a value without white space. -/
def compact : Json → Text
  | .null => Text.ofString "null"
  | .bool true => Text.ofString "true"
  | .bool false => Text.ofString "false"
  | .num literal => literal
  | .str raw => quote :: raw ++ [quote]
  | .arr items => 91 :: commas (compactItems items) ++ [93]
  | .obj members => 123 :: commas (compactMembers members) ++ [125]

def compactItems : List Json → List Text
  | [] => []
  | value :: items => value.compact :: compactItems items

def compactMembers : List (Text × Json) → List Text
  | [] => []
  | (key, value) :: members =>
    (quote :: key ++ quote :: 58 :: value.compact) :: compactMembers members

end

-- ======== strings

/-- The number of bytes of the rune at the front, 0 where it is not well
formed UTF-8. -/
def runeLength : Text → Nat
  | [] => 0
  | a :: s =>
    let continues (b : UInt8) : Bool := 0x80 ≤ b && b ≤ 0xBF
    if a < 0x80 then 1
    else if 0xC2 ≤ a && a ≤ 0xDF then
      match s with
      | b :: _ => if continues b then 2 else 0
      | _ => 0
    else if 0xE0 ≤ a && a ≤ 0xEF then
      match s with
      | b :: c :: _ =>
        if continues b && continues c && (a != 0xE0 || 0xA0 ≤ b)
          && (a != 0xED || b ≤ 0x9F) then 3 else 0
      | _ => 0
    else if 0xF0 ≤ a && a ≤ 0xF4 then
      match s with
      | b :: c :: d :: _ =>
        if continues b && continues c && continues d
          && (a != 0xF0 || 0x90 ≤ b) && (a != 0xF4 || b ≤ 0x8F)
        then 4 else 0
      | _ => 0
    else 0

def replacementChar : Nat := 0xFFFD

/-- `utf8.AppendRune`. -/
def encodeRune (r : Nat) : Text :=
  if r < 0x80 then [UInt8.ofNat r]
  else if r < 0x800 then
    [UInt8.ofNat (0xC0 + r / 64), UInt8.ofNat (0x80 + r % 64)]
  else if r < 0x10000 then
    [UInt8.ofNat (0xE0 + r / 4096), UInt8.ofNat (0x80 + r / 64 % 64),
      UInt8.ofNat (0x80 + r % 64)]
  else
    [UInt8.ofNat (0xF0 + r / 262144), UInt8.ofNat (0x80 + r / 4096 % 64),
      UInt8.ofNat (0x80 + r / 64 % 64), UInt8.ofNat (0x80 + r % 64)]

/-- `getu4`, of the text of an escape behind its backslash. -/
def getu4 : Text → Option Nat
  | e :: a :: b :: c :: d :: _ => if e = 117 then hex4 a b c d else none
  | _ => none

/-- The second half of a surrogate pair, at the front. -/
def lowSurrogate : Text → Option Nat
  | b :: s =>
    if b = backslash then
      (getu4 s).filter fun r => 0xDC00 ≤ r && r < 0xE000
    else none
  | [] => none

/-- The rune an escape `\u` stands for, and how many bytes it has behind
its backslash. -/
def unescape (r : Nat) (behind : Text) : Nat × Nat :=
  if r < 0xD800 || 0xE000 ≤ r then (r, 5)
  else
    match lowSurrogate behind with
    | some low =>
      if r < 0xDC00 then
        (0x10000 + (r - 0xD800) * 1024 + (low - 0xDC00), 11)
      else (replacementChar, 5)
    | none => (replacementChar, 5)

/-- The bytes a string stands for; the first argument counts the bytes that
are still to be passed over, the second those that are taken as they
are. -/
def unquoteFrom : Nat → Nat → Text → Text
  | _, _, [] => []
  | skip + 1, keep, _ :: s => unquoteFrom skip keep s
  | 0, keep + 1, b :: s => b :: unquoteFrom 0 keep s
  | 0, 0, b :: s =>
    if b = backslash then
      match getu4 s with
      | some r =>
        let (r, length) := unescape r (s.drop 5)
        encodeRune r ++ unquoteFrom length 0 s
      | none =>
        (s.head?.bind escape).toList ++ unquoteFrom 1 0 s
    else
      match runeLength (b :: s) with
      | 0 => encodeRune replacementChar ++ unquoteFrom 0 0 s
      | keep + 1 => b :: unquoteFrom 0 keep s

def unquote (raw : Text) : Text := unquoteFrom 0 0 raw

-- ======== UTF-8

/-- What the string stands for that `json.Marshal` writes of a text: the
runes of it, and U+FFFD for each byte that belongs to none. The first
argument counts the bytes that are taken as they are. -/
def marshaledFrom : Nat → Text → Text
  | _, [] => []
  | keep + 1, b :: s => b :: marshaledFrom keep s
  | 0, b :: s =>
    match runeLength (b :: s) with
    | 0 => encodeRune replacementChar ++ marshaledFrom 0 s
    | keep + 1 => b :: marshaledFrom keep s

def marshaled (s : Text) : Text := marshaledFrom 0 s

/-- `utf8.Valid`, behind so many bytes of a rune. -/
def validFrom : Nat → Text → Bool
  | _, [] => true
  | keep + 1, _ :: s => validFrom keep s
  | 0, b :: s =>
    match runeLength (b :: s) with
    | 0 => false
    | keep + 1 => validFrom keep s

def utf8Valid (s : Text) : Bool := validFrom 0 s

theorem marshaledFrom_cases (keep : Nat) (s : Text) :
    validFrom keep s = true ∧ marshaledFrom keep s = s
      ∨ validFrom keep s = false
        ∧ s.length < (marshaledFrom keep s).length := by
  induction s generalizing keep with
  | nil => exact .inl ⟨rfl, rfl⟩
  | cons b s ih =>
    have hkeep : ∀ keep, validFrom keep s = true
          ∧ b :: marshaledFrom keep s = b :: s
        ∨ validFrom keep s = false
          ∧ (b :: s).length < (b :: marshaledFrom keep s).length := by
      intro keep
      rcases ih keep with ⟨hvalid, hsame⟩ | ⟨hinvalid, hlt⟩
      · exact .inl ⟨hvalid, congrArg (b :: ·) hsame⟩
      · exact .inr ⟨hinvalid, Nat.succ_lt_succ hlt⟩
    cases keep with
    | succ keep => exact hkeep keep
    | zero =>
      unfold validFrom marshaledFrom
      cases runeLength (b :: s) with
      | succ keep => exact hkeep keep
      | zero =>
        refine .inr ⟨rfl, ?_⟩
        have hle : s.length ≤ (marshaledFrom 0 s).length := by
          rcases ih 0 with ⟨-, hsame⟩ | ⟨-, hlt⟩
          · rw [hsame]
          · exact Nat.le_of_lt hlt
        show s.length + 1 < (marshaledFrom 0 s).length + 3
        omega

/-- Texts that are encoded one by one come out as what they are together
exactly if each is well formed. -/
theorem flatten_marshaled_iff (texts : List Text) :
    (texts.map marshaled).flatten = texts.flatten
      ↔ ∀ s ∈ texts, utf8Valid s = true := by
  constructor
  · intro h
    have hlength : ((texts.map marshaled).flatten).length
        = texts.flatten.length := congrArg List.length h
    clear h
    -- no text gets shorter, so none gets longer
    have hle : ∀ texts : List Text, texts.flatten.length
        ≤ ((texts.map marshaled).flatten).length := by
      intro texts
      induction texts with
      | nil => exact Nat.le_refl _
      | cons s texts ih =>
        rw [List.map_cons, List.flatten_cons, List.flatten_cons,
          List.length_append, List.length_append]
        refine Nat.add_le_add ?_ ih
        rcases marshaledFrom_cases 0 s with ⟨-, hsame⟩ | ⟨-, hlt⟩
        · exact Nat.le_of_eq (congrArg List.length hsame.symm)
        · exact Nat.le_of_lt hlt
    induction texts with
    | nil => exact nofun
    | cons s texts ih =>
      rw [List.map_cons, List.flatten_cons, List.flatten_cons,
        List.length_append, List.length_append] at hlength
      have hrest := hle texts
      rcases marshaledFrom_cases 0 s with ⟨hvalid, hsame⟩ | ⟨-, hlt⟩
      · have hs : (marshaled s).length = s.length :=
          congrArg List.length hsame
        intro t ht
        rcases List.mem_cons.mp ht with rfl | ht
        · exact hvalid
        · exact ih (by omega) t ht
      · have hs : s.length < (marshaled s).length := hlt
        omega
  · intro h
    congr 1
    refine (List.map_congr_left fun s hs => ?_).trans (List.map_id texts)
    rcases marshaledFrom_cases 0 s with ⟨-, hsame⟩ | ⟨hinvalid, -⟩
    · exact hsame
    · have hvalid := h s hs
      unfold utf8Valid at hvalid
      rw [hinvalid] at hvalid
      cases hvalid

-- ======== decoding

def natOf (digits : Text) : Nat :=
  digits.foldl (fun n b => n * 10 + (b.toNat - 48)) 0

/-- The integer of a literal, if it is one of 64 bits. -/
def int (literal : Text) : Option Int :=
  let (sign, digits) := readSign [45] literal
  if digits.all isDigit && digits ≠ [] then
    let n : Int := if sign = [] then natOf digits else -natOf digits
    if -2 ^ 63 ≤ n ∧ n < 2 ^ 63 then some n else none
  else none

/-- A literal is a number that a `float64` can hold: it is less than the
number half way between the largest of them and 2^1024. -/
def fitsFloat (literal : Text) : Bool :=
  let (_, s) := readSign [45] literal
  let (integer, s) := s.span isDigit
  let (fraction, s) :=
    (s.drop (if s.head? = some 46 then 1 else 0)).span isDigit
  let (sign, exponent) := readSign [43, 45] (s.drop 1)
  let digits := natOf (integer ++ fraction)
  let bound : Nat := 2 ^ 1024 - 2 ^ 970
  if sign = [45] then
    digits < bound * 10 ^ (fraction.length + natOf exponent)
  else digits * 10 ^ natOf exponent < bound * 10 ^ fraction.length

mutual

/-- A value can be decoded without a type: its numbers all fit. -/
def fits : Json → Bool
  | .num literal => fitsFloat literal
  | .arr items => fitsItems items
  | .obj members => fitsMembers members
  | _ => true

def fitsItems : List Json → Bool
  | [] => true
  | value :: items => value.fits && fitsItems items

def fitsMembers : List (Text × Json) → Bool
  | [] => true
  | (_, value) :: members => value.fits && fitsMembers members

end

def decodeString (old : Text) : Json → Option Text
  | .null => some old
  | .str raw => some (unquote raw)
  | _ => none

/-- Decode into an `int`. -/
def decodeInt (old : Int) : Json → Option Int
  | .null => some old
  | .num literal => int literal
  | _ => none

/-- The members of a map by their names; one that comes again replaces the
one before. -/
def insertMembers (old : FinMap Text Json) (members : List (Text × Json)) :
    FinMap Text Json :=
  members.foldl (fun m (key, value) => m.insert (unquote key) value) old

/-- Decode into a `map[string]interface{}`; `null` leaves no map, which is
read like an empty one. -/
def decodeMap (old : FinMap Text Json) : Json → Option (FinMap Text Json)
  | .null => some ∅
  | .obj members =>
    if fitsMembers members then some (insertMembers old members) else none
  | _ => none

/-- A name without its case: `foldName`, of names that are matched against
ASCII ones. The long s and the Kelvin sign are an S and a K to it. -/
def foldName : Text → Text
  | 0xC5 :: 0xBF :: s => 83 :: foldName s
  | 0xE2 :: 0x84 :: 0xAA :: s => 75 :: foldName s
  | b :: s => (if 97 ≤ b && b ≤ 122 then b - 32 else b) :: foldName s
  | [] => []

/-- Decode into a struct: each member into the field it names, if there is
one. -/
def decodeFields {S : Type} (field : Text → Json → S → Option S) (old : S) :
    Json → Option S
  | .null => some old
  | .obj members =>
    members.foldlM (fun target (key, value) =>
      field (foldName (unquote key)) value target) old
  | _ => none

def isField (name : String) (key : Text) : Bool :=
  key = foldName (Text.ofString name)

end Json
