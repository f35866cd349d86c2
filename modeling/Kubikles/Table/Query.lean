/-
The search query of a list view (`parseQuery`,
frontend/src/utils/search/queryParser.ts).

# Patterns

Each pattern is written as what it takes of the front of a string: a class
that is repeated and followed by something outside of it takes all it can,
so only the pattern of a plain word, with what has to stand behind it, tries
shorter words (`wordLength`), and that of an expression tries its end
further and further (`regexEnd`). Whether `new RegExp` throws is a parameter
(`valid`).

# What is written

A query is written with a space between the conditions of a group and with
` OR ` between the groups (`printQuery`). Field names are case-insensitive:
they are kept in lower case.
-/
import Kubikles.Lib.JsString

namespace QueryParser

open JsString

-- ======== the model

/-- The value of a condition: a text, or an expression (`isRegex`). -/
inductive Value where
  | text (s : JsString)
  | regex (pattern flags : JsString)
deriving DecidableEq

structure Condition where
  field : Option JsString := none
  value : Value
deriving DecidableEq

/-- `[gimsuy]`. -/
def isFlag (u : UInt16) : Bool :=
  [103, 105, 109, 115, 117, 121].contains u

/-- `(?=\s|,|$)`. -/
def endsToken (s : JsString) : Bool :=
  s.head?.all fun u => isSpace u || u = 44

/-- Where `/(.+?)\/([gimsuy]*)?(?=\s|,|$)/` finds the slash behind the
pattern. -/
def regexEnd (body : JsString) : Option Nat :=
  (List.range body.length).find? fun p =>
    1 ≤ p && body[p]? = some 47
      && (body.take p).all (fun u => !isLineTerminator u)
      && endsToken ((body.drop (p + 1)).dropWhile isFlag)

/-- `matchRegexToken`, with what it consumes. -/
def matchRegexToken (valid : JsString → JsString → Bool) (str : JsString) :
    Option (Value × Nat) :=
  match str with
  | 47 :: body =>
    (regexEnd body).map fun p =>
      let pattern := body.take p
      let flags := (body.drop (p + 1)).takeWhile isFlag
      let consumed := p + 2 + flags.length
      (if valid pattern flags then .regex pattern flags
        else .text (str.take consumed), consumed)
  | _ => none

/-- `^"([^"]*)"`, or the same with another quote. -/
def quoted (quote : UInt16) (s : JsString) : Option JsString :=
  match s with
  | [] => none
  | u :: t =>
    if u = quote && t.contains quote then
      some (t.takeWhile fun v => v ≠ quote)
    else none

/-- `^[^\s,]+`. -/
def unquoted (s : JsString) : Option JsString :=
  match s.takeWhile fun u => !isSpace u && u ≠ 44 with
  | [] => none
  | value => some value

/-- The value behind a colon, with what it consumes. -/
def matchValue (valid : JsString → JsString → Bool) (s : JsString) :
    Option (Value × Nat) :=
  match matchRegexToken valid s with
  | some r => some r
  | none =>
    match (quoted 34 s).or (quoted 39 s) with
    | some value => some (.text value, value.length + 2)
    | none =>
      (unquoted s).map fun value => (.text value, value.length)

/-- `toLowerCase`, of the name of a field. -/
def lower (name : JsString) : JsString :=
  name.map fun u => if 65 ≤ u && u ≤ 90 then u + 32 else u

def matchFieldCondition (valid : JsString → JsString → Bool)
    (str : JsString) : Option (Condition × Nat) :=
  let name := str.takeWhile isWord
  match str.dropWhile isWord with
  | 58 :: afterColon =>
    if name = [] then none
    else
      (matchValue valid afterColon).map fun (value, consumed) =>
        ({ field := some (lower name), value },
          name.length + 1 + consumed)
  | _ => none

/-- `(?=\s|$|[a-zA-Z]+:)`. -/
def endsWord (s : JsString) : Bool :=
  s.head?.all isSpace
    || (s.head?.any isLetter && (s.dropWhile isLetter).head? = some 58)

/-- The longest word that `^([^\s:]+)(?=\s|$|[a-zA-Z]+:)` finds, if it is
not longer than this. -/
def wordLength (s : JsString) : Nat → Option Nat
  | 0 => none
  | n + 1 => if endsWord (s.drop (n + 1)) then some (n + 1) else wordLength s n

/-- A plain word: the pattern of a word, or else all up to the next white
space. -/
def matchPlain (s : JsString) : Option Nat :=
  let run := s.takeWhile fun u => !isSpace u && u ≠ 58
  match wordLength s run.length with
  | some n => some n
  | none =>
    match (s.takeWhile fun u => !isSpace u).length with
    | 0 => none
    | n => some n

/-- One turn of the loop of `parseSegment`. -/
def matchToken (valid : JsString → JsString → Bool) (remaining : JsString) :
    Option (Condition × Nat) :=
  match matchFieldCondition valid remaining with
  | some r => some r
  | none =>
    match matchRegexToken valid remaining with
    | some (value, consumed) => some ({ value }, consumed)
    | none =>
      (matchPlain remaining).map fun n =>
        ({ value := .text (remaining.take n) }, n)

theorem wordLength_pos {s : JsString} {n k : Nat}
    (h : wordLength s n = some k) : 0 < k := by
  induction n with
  | zero => cases h
  | succ n ih =>
    rw [wordLength] at h
    split at h
    · obtain rfl := Option.some.inj h
      exact Nat.succ_pos n
    · exact ih h

/-- Every turn of the loop consumes something. -/
theorem matchToken_pos {valid : JsString → JsString → Bool} {s : JsString}
    {c : Condition} {n : Nat} (h : matchToken valid s = some (c, n)) :
    0 < n := by
  unfold matchToken at h
  split at h
  next r hfield =>
    obtain rfl := Option.some.inj h
    unfold matchFieldCondition at hfield
    simp only at hfield
    split at hfield
    · split at hfield
      · cases hfield
      · obtain ⟨r, -, hr⟩ := Option.map_eq_some_iff.mp hfield
        obtain ⟨-, rfl⟩ := Prod.mk.inj hr
        omega
    · cases hfield
  · split at h
    next value consumed hregex =>
      obtain ⟨-, rfl⟩ := Prod.mk.inj (Option.some.inj h)
      unfold matchRegexToken at hregex
      split at hregex
      · obtain ⟨p, -, hp⟩ := Option.map_eq_some_iff.mp hregex
        obtain ⟨-, rfl⟩ := Prod.mk.inj hp
        omega
      · cases hregex
    · obtain ⟨k, hplain, hk⟩ := Option.map_eq_some_iff.mp h
      obtain ⟨-, rfl⟩ := Prod.mk.inj hk
      unfold matchPlain at hplain
      simp only at hplain
      split at hplain
      next hword =>
        obtain rfl := Option.some.inj hplain
        exact wordLength_pos hword
      · split at hplain
        · cases hplain
        next hzero =>
          obtain rfl := Option.some.inj hplain
          exact Nat.pos_of_ne_zero hzero

def parseSegment (valid : JsString → JsString → Bool)
    (remaining : JsString) : List Condition :=
  match _hmatch : matchToken valid (trimStart remaining) with
  | none => []
  | some (condition, consumed) =>
    condition
      :: parseSegment valid ((trimStart remaining).drop consumed)
termination_by remaining.length
decreasing_by
  have hpos := matchToken_pos _hmatch
  have hle := (List.dropWhile_sublist (l := remaining) isSpace).length_le
  have hne : trimStart remaining ≠ [] := by
    intro hnil
    rw [hnil] at _hmatch
    cases _hmatch
  have hlt := List.length_pos_iff.mpr hne
  rw [List.length_drop]
  unfold trimStart at hlt ⊢
  omega

/-- What is behind `\s+OR\s+`, in any case, at the front of a string. -/
def orAt (s : JsString) : Option JsString :=
  if s.head?.any isSpace then
    match s.dropWhile isSpace with
    | o :: r :: behind =>
      if (o = 79 || o = 111) && (r = 82 || r = 114)
          && behind.head?.any isSpace then
        some (behind.dropWhile isSpace)
      else none
    | _ => none
  else none

/-- What is before the first match in a string, and what is behind it. -/
def firstOr : JsString → Option (JsString × JsString)
  | [] => none
  | u :: s =>
    match orAt (u :: s) with
    | some behind => some ([], behind)
    | none => (firstOr s).map fun (before, behind) => (u :: before, behind)

theorem orAt_lt {s behind : JsString} (h : orAt s = some behind) :
    behind.length < s.length := by
  unfold orAt at h
  split at h
  · split at h
    next o r rest hdrop =>
      split at h
      · obtain rfl := Option.some.inj h
        have hle := (List.dropWhile_sublist (l := rest) isSpace).length_le
        have hlt := (List.dropWhile_sublist (l := s) isSpace).length_le
        rw [hdrop, List.length_cons, List.length_cons] at hlt
        omega
      · cases h
    · cases h
  · cases h

theorem firstOr_of_some {u : UInt16} {s behind : JsString}
    (h : orAt (u :: s) = some behind) :
    firstOr (u :: s) = some ([], behind) := by
  unfold firstOr
  rw [h]

theorem firstOr_of_none {u : UInt16} {s : JsString}
    (h : orAt (u :: s) = none) :
    firstOr (u :: s)
      = (firstOr s).map fun (before, behind) => (u :: before, behind) := by
  conv_lhs => unfold firstOr
  rw [h]

theorem firstOr_lt {s before behind : JsString}
    (h : firstOr s = some (before, behind)) :
    behind.length < s.length := by
  induction s generalizing before with
  | nil => cases h
  | cons u s ih =>
    cases hor : orAt (u :: s) with
    | some rest =>
      rw [firstOr_of_some hor] at h
      obtain ⟨-, heq⟩ := Prod.mk.inj (Option.some.inj h)
      rw [← heq]
      exact orAt_lt hor
    | none =>
      rw [firstOr_of_none hor] at h
      obtain ⟨p, hfirst, heq⟩ := Option.map_eq_some_iff.mp h
      obtain ⟨-, rfl⟩ := Prod.mk.inj heq
      exact Nat.lt_succ_of_lt (ih hfirst)

/-- `split(/\s+OR\s+/i)`. -/
def splitOr (s : JsString) : List JsString :=
  match _hfirst : firstOr s with
  | none => [s]
  | some (before, behind) => before :: splitOr behind
termination_by s.length
decreasing_by exact firstOr_lt _hfirst

def parseSegments (valid : JsString → JsString → Bool)
    (segments : List JsString) : List (List Condition) :=
  (segments.map fun segment => parseSegment valid (trim segment)).filter
    fun conditions => conditions ≠ []

def parseQuery (valid : JsString → JsString → Bool)
    (queryString : JsString) : List (List Condition) :=
  let query := trim queryString
  if query = [] then [] else parseSegments valid (splitOr query)

-- ======== what is written

/-- Letters and something behind a colon. -/
def IsField (w : JsString) : Prop :=
  ∃ name value, w = name ++ 58 :: value ∧ name ≠ [] ∧ value ≠ []
    ∧ ∀ u ∈ name, isLetter u = true

structure FieldName where
  name : JsString
  ne_nil : name ≠ []
  letters : ∀ u ∈ name, isLetter u = true

/-- A text without white space, commas and quotes that begins with no
slash. -/
structure Bare (s : JsString) : Prop where
  units : ∀ u ∈ s, isSpace u = false ∧ u ≠ 44 ∧ u ≠ 34 ∧ u ≠ 39
  head : s.head? ≠ some 47

inductive Written where
  | quoted (field : FieldName) (value : JsString)
      (noQuote : (34 : UInt16) ∉ value)
  | unquoted (field : FieldName) (value : JsString) (bare : Bare value)
  | word (w : JsString) (ne_nil : w ≠ []) (bare : Bare w)
      (notOr : w ≠ ofString "OR") (notField : ¬IsField w)

def Written.print : Written → JsString
  | .quoted field value _ => field.name ++ 58 :: 34 :: value ++ [34]
  | .unquoted field value _ => field.name ++ 58 :: value
  | .word w _ _ _ _ => w

def Written.condition : Written → Condition
  | .quoted field value _ | .unquoted field value _ =>
    { field := some (lower field.name), value := .text value }
  | .word w _ _ _ _ => { value := .text w }

/-- A group, with spaces between its conditions. -/
def printGroup (group : List Written) : JsString :=
  [32].intercalate (group.map Written.print)

/-- A query, with ` OR ` between its groups. -/
def printQuery (groups : List (List Written)) : JsString :=
  (ofString " OR ").intercalate (groups.map printGroup)

def conditions (groups : List (List Written)) : List (List Condition) :=
  groups.map fun group => group.map Written.condition

/-- A word is not cut: if there is a colon in it, it begins with one, or is
no name of a field with something behind it, and has before its first colon
one unit only, or something else than a letter. -/
def Uncut (w : JsString) : Prop :=
  let head := w.takeWhile fun u => u ≠ 58
  head = w ∨ head = []
    ∨ ((head.all isWord = true → w = head ++ [58])
      ∧ (head.length = 1 ∨ ∀ u ∈ head.getLast?, isLetter u = false))

/-- What is written by itself is read as it is meant: an unquoted value is
not empty, and a word is not cut. -/
def Written.Readable : Written → Prop
  | .quoted _ _ _ => True
  | .unquoted _ value _ => value ≠ []
  | .word w _ _ _ _ => Uncut w

/-- `or` in any case. -/
def isOr : JsString → Bool
  | [o, r] => (o = 79 || o = 111) && (r = 82 || r = 114)
  | _ => false

/-- A word that is `or`. -/
def Written.isOr : Written → Bool
  | .word w _ _ _ _ => QueryParser.isOr w
  | _ => false

/-- No quoted value has an `or` in any case between white space in it. -/
def Written.NoOr : Written → Prop
  | .quoted _ value _ => firstOr value = none
  | _ => True

/-- When a query is read as it is meant. -/
structure Fits (groups : List (List Written)) : Prop where
  /-- No group is empty. -/
  nonempty : ∀ group ∈ groups, group ≠ []
  readable : ∀ group ∈ groups, ∀ c ∈ group, c.Readable
  noOr : ∀ group ∈ groups, ∀ c ∈ group, c.NoOr
  /-- A word `or` with something before it in its group is the last of the
  query. -/
  words : ∀ before group behind, groups = before ++ group :: behind →
    ∀ first c rest, group = first ++ c :: rest → c.isOr = true →
      first = [] ∨ rest = [] ∧ behind = []

end QueryParser
