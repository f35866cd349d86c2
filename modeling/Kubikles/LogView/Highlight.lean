/-
Search matches in the HTML of a log line (`highlightMatchesInHtml` of
frontend/src/components/shared/log-viewer/logUtils.ts).

# Expressions

A global expression, on one plain text, is what `exec` returns for each
`lastIndex` at which a search may start (`RegExp`): under the flag `u`, not
inside a surrogate pair. Its matches (`Finds`) are those of `matchAll`,
which goes on behind an empty match; the function stops at the first one.

# The walk

The result is kept as the pieces that are added to it, so that a mark that
was inserted is told from the text it is inserted in. `matchIdx` never
passes the number of the matches, so the loop ends at the end of the HTML,
and nothing of it remains to be copied.

# The argument

The walk counts positions, and is in a mark exactly at the positions that
its matches cover, an empty match all from its own on (`marks_walk`). These
are the positions of the plain text up to the first entity that the walk
does not know as one (`codeFlags_eq_iff`).
-/
import Kubikles.Lib.JsString
import Mathlib.Data.List.TakeWhile

namespace LogUtils

open JsString

-- ======== expressions

structure Match where
  start : Nat
  stop : Nat
deriving DecidableEq

/-- A global regular expression on a text of a length: what `exec` finds for
each `lastIndex`, where `matchAll` goes on behind an empty match, and the
positions at which a search may start. -/
structure RegExp (length : Nat) where
  exec : Nat → Option Match
  advance : Nat → Nat
  Stop : Nat → Prop
  stop_zero : Stop 0
  stop_stop {i : Nat} {m : Match} : Stop i → exec i = some m → Stop m.stop
  stop_advance {i : Nat} : Stop i → Stop (advance i)
  le_start {i : Nat} {m : Match} : Stop i → exec i = some m → i ≤ m.start
  start_le {i : Nat} {m : Match} :
    Stop i → exec i = some m → m.start ≤ m.stop
  stop_le {i : Nat} {m : Match} : Stop i → exec i = some m → m.stop ≤ length
  lt_advance (i : Nat) : i < advance i

variable {length : Nat} {re : RegExp length}

/-- The loop that finds all matches in the plain text. -/
def findMatches (re : RegExp length) (lastIndex : Nat)
    (h : re.Stop lastIndex) : List Match :=
  match hexec : re.exec lastIndex with
  | none => []
  | some m =>
    if m.start = m.stop then [m]
    else m :: findMatches re m.stop (re.stop_stop h hexec)
termination_by length + 1 - lastIndex
decreasing_by
  have hle := re.le_start h hexec
  have hstart := re.start_le h hexec
  have hstop := re.stop_le h hexec
  omega

/-- Where `matchAll` goes on behind a match. -/
def RegExp.next (re : RegExp length) (m : Match) : Nat :=
  if m.start = m.stop then re.advance m.stop else m.stop

/-- The expression finds a match from a position on. -/
inductive RegExp.FindsFrom (re : RegExp length) : Nat → Match → Prop
  | here {i : Nat} {m : Match} (h : re.exec i = some m) : re.FindsFrom i m
  | later {i : Nat} {m m' : Match} (h : re.exec i = some m)
      (hlater : re.FindsFrom (re.next m) m') : re.FindsFrom i m'

def RegExp.Finds (re : RegExp length) (m : Match) : Prop :=
  re.FindsFrom 0 m

/-- A position is covered by a match that is not empty. -/
def RegExp.Covers (re : RegExp length) (t : Nat) : Prop :=
  ∃ m, re.Finds m ∧ m.start ≤ t ∧ t < m.stop

def RegExp.FindsEmpty (re : RegExp length) : Prop :=
  ∃ m, re.Finds m ∧ m.start = m.stop

-- ======== the walk

/-- What is added to the result. -/
inductive Chunk where
  | openMark
  | closeMark
  | copy (s : JsString)
deriving DecidableEq

def Chunk.text : Chunk → JsString
  | .openMark => ofString "<mark class=\"bg-yellow-500/50 text-inherit\">"
  | .closeMark => ofString "</mark>"
  | .copy s => s

/-- Where the walk is in the plain text and in its matches, those that are
done left out. -/
structure Cursor where
  plainIdx : Nat := 0
  remaining : List Match
  inHighlight : Bool := false

namespace Cursor

/-- "Check if we need to start highlight". -/
def opens (c : Cursor) : Bool :=
  !c.inHighlight && c.remaining.head?.any fun m => c.plainIdx = m.start

/-- "Check if we need to end highlight", behind what stands for one
character. -/
def closes (c : Cursor) : Bool :=
  (c.inHighlight || c.opens)
    && c.remaining.head?.any fun m => c.plainIdx + 1 = m.stop

/-- Behind what stands for one character. -/
def next (c : Cursor) : Cursor :=
  { plainIdx := c.plainIdx + 1
    remaining := if c.closes then c.remaining.tail else c.remaining
    inHighlight := (c.inHighlight || c.opens) && !c.closes }

/-- An entity or a regular character is copied. -/
def copyText (c : Cursor) (s : JsString) : List Chunk :=
  (if c.opens then [.openMark] else []) ++ .copy s
    :: if c.closes then [.closeMark] else []

/-- A tag is copied, outside of any mark. -/
def copyTag (c : Cursor) (tag : JsString) : List Chunk :=
  if c.inHighlight then [.closeMark, .copy tag, .openMark] else [.copy tag]

end Cursor

/-- The tag at the front of the HTML, and what is behind it. -/
def tagAt (html : JsString) : Option (JsString × JsString) :=
  if html.head? = some 60 then
    (html.idxOf? 62).map fun tagEnd => html.splitAt (tagEnd + 1)
  else none

/-- The entity at the front of the HTML, and what is behind it. -/
def entityAt (html : JsString) : Option (JsString × JsString) :=
  if html.head? = some 38 then
    match html.idxOf? 59 with
    | none => none
    | some entityEnd =>
      if entityEnd < 10 then some (html.splitAt (entityEnd + 1)) else none
  else none

theorem splitAt_snd_lt {html behind piece : JsString} {n : Nat}
    (hne : html ≠ []) (h : html.splitAt (n + 1) = (piece, behind)) :
    behind.length < html.length := by
  rw [List.splitAt_eq] at h
  obtain ⟨-, rfl⟩ := Prod.mk.inj h
  have hpos := List.length_pos_iff.mpr hne
  rw [List.length_drop]
  omega

theorem tagAt_lt {html tag behind : JsString}
    (h : tagAt html = some (tag, behind)) :
    behind.length < html.length := by
  unfold tagAt at h
  split at h
  next hhead =>
    obtain ⟨n, -, hsplit⟩ := Option.map_eq_some_iff.mp h
    exact splitAt_snd_lt (by rintro rfl; cases hhead) hsplit
  · cases h

theorem entityAt_lt {html entity behind : JsString}
    (h : entityAt html = some (entity, behind)) :
    behind.length < html.length := by
  unfold entityAt at h
  split at h
  next hhead =>
    split at h
    · cases h
    · split at h
      · exact splitAt_snd_lt (by rintro rfl; cases hhead) (Option.some.inj h)
      · cases h
  · cases h

/-- The walk through the HTML and the plain text. -/
def walk (html : JsString) (c : Cursor) : List Chunk :=
  match html with
  | [] =>
    -- "Close any unclosed highlight"
    if c.inHighlight then [.closeMark] else []
  | u :: rest =>
    match _htag : tagAt (u :: rest) with
    | some (tag, behind) => c.copyTag tag ++ walk behind c
    | none =>
      match _hentity : entityAt (u :: rest) with
      | some (entity, behind) => c.copyText entity ++ walk behind c.next
      | none => c.copyText [u] ++ walk rest c.next
termination_by html.length
decreasing_by
  · exact tagAt_lt _htag
  · exact entityAt_lt _hentity
  · exact Nat.lt_succ_self _

/-- `highlightMatchesInHtml`, for the expression on the plain text. -/
def highlightMatchesInHtml (html : JsString)
    (searchRegex : Option (RegExp length)) : List Chunk :=
  match searchRegex with
  | none => [.copy html]
  | some re =>
    let found := findMatches re 0 re.stop_zero
    if found = [] then [.copy html] else walk html { remaining := found }

-- ======== what is asked

/-- What a rendering is made of. -/
inductive Piece where
  | tag (body : JsString) (closed : (62 : UInt16) ∉ body)
  /-- It stands for one character. -/
  | entity (name : JsString)
      (named : ∀ u ∈ name, u ≠ 59 ∧ u ≠ 60 ∧ u ≠ 38)
  | unit (u : UInt16) (ordinary : u ≠ 60 ∧ u ≠ 38)

def Piece.html : Piece → JsString
  | .tag body _ => 60 :: body ++ [62]
  | .entity name _ => 38 :: name ++ [59]
  | .unit u _ => [u]

/-- A sequence of pieces renders a plain text. -/
def Renders : List Piece → JsString → Prop
  | [], s => s = []
  | .tag _ _ :: pieces, s => Renders pieces s
  | .entity _ _ :: pieces, s => ∃ u s', s = u :: s' ∧ Renders pieces s'
  | .unit u _ :: pieces, s => ∃ s', s = u :: s' ∧ Renders pieces s'

structure Rendering (plainText : JsString) where
  pieces : List Piece
  renders : Renders pieces plainText

def htmlOf (pieces : List Piece) : JsString := pieces.flatMap Piece.html

/-- The result without the marks that were inserted. -/
def copied (chunks : List Chunk) : JsString :=
  chunks.flatMap fun
    | .copy s => s
    | _ => []

/-- The units of a result, and whether they are in a mark; none where marks
are nested, or are not closed. -/
def marks : Bool → List Chunk → Option (List (Bool × UInt16))
  | inMark, [] => if inMark then none else some []
  | inMark, .openMark :: chunks => if inMark then none else marks true chunks
  | inMark, .closeMark :: chunks =>
    if inMark then marks false chunks else none
  | inMark, .copy s :: chunks =>
    (marks inMark chunks).map (s.map (inMark, ·) ++ ·)

/-- The units of the pieces from a position on: those of a tag in no mark,
the others in one if their position is. -/
def flagged (inside : Nat → Bool) : Nat → List Piece →
    List (Bool × UInt16)
  | _, [] => []
  | t, .tag body h :: pieces =>
    (Piece.tag body h).html.map (false, ·) ++ flagged inside t pieces
  | t, piece :: pieces =>
    piece.html.map (inside t, ·) ++ flagged inside (t + 1) pieces

/-- The matches are marked: without the marks the result is the HTML again;
and the marks are not nested, have no tags in them, and hold the positions
that the matches cover. -/
structure Highlighted (re : RegExp length) (pieces : List Piece)
    (chunks : List Chunk) : Prop where
  html : copied chunks = htmlOf pieces
  marked : ∃ inside : Nat → Bool,
    (∀ t < length, inside t = true ↔ re.Covers t)
      ∧ marks false chunks = some (flagged inside 0 pieces)

/-- The positions from some on of the entities that are longer than the walk
looks. -/
def longEntities : Nat → List Piece → List Nat
  | _, [] => []
  | t, .tag _ _ :: pieces => longEntities t pieces
  | t, .unit _ _ :: pieces => longEntities (t + 1) pieces
  | t, .entity name _ :: pieces =>
    if name.length + 1 < 10 then longEntities (t + 1) pieces
    else t :: longEntities (t + 1) pieces

/-- There is no empty match but at the end of the text; and from a long
entity on, all positions are covered if there is an empty match, and none is
if there is not. -/
structure Fits (re : RegExp length) (pieces : List Piece) : Prop where
  empty : ∀ m, re.Finds m → m.start = m.stop → m.stop = length
  long : ∀ t ∈ longEntities 0 pieces, ∀ x, t ≤ x → x < length →
    (re.Covers x ↔ re.FindsEmpty)

end LogUtils
