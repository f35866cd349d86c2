/-
The lines of a log as they are parsed and copied (`parseLogLines` and
`logsToVisibleString` of
frontend/src/components/shared/log-viewer/logUtils.ts).

# Lines

The pattern of a line is a timestamp, any white space, and all that `.`
matches. Behind the one space that stands behind a timestamp, white space
may be the content's own (`\s*` takes it away), and what `.` does not match
ends the content. All of a content is kept exactly if it has neither
(`kept_eq_iff`).
-/
import Kubikles.Lib.JsString
import Mathlib.Data.List.TakeWhile

namespace LogUtils

open JsString

-- ======== the model

structure LogEntry where
  timestamp : JsString
  content : JsString
  source : String
deriving DecidableEq

/-- `\d{4}-\d{2}-\d{2}T\d{2}:\d{2}:\d{2}\.`, unit by unit. -/
def dateTime : List (UInt16 → Bool) :=
  let d := isDigit
  [d, d, d, d, (· == 45), d, d, (· == 45), d, d, (· == 84), d, d, (· == 58),
    d, d, (· == 58), d, d, (· == 46)]

def readClasses : List (UInt16 → Bool) → JsString →
    Option (JsString × JsString)
  | [], s => some ([], s)
  | _ :: _, [] => none
  | p :: ps, u :: s =>
    if p u then (readClasses ps s).map fun (a, b) => (u :: a, b) else none

/-- The first group of the pattern, and what is behind it. -/
def readTimestamp (line : JsString) : Option (JsString × JsString) :=
  match readClasses dateTime line with
  | none => none
  | some (front, s) =>
    match s.takeWhile isDigit, s.dropWhile isDigit with
    | [], _ => none
    | digits, 90 :: behind => some (front ++ digits ++ [90], behind)
    | _, _ => none

def parseLine (source : String) (line : JsString) : LogEntry :=
  match readTimestamp line with
  | some (timestamp, s) =>
    { timestamp
      content :=
        (s.dropWhile isSpace).takeWhile fun u => !isLineTerminator u
      source }
  | none => { timestamp := [], content := line, source }

def parseLogLines (rawLogs : JsString) (source : String) : List LogEntry :=
  if rawLogs = [] then []
  else
    ((rawLogs.splitOn 10).filter fun line => trim line ≠ []).map
      (parseLine source)

/-- What `logsToVisibleString` shows of an entry. -/
def visibleLine (showTimestamps : Bool) (entry : LogEntry) : JsString :=
  if showTimestamps && entry.timestamp ≠ [] then
    entry.timestamp ++ 32 :: entry.content
  else entry.content

def logsToVisibleString (logs : List LogEntry) (showTimestamps : Bool) :
    JsString :=
  [10].intercalate (logs.map (visibleLine showTimestamps))

-- ======== the law

/-- A text that the pattern takes for a timestamp. -/
def IsTimestamp (t : JsString) : Prop := readTimestamp t = some (t, [])

instance (t : JsString) : Decidable (IsTimestamp t) :=
  inferInstanceAs (Decidable (_ = _))

structure Line where
  timestamp : JsString
  content : JsString
  isTimestamp : IsTimestamp timestamp
  noNewline : (10 : UInt16) ∉ content

/-- `timestamp SP content`. -/
def Line.text (l : Line) : JsString := l.timestamp ++ 32 :: l.content

def textOf (lines : List Line) : JsString :=
  [10].intercalate (lines.map Line.text)

def contentsOf (lines : List Line) : JsString :=
  [10].intercalate (lines.map Line.content)

/-- What is asked of a log: it is the same again when it is copied, and with
its timestamps hidden it is its contents. -/
structure RoundTrip (lines : List Line) (source : String) : Prop where
  shown : logsToVisibleString (parseLogLines (textOf lines) source) true
    = textOf lines
  hidden : logsToVisibleString (parseLogLines (textOf lines) source) false
    = contentsOf lines

/-- A content that begins with no white space, and has no carriage return
or separator of lines or paragraphs in it. -/
structure Plain (content : JsString) : Prop where
  head : ∀ u ∈ content.head?, isSpace u = false
  units : ∀ u ∈ content, isLineTerminator u = false

-- ======== the lines

variable {t s : JsString} {l : Line} {lines : List Line} {source : String}

/-- What is matched is there, unit by unit of its classes, and what is behind
it does not matter. -/
theorem readClasses_spec {ps : List (UInt16 → Bool)} {front rest : JsString}
    (h : readClasses ps t = some (front, rest)) :
    t = front ++ rest
      ∧ (∀ s, readClasses ps (t ++ s) = some (front, rest ++ s))
      ∧ ∀ u ∈ front, ∃ p ∈ ps, p u = true := by
  induction ps generalizing t front with
  | nil =>
    obtain ⟨rfl, rfl⟩ := Prod.mk.inj (Option.some.inj h)
    exact ⟨rfl, fun _ => rfl, nofun⟩
  | cons p ps ih =>
    cases t with
    | nil => cases h
    | cons u t =>
      simp only [readClasses] at h
      split at h
      next hp =>
        obtain ⟨⟨a, b⟩, hread, hab⟩ := Option.map_eq_some_iff.mp h
        obtain ⟨rfl, rfl⟩ := Prod.mk.inj hab
        obtain ⟨rfl, happend, hunits⟩ := ih hread
        refine ⟨rfl, fun s => ?_, fun v hv => ?_⟩
        · rw [List.cons_append]
          simp only [readClasses]
          rw [if_pos hp, happend]
          rfl
        · rcases List.mem_cons.mp hv with rfl | hv
          · exact ⟨p, List.mem_cons_self, hp⟩
          · obtain ⟨q, hq, hqv⟩ := hunits v hv
            exact ⟨q, List.mem_cons_of_mem p hq, hqv⟩
      · cases h

theorem mem_takeWhile_isDigit {u : UInt16} (h : u ∈ s.takeWhile isDigit) :
    isDigit u = true := by
  have hall := List.all_takeWhile (p := isDigit) (l := s)
  exact List.all_eq_true.mp hall u h

theorem IsTimestamp.parts (h : IsTimestamp t) :
    ∃ front digits, t = front ++ digits ++ [90] ∧ digits ≠ []
      ∧ (∀ u ∈ digits, isDigit u = true)
      ∧ (∀ u ∈ front, ∃ p ∈ dateTime, p u = true)
      ∧ ∀ s, readClasses dateTime (t ++ s)
          = some (front, digits ++ 90 :: s) := by
  unfold IsTimestamp at h
  rw [readTimestamp] at h
  split at h
  · cases h
  next front rest hread =>
    obtain ⟨ht, happend, hunits⟩ := readClasses_spec hread
    cases hdigits : rest.takeWhile isDigit with
    | nil =>
      rw [hdigits] at h
      cases h
    | cons u digits =>
      rw [hdigits] at h
      split at h
      · contradiction
      next behind hdrop hne =>
        obtain ⟨htext, rfl⟩ := Prod.mk.inj (Option.some.inj h)
        have hrest : rest = (u :: digits) ++ [90] := by
          rw [← List.takeWhile_append_dropWhile (p := isDigit) (l := rest),
            hdigits, hdrop]
        refine ⟨front, u :: digits, htext.symm, nofun, fun v hv => ?_,
          hunits, fun s => ?_⟩
        · rw [← hdigits] at hv
          exact mem_takeWhile_isDigit hv
        · rw [happend, hrest, List.append_assoc]
          rfl
      · cases h

theorem readTimestamp_append (h : IsTimestamp t) (s : JsString) :
    readTimestamp (t ++ s) = some (t, s) := by
  obtain ⟨front, digits, ht, hne, hdigits, -, hread⟩ := h.parts
  have htake : (digits ++ 90 :: s).takeWhile isDigit = digits := by
    rw [List.takeWhile_append_of_pos hdigits]
    exact List.append_nil _
  have hdrop : (digits ++ 90 :: s).dropWhile isDigit = 90 :: s := by
    rw [List.dropWhile_append_of_pos hdigits]
    rfl
  rw [readTimestamp, hread]
  simp only [htake, hdrop]
  cases digits with
  | nil => exact absurd rfl hne
  | cons u digits => rw [ht]

theorem IsTimestamp.units (h : IsTimestamp t) :
    (90 : UInt16) ∈ t ∧ (10 : UInt16) ∉ t := by
  obtain ⟨front, digits, rfl, -, hdigits, hfront, -⟩ := h.parts
  refine ⟨List.mem_append_right _ List.mem_cons_self, fun hmem => ?_⟩
  rcases List.mem_append.mp hmem with hmem | hmem
  · rcases List.mem_append.mp hmem with hmem | hmem
    · obtain ⟨p, hp, hpu⟩ := hfront 10 hmem
      have hnone : dateTime.all (fun p => !p 10) = true := by decide
      have hpu' := List.all_eq_true.mp hnone p hp
      rw [hpu] at hpu'
      cases hpu'
    · exact absurd (hdigits 10 hmem) (by decide)
  · exact absurd hmem (by decide)

def kept (content : JsString) : JsString :=
  (content.dropWhile isSpace).takeWhile fun u => !isLineTerminator u

theorem kept_sublist (content : JsString) :
    (kept content).Sublist content :=
  (List.takeWhile_sublist fun u => !isLineTerminator u).trans
    (List.dropWhile_sublist isSpace)

/-- A line is read as its timestamp and what is kept of its content: the
space between them is white space like any other. -/
theorem parseLine_text (l : Line) (source : String) :
    parseLine source l.text
      = { timestamp := l.timestamp, content := kept l.content, source } := by
  unfold parseLine
  rw [Line.text, readTimestamp_append l.isTimestamp]
  show LogEntry.mk _ (((32 :: l.content).dropWhile isSpace).takeWhile _) _
    = _
  rw [List.dropWhile_cons_of_pos (by decide)]
  rfl

theorem kept_eq_iff {content : JsString} :
    kept content = content ↔ Plain content := by
  constructor
  · intro h
    have hlength := congrArg List.length h
    have htake := (List.takeWhile_sublist (l := content.dropWhile isSpace)
      (fun u => !isLineTerminator u)).length_le
    have hdrop := List.dropWhile_sublist (l := content) isSpace
    have hwhole : content.dropWhile isSpace = content := by
      apply hdrop.eq_of_length_le
      rw [kept] at hlength
      omega
    rw [kept, hwhole] at h
    refine ⟨trimStart_eq_iff.mp hwhole, fun u hu => ?_⟩
    simpa using List.takeWhile_eq_self_iff.mp h u hu
  · intro h
    rw [kept, show content.dropWhile isSpace = content from
      trimStart_eq_iff.mpr h.head]
    apply List.takeWhile_eq_self_iff.mpr
    intro u hu
    simp [h.units u hu]

-- ======== the logs

theorem Line.text_noNewline (l : Line) : (10 : UInt16) ∉ l.text := by
  intro h
  rcases List.mem_append.mp h with h | h
  · exact l.isTimestamp.units.2 h
  · rcases List.mem_cons.mp h with h | h
    · exact absurd h (by decide)
    · exact l.noNewline h

theorem Line.trim_text_ne_nil (l : Line) : trim l.text ≠ [] :=
  trim_ne_nil (List.mem_append_left _ l.isTimestamp.units.1) (by decide)

theorem intercalate_inj {ls ls' : List JsString}
    (hls : ∀ s ∈ ls, (10 : UInt16) ∉ s)
    (hls' : ∀ s ∈ ls', (10 : UInt16) ∉ s)
    (hlength : ls.length = ls'.length)
    (h : [(10 : UInt16)].intercalate ls = [10].intercalate ls') :
    ls = ls' := by
  by_cases hnil : ls = []
  · subst hnil
    exact (List.length_eq_zero_iff.mp hlength.symm).symm
  · have hnil' : ls' ≠ [] := by
      rintro rfl
      exact hnil (List.length_eq_zero_iff.mp hlength)
    rw [← List.splitOn_intercalate 10 hls hnil, h,
      List.splitOn_intercalate 10 hls' hnil']

theorem parseLogLines_textOf (lines : List Line) (source : String) :
    parseLogLines (textOf lines) source = lines.map fun l =>
      { timestamp := l.timestamp, content := kept l.content, source } := by
  cases lines with
  | nil => rfl
  | cons l lines =>
    have hsplit : (textOf (l :: lines)).splitOn 10
        = (l :: lines).map Line.text := by
      apply List.splitOn_intercalate
      · intro s hs
        obtain ⟨k, -, rfl⟩ := List.mem_map.mp hs
        exact k.text_noNewline
      · exact List.cons_ne_nil _ _
    have hne : textOf (l :: lines) ≠ [] := by
      intro hnil
      rw [hnil] at hsplit
      have hl := (List.cons.inj hsplit).1
      exact l.trim_text_ne_nil (by rw [← hl]; rfl)
    rw [parseLogLines, if_neg hne, hsplit, List.filter_eq_self.mpr,
      List.map_map]
    · exact List.map_congr_left fun k _ => parseLine_text k source
    · intro s hs
      obtain ⟨k, -, rfl⟩ := List.mem_map.mp hs
      exact decide_eq_true k.trim_text_ne_nil

theorem shown_eq (lines : List Line) (source : String) :
    logsToVisibleString (parseLogLines (textOf lines) source) true
      = [10].intercalate
          (lines.map fun l => l.timestamp ++ 32 :: kept l.content) := by
  rw [parseLogLines_textOf, logsToVisibleString, List.map_map]
  congr 1
  apply List.map_congr_left
  intro l _
  have hne : l.timestamp ≠ [] := List.ne_nil_of_mem l.isTimestamp.units.1
  exact if_pos (by simp [hne])

theorem hidden_eq (lines : List Line) (source : String) :
    logsToVisibleString (parseLogLines (textOf lines) source) false
      = [10].intercalate (lines.map fun l => kept l.content) := by
  rw [parseLogLines_textOf, logsToVisibleString, List.map_map]
  rfl

/-- A log comes through exactly if all of its contents are plain. -/
theorem roundTrip_iff_plain (lines : List Line) (source : String) :
    RoundTrip lines source ↔ ∀ l ∈ lines, Plain l.content := by
  constructor
  · intro h l hl
    have hhidden := h.hidden
    rw [hidden_eq, contentsOf] at hhidden
    have hmaps := intercalate_inj ?_ ?_ ?_ hhidden
    · exact kept_eq_iff.mp (List.map_inj_left.mp hmaps l hl)
    · intro s hs hmem
      obtain ⟨k, -, rfl⟩ := List.mem_map.mp hs
      exact k.noNewline ((kept_sublist k.content).mem hmem)
    · intro s hs
      obtain ⟨k, -, rfl⟩ := List.mem_map.mp hs
      exact k.noNewline
    · rw [List.length_map, List.length_map]
  · intro h
    have hkept : ∀ l ∈ lines, kept l.content = l.content :=
      fun l hl => kept_eq_iff.mpr (h l hl)
    constructor
    case shown =>
      rw [shown_eq, textOf]
      congr 1
      apply List.map_congr_left
      intro l hl
      rw [hkept l hl]
      rfl
    case hidden =>
      rw [hidden_eq, contentsOf]
      congr 1
      exact List.map_congr_left hkept

def indented : Line where
  timestamp := ofString "2024-11-26T14:30:00.1Z"
  content := ofString "  at f"
  isTimestamp := by decide
  noNewline := by decide

/-- It comes out without its indentation. -/
theorem indentation_lost : ¬RoundTrip [indented] "initial" := by
  intro h
  exact absurd h.hidden (by decide)

end LogUtils
