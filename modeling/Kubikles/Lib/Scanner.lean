/-
Reading a text line by line (Go's `bufio.Scanner`).

The tokens of a text are its lines without their ends; a piece that no
newline follows is a token too, if there is anything in it. A piece that
fills the buffer ends the scan, and what is behind it is not read.
-/
import Kubikles.Lib.Text

namespace Scanner

open Text (newline)

variable {maxTokenSize : Nat} {pieces : List Text}

/-- `'\r'`. -/
def carriageReturn : UInt8 := 13

/-- `dropCR`: a carriage return belongs to the end of a line. -/
def dropCR (piece : Text) : Text :=
  if piece.getLast? = some carriageReturn then piece.dropLast else piece

/-- The tokens of a text out of the pieces between its newlines, and
whether there is one that does not fit the buffer. -/
def scanPieces (maxTokenSize : Nat) : List Text → List Text × Bool
  | [] => ([], false)
  | piece :: rest =>
    if maxTokenSize ≤ piece.length then ([], true)
    else if rest = [] ∧ piece = [] then ([], false)
    else
      let (tokens, long) := scanPieces maxTokenSize rest
      (dropCR piece :: tokens, long)

theorem dropCR_isBeginning (piece : Text) : dropCR piece <+: piece := by
  unfold dropCR
  split
  · exact List.dropLast_prefix piece
  · exact List.prefix_rfl

theorem dropCR_of_notMem {piece : Text} (h : carriageReturn ∉ piece) :
    dropCR piece = piece :=
  if_neg fun hlast => h (List.mem_of_getLast? hlast)

/-- What the scanner makes of pieces: the first of them, or all but the
empty one at the end. -/
theorem scanPieces_eq (maxTokenSize : Nat) (pieces : List Text)
    (piece : Text) :
    ∃ k, (scanPieces maxTokenSize (pieces ++ [piece])).1
        = ((pieces ++ [piece].filter (· ≠ [])).take k).map dropCR
      ∧ ((scanPieces maxTokenSize (pieces ++ [piece])).2 = false →
        pieces.length < k) := by
  induction pieces with
  | nil =>
    rw [List.nil_append, scanPieces]
    split
    · exact ⟨0, rfl, fun h => nomatch h⟩
    · split
      next hnil =>
        rw [hnil.2]
        exact ⟨1, rfl, fun _ => Nat.one_pos⟩
      next hne =>
        have hkeep : [piece].filter (· ≠ []) = [piece] := by
          refine List.filter_eq_self.mpr fun p hp => ?_
          rw [List.mem_singleton.mp hp]
          exact decide_eq_true fun h => hne ⟨rfl, h⟩
        rw [List.nil_append, hkeep]
        exact ⟨1, rfl, fun _ => Nat.one_pos⟩
  | cons p pieces ih =>
    obtain ⟨k, htokens, hall⟩ := ih
    rw [List.cons_append, scanPieces]
    split
    · exact ⟨0, rfl, fun h => nomatch h⟩
    · rw [if_neg fun h => List.append_ne_nil_of_right_ne_nil _
        (List.cons_ne_nil _ _) h.1]
      refine ⟨k + 1, ?_, fun h => Nat.succ_lt_succ (hall h)⟩
      rw [List.cons_append, List.take_succ_cons, List.map_cons, ← htokens]

/-- A token is a piece that fits the buffer, without its carriage
return. -/
theorem piece_of_token {token : Text}
    (h : token ∈ (scanPieces maxTokenSize pieces).1) :
    ∃ piece ∈ pieces, piece.length < maxTokenSize
      ∧ token = dropCR piece := by
  induction pieces with
  | nil => exact absurd h List.not_mem_nil
  | cons piece rest ih =>
    rw [scanPieces] at h
    split at h
    · exact absurd h List.not_mem_nil
    next hfits =>
      split at h
      · exact absurd h List.not_mem_nil
      · rcases List.mem_cons.mp h with rfl | h
        · exact ⟨piece, List.mem_cons_self .., not_le.mp hfits, rfl⟩
        · obtain ⟨piece', hmem, hpiece⟩ := ih h
          exact ⟨piece', List.mem_cons_of_mem _ hmem, hpiece⟩

theorem scanPieces_lines (h : ∀ piece ∈ pieces, piece.length < maxTokenSize) :
    (scanPieces maxTokenSize (pieces ++ [[]])).1 = pieces.map dropCR := by
  induction pieces with
  | nil =>
    rw [List.nil_append, scanPieces]
    split
    · rfl
    · rw [if_pos ⟨rfl, rfl⟩]
      rfl
  | cons piece rest ih =>
    rw [List.cons_append, scanPieces,
      if_neg (not_le.mpr (h piece (List.mem_cons_self ..))),
      if_neg fun hnil => List.append_ne_nil_of_right_ne_nil _
        (List.cons_ne_nil _ _) hnil.1, List.map_cons,
      ← ih fun p hp => h p (List.mem_cons_of_mem _ hp)]

/-- The lines of a text: what newlines end, and what is behind the last of
them, if there is anything. -/
def lines (s : Text) : List Text :=
  (Text.split s).dropLast
    ++ (Text.split s).getLast?.toList.filter (· ≠ [])

theorem lines_unlines {ls : List Text} (h : ∀ l ∈ ls, newline ∉ l) :
    lines (Text.unlines ls) = ls := by
  unfold lines
  rw [Text.split_unlines h, List.dropLast_concat, List.getLast?_concat]
  exact List.append_nil ls

theorem lines_join {ls : List Text} (h : ∀ l ∈ ls, newline ∉ l ∧ l ≠ []) :
    lines (Text.join ls) = ls := by
  rcases List.eq_nil_or_concat' ls with rfl | ⟨init, last, rfl⟩
  · rfl
  · have hlast := (h last (by simp)).2
    unfold lines
    rw [Text.split_join (fun l hl => (h l hl).1) (by simp),
      List.dropLast_concat, List.getLast?_concat]
    simp [hlast]

theorem lines_join_blank {ls : List Text} (h : ∀ l ∈ ls, newline ∉ l) :
    lines (Text.join (ls ++ [[]])) = ls := by
  have hall : ∀ l ∈ ls ++ [[]], newline ∉ l := by
    intro l hl
    rcases List.mem_append.mp hl with hl | hl
    · exact h l hl
    · rw [List.mem_singleton.mp hl]
      exact List.not_mem_nil
  unfold lines
  rw [Text.split_join hall (by simp), List.dropLast_concat,
    List.getLast?_concat]
  exact List.append_nil ls

theorem scanPieces_takeWhile (maxTokenSize : Nat) (pieces : List Text)
    (piece : Text) :
    (scanPieces maxTokenSize (pieces ++ [piece])).1
      = ((pieces ++ [piece].filter (· ≠ [])).takeWhile
        (·.length < maxTokenSize)).map dropCR := by
  induction pieces with
  | nil =>
    rw [List.nil_append, List.nil_append, scanPieces]
    by_cases hnil : piece = []
    · subst hnil
      split
      · rfl
      · rfl
    · have hkeep : [piece].filter (· ≠ []) = [piece] := by simp [hnil]
      rw [hkeep]
      by_cases hfits : piece.length < maxTokenSize
      · rw [if_neg (not_le.mpr hfits), if_neg fun h => hnil h.2,
          List.takeWhile_cons_of_pos (by simpa using hfits)]
        rfl
      · rw [if_pos (not_lt.mp hfits), List.takeWhile_cons_of_neg
          (by simpa using hfits)]
        rfl
  | cons p pieces ih =>
    rw [List.cons_append, List.cons_append, scanPieces]
    by_cases hfits : p.length < maxTokenSize
    · rw [if_neg (not_le.mpr hfits),
        if_neg fun h => List.append_ne_nil_of_right_ne_nil _
          (List.cons_ne_nil _ _) h.1,
        List.takeWhile_cons_of_pos (by simpa using hfits), List.map_cons,
        ← ih]
    · rw [if_pos (not_lt.mp hfits), List.takeWhile_cons_of_neg
        (by simpa using hfits)]
      rfl

theorem scanPieces_split (maxTokenSize : Nat) (s : Text) :
    (scanPieces maxTokenSize (Text.split s)).1
      = ((lines s).takeWhile (·.length < maxTokenSize)).map dropCR := by
  unfold lines
  rcases List.eq_nil_or_concat' (Text.split s) with hnil | ⟨init, last, h⟩
  · exact absurd hnil (Text.split_ne_nil s)
  · rw [h, List.dropLast_concat, List.getLast?_concat]
    exact scanPieces_takeWhile maxTokenSize init last

end Scanner
