/-
A page of a log, read from the stream (`readBoundedLogPage` in
pkg/k8s/podlogs.go).

# The argument

The loop goes over what the reader has yet to give (`page_eq`): as long as
what was read fits, the page is the lines that are wanted of it. The reader
gives one byte more than the limit. A line that is cut there makes the page
too long by that byte, so it is never taken for the last line of the log.

The limit is an `int64`. Behind the largest one the sum wraps, the reader is
at its end before it begins, and every log is read as an empty page.

# The pieces

`PodLog.readBoundedLogPage` is the same loop over the pieces of a body that
has arrived. Below the largest limit, both come to the same page
(`readBoundedLogPage_pieces`).
-/
import Kubikles.Lib.Reader
import Kubikles.PodLog.Merge

namespace BoundedPage

open Bufio (Source Reader first line behind)
open PodLog (LogError)
open Text (newline)

-- ======== the page

/-- The loop of `readBoundedLogPage`. -/
def readLines (byteLimit : Int) (maxLines lines : Int) (page : Text)
    (reader : Reader) : Except LogError Text :=
  if maxLines ≤ 0 ∨ lines < maxLines then
    let read := reader.readString newline
    let line := read.1.1
    if byteLimit < page.length + line.length then .error .pageTooLarge
    else if read.1.2 = true then .ok (page ++ line)
    else readLines byteLimit maxLines (lines + 1) (page ++ line) read.2
  else .ok page
termination_by reader.pending.length
decreasing_by
  next heof =>
    obtain ⟨hline, hrest⟩ := Bufio.readString_eq reader newline
    rw [hline] at heof
    rw [hrest]
    exact Bufio.behind_lt (of_decide_eq_false (Bool.eq_false_iff.mpr heof)
      |> not_not.mp)

def readBoundedLogPage (source : Source) (byteLimit : Int64)
    (maxLines : Int) : Except LogError Text :=
  readLines byteLimit.toInt maxLines 0 []
    (source.limit (byteLimit + 1).toInt)

/-- The first lines of a text, all of it if no number is given. -/
def firstLines (maxLines : Int) (s : Text) : Text :=
  if maxLines ≤ 0 then s else first newline maxLines.toNat s

structure PageRight (source : Source) (byteLimit : Int64)
    (maxLines : Int) : Prop where
  /-- It is the first lines, or there is none. -/
  either : readBoundedLogPage source byteLimit maxLines
        = .error .pageTooLarge
      ∨ readBoundedLogPage source byteLimit maxLines
        = .ok (firstLines maxLines source.bytes)
  short : ∀ page, readBoundedLogPage source byteLimit maxLines = .ok page →
    (page.length : Int) ≤ byteLimit.toInt
  /-- There is none exactly if the lines do not fit. -/
  fails : readBoundedLogPage source byteLimit maxLines
        = .error .pageTooLarge
      ↔ byteLimit.toInt
        < ((firstLines maxLines source.bytes).length : Int)

-- ======== the loop

variable {byteLimit maxLines lines : Int} {page s : Text}
variable {source : Source}

def wanted (maxLines lines : Int) (s : Text) : Text :=
  if maxLines ≤ 0 then s else first newline (maxLines - lines).toNat s

theorem wanted_more (h : maxLines ≤ 0 ∨ lines < maxLines) (s : Text) :
    wanted maxLines lines s
      = line newline s
        ++ wanted maxLines (lines + 1) (behind newline s) := by
  unfold wanted
  by_cases hall : maxLines ≤ 0
  · rw [if_pos hall, if_pos hall, Bufio.line_append_behind]
  · have hlt : lines < maxLines := h.resolve_left hall
    have hsucc : (maxLines - lines).toNat
        = (maxLines - (lines + 1)).toNat + 1 := by omega
    rw [if_neg hall, if_neg hall, hsucc]
    rfl

theorem wanted_enough (h : ¬ (maxLines ≤ 0 ∨ lines < maxLines))
    (s : Text) : wanted maxLines lines s = [] := by
  obtain ⟨hpos, hge⟩ := not_or.mp h
  unfold wanted
  rw [if_neg hpos, Int.toNat_of_nonpos (by omega)]
  rfl

@[simp] theorem wanted_nil (maxLines lines : Int) :
    wanted maxLines lines [] = [] := by
  unfold wanted
  split
  · rfl
  · exact Bufio.first_nil newline _

theorem wanted_take (maxLines lines : Int) (n : Nat) (s : Text) :
    wanted maxLines lines (s.take n)
      = (wanted maxLines lines s).take n := by
  unfold wanted
  split
  · rfl
  · exact Bufio.first_take newline _ n s

/-- The page that is made of a text, if it fits. -/
def fitting (byteLimit : Int) (page : Text) : Except LogError Text :=
  if byteLimit < page.length then .error .pageTooLarge else .ok page

theorem page_eq (reader : Reader) (hfit : (page.length : Int) ≤ byteLimit) :
    readLines byteLimit maxLines lines page reader
      = fitting byteLimit
          (page ++ wanted maxLines lines reader.pending) := by
  induction hn : reader.pending.length using Nat.strong_induction_on
    generalizing lines page reader with
  | _ n ih =>
    unfold readLines
    by_cases hmore : maxLines ≤ 0 ∨ lines < maxLines
    · obtain ⟨hline, hrest⟩ := Bufio.readString_eq reader newline
      rw [if_pos hmore, wanted_more hmore]
      simp only [hline]
      by_cases hlong : byteLimit
          < page.length + (line newline reader.pending).length
      · rw [if_pos hlong]
        unfold fitting
        rw [if_pos (by simp only [List.length_append]; push_cast; omega)]
      · rw [if_neg hlong]
        have hfits : ((page ++ line newline reader.pending).length : Int)
            ≤ byteLimit := by
          rw [List.length_append]
          push_cast
          omega
        by_cases hmem : newline ∈ reader.pending
        · rw [if_neg (by simpa using hmem),
            ih _ (by rw [hrest, ← hn]; exact Bufio.behind_lt hmem)
              _ hfits rfl, hrest, List.append_assoc]
        · rw [if_pos (by simpa using hmem),
            Bufio.behind_of_notMem hmem, wanted_nil, List.append_nil]
          unfold fitting
          rw [if_neg (Int.not_lt.mpr hfits)]
    · rw [if_neg hmore, wanted_enough hmore, List.append_nil]
      unfold fitting
      rw [if_neg (Int.not_lt.mpr hfit)]

theorem readLines_limit (hpos : 0 ≤ byteLimit) (n : Int) :
    readLines byteLimit maxLines 0 [] (source.limit n)
      = fitting byteLimit
          ((firstLines maxLines source.bytes).take n.toNat) := by
  rw [page_eq _ hpos, List.nil_append]
  show fitting byteLimit
    (wanted maxLines 0 ([] ++ source.bytes.take n.toNat)) = _
  rw [List.nil_append, wanted_take]
  unfold wanted firstLines
  rw [Int.sub_zero]

theorem fitting_take (hpos : 0 ≤ byteLimit) (page : Text) :
    fitting byteLimit (page.take (byteLimit + 1).toNat)
      = fitting byteLimit page := by
  unfold fitting
  rw [List.length_take]
  by_cases hlong : byteLimit < page.length
  · rw [if_pos hlong, if_pos (by omega)]
  · rw [if_neg hlong, if_neg (by omega),
      List.take_of_length_le (by omega)]

-- ======== the result

theorem limit_succ {byteLimit : Int64} (hpos : 0 ≤ byteLimit.toInt)
    (hlt : byteLimit.toInt < 2 ^ 63 - 1) :
    (byteLimit + 1).toInt = byteLimit.toInt + 1 := by
  rw [Int64.toInt_add]
  show Int.bmod (byteLimit.toInt + 1) (2 ^ 64) = _
  exact Int.bmod_eq_of_le (by omega) (by omega)

theorem readBoundedLogPage_eq {byteLimit : Int64}
    (hpos : 0 ≤ byteLimit.toInt) (hlt : byteLimit.toInt < 2 ^ 63 - 1)
    (source : Source) (maxLines : Int) :
    readBoundedLogPage source byteLimit maxLines
      = fitting byteLimit.toInt (firstLines maxLines source.bytes) := by
  unfold readBoundedLogPage
  rw [readLines_limit hpos, limit_succ hpos hlt, fitting_take hpos]

theorem readBoundedLogPage_wraps (source : Source) (maxLines : Int) :
    readBoundedLogPage source Int64.maxValue maxLines = .ok [] := by
  unfold readBoundedLogPage
  have hnone : (Int64.maxValue + 1).toInt.toNat = 0 := by decide
  rw [readLines_limit (by decide), hnone]
  rfl

theorem PageRight.of_fitting {byteLimit : Int64}
    (h : readBoundedLogPage source byteLimit maxLines
      = fitting byteLimit.toInt (firstLines maxLines source.bytes)) :
    PageRight source byteLimit maxLines := by
  unfold fitting at h
  by_cases hlong : byteLimit.toInt
      < ((firstLines maxLines source.bytes).length : Int)
  · rw [if_pos hlong] at h
    refine ⟨.inl h, fun page hpage => ?_, fun _ => hlong, fun _ => h⟩
    rw [h] at hpage
    cases hpage
  · rw [if_neg hlong] at h
    refine ⟨.inr h, fun page hpage => ?_, fun herr => ?_,
      fun hlt => absurd hlt hlong⟩
    · rw [h] at hpage
      cases hpage
      exact Int.not_lt.mp hlong
    · rw [h] at herr
      cases herr

theorem firstLines_ne_nil (maxLines : Int) (h : s ≠ []) :
    firstLines maxLines s ≠ [] := by
  unfold firstLines
  split
  · exact h
  next hpos =>
    have hsucc : maxLines.toNat = (maxLines.toNat - 1) + 1 := by omega
    rw [hsucc]
    exact List.append_ne_nil_of_left_ne_nil (Bufio.line_ne_nil h) _

/-- A log of two lines, the last one without an end, in two reads. -/
def twoLines : Source where
  reads := [Text.ofString "one\nt", Text.ofString "wo"]
  ne_nil := by decide

/-- The loop over pieces takes the lines that are wanted as well. -/
theorem readLines_split {n : Nat} (hfit : page.length ≤ n) (s : Text) :
    PodLog.readLines n maxLines none lines page (Text.split s)
      = fitting n (page ++ wanted maxLines lines s) := by
  induction hlength : s.length using Nat.strong_induction_on
    generalizing lines page s with
  | _ k ih =>
    by_cases hmore : maxLines ≤ 0 ∨ lines < maxLines
    · rw [wanted_more hmore]
      by_cases hmem : newline ∈ s
      · obtain ⟨front, rest, hnot, rfl⟩ := Bufio.exists_cut hmem
        rw [Text.split_line hnot, PodLog.readLines,
          if_neg (not_not.mpr hmore), Bufio.line_cut hnot,
          Bufio.behind_cut hnot]
        simp only [if_neg (Text.split_ne_nil rest)]
        by_cases hlong : n < page.length + (front ++ [newline]).length
        · rw [if_pos hlong]
          unfold fitting
          rw [if_pos (by simp only [List.length_append] at hlong ⊢; omega)]
        · rw [if_neg hlong]
          have hshorter : rest.length < k := by
            rw [← hlength, List.length_append, List.length_cons]
            omega
          rw [ih _ hshorter (by rw [List.length_append]; omega) rest rfl,
            List.append_assoc]
      · rw [Text.split_piece hmem, PodLog.readLines,
          if_neg (not_not.mpr hmore), Bufio.line_of_notMem hmem,
          Bufio.behind_of_notMem hmem, wanted_nil, List.append_nil]
        simp only [if_true]
        unfold fitting
        by_cases hlong : n < page.length + s.length
        · rw [if_pos hlong, if_pos (by rw [List.length_append]; omega)]
        · rw [if_neg hlong, if_neg (by rw [List.length_append]; omega)]
    · rw [wanted_enough hmore, List.append_nil]
      unfold fitting
      rw [if_neg (by omega)]
      cases hsplit : Text.split s with
      | nil => rfl
      | cons piece rest => rw [PodLog.readLines, if_pos hmore]

/-- However the source is cut into reads, below the largest limit the page is
the one that is made of its bytes as they arrive at once. -/
theorem readBoundedLogPage_pieces (source : Source) {byteLimit : Int64}
    (hpos : 0 ≤ byteLimit.toInt) (hlt : byteLimit.toInt < 2 ^ 63 - 1)
    (maxLines : Int) :
    PodLog.readBoundedLogPage ⟨source.bytes, none⟩ byteLimit.toInt.toNat
        maxLines
      = readBoundedLogPage source byteLimit maxLines := by
  have hlimit : (PodLog.Body.mk source.bytes none).limit
        (byteLimit.toInt.toNat + 1)
      = ⟨source.bytes.take (byteLimit.toInt.toNat + 1), none⟩ := by
    unfold PodLog.Body.limit
    split
    · rfl
    next hshort =>
      rw [List.take_of_length_le (Nat.le_of_lt (Nat.lt_of_not_le hshort))]
  have hnat : ((byteLimit.toInt.toNat : Nat) : Int) = byteLimit.toInt :=
    Int.toNat_of_nonneg hpos
  have hsucc : byteLimit.toInt.toNat + 1 = (byteLimit.toInt + 1).toNat := by
    omega
  rw [readBoundedLogPage_eq hpos hlt]
  unfold PodLog.readBoundedLogPage
  simp only [hlimit]
  rw [readLines_split (Nat.zero_le _), hnat, List.nil_append, wanted_take,
    hsucc, fitting_take hpos]
  unfold wanted firstLines
  rw [Int.sub_zero]

theorem readBoundedLogPage_pieces_twoLines :
    PodLog.readBoundedLogPage ⟨twoLines.bytes, none⟩ (4 : Int64).toInt.toNat 1
      = readBoundedLogPage twoLines 4 1 :=
  readBoundedLogPage_pieces twoLines (by decide) (by decide) 1

end BoundedPage
