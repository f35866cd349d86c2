/-
Reading lines out of a stream (Go's `io` and `bufio`).

# The stream

A source gives its bytes in reads, each of at least one byte, and then EOF.
A `LimitReader` around it asks for no more bytes than it has left; once it
has none left, it is at its end without asking. A `bufio.Reader` around that
keeps what was read and not given on.

# The rule

What a reader has yet to give is one text (`pending`), however the source
cuts it. `ReadString` gives the first line of that text and leaves what is
behind it (`readString_eq`), so a loop over it can be reasoned about as one
over a text. The lines of a text that is cut off are the lines of the text,
cut off (`first_take`).
-/
import Kubikles.Lib.Text

namespace Bufio

-- ======== lines

/-- The text up to the first of these bytes, which belongs to it. -/
def line (delim : UInt8) (s : Text) : Text :=
  s.takeWhile (· ≠ delim) ++ (s.dropWhile (· ≠ delim)).take 1

def behind (delim : UInt8) (s : Text) : Text :=
  (s.dropWhile (· ≠ delim)).drop 1

def first (delim : UInt8) : Nat → Text → Text
  | 0, _ => []
  | n + 1, s => line delim s ++ first delim n (behind delim s)

variable {delim : UInt8} {s : Text}

theorem line_append_behind (delim : UInt8) (s : Text) :
    line delim s ++ behind delim s = s := by
  unfold line behind
  rw [List.append_assoc, List.take_append_drop,
    List.takeWhile_append_dropWhile]

theorem line_of_notMem (h : delim ∉ s) : line delim s = s := by
  have hall : ∀ b ∈ s, decide (b ≠ delim) = true := fun b hb =>
    decide_eq_true fun heq => h (heq ▸ hb)
  unfold line
  rw [List.takeWhile_eq_self_iff.mpr hall, List.dropWhile_eq_nil_iff.mpr hall]
  exact List.append_nil s

theorem behind_of_notMem (h : delim ∉ s) : behind delim s = [] := by
  have hall := line_append_behind delim s
  rw [line_of_notMem h] at hall
  exact List.append_right_eq_self.mp hall

theorem line_cut {front : Text} (h : delim ∉ front) (rest : Text) :
    line delim (front ++ delim :: rest) = front ++ [delim] := by
  have hall : ∀ b ∈ front, decide (b ≠ delim) = true := fun b hb =>
    decide_eq_true fun heq => h (heq ▸ hb)
  unfold line
  rw [List.takeWhile_append_of_pos hall, List.dropWhile_append_of_pos hall]
  simp

theorem behind_cut {front : Text} (h : delim ∉ front) (rest : Text) :
    behind delim (front ++ delim :: rest) = rest := by
  have hall := line_append_behind delim (front ++ delim :: rest)
  rw [line_cut h, List.append_assoc] at hall
  exact List.append_cancel_left (List.append_cancel_left hall)

theorem exists_cut (h : delim ∈ s) :
    ∃ front rest, delim ∉ front ∧ s = front ++ delim :: rest := by
  obtain ⟨front, rest, rfl, hnot⟩ := List.eq_append_cons_of_mem h
  exact ⟨front, rest, hnot, rfl⟩

theorem line_append (h : delim ∈ s) (t : Text) :
    line delim (s ++ t) = line delim s
      ∧ behind delim (s ++ t) = behind delim s ++ t := by
  obtain ⟨front, rest, hnot, rfl⟩ := exists_cut h
  rw [List.append_assoc, List.cons_append, line_cut hnot, line_cut hnot,
    behind_cut hnot, behind_cut hnot]
  exact ⟨rfl, rfl⟩

theorem line_ne_nil (h : s ≠ []) : line delim s ≠ [] := by
  by_cases hmem : delim ∈ s
  · obtain ⟨front, rest, hnot, rfl⟩ := exists_cut hmem
    rw [line_cut hnot]
    exact List.append_ne_nil_of_right_ne_nil _ (List.cons_ne_nil _ _)
  · rw [line_of_notMem hmem]
    exact h

theorem behind_lt (h : delim ∈ s) :
    (behind delim s).length < s.length := by
  obtain ⟨front, rest, hnot, rfl⟩ := exists_cut h
  rw [behind_cut hnot, List.length_append, List.length_cons]
  omega

@[simp] theorem first_nil (delim : UInt8) (n : Nat) :
    first delim n [] = [] := by
  induction n with
  | zero => rfl
  | succ n ih =>
    show line delim [] ++ first delim n (behind delim []) = []
    exact ih

theorem line_take (delim : UInt8) (n : Nat) (s : Text) :
    line delim (s.take n) = (line delim s).take n
      ∧ behind delim (s.take n)
        = (behind delim s).take (n - (line delim s).length) := by
  by_cases hmem : delim ∈ s
  · obtain ⟨front, rest, hnot, rfl⟩ := exists_cut hmem
    rw [line_cut hnot, behind_cut hnot, List.length_append,
      List.length_singleton]
    rcases Nat.lt_or_ge front.length n with hlt | hle
    · obtain ⟨n, rfl⟩ := Nat.exists_eq_add_of_lt hlt
      rw [Nat.add_assoc, List.take_length_add_append, List.take_succ_cons,
        line_cut hnot, behind_cut hnot, List.take_of_length_le (by simp)]
      exact ⟨rfl, by congr 1; omega⟩
    · have hcut : delim ∉ front.take n := fun h =>
        hnot (List.mem_of_mem_take h)
      rw [List.take_append_of_le_length hle,
        List.take_append_of_le_length hle, line_of_notMem hcut,
        behind_of_notMem hcut, Nat.sub_eq_zero_of_le (by omega)]
      exact ⟨rfl, rfl⟩
  · have hcut : delim ∉ s.take n := fun h => hmem (List.mem_of_mem_take h)
    rw [line_of_notMem hcut, behind_of_notMem hcut, line_of_notMem hmem,
      behind_of_notMem hmem, List.take_nil]
    exact ⟨rfl, rfl⟩

theorem first_take (delim : UInt8) (k n : Nat) (s : Text) :
    first delim k (s.take n) = (first delim k s).take n := by
  induction k generalizing n s with
  | zero => exact (List.take_nil).symm
  | succ k ih =>
    obtain ⟨hline, hbehind⟩ := line_take delim n s
    show line delim (s.take n) ++ first delim k (behind delim (s.take n))
      = (line delim s ++ first delim k (behind delim s)).take n
    rw [hline, hbehind, ih, List.take_append]

-- ======== readers

/-- A source: what its reads give, one after another. -/
structure Source where
  reads : List Text
  ne_nil : ∀ read ∈ reads, read ≠ []

def Source.bytes (source : Source) : Text := source.reads.flatten

/-- A `bufio.Reader` on an `io.LimitReader`: what is buffered, the bytes
that are left to ask for, and the reads that the source has yet to give. -/
structure Reader where
  buffered : Text
  left : Int
  reads : List Text

/-- `bufio.NewReader(io.LimitReader(source, n))`. -/
def Source.limit (source : Source) (n : Int) : Reader :=
  ⟨[], n, source.reads⟩

def Reader.pending (r : Reader) : Text :=
  r.buffered ++ r.reads.flatten.take r.left.toNat

/-- `ReadString`, from what is buffered: what is read, and whether it comes
with EOF. -/
def readString (delim : UInt8) (buffered : Text) (left : Int)
    (reads : List Text) : (Text × Bool) × Reader :=
  if delim ∈ buffered then
    ((line delim buffered, false), ⟨behind delim buffered, left, reads⟩)
  else
    match reads with
    | [] => ((buffered, true), ⟨[], left, []⟩)
    | read :: reads =>
      if left ≤ 0 then ((buffered, true), ⟨[], left, read :: reads⟩)
      else
        -- what does not fit stays with the source: nothing is left then
        let got := read.take left.toNat
        readString delim (buffered ++ got) (left - got.length) reads

def Reader.readString (r : Reader) (delim : UInt8) :
    (Text × Bool) × Reader :=
  Bufio.readString delim r.buffered r.left r.reads

theorem pending_read (left : Int) (read : Text) (reads : List Text) :
    (read.take left.toNat)
        ++ reads.flatten.take (left - (read.take left.toNat).length).toNat
      = (read :: reads).flatten.take left.toNat := by
  rw [List.flatten_cons, List.take_append, List.length_take]
  rcases Nat.le_total left.toNat read.length with hle | hle
  · rw [Nat.min_eq_left hle, Nat.sub_eq_zero_of_le hle]
    congr 2
    omega
  · rw [Nat.min_eq_right hle]
    congr 2
    omega

/-- The text that is read is the first line of what is to come, with EOF if
it has no end. -/
theorem readString_eq (r : Reader) (delim : UInt8) :
    (r.readString delim).1
        = (line delim r.pending, decide (delim ∉ r.pending))
      ∧ (r.readString delim).2.pending = behind delim r.pending := by
  obtain ⟨buffered, left, reads⟩ := r
  show (Bufio.readString delim buffered left reads).1 = _
    ∧ (Bufio.readString delim buffered left reads).2.pending = _
  unfold Reader.pending
  induction reads generalizing buffered left with
  | nil =>
    unfold Bufio.readString
    dsimp only
    rw [List.flatten_nil, List.take_nil, List.append_nil]
    by_cases hmem : delim ∈ buffered
    · rw [if_pos hmem, decide_eq_false (not_not.mpr hmem)]
      refine ⟨rfl, ?_⟩
      dsimp only
      rw [List.flatten_nil, List.take_nil, List.append_nil]
    · rw [if_neg hmem, line_of_notMem hmem, behind_of_notMem hmem,
        decide_eq_true hmem]
      exact ⟨rfl, List.take_nil⟩
  | cons read reads ih =>
    unfold Bufio.readString
    by_cases hmem : delim ∈ buffered
    · obtain ⟨hline, hbehind⟩ := line_append hmem
        ((read :: reads).flatten.take left.toNat)
      rw [if_pos hmem, hline, hbehind, decide_eq_false
        (not_not.mpr (List.mem_append_left _ hmem))]
      exact ⟨rfl, rfl⟩
    · rw [if_neg hmem]
      dsimp only
      by_cases hleft : left ≤ 0
      · rw [if_pos hleft, Int.toNat_of_nonpos hleft, List.take_zero,
          List.append_nil, line_of_notMem hmem, behind_of_notMem hmem,
          decide_eq_true hmem]
        exact ⟨rfl, rfl⟩
      · rw [if_neg hleft, ← pending_read, ← List.append_assoc]
        exact ih _ _

end Bufio
