/-
Texts as the bytes they are, and the functions of Go's `strings` and
`bufio` that cut them into lines.

A line is ended by a newline or by the end of the text, so a text that
ends in a newline splits into its lines and one empty piece behind them
(`split_unlines`). What a loop over lines has to know is what splitting
does at the next newline (`split_line`).

# Paths

Paths with slashes (Go's package `path`).

A path is cleaned by going through its elements: empty ones and `.` are
left out, and `..` takes away the one before it, unless there is none.
-/
import Mathlib.Data.List.Lex
import Mathlib.Data.List.DropRight

/-- A Go string: its bytes. -/
abbrev Text := List UInt8

/-- Bytes are ordered by value, and with them texts, byte by byte. -/
instance byteOrder : LinearOrder UInt8 where
  le_refl := UInt8.le_refl
  le_trans := fun _ _ _ => UInt8.le_trans
  lt_iff_le_not_ge a b := by
    rw [UInt8.not_le]
    exact ⟨fun h => ⟨UInt8.le_of_lt h, h⟩, fun h => h.2⟩
  le_antisymm := fun _ _ => UInt8.le_antisymm
  le_total := UInt8.le_total
  toDecidableLE := inferInstance

namespace Text

def ofString (s : String) : Text := s.toUTF8.data.toList

/-- `'\n'`. -/
def newline : UInt8 := 10

/-- `' '`. -/
def space : UInt8 := 32

/-- `strings.TrimPrefix`. -/
def trimPrefix (s front : Text) : Text :=
  if front.isPrefixOf s then s.drop front.length else s

/-- `strings.Split(s, "\n")`. -/
def split (s : Text) : List Text := s.splitOn newline

/-- `strings.Join(lines, "\n")`. -/
def join (lines : List Text) : Text := [newline].intercalate lines

def unlines (lines : List Text) : Text := lines.flatMap (· ++ [newline])

@[simp] theorem unlines_nil : unlines [] = [] := rfl

theorem unlines_cons (l : Text) (lines : List Text) :
    unlines (l :: lines) = l ++ newline :: unlines lines := by
  simp [unlines]

theorem unlines_append (lines lines' : List Text) :
    unlines (lines ++ lines') = unlines lines ++ unlines lines' :=
  List.flatMap_append

theorem split_line {l : Text} (h : newline ∉ l) (s : Text) :
    split (l ++ newline :: s) = l :: split s := by
  unfold split
  rw [List.splitOn_append_cons_self_of_not_mem h]

theorem split_piece {l : Text} (h : newline ∉ l) : split l = [l] :=
  List.splitOn_eq_singleton h

theorem split_unlines_append {lines : List Text}
    (h : ∀ l ∈ lines, newline ∉ l) (s : Text) :
    split (unlines lines ++ s) = lines ++ split s := by
  induction lines with
  | nil => rfl
  | cons l lines ih =>
    rw [unlines_cons, List.append_assoc, List.cons_append,
      split_line (h l (List.mem_cons_self ..)),
      ih fun m hm => h m (List.mem_cons_of_mem _ hm)]
    rfl

theorem split_unlines {lines : List Text} (h : ∀ l ∈ lines, newline ∉ l) :
    split (unlines lines) = lines ++ [[]] := by
  have hsplit := split_unlines_append h []
  rw [List.append_nil] at hsplit
  exact hsplit

theorem split_take_unlines {lines : List Text}
    (h : ∀ l ∈ lines, newline ∉ l) (n : Nat) :
    ∃ k piece, split ((unlines lines).take n) = lines.take k ++ [piece]
      ∧ (piece ≠ [] → ∃ l, lines[k]? = some l ∧ piece <+: l) := by
  induction lines generalizing n with
  | nil => exact ⟨0, [], by rw [unlines_nil, List.take_nil]; rfl, absurd rfl⟩
  | cons l lines ih =>
    have hl := h l (List.mem_cons_self ..)
    rw [unlines_cons]
    rcases Nat.lt_or_ge l.length n with hlt | hle
    · obtain ⟨n, rfl⟩ := Nat.exists_eq_add_of_lt hlt
      obtain ⟨k, piece, hsplit, hpiece⟩ :=
        ih (fun m hm => h m (List.mem_cons_of_mem _ hm)) n
      refine ⟨k + 1, piece, ?_, hpiece⟩
      rw [Nat.add_assoc, List.take_length_add_append, List.take_succ_cons,
        split_line hl, hsplit]
      rfl
    · refine ⟨0, l.take n, ?_, fun _ => ⟨l, rfl, List.take_prefix n l⟩⟩
      rw [List.take_append_of_le_length hle,
        split_piece fun hmem => hl (List.mem_of_mem_take hmem)]
      rfl

theorem split_join {lines : List Text} (h : ∀ l ∈ lines, newline ∉ l)
    (hne : lines ≠ []) : split (join lines) = lines :=
  List.splitOn_intercalate newline h hne

theorem flatten_splitOn (c : UInt8) (s : Text) :
    (s.splitOn c).flatten = s.filter (· ≠ c) := by
  induction s with
  | nil => rfl
  | cons b s ih =>
    have hsplit : (b :: s).splitOn c = if b == c then [] :: s.splitOn c
        else (s.splitOn c).modifyHead (List.cons b) := by
      unfold List.splitOn
      exact List.splitOnP_cons_eq_if_modifyHead b s
    rw [hsplit]
    split
    next hb =>
      have hdrop : ¬ decide (b ≠ c) = true := fun h =>
        absurd (beq_iff_eq.mp hb) (of_decide_eq_true h)
      rw [List.flatten_cons, List.nil_append, ih, List.filter_cons,
        if_neg hdrop]
    next hb =>
      obtain ⟨piece, rest, hcons⟩ :=
        List.exists_cons_of_ne_nil (List.splitOn_ne_nil c s)
      rw [hcons, List.flatten_cons] at ih
      have hkeep : decide (b ≠ c) = true :=
        decide_eq_true fun h => hb (beq_iff_eq.mpr h)
      rw [hcons, List.modifyHead_cons, List.flatten_cons, List.cons_append,
        ih, List.filter_cons, if_pos hkeep]

theorem splitOn_intercalate (c : UInt8) {texts : List Text}
    (hne : texts ≠ []) :
    ([c].intercalate texts).splitOn c = texts.flatMap (·.splitOn c) := by
  induction texts with
  | nil => exact absurd rfl hne
  | cons text rest ih =>
    rw [List.flatMap_cons]
    cases rest with
    | nil => rw [List.intercalate_singleton, List.flatMap_nil,
        List.append_nil]
    | cons text' rest =>
      rw [List.intercalate_cons_cons, List.append_assoc,
        List.singleton_append, List.splitOn_append_cons_self,
        ih (List.cons_ne_nil _ _)]

theorem newline_notMem_split {s l : Text} (h : l ∈ split s) :
    newline ∉ l := by
  intro hmem
  have hflat : newline ∈ (s.splitOn newline).flatten :=
    List.mem_flatten.mpr ⟨l, h, hmem⟩
  rw [flatten_splitOn] at hflat
  exact of_decide_eq_true (List.mem_filter.mp hflat).2 rfl

theorem split_ne_nil (s : Text) : split s ≠ [] :=
  List.splitOn_ne_nil newline s

theorem exists_lines (s : Text) :
    ∃ lines piece, split s = lines ++ [piece] ∧ s = unlines lines ++ piece
      ∧ (∀ l ∈ lines, newline ∉ l) ∧ newline ∉ piece := by
  have hjoin : ∀ (lines : List Text) (piece : Text),
      join (lines ++ [piece]) = unlines lines ++ piece := by
    intro lines piece
    unfold join
    induction lines with
    | nil => exact List.intercalate_singleton
    | cons l lines ih =>
      obtain ⟨l', lines', hcons⟩ : ∃ l' lines', lines ++ [piece]
          = l' :: lines' :=
        List.exists_cons_of_ne_nil (by simp)
      rw [List.cons_append, hcons, List.intercalate_cons_cons, ← hcons, ih,
        unlines_cons]
      simp
  rcases List.eq_nil_or_concat' (split s) with hnil | ⟨lines, piece, h⟩
  · exact absurd hnil (split_ne_nil s)
  · have hall : ∀ l ∈ lines ++ [piece], newline ∉ l :=
      fun l hl => newline_notMem_split (h ▸ hl)
    refine ⟨lines, piece, h, ?_, fun l hl => hall l ?_, hall piece ?_⟩
    · rw [← hjoin, ← h]
      exact (List.intercalate_splitOn newline).symm
    · exact List.mem_append_left _ hl
    · exact List.mem_append_right _ (List.mem_singleton_self piece)

/-- Where each text of some is another or shorter, what is joined of them
is the same or shorter. -/
theorem join_map_shorter {α : Type} (f g : α → Text) {xs : List α}
    (h : ∀ x ∈ xs, f x = g x ∨ (f x).length < (g x).length) :
    (∀ x ∈ xs, f x = g x)
      ∨ (join (xs.map f)).length < (join (xs.map g)).length := by
  unfold join
  induction xs with
  | nil => exact Or.inl fun x hx => absurd hx List.not_mem_nil
  | cons x xs ih =>
    have hx := h x (List.mem_cons_self ..)
    cases xs with
    | nil =>
      rw [List.map_singleton, List.map_singleton,
        List.intercalate_singleton, List.intercalate_singleton]
      refine hx.imp_left fun heq y hy => ?_
      rw [List.mem_singleton.mp hy, heq]
    | cons y xs =>
      have hrest := ih fun z hz => h z (List.mem_cons_of_mem _ hz)
      rw [List.map_cons, List.map_cons, List.map_cons, List.map_cons,
        List.intercalate_cons_cons, List.intercalate_cons_cons,
        List.length_append, List.length_append, List.length_append,
        List.length_append, ← List.map_cons, ← List.map_cons]
      rcases hx with hx | hx
      · rcases hrest with hrest | hrest
        · refine Or.inl fun z hz => ?_
          rcases List.mem_cons.mp hz with rfl | hz
          · exact hx
          · exact hrest z hz
        · rw [hx]
          exact Or.inr (by omega)
      · rcases hrest with hrest | hrest
        · rw [List.map_congr_left hrest]
          exact Or.inr (by omega)
        · exact Or.inr (by omega)

theorem join_map_eq_iff {α : Type} (f g : α → Text) {xs : List α}
    (h : ∀ x ∈ xs, f x = g x ∨ (f x).length < (g x).length) :
    join (xs.map f) = join (xs.map g) ↔ ∀ x ∈ xs, f x = g x := by
  constructor
  · intro heq
    refine (join_map_shorter f g h).resolve_right fun hlt => ?_
    rw [heq] at hlt
    exact lt_irrefl _ hlt
  · intro hall
    rw [List.map_congr_left hall]

end Text

namespace Path

-- ======== elements

/-- `'/'`. -/
def slash : UInt8 := 47

/-- `"."`. -/
def dot : Text := [46]

/-- `".."`. -/
def dotDot : Text := [46, 46]

/-- An element behind those that are kept, the last of them first. -/
def push (rooted : Bool) (kept : List Text) (element : Text) : List Text :=
  if element = [] ∨ element = dot then kept
  else if element = dotDot then
    match kept with
    | [] => if rooted then [] else [dotDot]
    | last :: before =>
      if last = dotDot then dotDot :: last :: before else before
  else element :: kept

-- ======== paths

/-- `path.Clean`. -/
def clean (p : Text) : Text :=
  let rooted := p.head? = some slash
  let kept := ((p.splitOn slash).foldl (push rooted) []).reverse
  let cleaned := (if rooted then [slash] else []) ++ [slash].intercalate kept
  if cleaned = [] then dot else cleaned

def front (p : Text) : Text := p.rdropWhile (· ≠ slash)

/-- `path.Dir`. -/
def dir (p : Text) : Text := clean (front p)

/-- `path.Base`. -/
def base (p : Text) : Text :=
  if p = [] then dot
  else
    let element := (p.rdropWhile (· = slash)).rtakeWhile (· ≠ slash)
    if element = [] then [slash] else element

end Path
