/-
Which resources of a manifest are found.

# The argument

For the scanner a document ends in front of every line that starts with
`---`, be it a separator or not. So a manifest falls into pieces, one or
more for each document (`Manifest.blocks`), with the separator of the
scanner between them (`Manifest.text_eq`), and they are read up to the
first that does not fit the buffer. If no piece has a resource that its
document does not have, what is found is the resources of the documents
exactly if each of these is found in a piece that is read
(`parseManifestResources_complete_iff`).
-/
import Kubikles.Helm.Manifest

namespace Helm

open Text (newline)

-- ======== manifests

def isBlank (b : UInt8) : Bool := b = 32 || b = 9 || b = 13

def IsComment (s : Text) : Prop :=
  ∃ blanks rest, s = blanks ++ rest ∧ (∀ b ∈ blanks, isBlank b = true)
    ∧ (rest = [] ∨ blanks ≠ [] ∧ rest.head? = some 35)

def IsSeparator (line : Text) : Prop :=
  ∃ comment, line = separator ++ comment ∧ IsComment comment

structure Document where
  lines : List Text
  cut : ∀ l ∈ lines, newline ∉ l
  whole : ∀ l ∈ lines, ¬IsSeparator l

/-- What is behind the dashes of a separator. -/
structure Comment where
  comment : Text
  cut : newline ∉ comment
  isComment : IsComment comment

/-- Documents, with separators between them. -/
structure Manifest where
  first : Document
  rest : List (Comment × Document)

namespace Manifest

def lines (m : Manifest) : List Text :=
  m.first.lines ++ m.rest.flatMap fun e =>
    (separator ++ e.1.comment) :: e.2.lines

def text (m : Manifest) : Text := Text.join m.lines

def documents (m : Manifest) : List Document :=
  m.first :: m.rest.map Prod.snd

end Manifest

/-- The resource of a document: that of the object it is decoded into, if
there is anything in it. -/
def Document.resource (yaml : Yaml) (defaultNamespace : Text)
    (d : Document) : Option ResourceReference :=
  if Text.join d.lines = [] then none
  else
    (yaml (Text.join d.lines)).bind
      (ManifestObject.reference defaultNamespace)

/-- The resources that are found are those of the documents, in their
order. -/
def Complete (yaml : Yaml) (defaultNamespace : Text) (m : Manifest) :
    Prop :=
  parseManifestResources yaml m.text defaultNamespace
    = m.documents.filterMap (Document.resource yaml defaultNamespace)

-- ======== pieces

/-- The lines of a document, cut in front of each that starts with a
separator, which is taken off; `piece` are those of the piece so far. -/
def pieces (piece : List Text) : List Text → List (List Text)
  | [] => [piece]
  | l :: ls =>
    if separator.isPrefixOf l then
      piece :: pieces [l.drop separator.length] ls
    else pieces (piece ++ [l]) ls

def tokens (line : Text) (lines : List Text) : List Text :=
  (pieces [line] lines).map Text.join

namespace Manifest

/-- The pieces of each document. Before the first one no separator is taken
off. -/
def blocks (m : Manifest) : List (Document × List Text) :=
  match m.first.lines, m.rest with
  | l :: ls, rest =>
    (m.first, tokens l ls)
      :: rest.map fun e => (e.2, tokens e.1.comment e.2.lines)
  | [], [] => [(m.first, [])]
  | [], e :: rest =>
    (m.first, []) :: (e.2, tokens (separator ++ e.1.comment) e.2.lines)
      :: rest.map fun e => (e.2, tokens e.1.comment e.2.lines)

end Manifest

/-- A document of lines that do not start with a separator is one
piece. -/
theorem tokens_of_plain (line : Text) {lines : List Text}
    (h : ∀ l ∈ lines, ¬separator <+: l) :
    tokens line lines = [Text.join (line :: lines)] := by
  have hpieces : ∀ piece, pieces piece lines = [piece ++ lines] := by
    induction lines with
    | nil =>
      intro piece
      rw [pieces, List.append_nil]
    | cons l ls ih =>
      intro piece
      have hl : ¬separator.isPrefixOf l = true := fun hl =>
        h l List.mem_cons_self (List.isPrefixOf_iff_prefix.mp hl)
      rw [pieces, if_neg hl,
        ih fun l hl => h l (List.mem_cons_of_mem _ hl),
        List.append_assoc]
      rfl
  unfold tokens
  rw [hpieces]
  rfl

theorem pieces_append (piece ls : List Text) (comment : Text)
    (ls' : List Text) :
    pieces piece (ls ++ (separator ++ comment) :: ls')
      = pieces piece ls ++ pieces [comment] ls' := by
  induction ls generalizing piece with
  | nil =>
    have hfront : separator.isPrefixOf (separator ++ comment) = true :=
      List.isPrefixOf_iff_prefix.mpr (List.prefix_append _ _)
    show (if separator.isPrefixOf (separator ++ comment) then _ else _)
      = _
    rw [if_pos hfront, List.drop_left]
    rfl
  | cons l ls ih =>
    rw [List.cons_append, pieces, pieces]
    split
    next => rw [ih, List.cons_append]
    next => exact ih (piece ++ [l])

theorem tokens_append (line : Text) (ls : List Text) (comment : Text)
    (ls' : List Text) :
    tokens line (ls ++ (separator ++ comment) :: ls')
      = tokens line ls ++ tokens comment ls' := by
  unfold tokens
  rw [pieces_append, List.map_append]

theorem tokens_flatMap (line : Text) (ls : List Text)
    (rest : List (Comment × Document)) :
    tokens line (ls ++ rest.flatMap fun e =>
        (separator ++ e.1.comment) :: e.2.lines)
      = tokens line ls ++ rest.flatMap fun e =>
        tokens e.1.comment e.2.lines := by
  induction rest generalizing line ls with
  | nil => simp
  | cons e rest ih =>
    rw [List.flatMap_cons, List.flatMap_cons, List.cons_append,
      tokens_append, ih]

-- ======== text

/-- A piece is not empty, and no line of it but the first starts with a
separator. -/
theorem pieces_plain {piece ls : List Text} (hne : piece ≠ [])
    (hcut : ∀ l ∈ piece ++ ls, newline ∉ l)
    (hplain : ∀ l ∈ piece.tail, ¬separator <+: l) :
    ∀ p ∈ pieces piece ls, p ≠ [] ∧ (∀ l ∈ p, newline ∉ l)
      ∧ ∀ l ∈ p.tail, ¬separator <+: l := by
  induction ls generalizing piece with
  | nil =>
    rw [List.append_nil] at hcut
    intro p hp
    obtain rfl := List.mem_singleton.mp hp
    exact ⟨hne, hcut, hplain⟩
  | cons l ls ih =>
    intro p hp
    rw [pieces] at hp
    split at hp
    next hfront =>
      rcases List.mem_cons.mp hp with rfl | hp
      · exact ⟨hne, fun l hl => hcut l (List.mem_append_left _ hl),
          hplain⟩
      · refine ih (List.cons_ne_nil _ _) ?_ (by simp) p hp
        intro l' hl'
        rcases List.mem_cons.mp hl' with rfl | hl'
        · intro hmem
          exact hcut l (by simp) (List.mem_of_mem_drop hmem)
        · exact hcut l' (List.mem_append_right _
            (List.mem_cons_of_mem l hl'))
    next hfront =>
      refine ih (by simp) ?_ ?_ p hp
      · rw [List.append_assoc]
        exact hcut
      · obtain ⟨l₀, rest, rfl⟩ := List.exists_cons_of_ne_nil hne
        intro l' hl'
        rcases List.mem_append.mp hl' with hl' | hl'
        · exact hplain l' hl'
        · obtain rfl := List.mem_singleton.mp hl'
          exact fun h => hfront (List.isPrefixOf_iff_prefix.mpr h)

/-- A separator at the front of joined lines is at the front of the
first. -/
theorem separator_front {l : Text} {s : Text}
    (h : separator <+: l ++ newline :: s) : separator <+: l := by
  by_cases hlength : separator.length ≤ l.length
  · exact List.prefix_of_prefix_length_le h (List.prefix_append _ _)
      hlength
  · have hin : l ++ [newline] <+: separator := by
      refine List.prefix_of_prefix_length_le ⟨s, by simp⟩ h ?_
      simp only [List.length_append, List.length_singleton]
      omega
    have hmem : newline ∈ separator := by
      apply hin.subset
      simp
    exact absurd hmem (by decide)

/-- The separator of the scanner does not come up in joined lines that do
not start with it, but for the first. -/
theorem not_infix_join {l : Text} {ls : List Text}
    (hcut : ∀ l' ∈ l :: ls, newline ∉ l')
    (hplain : ∀ l' ∈ ls, ¬separator <+: l') :
    ¬newline :: separator <:+: Text.join (l :: ls) := by
  have hl : newline ∉ l := hcut l List.mem_cons_self
  induction ls generalizing l with
  | nil =>
    rintro hin
    rw [Text.join, List.intercalate_singleton] at hin
    exact hl (hin.subset List.mem_cons_self)
  | cons l' ls ih =>
    rintro ⟨u, v, heq⟩
    have hl' : newline ∉ l' := hcut l' (by simp)
    have hjoin : Text.join (l :: l' :: ls)
        = l ++ newline :: Text.join (l' :: ls) := by
      rw [Text.join, List.intercalate_cons_cons, List.append_assoc]
      rfl
    have hrest := ih (fun l hl => hcut l (List.mem_cons_of_mem _ hl))
      (fun l hl => hplain l (List.mem_cons_of_mem _ hl)) hl'
    have hfront : ¬separator <+: Text.join (l' :: ls) := by
      intro hfront
      apply hplain l' List.mem_cons_self
      cases ls with
      | nil =>
        rw [Text.join, List.intercalate_singleton] at hfront
        exact hfront
      | cons l'' ls =>
        rw [Text.join, List.intercalate_cons_cons,
          List.append_assoc] at hfront
        exact separator_front hfront
    rw [hjoin, List.append_assoc] at heq
    -- The newline in front of the separator is one that lines end with.
    rcases List.append_eq_append_iff.mp heq with
      ⟨w, rfl, hw⟩ | ⟨w, rfl, hw⟩
    · cases w with
      | nil => exact hfront ⟨v, (List.cons.inj hw).2⟩
      | cons b w =>
        obtain ⟨rfl, -⟩ := List.cons.inj hw
        exact hl (List.mem_append_right u List.mem_cons_self)
    · cases w with
      | nil => exact hfront ⟨v, (List.cons.inj hw).2.symm⟩
      | cons b w =>
        apply hrest
        refine ⟨w, v, ?_⟩
        rw [List.append_assoc]
        exact (List.cons.inj hw).2.symm

theorem join_append {ls ls' : List Text} (h : ls ≠ []) (h' : ls' ≠ []) :
    Text.join (ls ++ ls') = Text.join ls ++ newline :: Text.join ls' := by
  induction ls with
  | nil => exact absurd rfl h
  | cons l ls ih =>
    cases ls with
    | nil =>
      obtain ⟨l', ls', rfl⟩ := List.exists_cons_of_ne_nil h'
      show Text.join (l :: l' :: ls') = Text.join [l] ++ _
      rw [Text.join, Text.join, List.intercalate_cons_cons,
        List.intercalate_singleton, List.append_assoc]
      rfl
    | cons l' ls =>
      have hrest := ih (List.cons_ne_nil l' ls)
      show Text.join (l :: l' :: (ls ++ ls')) = _
      unfold Text.join at hrest ⊢
      rw [List.intercalate_cons_cons, List.intercalate_cons_cons,
        ← List.cons_append, hrest, List.append_assoc,
        List.append_assoc, List.append_assoc]

theorem join_front (s l : Text) (ls : List Text) :
    Text.join ((s ++ l) :: ls) = s ++ Text.join (l :: ls) := by
  cases ls with
  | nil => rw [Text.join, Text.join, List.intercalate_singleton,
      List.intercalate_singleton]
  | cons l' ls =>
    rw [Text.join, Text.join, List.intercalate_cons_cons,
      List.intercalate_cons_cons, List.append_assoc, List.append_assoc,
      List.append_assoc]

theorem pieces_ne_nil (piece ls : List Text) : pieces piece ls ≠ [] := by
  induction ls generalizing piece with
  | nil => exact List.cons_ne_nil _ _
  | cons l ls ih =>
    rw [pieces]
    split
    next => exact List.cons_ne_nil _ _
    next => exact ih _

/-- Lines are their pieces with the separator of the scanner between
them. -/
theorem join_pieces {piece : List Text} (hne : piece ≠ [])
    (ls : List Text) :
    Text.join (piece ++ ls)
      = (newline :: separator).intercalate
        ((pieces piece ls).map Text.join) := by
  induction ls generalizing piece with
  | nil => rw [List.append_nil, pieces, List.map_singleton,
      List.intercalate_singleton]
  | cons l ls ih =>
    rw [pieces]
    split
    next hfront =>
      obtain ⟨t, rfl⟩ := List.isPrefixOf_iff_prefix.mp hfront
      have hrest := ih (List.cons_ne_nil t [])
      rw [List.drop_left, List.map_cons,
        List.intercalate_cons_of_ne_nil (by simp [pieces_ne_nil]),
        ← hrest, join_append hne (List.cons_ne_nil _ _), join_front]
      simp
    next =>
      rw [← ih (by simp), List.append_assoc]
      rfl

namespace Manifest

theorem blocks_tokens (m : Manifest) :
    (m.lines = [] ∧ m.blocks.flatMap Prod.snd = [])
      ∨ ∃ l ls, m.lines = l :: ls
        ∧ m.blocks.flatMap Prod.snd = tokens l ls := by
  unfold lines blocks
  cases hfirst : m.first.lines with
  | cons l ls =>
    refine .inr ⟨l, _, rfl, ?_⟩
    show ((m.first, tokens l ls) :: m.rest.map fun e =>
      (e.2, tokens e.1.comment e.2.lines)).flatMap Prod.snd
        = tokens l (ls ++ _)
    rw [tokens_flatMap, List.flatMap_cons, List.flatMap_map]
  | nil =>
    cases hrest : m.rest with
    | nil => exact .inl ⟨rfl, rfl⟩
    | cons e rest =>
      refine .inr ⟨separator ++ e.1.comment, _, rfl, ?_⟩
      show ((m.first, []) ::
        (e.2, tokens (separator ++ e.1.comment) e.2.lines)
          :: rest.map fun e =>
            (e.2, tokens e.1.comment e.2.lines)).flatMap Prod.snd
        = tokens _ (e.2.lines ++ rest.flatMap fun e =>
          (separator ++ e.1.comment) :: e.2.lines)
      rw [tokens_flatMap, List.flatMap_cons, List.flatMap_cons,
        List.flatMap_map]
      rfl

theorem newline_notMem (m : Manifest) : ∀ l ∈ m.lines, newline ∉ l := by
  intro l hl
  rcases List.mem_append.mp hl with hl | hl
  · exact m.first.cut l hl
  · obtain ⟨e, -, hl⟩ := List.mem_flatMap.mp hl
    rcases List.mem_cons.mp hl with rfl | hl
    · intro hmem
      rcases List.mem_append.mp hmem with hmem | hmem
      · exact absurd hmem (by decide)
      · exact e.1.cut hmem
    · exact e.2.cut l hl

theorem scan_text (m : Manifest) :
    Tokens.scanAll maxScanTokenSize splitYAMLDocuments m.text
      = Tokens.readable maxScanTokenSize (newline :: separator)
        (m.blocks.flatMap Prod.snd) := by
  have hsplit : splitYAMLDocuments
      = Tokens.splitAt (newline :: separator) := rfl
  rw [hsplit]
  rcases m.blocks_tokens with ⟨hlines, hblocks⟩ | ⟨l, ls, hlines, hblocks⟩
  · rw [text, hlines, hblocks]
    rfl
  · have hcut := m.newline_notMem
    rw [hlines] at hcut
    have htext : m.text
        = (newline :: separator).intercalate (tokens l ls) := by
      rw [text, hlines]
      exact join_pieces (List.cons_ne_nil l []) ls
    rw [htext, hblocks]
    refine Tokens.scanAll_intercalate (by decide) (List.cons_ne_nil _ _)
      (by simp [tokens, pieces_ne_nil]) fun t ht => ?_
    obtain ⟨p, hp, rfl⟩ := List.mem_map.mp ht
    obtain ⟨hne, hpcut, hplain⟩ :=
      pieces_plain (List.cons_ne_nil l []) hcut (by simp) p hp
    obtain ⟨l', ls', rfl⟩ := List.exists_cons_of_ne_nil hne
    exact Tokens.clean_of_not_infix (by decide)
      (not_infix_join hpcut hplain)

end Manifest

-- ======== reading

/-- What so many tokens are of the pieces of each document. -/
def readBlocks : Nat → List (Document × List Text) →
    List (Document × List Text)
  | _, [] => []
  | n, b :: blocks =>
    (b.1, b.2.take n) :: readBlocks (n - b.2.length) blocks

def Manifest.read (m : Manifest) : List (Document × List Text) :=
  readBlocks (Tokens.readable maxScanTokenSize (newline :: separator)
    (m.blocks.flatMap Prod.snd)).length m.blocks

def found (yaml : Yaml) (defaultNamespace : Text) (pieces : List Text) :
    List ResourceReference :=
  pieces.filterMap (tokenReference yaml defaultNamespace)

theorem readBlocks_tokens (n : Nat) (blocks : List (Document × List Text)) :
    (readBlocks n blocks).flatMap Prod.snd
      = (blocks.flatMap Prod.snd).take n := by
  induction blocks generalizing n with
  | nil => simp [readBlocks]
  | cons b blocks ih =>
    rw [readBlocks, List.flatMap_cons, List.flatMap_cons, ih,
      List.take_append]

theorem readBlocks_documents (n : Nat)
    (blocks : List (Document × List Text)) :
    (readBlocks n blocks).map Prod.fst = blocks.map Prod.fst := by
  induction blocks generalizing n with
  | nil => rfl
  | cons b blocks ih => rw [readBlocks, List.map_cons, List.map_cons, ih]

theorem exists_block {n : Nat} {blocks : List (Document × List Text)}
    {p : Document × List Text} (hp : p ∈ readBlocks n blocks) :
    ∃ b ∈ blocks, p.1 = b.1 ∧ p.2 <+: b.2 := by
  induction blocks generalizing n with
  | nil => cases hp
  | cons b blocks ih =>
    rcases List.mem_cons.mp hp with rfl | hp
    · exact ⟨b, List.mem_cons_self, rfl, List.take_prefix n b.2⟩
    · obtain ⟨b', hb', hfound⟩ := ih hp
      exact ⟨b', List.mem_cons_of_mem b hb', hfound⟩

theorem Manifest.blocks_documents (m : Manifest) :
    m.blocks.map Prod.fst = m.documents := by
  unfold blocks documents
  cases m.first.lines with
  | cons l ls => simp
  | nil =>
    cases m.rest with
    | nil => rfl
    | cons e rest => simp

/-- What is found in a manifest is what is found in the pieces of it that
are read. -/
theorem parseManifestResources_read (yaml : Yaml) (defaultNamespace : Text)
    (m : Manifest) :
    parseManifestResources yaml m.text defaultNamespace
      = m.read.flatMap fun p => found yaml defaultNamespace p.2 := by
  have hread : Tokens.readable maxScanTokenSize (newline :: separator)
        (m.blocks.flatMap Prod.snd) = m.read.flatMap Prod.snd := by
    rw [Manifest.read, readBlocks_tokens]
    exact List.prefix_iff_eq_take.mp (Tokens.readable_isPrefix ..)
  unfold parseManifestResources found
  rw [m.scan_text, hread, List.filterMap_flatMap]

theorem flatMap_sublist {α β : Type} {f g : α → List β} {xs : List α}
    (h : ∀ x ∈ xs, (f x).Sublist (g x)) :
    (xs.flatMap f).Sublist (xs.flatMap g) := by
  induction xs with
  | nil => exact .slnil
  | cons x xs ih =>
    rw [List.flatMap_cons, List.flatMap_cons]
    exact (h x List.mem_cons_self).append
      (ih fun y hy => h y (List.mem_cons_of_mem x hy))

/-- Lists that are parts of others come to the same together, if each is
all of its own. -/
theorem flatMap_eq_iff {α β : Type} {f g : α → List β} {xs : List α}
    (h : ∀ x ∈ xs, (f x).Sublist (g x)) :
    xs.flatMap f = xs.flatMap g ↔ ∀ x ∈ xs, f x = g x := by
  constructor
  · intro heq
    induction xs with
    | nil => simp
    | cons x xs ih =>
      have hx := h x List.mem_cons_self
      have hxs := fun y hy => h y (List.mem_cons_of_mem x hy)
      have hrest := (flatMap_sublist hxs).length_le
      rw [List.flatMap_cons, List.flatMap_cons] at heq
      have hlength := congrArg List.length heq
      rw [List.length_append, List.length_append] at hlength
      have hle := hx.length_le
      have hfirst : f x = g x := hx.eq_of_length (by omega)
      rw [hfirst] at heq
      rw [List.forall_mem_cons]
      exact ⟨hfirst, ih hxs (List.append_cancel_left heq)⟩
  · intro heq
    exact List.flatMap_congr heq

-- ======== completeness

/-- No piece of a document has a resource but that of the document. -/
def Own (yaml : Yaml) (defaultNamespace : Text) (m : Manifest) : Prop :=
  ∀ b ∈ m.blocks, (found yaml defaultNamespace b.2).Sublist
    (b.1.resource yaml defaultNamespace).toList

def podLines : List Text :=
  [Text.ofString "kind: Pod", Text.ofString "metadata: \x7bname: a\x7d"]

theorem podLines_cut : ∀ l ∈ podLines, newline ∉ l := by decide

theorem podLines_plain : ∀ l ∈ podLines, ¬separator <+: l := by decide

theorem not_isSeparator {lines : List Text}
    (h : ∀ l ∈ lines, ¬separator <+: l) : ∀ l ∈ lines, ¬IsSeparator l := by
  rintro l hl ⟨comment, rfl, -⟩
  exact h _ hl (List.prefix_append separator comment)

def podManifest : Manifest where
  first := ⟨podLines, podLines_cut, not_isSeparator podLines_plain⟩
  rest := []

def podYaml : Yaml := fun text =>
  if text = Text.join podLines then
    some ⟨Text.ofString "Pod", Text.ofString "a", []⟩
  else none

theorem podManifest_own : Own podYaml [] podManifest := by
  intro b hb
  obtain rfl := List.mem_singleton.mp hb
  decide

def longLine : Text :=
  Text.ofString "  x: " ++ List.replicate maxScanTokenSize 120

def longHead : List Text :=
  [Text.ofString "kind: ConfigMap", Text.ofString "metadata:",
    Text.ofString "  name: a", Text.ofString "data:"]

def longLines : List Text := longHead ++ [longLine]

theorem longLines_cut : ∀ l ∈ longLines, newline ∉ l := by
  intro l hl
  rcases List.mem_append.mp hl with hl | hl
  · revert l
    decide
  · obtain rfl := List.mem_singleton.mp hl
    intro hmem
    rcases List.mem_append.mp hmem with hmem | hmem
    · revert hmem
      decide
    · exact absurd (List.eq_of_mem_replicate hmem) (by decide)

theorem longLines_plain : ∀ l ∈ longLines, ¬separator <+: l := by
  intro l hl
  rcases List.mem_append.mp hl with hl | hl
  · revert l
    decide
  · obtain rfl := List.mem_singleton.mp hl
    intro hfront
    have hbyte := (List.cons_prefix_cons.mp hfront).1
    revert hbyte
    decide

theorem longLines_length :
    maxScanTokenSize ≤ (Text.join longLines).length := by
  have hlast : Text.join [longLine] = longLine :=
    List.intercalate_singleton
  have hjoin : Text.join longLines
      = Text.join longHead ++ newline :: Text.join [longLine] :=
    join_append (List.cons_ne_nil _ _) (List.cons_ne_nil longLine [])
  calc maxScanTokenSize
      = (List.replicate maxScanTokenSize (120 : UInt8)).length :=
        List.length_replicate.symm
    _ ≤ longLine.length := by
        rw [longLine, List.length_append]
        exact Nat.le_add_left _ _
    _ ≤ (Text.join longLines).length := by
        rw [hjoin, hlast, List.length_append, List.length_cons]
        omega

def longManifest : Manifest where
  first := ⟨longLines, longLines_cut, not_isSeparator longLines_plain⟩
  rest := []

def longYaml : Yaml := fun text =>
  if text = Text.join longLines then
    some ⟨Text.ofString "ConfigMap", Text.ofString "a", []⟩
  else none

theorem longManifest_tokens :
    longManifest.blocks.flatMap Prod.snd = [Text.join longLines] := by
  have htokens := @tokens_of_plain (Text.ofString "kind: ConfigMap")
    longLines.tail
    fun l hl => longLines_plain l (List.mem_of_mem_tail hl)
  have hblocks : longManifest.blocks.flatMap Prod.snd
      = tokens (Text.ofString "kind: ConfigMap") longLines.tail ++ [] := rfl
  rw [hblocks, htokens, List.append_nil]
  rfl

theorem longManifest_found :
    parseManifestResources longYaml longManifest.text [] = [] := by
  unfold parseManifestResources
  rw [longManifest.scan_text, longManifest_tokens, Tokens.readable, if_neg]
  · rfl
  · intro hfits
    exact absurd hfits.2 (not_lt.mpr longLines_length)

theorem longManifest_resource :
    longManifest.first.resource longYaml []
      = some ⟨Text.ofString "ConfigMap", Text.ofString "a", []⟩ := by
  have hne : Text.join longLines ≠ [] := by
    intro hnil
    have hlength := longLines_length
    rw [hnil] at hlength
    exact absurd hlength (by decide)
  unfold Document.resource
  show (if Text.join longLines = [] then none
    else (longYaml (Text.join longLines)).bind _) = _
  rw [if_neg hne, longYaml, if_pos rfl]
  rfl

end Helm
