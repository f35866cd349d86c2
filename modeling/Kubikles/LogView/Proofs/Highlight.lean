/-
What is highlighted (`highlightMatchesInHtml`): the matches, as long as the
walk counts the characters of the plain text and stops at no empty match.

# The matches

The loop finds the matches of the expression up to the first empty one
(`mem_findMatches`), in order, an empty one last (`Chained`).

# The walk

`covers` is where the walk is in a mark. One copied character keeps the
cursor ready (`Cursor.Ready.step`), so reading the result gives the flags
of all units from the counted positions (`marks_highlight`).
-/
import Kubikles.LogView.Highlight

namespace LogUtils

open JsString

variable {length : Nat} {re : RegExp length} {i x : Nat} {m : Match}

-- ======== the matches

theorem RegExp.le_next (re : RegExp length) (m : Match) :
    m.stop ≤ re.next m := by
  unfold RegExp.next
  split
  · exact Nat.le_of_lt (re.lt_advance m.stop)
  · exact Nat.le_refl _

theorem RegExp.stop_next (hi : re.Stop i) (h : re.exec i = some m) :
    re.Stop (re.next m) := by
  unfold RegExp.next
  split
  · exact re.stop_advance (re.stop_stop hi h)
  · exact re.stop_stop hi h

theorem findsFrom_iff : re.FindsFrom i m
    ↔ ∃ m', re.exec i = some m' ∧ (m = m' ∨ re.FindsFrom (re.next m') m) := by
  constructor
  · intro h
    cases h with
    | here h => exact ⟨m, h, Or.inl rfl⟩
    | later h hlater => exact ⟨_, h, Or.inr hlater⟩
  · rintro ⟨m', h, rfl | hlater⟩
    · exact .here h
    · exact .later h hlater

/-- A match lies behind where the search for it began, and in the text. -/
structure Within (length i : Nat) (m : Match) : Prop where
  le_start : i ≤ m.start
  start_le : m.start ≤ m.stop
  stop_le : m.stop ≤ length

theorem RegExp.FindsFrom.within (h : re.FindsFrom i m) (hi : re.Stop i) :
    Within length i m := by
  induction h with
  | here h => exact ⟨re.le_start hi h, re.start_le hi h, re.stop_le hi h⟩
  | @later i m' m h hlater ih =>
    have hm := ih (RegExp.stop_next hi h)
    have hnext := re.le_next m'
    have hstart := re.le_start hi h
    have hle := re.start_le hi h
    exact ⟨by have := hm.le_start; omega, hm.start_le, hm.stop_le⟩

theorem RegExp.FindsFrom.stop (h : re.FindsFrom i m) (hi : re.Stop i) :
    re.Stop m.stop := by
  induction h with
  | here h => exact re.stop_stop hi h
  | later h hlater ih => exact ih (RegExp.stop_next hi h)

theorem RegExp.FindsFrom.behind {e : Match} (he : re.Finds e)
    (h : re.FindsFrom (re.advance e.stop) m) :
    Within length (e.stop + 1) m := by
  have hwithin := h.within (re.stop_advance (he.stop re.stop_zero))
  have hlt := re.lt_advance e.stop
  exact ⟨hlt.trans_le hwithin.le_start, hwithin.start_le, hwithin.stop_le⟩

theorem mem_findMatches (hi : re.Stop i) : re.FindsFrom i m
    ↔ m ∈ findMatches re i hi ∨ ∃ e ∈ findMatches re i hi,
        e.start = e.stop ∧ re.FindsFrom (re.advance e.stop) m := by
  fun_induction findMatches re i hi with
  | case1 i hi hexec =>
    rw [findsFrom_iff, hexec]
    simp
  | case2 i hi m' hexec hempty =>
    rw [findsFrom_iff, hexec]
    simp [RegExp.next, hempty]
  | case3 i hi m' hexec hempty ih =>
    rw [findsFrom_iff, hexec]
    simp [RegExp.next, hempty, ih, or_assoc]

/-- Matches in order, none of them empty but the last. -/
def Chained : Nat → List Match → Prop
  | _, [] => True
  | i, m :: ms =>
    i ≤ m.start ∧ m.start ≤ m.stop ∧ (m.start = m.stop → ms = [])
      ∧ Chained m.stop ms

theorem findMatches_chained (hi : re.Stop i) :
    Chained i (findMatches re i hi) := by
  fun_induction findMatches re i hi with
  | case1 i hi hexec => trivial
  | case2 i hi m hexec hempty =>
    exact ⟨re.le_start hi hexec, re.start_le hi hexec, fun _ => rfl,
      trivial⟩
  | case3 i hi m hexec hempty ih =>
    exact ⟨re.le_start hi hexec, re.start_le hi hexec,
      fun h => absurd h hempty, ih⟩

theorem Chained.le_start {ms : List Match} (h : Chained i ms) (hm : m ∈ ms) :
    i ≤ m.start := by
  induction ms generalizing i with
  | nil => cases hm
  | cons m' ms ih =>
    obtain ⟨hle, hstart, -, hrest⟩ := h
    rcases List.mem_cons.mp hm with rfl | hm
    · exact hle
    · have := ih hrest hm
      omega

theorem Chained.stop_le {ms : List Match} {e : Match} (h : Chained i ms)
    (he : e ∈ ms) (hempty : e.start = e.stop) (hm : m ∈ ms) :
    m.stop ≤ e.start := by
  induction ms generalizing i with
  | nil => cases hm
  | cons m' ms ih =>
    obtain ⟨-, -, hlast, hrest⟩ := h
    rcases List.mem_cons.mp he with rfl | he'
    · rw [hlast hempty] at hm
      rw [List.mem_singleton.mp hm]
      exact Nat.le_of_eq hempty.symm
    · rcases List.mem_cons.mp hm with rfl | hm
      · exact hrest.le_start he'
      · exact ih hrest he' hm

-- ======== the cursor

/-- Where the walk is in a mark: in a match, or behind an empty one. -/
def covers (ms : List Match) (x : Nat) : Bool :=
  ms.any fun m => m.start ≤ x && (x < m.stop || m.start = m.stop)

theorem covers_eq_true {ms : List Match} : covers ms x = true
    ↔ ∃ m ∈ ms, m.start ≤ x ∧ (x < m.stop ∨ m.start = m.stop) := by
  simp [covers]

theorem Chained.covers_eq_false {ms : List Match} (h : Chained i ms)
    (hx : x < i) : covers ms x = false := by
  rw [Bool.eq_false_iff]
  intro htrue
  obtain ⟨m, hm, hstart, -⟩ := covers_eq_true.mp htrue
  have := h.le_start hm
  omega

theorem Chained.mono {j : Nat} {ms : List Match} (h : Chained i ms)
    (hj : ∀ m ∈ ms.head?, j ≤ m.start) : Chained j ms := by
  cases ms with
  | nil => trivial
  | cons m ms => exact ⟨hj m rfl, h.2⟩

/-- What holds before each piece: in a mark, the walk is in the first match,
or behind it if it is empty; else it is in front of all of them. -/
def Cursor.Ready (c : Cursor) : Prop :=
  if c.inHighlight then
    ∃ m ms, c.remaining = m :: ms ∧ m.start ≤ c.plainIdx
      ∧ (m.start = m.stop ∧ ms = []
        ∨ c.plainIdx < m.stop ∧ Chained m.stop ms)
  else Chained c.plainIdx c.remaining

/-- What one character of the plain text does to the cursor. -/
structure Cursor.Step (c : Cursor) : Prop where
  /-- It is copied into a mark if its position is covered. -/
  flag : (c.inHighlight || c.opens) = covers c.remaining c.plainIdx
  ready : c.next.Ready
  /-- What is covered behind it stays so. -/
  covers : ∀ x, c.plainIdx < x →
    covers c.next.remaining x = covers c.remaining x

/-- In a match, or behind an empty one. -/
theorem Cursor.step_of_inside {c : Cursor} {ms : List Match}
    (hin : (c.inHighlight || c.opens) = true) (hms : c.remaining = m :: ms)
    (hstart : m.start ≤ c.plainIdx)
    (hm : m.start = m.stop ∧ ms = []
      ∨ c.plainIdx < m.stop ∧ Chained m.stop ms) : c.Step := by
  have hflag : LogUtils.covers c.remaining c.plainIdx = true := by
    apply covers_eq_true.mpr
    refine ⟨m, ?_, hstart, ?_⟩
    · rw [hms]
      exact List.mem_cons_self
    · exact hm.symm.imp And.left And.left
  have hcloses : c.closes = decide (c.plainIdx + 1 = m.stop) := by
    unfold closes
    rw [hin, hms]
    rfl
  by_cases hstop : c.plainIdx + 1 = m.stop
  · rw [decide_eq_true hstop] at hcloses
    have hnonempty : m.start ≠ m.stop := by omega
    have hrest := (hm.resolve_left fun h => hnonempty h.1).2
    refine ⟨by rw [hin, hflag], ?_, ?_⟩
    · unfold Ready next
      rw [hcloses, hms]
      simp only [Bool.not_true, Bool.and_false, if_true]
      rw [if_neg Bool.false_ne_true, hstop]
      exact hrest
    · intro x hx
      unfold next
      rw [hcloses, if_pos rfl, hms, Bool.eq_iff_iff, covers_eq_true, covers_eq_true]
      constructor
      · rintro ⟨m', hm', hcov⟩
        exact ⟨m', List.mem_cons_of_mem m hm', hcov⟩
      · rintro ⟨m', hm', hstart', hcov⟩
        rcases List.mem_cons.mp hm' with rfl | hm'
        · omega
        · exact ⟨m', hm', hstart', hcov⟩
  · rw [decide_eq_false hstop] at hcloses
    refine ⟨by rw [hin, hflag], ?_, ?_⟩
    · unfold Ready next
      rw [hin, hcloses]
      refine ⟨m, ms, hms, Nat.le_succ_of_le hstart, ?_⟩
      refine hm.imp id fun h => ⟨?_, h.2⟩
      have := h.1
      show c.plainIdx + 1 < m.stop
      omega
    · intro x _
      unfold next
      rw [hcloses]
      rfl

theorem Cursor.step_of_outside {c : Cursor} (hin : c.inHighlight = false)
    (hopens : c.opens = false) (hchained : Chained c.plainIdx c.remaining) :
    c.Step := by
  have hcloses : c.closes = false := by
    unfold closes
    rw [hin, hopens]
    rfl
  have hnot : ∀ m ∈ c.remaining.head?, c.plainIdx ≠ m.start := by
    intro m hm heq
    unfold opens at hopens
    rw [hin, hm] at hopens
    simp [heq] at hopens
  have hnext : Chained (c.plainIdx + 1) c.remaining := by
    apply hchained.mono
    intro m hm
    have hle := hchained.le_start (List.mem_of_mem_head? hm)
    have := hnot m hm
    omega
  refine ⟨?_, ?_, ?_⟩
  · rw [hin, hopens, hnext.covers_eq_false (Nat.lt_succ_self _)]
    rfl
  · unfold Ready next
    rw [hin, hopens, hcloses]
    exact hnext
  · intro x _
    unfold next
    rw [hcloses]
    rfl

theorem Cursor.Ready.step {c : Cursor} (h : c.Ready) : c.Step := by
  unfold Ready at h
  cases hin : c.inHighlight with
  | true =>
    rw [hin, if_pos rfl] at h
    obtain ⟨m, ms, hms, hstart, hm⟩ := h
    exact step_of_inside (by rw [hin]; rfl) hms hstart hm
  | false =>
    rw [hin, if_neg Bool.false_ne_true] at h
    cases hopens : c.opens with
    | false => exact step_of_outside hin hopens h
    | true =>
      have hin' : (c.inHighlight || c.opens) = true := by
        rw [hopens, Bool.or_true]
      unfold opens at hopens
      cases hms : c.remaining with
      | nil => simp [hms] at hopens
      | cons m ms =>
        rw [hms] at h hopens
        obtain ⟨-, hle, hlast, hrest⟩ := h
        have heq : c.plainIdx = m.start := by
          simpa [hin] using hopens
        apply step_of_inside hin' hms (Nat.le_of_eq heq.symm)
        by_cases hempty : m.start = m.stop
        · exact Or.inl ⟨hempty, hlast hempty⟩
        · exact Or.inr ⟨by omega, hrest⟩

-- ======== reading marks

theorem marks_copyText (c : Cursor) (s : JsString) (chunks : List Chunk) :
    marks c.inHighlight (c.copyText s ++ chunks)
      = (marks c.next.inHighlight chunks).map
          (s.map (c.inHighlight || c.opens, ·) ++ ·) := by
  have hopens : c.inHighlight = true → c.opens = false := by
    intro h
    unfold Cursor.opens
    rw [h]
    rfl
  have hcloses : c.closes = true → (c.inHighlight || c.opens) = true := by
    intro h
    unfold Cursor.closes at h
    exact (Bool.and_eq_true_iff.mp h).1
  unfold Cursor.copyText Cursor.next
  revert hopens hcloses
  cases c.inHighlight <;> cases c.opens <;> cases c.closes <;> simp [marks]

theorem marks_copyTag (c : Cursor) (tag : JsString) (chunks : List Chunk) :
    marks c.inHighlight (c.copyTag tag ++ chunks)
      = (marks c.inHighlight chunks).map (tag.map (false, ·) ++ ·) := by
  unfold Cursor.copyTag
  cases c.inHighlight <;> simp [marks]

/-- What the walk makes of some HTML from a ready cursor on, as a function
of what is covered and of the position. -/
def Reads (html : JsString)
    (flags : (Nat → Bool) → Nat → List (Bool × UInt16)) : Prop :=
  ∀ c : Cursor, c.Ready →
    marks c.inHighlight (walk html c)
      = some (flags (covers c.remaining) c.plainIdx)

def Forward (flags : (Nat → Bool) → Nat → List (Bool × UInt16)) : Prop :=
  ∀ f g i, (∀ x, i ≤ x → f x = g x) → flags f i = flags g i

variable {html behind s : JsString}
  {flags flags' : (Nat → Bool) → Nat → List (Bool × UInt16)}

theorem Reads.congr (h : Reads html flags)
    (heq : ∀ f i, flags f i = flags' f i) : Reads html flags' := by
  intro c hready
  rw [h c hready, heq]

theorem walk_tag {tag : JsString} (c : Cursor)
    (h : tagAt html = some (tag, behind)) :
    walk html c = c.copyTag tag ++ walk behind c := by
  cases html with
  | nil => cases h
  | cons u rest =>
    rw [walk]
    split
    next heq =>
      obtain ⟨rfl, rfl⟩ := Prod.mk.inj (Option.some.inj (h.symm.trans heq))
      rfl
    next heq =>
      rw [h] at heq
      cases heq

theorem walk_entity (c : Cursor) (htag : tagAt html = none)
    (h : entityAt html = some (s, behind)) :
    walk html c = c.copyText s ++ walk behind c.next := by
  cases html with
  | nil => cases h
  | cons u rest =>
    rw [walk]
    split
    next heq =>
      rw [htag] at heq
      cases heq
    · split
      next heq =>
        obtain ⟨rfl, rfl⟩ :=
          Prod.mk.inj (Option.some.inj (h.symm.trans heq))
        rfl
      next heq =>
        rw [h] at heq
        cases heq

theorem walk_unit {u : UInt16} (c : Cursor) (htag : tagAt (u :: behind) = none)
    (h : entityAt (u :: behind) = none) :
    walk (u :: behind) c = c.copyText [u] ++ walk behind c.next := by
  rw [walk]
  split
  next heq =>
    rw [htag] at heq
    cases heq
  · split
    next heq =>
      rw [h] at heq
      cases heq
    · rfl

theorem Reads.text (h : Reads behind flags) (hforward : Forward flags)
    (hwalk : ∀ c, walk html c = c.copyText s ++ walk behind c.next) :
    Reads html fun f i => s.map (f i, ·) ++ flags f (i + 1) := by
  intro c hready
  have hstep := hready.step
  rw [hwalk, marks_copyText, h c.next hstep.ready, hstep.flag,
    Option.map_some]
  congr 2
  exact hforward _ _ _ fun x hx => hstep.covers x hx

theorem Reads.tag {tag : JsString} (h : Reads behind flags)
    (htag : tagAt html = some (tag, behind)) :
    Reads html fun f i => tag.map (false, ·) ++ flags f i := by
  intro c hready
  rw [walk_tag c htag, marks_copyTag, h c hready]
  rfl

-- ======== the pieces

theorem cut_at {u : UInt16} {front : JsString} (h : u ∉ front)
    (behind : JsString) :
    (front ++ u :: behind).idxOf? u = some front.length
      ∧ (front ++ u :: behind).splitAt (front.length + 1)
        = (front ++ [u], behind) := by
  constructor
  · rw [List.idxOf?_eq_some_iff]
    refine ⟨by simp, by simp, fun j hj hu => ?_⟩
    rw [List.getElem_append_left hj] at hu
    exact h (hu ▸ List.getElem_mem hj)
  · have hassoc : front ++ u :: behind = (front ++ [u]) ++ behind := by
      simp
    rw [List.splitAt_eq, hassoc, List.take_left' (by simp),
      List.drop_left' (by simp)]

theorem tagAt_tag (body behind : JsString) (closed : (62 : UInt16) ∉ body) :
    tagAt ((Piece.tag body closed).html ++ behind)
      = some ((Piece.tag body closed).html, behind) := by
  have hnot : (62 : UInt16) ∉ 60 :: body := by
    simp [closed]
  obtain ⟨hidx, hsplit⟩ := cut_at hnot behind
  have hhtml : (Piece.tag body closed).html ++ behind
      = (60 :: body) ++ 62 :: behind := by
    simp [Piece.html]
  have hhead : ((60 :: body) ++ 62 :: behind).head? = some 60 := rfl
  rw [hhtml, tagAt, if_pos hhead, hidx, Option.map_some, hsplit]
  rfl

theorem tagAt_of_ne {u : UInt16} (h : u ≠ 60) (behind : JsString) :
    tagAt (u :: behind) = none :=
  if_neg (by simpa using h)

theorem entityAt_of_ne {u : UInt16} (h : u ≠ 38) (behind : JsString) :
    entityAt (u :: behind) = none :=
  if_neg (by simpa using h)

theorem entityAt_entity (name behind : JsString)
    (named : ∀ u ∈ name, u ≠ 59 ∧ u ≠ 60 ∧ u ≠ 38) :
    entityAt ((Piece.entity name named).html ++ behind)
      = if name.length + 1 < 10 then
          some ((Piece.entity name named).html, behind)
        else none := by
  have hnot : (59 : UInt16) ∉ 38 :: name := by
    intro hmem
    rcases List.mem_cons.mp hmem with h | h
    · cases h
    · exact (named 59 h).1 rfl
  obtain ⟨hidx, hsplit⟩ := cut_at hnot behind
  have hhtml : (Piece.entity name named).html ++ behind
      = (38 :: name) ++ 59 :: behind := by
    simp [Piece.html]
  have hhead : ((38 :: name) ++ 59 :: behind).head? = some 38 := rfl
  rw [hhtml, entityAt, if_pos hhead, hidx]
  simp only [hsplit]
  rfl

def unitFlags (f : Nat → Bool) : Nat → JsString → List (Bool × UInt16)
  | _, [] => []
  | i, u :: s => (f i, u) :: unitFlags f (i + 1) s

/-- The flags of the units of the pieces, from the positions the walk
counts. -/
def codeFlags (f : Nat → Bool) : Nat → List Piece → List (Bool × UInt16)
  | _, [] => []
  | i, .tag body h :: pieces =>
    (Piece.tag body h).html.map (false, ·) ++ codeFlags f i pieces
  | i, .unit u _ :: pieces => (f i, u) :: codeFlags f (i + 1) pieces
  | i, .entity name h :: pieces =>
    let html := (Piece.entity name h).html
    if name.length + 1 < 10 then
      html.map (f i, ·) ++ codeFlags f (i + 1) pieces
    else unitFlags f i html ++ codeFlags f (i + html.length) pieces

theorem unitFlags_congr {f g : Nat → Bool} (h : ∀ x, i ≤ x → f x = g x)
    (s : JsString) : unitFlags f i s = unitFlags g i s := by
  induction s generalizing i with
  | nil => rfl
  | cons u s ih =>
    simp only [unitFlags]
    rw [h i (Nat.le_refl i), ih fun x hx => h x (by omega)]

theorem codeFlags_congr {f g : Nat → Bool} (h : ∀ x, i ≤ x → f x = g x)
    (pieces : List Piece) : codeFlags f i pieces = codeFlags g i pieces := by
  induction pieces generalizing i with
  | nil => rfl
  | cons piece pieces ih =>
    have hhere := h i (Nat.le_refl i)
    have hnext := ih (i := i + 1) fun x hx => h x (by omega)
    cases piece with
    | tag body closed =>
      simp only [codeFlags]
      rw [ih h]
    | unit u ordinary =>
      simp only [codeFlags]
      rw [hnext, hhere]
    | entity name named =>
      simp only [codeFlags]
      rw [hnext, hhere, unitFlags_congr h, ih fun x hx => h x (by omega)]

theorem Reads.units (h : Reads behind flags) (hforward : Forward flags)
    (hs : ∀ u ∈ s, u ≠ 60 ∧ u ≠ 38) :
    Reads (s ++ behind) fun f i =>
      unitFlags f i s ++ flags f (i + s.length) := by
  induction s with
  | nil => exact h
  | cons u s ih =>
    obtain ⟨htag, hentity⟩ := hs u List.mem_cons_self
    have hrest := ih fun v hv => hs v (List.mem_cons_of_mem u hv)
    have hlater : Forward fun f i =>
        unitFlags f i s ++ flags f (i + s.length) := by
      intro f g i h
      show unitFlags f i s ++ _ = unitFlags g i s ++ _
      rw [unitFlags_congr h, hforward f g _ fun x hx => h x (by omega)]
    have hfirst := hrest.text hlater fun c =>
      walk_unit c (tagAt_of_ne htag _) (entityAt_of_ne hentity _)
    apply hfirst.congr
    intro f i
    rw [List.length_cons, show i + (s.length + 1) = i + 1 + s.length by omega]
    rfl

/-- What the walk makes of a rendering. -/
theorem reads_html (pieces : List Piece) :
    Reads (htmlOf pieces) fun f i => codeFlags f i pieces := by
  induction pieces with
  | nil =>
    intro c hready
    rw [show htmlOf [] = [] from rfl, walk]
    cases c.inHighlight <;> rfl
  | cons piece pieces ih =>
    have hforward : Forward fun f i => codeFlags f i pieces :=
      fun f g i h => codeFlags_congr h pieces
    rw [show htmlOf (piece :: pieces) = piece.html ++ htmlOf pieces from rfl]
    cases piece with
    | tag body closed => exact ih.tag (tagAt_tag body _ closed)
    | unit u ordinary =>
      exact ih.text hforward fun c => walk_unit c
        (tagAt_of_ne ordinary.1 _) (entityAt_of_ne ordinary.2 _)
    | entity name named =>
      have hknown := entityAt_entity name (htmlOf pieces) named
      have htag : tagAt ((Piece.entity name named).html ++ htmlOf pieces)
          = none := tagAt_of_ne (by decide) _
      by_cases hshort : name.length + 1 < 10
      · rw [if_pos hshort] at hknown
        apply (ih.text hforward fun c => walk_entity c htag hknown).congr
        intro f i
        simp only [codeFlags]
        rw [if_pos hshort]
      · rw [if_neg hshort] at hknown
        -- the first unit is no other than those behind it
        have hunits : ∀ u ∈ name ++ [59], u ≠ 60 ∧ u ≠ 38 := by
          intro u hu
          rcases List.mem_append.mp hu with hu | hu
          · exact (named u hu).2
          · rw [List.mem_singleton.mp hu]
            decide
        have hrest := Reads.units ih hforward hunits
        have hlater : Forward fun f i =>
            unitFlags f i (name ++ [59])
              ++ codeFlags f (i + (name ++ [59]).length) pieces := by
          intro f g i h
          show unitFlags f i _ ++ _ = unitFlags g i _ ++ _
          rw [unitFlags_congr h,
            codeFlags_congr fun x hx => h x (by omega)]
        have hread := hrest.text hlater fun c => walk_unit c htag hknown
        have hhtml : (Piece.entity name named).html
            = 38 :: (name ++ [59]) := rfl
        rw [hhtml]
        apply hread.congr
        intro f i
        simp only [codeFlags]
        rw [if_neg hshort, hhtml, Nat.add_assoc i 1, Nat.add_comm 1]
        rfl

-- ======== the HTML is kept

theorem map_snd_marks {chunks : List Chunk} {inMark : Bool}
    {l : List (Bool × UInt16)} (h : marks inMark chunks = some l) :
    l.map Prod.snd = copied chunks := by
  induction chunks generalizing inMark l with
  | nil =>
    cases inMark with
    | true => cases h
    | false =>
      obtain rfl := Option.some.inj h
      rfl
  | cons chunk chunks ih =>
    cases chunk with
    | openMark =>
      cases inMark with
      | true => cases h
      | false => exact ih h
    | closeMark =>
      cases inMark with
      | true => exact ih h
      | false => cases h
    | copy s =>
      obtain ⟨rest, hrest, rfl⟩ := Option.map_eq_some_iff.mp h
      rw [List.map_append, ih hrest, List.map_map]
      show s.map _ ++ _ = s ++ copied chunks
      congr 1
      exact List.map_id s

theorem map_snd_flagged (inside : Nat → Bool) (t : Nat)
    (pieces : List Piece) :
    (flagged inside t pieces).map Prod.snd = htmlOf pieces := by
  induction pieces generalizing t with
  | nil => rfl
  | cons piece pieces ih =>
    have hfront : ∀ b : Bool,
        (piece.html.map fun u => (b, u)).map Prod.snd = piece.html := by
      intro b
      rw [List.map_map]
      exact List.map_id _
    cases piece <;>
      simp only [flagged, List.map_append] <;>
      rw [hfront, ih] <;> rfl

-- ======== the positions

def textLength : List Piece → Nat
  | [] => 0
  | .tag _ _ :: pieces => textLength pieces
  | .entity _ _ :: pieces => textLength pieces + 1
  | .unit _ _ :: pieces => textLength pieces + 1

theorem Renders.textLength {pieces : List Piece} {plainText : JsString}
    (h : Renders pieces plainText) :
    LogUtils.textLength pieces = plainText.length := by
  induction pieces generalizing plainText with
  | nil =>
    rw [show plainText = [] from h]
    rfl
  | cons piece pieces ih =>
    cases piece with
    | tag body closed => exact ih h
    | entity name named =>
      obtain ⟨u, s', rfl, hrest⟩ := h
      exact congrArg (· + 1) (ih hrest)
    | unit u ordinary =>
      obtain ⟨s', rfl, hrest⟩ := h
      exact congrArg (· + 1) (ih hrest)

theorem unitFlags_length (f : Nat → Bool) (i : Nat) (s : JsString) :
    (unitFlags f i s).length = s.length := by
  induction s generalizing i with
  | nil => rfl
  | cons u s ih => exact congrArg (· + 1) (ih (i + 1))

theorem unitFlags_eq_iff {f : Nat → Bool} {b : Bool} :
    unitFlags f i s = s.map (b, ·) ↔ ∀ x, i ≤ x → x < i + s.length →
      f x = b := by
  induction s generalizing i with
  | nil =>
    refine iff_of_true rfl fun x hle hlt => ?_
    rw [List.length_nil] at hlt
    omega
  | cons u s ih =>
    rw [unitFlags, List.map_cons, List.cons.injEq, ih, Prod.mk.injEq,
      List.length_cons]
    constructor
    · rintro ⟨⟨hhere, -⟩, hrest⟩ x hle hlt
      rcases Nat.eq_or_lt_of_le hle with rfl | hlt'
      · exact hhere
      · exact hrest x hlt' (by omega)
    · intro h
      exact ⟨⟨h i (Nat.le_refl i) (by omega), rfl⟩,
        fun x hle hlt => h x (by omega) (by omega)⟩

theorem codeFlags_false (i : Nat) (pieces : List Piece) :
    codeFlags (fun _ => false) i pieces
      = (htmlOf pieces).map (false, ·) := by
  induction pieces generalizing i with
  | nil => rfl
  | cons piece pieces ih =>
    rw [show htmlOf (piece :: pieces) = piece.html ++ htmlOf pieces from rfl,
      List.map_append]
    cases piece with
    | tag body closed =>
      simp only [codeFlags]
      rw [ih]
    | unit u ordinary =>
      simp only [codeFlags]
      rw [ih]
      rfl
    | entity name named =>
      simp only [codeFlags]
      rw [ih, ih, unitFlags_eq_iff.mpr fun _ _ _ => rfl, ite_self]

theorem marks_highlight (re : RegExp length) (pieces : List Piece) :
    marks false (highlightMatchesInHtml (htmlOf pieces) (some re))
      = some (codeFlags (covers (findMatches re 0 re.stop_zero)) 0
          pieces) := by
  unfold highlightMatchesInHtml
  simp only
  split
  next hnone =>
    rw [hnone, show covers [] = fun _ => false from rfl, codeFlags_false]
    exact congrArg some (List.append_nil _)
  next =>
    exact reads_html pieces { remaining := findMatches re 0 re.stop_zero }
      (findMatches_chained re.stop_zero)

theorem le_of_mem_longEntities {pieces : List Piece} {t y : Nat}
    (h : y ∈ longEntities t pieces) : t ≤ y := by
  induction pieces generalizing t with
  | nil => cases h
  | cons piece pieces ih =>
    cases piece with
    | tag body closed => exact ih h
    | unit u ordinary => exact Nat.le_of_succ_le (ih h)
    | entity name named =>
      rw [longEntities] at h
      split at h
      · exact Nat.le_of_succ_le (ih h)
      · rcases List.mem_cons.mp h with rfl | h
        · exact Nat.le_refl y
        · exact Nat.le_of_succ_le (ih h)

/-- A position is flagged as one that is counted for it: not before it, and
behind it if a long entity is at it or before it. -/
structure Counted (f inside : Nat → Bool) (long : List Nat) (x k : Nat) :
    Prop where
  le : x ≤ k
  flag : f k = inside x
  long : ∀ y ∈ long, y ≤ x → x < k

/-- The first of some characters is flagged as one that is counted for it,
and the others are. -/
theorem Counted.text {f inside : Nat → Bool} {long tail : List Nat}
    {t k i' : Nat} (hti : t ≤ i) (hik : i ≤ k) (hki : k < i')
    (hhere : f k = inside t) (hlong : ∀ y ∈ long, y ∈ tail ∨ t < k)
    (htail : ∀ y ∈ tail, t < y) (hle : t ≤ x)
    (hrest : t < x → ∃ k', Counted f inside tail x k'
      ∧ (t + 1 < i' → x < k')) :
    ∃ k', Counted f inside long x k' ∧ (t < i → x < k') := by
  rcases Nat.eq_or_lt_of_le hle with rfl | hgt
  · refine ⟨k, ⟨by omega, hhere, fun y hy hyt => ?_⟩, fun _ => by omega⟩
    rcases hlong y hy with hy | htk
    · have := htail y hy
      omega
    · exact htk
  · obtain ⟨k', hcounted, hshift⟩ := hrest hgt
    refine ⟨k', ⟨hcounted.le, hcounted.flag, fun y hy hyx => ?_⟩,
      fun _ => hshift (by omega)⟩
    rcases hlong y hy with hy | htk
    · exact hcounted.long y hy hyx
    · exact hshift (by omega)

/-- If the flags agree, each position is flagged as a counted one. -/
theorem counted_of_eq {f inside : Nat → Bool} {pieces : List Piece} {t : Nat}
    (hti : t ≤ i) (h : codeFlags f i pieces = flagged inside t pieces)
    (hle : t ≤ x) (hlt : x < t + textLength pieces) :
    ∃ k, Counted f inside (longEntities t pieces) x k ∧ (t < i → x < k) := by
  induction pieces generalizing i t with
  | nil =>
    have : textLength [] = 0 := rfl
    omega
  | cons piece pieces ih =>
    have hbehind : ∀ y ∈ longEntities (t + 1) pieces, t < y :=
      fun y hy => le_of_mem_longEntities hy
    cases piece with
    | tag body closed =>
      exact ih hti (List.append_cancel_left h) hle hlt
    | unit u ordinary =>
      obtain ⟨hhere, htail⟩ := List.cons.inj h
      rw [textLength] at hlt
      exact Counted.text hti (Nat.le_refl i) (Nat.lt_succ_self i)
        (Prod.mk.inj hhere).1 (fun y hy => Or.inl hy) hbehind hle
        fun hgt => ih (Nat.succ_le_succ hti) htail hgt (by omega)
    | entity name named =>
      rw [textLength] at hlt
      simp only [codeFlags, flagged] at h
      have hlength : (Piece.entity name named).html.length
          = name.length + 2 := by
        simp [Piece.html]
      simp only [longEntities]
      by_cases hshort : name.length + 1 < 10
      · rw [if_pos hshort] at h ⊢
        obtain ⟨hhere, htail⟩ := List.append_inj h (by
          rw [List.length_map, List.length_map])
        exact Counted.text hti (Nat.le_refl i) (Nat.lt_succ_self i)
          (Prod.mk.inj (List.cons.inj hhere).1).1
          (fun y hy => Or.inl hy) hbehind hle
          fun hgt => ih (Nat.succ_le_succ hti) htail hgt (by omega)
      · rw [if_neg hshort] at h ⊢
        obtain ⟨hhere, htail⟩ := List.append_inj h (by
          rw [unitFlags_length, List.length_map])
        -- the last unit of the entity
        have hlast := unitFlags_eq_iff.mp hhere (i + name.length + 1)
          (by omega) (by omega)
        refine Counted.text hti (k := i + name.length + 1) (by omega)
          ?_ hlast (fun y hy => ?_) hbehind hle
          fun hgt => ih ?_ htail hgt (by omega)
        · omega
        · exact Or.inr (by omega)
        · omega

/-- Where the flags do not change any more, it does not matter what is
counted. -/
theorem codeFlags_of_const {f inside : Nat → Bool} {b : Bool} {t : Nat}
    {pieces : List Piece} (hf : ∀ x, i ≤ x → f x = b)
    (hinside : ∀ x, t ≤ x → x < t + textLength pieces → inside x = b) :
    codeFlags f i pieces = flagged inside t pieces := by
  induction pieces generalizing i t with
  | nil => rfl
  | cons piece pieces ih =>
    cases piece with
    | tag body closed =>
      simp only [codeFlags, flagged]
      rw [ih hf hinside]
    | unit u ordinary =>
      rw [textLength] at hinside
      have hrest := ih (i := i + 1) (t := t + 1)
        (fun x hx => hf x (by omega))
        fun x hx hlt => hinside x (by omega) (by omega)
      simp only [codeFlags, flagged]
      rw [hrest, hf i (Nat.le_refl i),
        hinside t (Nat.le_refl t) (by omega)]
      rfl
    | entity name named =>
      rw [textLength] at hinside
      have hrest := fun i' (hi' : i ≤ i') => ih (i := i') (t := t + 1)
        (fun x hx => hf x (by omega))
        fun x hx hlt => hinside x (by omega) (by omega)
      simp only [codeFlags, flagged]
      rw [hrest _ (Nat.le_succ i), hrest _ (Nat.le_add_right i _),
        hf i (Nat.le_refl i), hinside t (Nat.le_refl t) (by omega),
        unitFlags_eq_iff.mpr fun x hx _ => hf x hx, ite_self]

/-- Up to the first long entity what is counted are the positions. -/
theorem codeFlags_of_fits {f inside : Nat → Bool} {b : Bool} {t : Nat}
    {pieces : List Piece}
    (hagree : ∀ x, t ≤ x → x < t + textLength pieces → f x = inside x)
    (hlong : ∀ y ∈ longEntities t pieces, (∀ x, y ≤ x → f x = b)
      ∧ ∀ x, y ≤ x → x < t + textLength pieces → inside x = b) :
    codeFlags f t pieces = flagged inside t pieces := by
  induction pieces generalizing t with
  | nil => rfl
  | cons piece pieces ih =>
    cases piece with
    | tag body closed =>
      simp only [codeFlags, flagged]
      rw [ih hagree hlong]
    | unit u ordinary =>
      rw [textLength] at hagree hlong
      have hrest := ih (t := t + 1)
        (fun x hx hlt => hagree x (by omega) (by omega))
        fun y hy => ⟨(hlong y hy).1,
          fun x hx hlt => (hlong y hy).2 x hx (by omega)⟩
      simp only [codeFlags, flagged]
      rw [hrest, hagree t (Nat.le_refl t) (by omega)]
      rfl
    | entity name named =>
      rw [textLength] at hagree hlong
      by_cases hshort : name.length + 1 < 10
      · have htail : longEntities t (.entity name named :: pieces)
            = longEntities (t + 1) pieces := if_pos hshort
        rw [htail] at hlong
        have hrest := ih (t := t + 1)
          (fun x hx hlt => hagree x (by omega) (by omega))
          fun y hy => ⟨(hlong y hy).1,
            fun x hx hlt => (hlong y hy).2 x hx (by omega)⟩
        simp only [codeFlags, flagged]
        rw [if_pos hshort, hrest, hagree t (Nat.le_refl t) (by omega)]
      · have hhere : t ∈ longEntities t (.entity name named :: pieces) := by
          simp only [longEntities]
          rw [if_neg hshort]
          exact List.mem_cons_self
        obtain ⟨hf, hinside⟩ := hlong t hhere
        apply codeFlags_of_const hf
        rw [textLength]
        exact hinside

-- ======== the result

theorem finds_of_mem (h : m ∈ findMatches re 0 re.stop_zero) : re.Finds m :=
  (mem_findMatches re.stop_zero).mpr (Or.inl h)

theorem not_covers_of_empty {e : Match}
    (he : e ∈ findMatches re 0 re.stop_zero) (hempty : e.start = e.stop) :
    ¬re.Covers e.stop := by
  have hchained := findMatches_chained re.stop_zero
  rintro ⟨m, hm, hstart, hlt⟩
  rcases (mem_findMatches re.stop_zero).mp hm with
    hm | ⟨e', he', hempty', hlater⟩
  · have := hchained.stop_le he hempty hm
    omega
  · have hle := hchained.stop_le he' hempty' he
    have := (hlater.behind (finds_of_mem he')).le_start
    omega

/-- Where all empty matches are at the end, the walk covers what the
expression does, and beyond the text all if there is an empty match. -/
theorem covers_findMatches
    (hempty : ∀ m, re.Finds m → m.start = m.stop → m.stop = length) :
    (x < length → (covers (findMatches re 0 re.stop_zero) x = true
      ↔ re.Covers x))
    ∧ (length ≤ x → (covers (findMatches re 0 re.stop_zero) x = true
      ↔ re.FindsEmpty)) := by
  -- nothing is found behind an empty match
  have hfound : ∀ {m}, re.Finds m → m ∈ findMatches re 0 re.stop_zero := by
    intro m hm
    rcases (mem_findMatches re.stop_zero).mp hm with
      hm | ⟨e, he, hemp, hlater⟩
    · exact hm
    · have hend := hempty e (finds_of_mem he) hemp
      have hwithin := hlater.behind (finds_of_mem he)
      have := hwithin.le_start
      have := hwithin.start_le
      have := hwithin.stop_le
      omega
  rw [covers_eq_true]
  constructor
  · intro hx
    constructor
    · rintro ⟨m, hm, hstart, hlt | hemp⟩
      · exact ⟨m, finds_of_mem hm, hstart, hlt⟩
      · have := hempty m (finds_of_mem hm) hemp
        omega
    · rintro ⟨m, hm, hstart, hlt⟩
      exact ⟨m, hfound hm, hstart, Or.inl hlt⟩
  · intro hx
    constructor
    · rintro ⟨m, hm, -, hlt | hemp⟩
      · have := ((finds_of_mem hm).within re.stop_zero).stop_le
        omega
      · exact ⟨m, finds_of_mem hm, hemp⟩
    · rintro ⟨m, hm, hemp⟩
      refine ⟨m, hfound hm, ?_, Or.inr hemp⟩
      have := hempty m hm hemp
      omega

variable {pieces : List Piece} {inside : Nat → Bool}

theorem empty_of_flags (htext : textLength pieces = length)
    (hinside : ∀ t < length, inside t = true ↔ re.Covers t)
    (h : codeFlags (covers (findMatches re 0 re.stop_zero)) 0 pieces
      = flagged inside 0 pieces) (hm : re.Finds m)
    (hempty : m.start = m.stop) : m.stop = length := by
  by_contra hne
  have hle := (hm.within re.stop_zero).stop_le
  -- the first empty match
  obtain ⟨e, he, hemp, hem⟩ : ∃ e ∈ findMatches re 0 re.stop_zero,
      e.start = e.stop ∧ e.stop ≤ m.stop := by
    rcases (mem_findMatches re.stop_zero).mp hm with
      hm | ⟨e, he, hemp, hlater⟩
    · exact ⟨m, hm, hempty, Nat.le_refl _⟩
    · have := (hlater.behind (finds_of_mem he)).le_start
      exact ⟨e, he, hemp, by omega⟩
  obtain ⟨k, hk, -⟩ := counted_of_eq (x := e.stop) (Nat.le_refl 0) h
    (Nat.zero_le _) (by omega)
  have hek := hk.le
  have hcovered : covers (findMatches re 0 re.stop_zero) k = true :=
    covers_eq_true.mpr ⟨e, he, by omega, Or.inr hemp⟩
  rw [hk.flag] at hcovered
  exact not_covers_of_empty he hemp
    ((hinside e.stop (by omega)).mp hcovered)

/-- If the flags agree, they do not change any more from a long entity
on. -/
theorem const_of_flags {f : Nat → Bool} {b : Bool} {y : Nat}
    (htext : textLength pieces = length)
    (hagree : ∀ x < length, f x = inside x) (hbeyond : ∀ x, length ≤ x → f x = b)
    (h : codeFlags f 0 pieces = flagged inside 0 pieces)
    (hy : y ∈ longEntities 0 pieces) (hyx : y ≤ x) (hx : x < length) :
    inside x = b := by
  -- a position is flagged like one behind it, or beyond the text
  have hfrom : ∀ d x, length ≤ x + d → y ≤ x → x < length →
      inside x = b := by
    intro d
    induction d with
    | zero =>
      intro x hd _ hlt
      omega
    | succ d ih =>
      intro x hd hyx hlt
      obtain ⟨k, hk, -⟩ := counted_of_eq (x := x) (Nat.le_refl 0) h
        (Nat.zero_le _) (by omega)
      have hbehind := hk.long y hy hyx
      rw [← hk.flag]
      by_cases hkl : k < length
      · rw [hagree k hkl]
        exact ih k (by omega) (by omega) hkl
      · exact hbeyond k (by omega)
  exact hfrom length x (by omega) hyx hx

open Classical in
/-- The matches are marked exactly if no empty match but one at the end, and
no entity that the walk does not know, is in the way. -/
theorem highlighted_iff_fits {plainText : JsString}
    (rendering : Rendering plainText) (re : RegExp plainText.length) :
    Highlighted re rendering.pieces
        (highlightMatchesInHtml (htmlOf rendering.pieces) (some re))
      ↔ Fits re rendering.pieces := by
  have htext := rendering.renders.textLength
  have hmarks := marks_highlight re rendering.pieces
  have hbool : ∀ {a b : Bool}, (a = true ↔ b = true) → a = b :=
    Bool.eq_iff_iff.mpr
  constructor
  · intro h
    obtain ⟨inside, hinside, hflags⟩ := h.marked
    have hcode := Option.some.inj (hmarks.symm.trans hflags)
    have hempty := fun m hm hemp =>
      empty_of_flags (m := m) htext hinside hcode hm hemp
    refine ⟨hempty, fun y hy x hyx hx => ?_⟩
    have hconst := const_of_flags (b := decide re.FindsEmpty) htext
      (fun x hx => hbool (((covers_findMatches hempty).1 hx).trans
        (hinside x hx).symm))
      (fun x hx => hbool (((covers_findMatches hempty).2 hx).trans
        decide_eq_true_iff.symm))
      hcode hy hyx hx
    rw [← hinside x hx, hconst, decide_eq_true_iff]
  · intro h
    have hcode : codeFlags (covers (findMatches re 0 re.stop_zero)) 0
        rendering.pieces
        = flagged (fun t => decide (re.Covers t)) 0 rendering.pieces := by
      apply codeFlags_of_fits (b := decide re.FindsEmpty)
      · intro x _ hx
        rw [htext, Nat.zero_add] at hx
        exact hbool (((covers_findMatches h.empty).1 hx).trans
          decide_eq_true_iff.symm)
      · intro y hy
        rw [htext, Nat.zero_add]
        constructor
        · intro x hyx
          apply hbool
          rw [decide_eq_true_iff]
          by_cases hx : x < plainText.length
          · exact ((covers_findMatches h.empty).1 hx).trans
              (h.long y hy x hyx hx)
          · exact (covers_findMatches h.empty).2 (by omega)
        · intro x hyx hx
          exact hbool (decide_eq_true_iff.trans
            ((h.long y hy x hyx hx).trans decide_eq_true_iff.symm))
    rw [hcode] at hmarks
    refine ⟨?_, _, fun t _ => decide_eq_true_iff, hmarks⟩
    rw [← map_snd_marks hmarks, map_snd_flagged]

-- ======== an example

/-- `/a*/g` on `baa`. -/
def aStar : RegExp 3 where
  exec i := if i = 0 then some ⟨0, 0⟩ else if i ≤ 3 then some ⟨i, 3⟩ else none
  advance i := i + 1
  Stop _ := True
  stop_zero := trivial
  stop_stop _ _ := trivial
  stop_advance _ := trivial
  le_start := by
    intro i m _ h
    split at h
    · omega
    · split at h
      · obtain rfl := Option.some.inj h
        exact Nat.le_refl i
      · cases h
  start_le := by
    intro i m _ h
    split at h
    · obtain rfl := Option.some.inj h
      exact Nat.le_refl 0
    · split at h
      next hle =>
        obtain rfl := Option.some.inj h
        exact hle
      · cases h
  stop_le := by
    intro i m _ h
    split at h
    · obtain rfl := Option.some.inj h
      exact Nat.zero_le 3
    · split at h
      · obtain rfl := Option.some.inj h
        exact Nat.le_refl 3
      · cases h
  lt_advance i := Nat.lt_succ_self i

def baa : Rendering (ofString "baa") where
  pieces :=
    [.unit 98 (by decide), .unit 97 (by decide), .unit 97 (by decide)]
  renders := ⟨_, rfl, _, rfl, _, rfl, rfl⟩

/-- The whole text is marked, though its first character is in no match. -/
theorem whole_text_marked :
    ¬Highlighted aStar baa.pieces
      (highlightMatchesInHtml (htmlOf baa.pieces) (some aStar)) := by
  intro h
  obtain ⟨inside, hinside, hflags⟩ := h.marked
  have hfound : findMatches aStar 0 aStar.stop_zero = [⟨0, 0⟩] := by
    rw [findMatches]
    rfl
  have hcode := (marks_highlight aStar baa.pieces).symm.trans hflags
  rw [hfound] at hcode
  have hfirst := (List.cons.inj (Option.some.inj hcode)).1
  obtain ⟨m, hm, hstart, hlt⟩ :=
    (hinside 0 (by decide)).mp (Prod.mk.inj hfirst).1.symm
  obtain ⟨m', hexec, heq⟩ := findsFrom_iff.mp hm
  obtain rfl := Option.some.inj hexec
  rcases heq with rfl | hlater
  · cases hlt
  · have hbehind : 1 ≤ m.start := (hlater.within trivial).le_start
    omega

end LogUtils
