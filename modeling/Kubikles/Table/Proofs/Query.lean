/-
When a query is read as it was written (`parseQuery`).

# Conditions

A printed condition that ends at white space is read as the condition it is
exactly if it is readable (`parse_print_iff`): the text of a word is cut
where a field may begin, and a value that is missing leaves no field.

# The split

The first `or` between white space in a printed group is the one behind the
group, if all quoted values and all words but the last have none; else it
cuts the group short, and what is before it is read as something else
(`firstOr_whole`, `firstOr_cut`).
-/
import Kubikles.Table.Query
import Mathlib.Data.List.TakeWhile

namespace QueryParser

open JsString

variable {valid : JsString → JsString → Bool} {u : UInt16}
  {s r v w : JsString} {c : Written} {l : List Condition}

-- ======== classes

def Ends (r : JsString) : Prop := r.head?.all isSpace = true

theorem Ends.nil : Ends [] := rfl

theorem takeWhile_stop {p : UInt16 → Bool} (hs : ∀ u ∈ s, p u = true)
    (hr : ∀ u ∈ r.head?, p u = false) : (s ++ r).takeWhile p = s := by
  rw [List.takeWhile_append_of_pos hs]
  cases r with
  | nil => exact List.append_nil s
  | cons u r =>
    rw [List.takeWhile_cons_of_neg (by simp [hr u rfl]), List.append_nil]

theorem dropWhile_stop {p : UInt16 → Bool} (hs : ∀ u ∈ s, p u = true)
    (hr : ∀ u ∈ r.head?, p u = false) : (s ++ r).dropWhile p = r := by
  rw [List.dropWhile_append_of_pos hs]
  cases r with
  | nil => rfl
  | cons u r => exact List.dropWhile_cons_of_neg (by simp [hr u rfl])

theorem Ends.head {p : UInt16 → Bool} (h : Ends r)
    (hp : ∀ u, isSpace u = true → p u = false) :
    ∀ u ∈ r.head?, p u = false := by
  intro u hu
  unfold Ends at h
  rw [hu] at h
  exact hp u h

theorem Ends.ne (h : Ends r) (hu : isSpace u = false) : r.head? ≠ some u := by
  intro hhead
  unfold Ends at h
  rw [hhead] at h
  exact absurd h (by simp [hu])

-- ======== values

theorem matchRegexToken_none (h : s.head? ≠ some 47) :
    matchRegexToken valid s = none := by
  unfold matchRegexToken
  split
  · exact absurd rfl h
  · rfl

theorem quoted_none {quote : UInt16} (h : s.head? ≠ some quote) :
    quoted quote s = none := by
  cases s with
  | nil => rfl
  | cons u s =>
    have hu : u ≠ quote := fun heq => h (by rw [heq]; rfl)
    unfold quoted
    simp [hu]

theorem matchValue_quoted (hv : (34 : UInt16) ∉ v) (r : JsString) :
    matchValue valid (34 :: (v ++ 34 :: r))
      = some (.text v, v.length + 2) := by
  have hquoted : quoted 34 (34 :: (v ++ 34 :: r)) = some v := by
    have htake : (v ++ 34 :: r).takeWhile (fun u => u ≠ 34) = v := by
      apply takeWhile_stop
      · intro u hu
        exact decide_eq_true (fun heq => hv (heq ▸ hu))
      · intro u hu
        rw [← Option.some.inj hu]
        rfl
    simp only [quoted]
    rw [if_pos (by simp), htake]
  unfold matchValue
  rw [matchRegexToken_none (by simp), hquoted]
  rfl

theorem matchValue_bare (hregex : s.head? ≠ some 47)
    (hquoted : quoted 34 s = none) (hquoted' : quoted 39 s = none) :
    matchValue valid s
      = (unquoted s).map fun value => (.text value, value.length) := by
  unfold matchValue
  rw [matchRegexToken_none hregex, hquoted, hquoted']
  rfl

theorem matchValue_unquoted (valid : JsString → JsString → Bool)
    (hbare : Bare v) (hr : Ends r) :
    matchValue valid (v ++ r)
      = if v = [] then none else some (.text v, v.length) := by
  have hhead : ∀ quote, isSpace quote = false → v.head? ≠ some quote →
      (v ++ r).head? ≠ some quote := by
    intro quote hspace hne
    cases v with
    | nil => exact hr.ne hspace
    | cons u v => exact hne
  have hnot : ∀ quote, (∀ u ∈ v, u ≠ quote) → v.head? ≠ some quote := by
    intro quote hall heq
    exact hall quote (List.mem_of_mem_head? heq) rfl
  rw [matchValue_bare (hhead 47 (by decide) hbare.head)
    (quoted_none (hhead 34 (by decide)
      (hnot 34 fun u hu => (hbare.units u hu).2.2.1)))
    (quoted_none (hhead 39 (by decide)
      (hnot 39 fun u hu => (hbare.units u hu).2.2.2)))]
  have htake : (v ++ r).takeWhile (fun u => !isSpace u && u ≠ 44) = v := by
    apply takeWhile_stop
    · intro u hu
      obtain ⟨hspace, hcomma, -⟩ := hbare.units u hu
      simp [hspace, hcomma]
    · exact hr.head fun u hu => by simp [hu]
  unfold unquoted
  rw [htake]
  cases v <;> rfl

theorem matchValue_open (valid : JsString → JsString → Bool)
    (hs : (34 : UInt16) ∉ s) :
    ∃ t n, matchValue valid (34 :: s) = some (.text (34 :: t), n) := by
  have hquoted : quoted 34 (34 :: s) = none := by
    unfold quoted
    simp [hs]
  rw [matchValue_bare (by simp) hquoted (quoted_none (by simp))]
  let t := s.takeWhile fun u => !isSpace u && u ≠ 44
  refine ⟨t, t.length + 1, ?_⟩
  unfold unquoted
  rw [List.takeWhile_cons_of_pos (by decide)]
  rfl

-- ======== fields

theorem matchFieldCondition_name (valid : JsString → JsString → Bool)
    {name : JsString}
    (hword : ∀ u ∈ name, isWord u = true) (hne : name ≠ [])
    (after : JsString) :
    matchFieldCondition valid (name ++ 58 :: after)
      = (matchValue valid after).map fun (value, consumed) =>
          ({ field := some (lower name), value },
            name.length + 1 + consumed) := by
  have hcolon : ∀ u ∈ (58 :: after).head?, isWord u = false := by
    intro u hu
    rw [← Option.some.inj hu]
    rfl
  unfold matchFieldCondition
  rw [takeWhile_stop hword hcolon, dropWhile_stop hword hcolon]
  exact if_neg hne

theorem FieldName.isWord (field : FieldName) :
    ∀ u ∈ field.name, JsString.isWord u = true :=
  fun u hu => isWord_of_isLetter (field.letters u hu)

theorem matchToken_of_field {p : Condition × Nat}
    (h : matchFieldCondition valid s = some p) :
    matchToken valid s = some p := by
  unfold matchToken
  rw [h]

theorem matchValue_ne_none (valid : JsString → JsString → Bool)
    (hspace : isSpace u = false) (hcomma : u ≠ 44)
    (s : JsString) : ∃ p, matchValue valid (u :: s) = some p := by
  unfold matchValue
  split
  next p _ => exact ⟨p, rfl⟩
  · split
    next value _ => exact ⟨_, rfl⟩
    · unfold unquoted
      rw [List.takeWhile_cons_of_pos (by simp [hspace, hcomma])]
      exact ⟨_, rfl⟩

theorem field_of_matchToken {n : Nat} {name : JsString} {value : Value}
    (h : matchFieldCondition valid s = none) :
    matchToken valid s ≠ some ({ field := some name, value }, n) := by
  unfold matchToken
  rw [h]
  simp only
  split
  next v consumed _ =>
    intro heq
    cases (Prod.mk.inj (Option.some.inj heq)).1
  · intro heq
    obtain ⟨k, -, hk⟩ := Option.map_eq_some_iff.mp heq
    cases (Prod.mk.inj hk).1

-- ======== words

theorem endsWord_letter {t : JsString} (hu : isLetter u = true) :
    endsWord (u :: 58 :: t) = true := by
  have hcolon : (u :: 58 :: t).dropWhile isLetter = 58 :: t := by
    rw [List.dropWhile_cons_of_pos hu, List.dropWhile_cons_of_neg (by decide)]
  unfold endsWord
  rw [hcolon]
  simp [hu]

/-- A word does not end where something else than letters is before the next
colon. -/
theorem endsWord_false {front t : JsString}
    (hfront : ∀ v ∈ front, isSpace v = false ∧ v ≠ 58)
    (hspace : isSpace u = false) (hcolon : u ≠ 58)
    (hu : isLetter u = false) : endsWord (front ++ u :: t) = false := by
  have hhead : ((front ++ u :: t).dropWhile isLetter).head? ≠ some 58 := by
    induction front with
    | nil =>
      rw [List.nil_append, List.dropWhile_cons_of_neg (by simp [hu])]
      simpa using hcolon
    | cons v front ih =>
      rw [List.cons_append]
      by_cases hv : isLetter v = true
      · rw [List.dropWhile_cons_of_pos hv]
        exact ih fun x hx => hfront x (List.mem_cons_of_mem v hx)
      · rw [List.dropWhile_cons_of_neg hv]
        simpa using (hfront v List.mem_cons_self).2
  have hfirst : (front ++ u :: t).head?.all isSpace = false := by
    cases front with
    | nil => exact hspace
    | cons v front => exact (hfront v List.mem_cons_self).1
  unfold endsWord
  rw [hfirst]
  simp [hhead]

/-- No word ends before the last unit in front of a colon, if that is no
letter. -/
theorem wordLength_none {head t : JsString}
    (hhead : ∀ v ∈ head, isSpace v = false ∧ v ≠ 58)
    (hlast : ∀ v ∈ head.getLast?, isLetter v = false) {n : Nat}
    (hn : n < head.length) : wordLength (head ++ 58 :: t) n = none := by
  induction n with
  | zero => rfl
  | succ n ih =>
    obtain ⟨front, v, rfl⟩ : ∃ front v, head = front ++ [v] := by
      have hne : head ≠ [] := by
        rintro rfl
        cases hn
      exact ⟨_, _, (List.dropLast_append_getLast hne).symm⟩
    have hv := hhead v (by simp)
    rw [List.length_append, List.length_singleton] at hn
    have hdrop : (front ++ [v] ++ 58 :: t).drop (n + 1)
        = front.drop (n + 1) ++ v :: 58 :: t := by
      rw [List.append_assoc, List.drop_append_of_le_length (by omega)]
      rfl
    rw [wordLength, hdrop, endsWord_false
      (fun x hx => hhead x (by simp [List.mem_of_mem_drop hx]))
      hv.1 hv.2 (hlast v (by simp))]
    exact ih (by rw [List.length_append, List.length_singleton]; omega)

/-- What a word is made of: what is before its first colon, and what is
behind it. -/
theorem word_cases (w : JsString) :
    (∀ u ∈ w, u ≠ 58)
      ∨ ∃ head t, w = head ++ 58 :: t ∧ ∀ u ∈ head, u ≠ 58 := by
  by_cases h : (58 : UInt16) ∈ w
  · obtain ⟨head, t, rfl, hhead⟩ := List.eq_append_cons_of_mem h
    exact Or.inr ⟨head, t, rfl, fun u hu heq => hhead (heq ▸ hu)⟩
  · exact Or.inl fun u hu heq => h (heq ▸ hu)

theorem head_dropWhile {p : UInt16 → Bool} {r : JsString}
    (h : u ∈ ((s ++ r).dropWhile p).head?) :
    u ∈ s ∨ s.all p = true ∧ u ∈ (r.dropWhile p).head? := by
  induction s with
  | nil => exact Or.inr ⟨rfl, h⟩
  | cons v s ih =>
    rw [List.cons_append] at h
    by_cases hv : p v = true
    · rw [List.dropWhile_cons_of_pos hv] at h
      refine (ih h).imp (List.mem_cons_of_mem v) fun hrest => ⟨?_, hrest.2⟩
      rw [List.all_cons, hv, hrest.1]
      rfl
    · rw [List.dropWhile_cons_of_neg hv] at h
      rw [← Option.some.inj h]
      exact Or.inl List.mem_cons_self

theorem matchFieldCondition_of_head
    (h : (s.dropWhile isWord).head? ≠ some 58) :
    matchFieldCondition valid s = none := by
  unfold matchFieldCondition
  simp only
  split
  next heq =>
    rw [heq] at h
    exact absurd rfl h
  · rfl

theorem Ends.dropWhile_isWord (h : Ends r) : r.dropWhile isWord = r := by
  have hhead := h.head (p := isWord) fun u hu => by
    cases hword : isWord u with
    | false => rfl
    | true => rw [isSpace_of_isWord hword] at hu; cases hu
  exact dropWhile_stop (s := []) nofun hhead

theorem matchFieldCondition_word (hw : ∀ u ∈ w, u ≠ 58) (hr : Ends r) :
    matchFieldCondition valid (w ++ r) = none := by
  apply matchFieldCondition_of_head
  intro hhead
  rcases head_dropWhile hhead with hmem | ⟨-, hrest⟩
  · exact hw 58 hmem rfl
  · rw [hr.dropWhile_isWord] at hrest
    exact hr.ne (by decide) hrest

/-- A text with a colon is no field where what is before the colon is no
name, or nothing is behind it. -/
theorem matchFieldCondition_none (valid : JsString → JsString → Bool)
    {head t : JsString}
    (hhead : ∀ u ∈ head, u ≠ 58) (hr : Ends r)
    (hname : head ≠ [] → head.all isWord = true → t = []) :
    matchFieldCondition valid (head ++ 58 :: t ++ r) = none := by
  rw [List.append_assoc, List.cons_append]
  by_cases hword : head.all isWord = true
  · by_cases hne : head = []
    · subst hne
      rfl
    · rw [hname hne hword, matchFieldCondition_name valid
        (List.all_eq_true.mp hword) hne, List.nil_append]
      have hnone := matchValue_unquoted valid (v := [])
        ⟨nofun, nofun⟩ hr
      rw [List.nil_append] at hnone
      rw [hnone]
      rfl
  · apply matchFieldCondition_of_head
    intro h58
    rcases head_dropWhile h58 with hmem | ⟨hall, -⟩
    · exact hhead 58 hmem rfl
    · exact hword hall

theorem matchToken_ne_none (valid : JsString → JsString → Bool)
    (hu : isSpace u = false) (s : JsString) :
    ∃ p, matchToken valid (u :: s) = some p := by
  unfold matchToken
  split
  next p _ => exact ⟨p, rfl⟩
  · split
    next value consumed _ => exact ⟨_, rfl⟩
    · have hplain : ∃ n, matchPlain (u :: s) = some n := by
        unfold matchPlain
        simp only
        split
        next n _ => exact ⟨n, rfl⟩
        · rw [List.takeWhile_cons_of_pos (by simp [hu]), List.length_cons]
          exact ⟨_, rfl⟩
      obtain ⟨n, hn⟩ := hplain
      rw [hn]
      exact ⟨_, rfl⟩

theorem matchToken_plain (hfield : matchFieldCondition valid s = none)
    (hregex : s.head? ≠ some 47) :
    matchToken valid s = (matchPlain s).map fun n =>
      ({ value := .text (s.take n) }, n) := by
  unfold matchToken
  rw [hfield, matchRegexToken_none hregex]

theorem matchPlain_word (hspace : ∀ u ∈ w, isSpace u = false)
    (hcolon : ∀ u ∈ w, u ≠ 58) (hne : w ≠ []) (hr : Ends r) :
    matchPlain (w ++ r) = some w.length := by
  have hrun : (w ++ r).takeWhile (fun u => !isSpace u && u ≠ 58) = w := by
    apply takeWhile_stop
    · intro u hu
      simp [hspace u hu, hcolon u hu]
    · exact hr.head fun u hu => by simp [hu]
  have hends : endsWord r = true := by
    unfold endsWord
    rw [show r.head?.all isSpace = true from hr]
    rfl
  obtain ⟨n, hn⟩ : ∃ n, w.length = n + 1 :=
    Nat.exists_eq_succ_of_ne_zero (mt List.length_eq_zero_iff.mp hne)
  unfold matchPlain
  simp only
  rw [hrun, hn, wordLength, ← hn, List.drop_left, if_pos hends]

theorem wordLength_colon {head t : JsString} :
    wordLength (head ++ 58 :: t) head.length
      = wordLength (head ++ 58 :: t) (head.length - 1) := by
  cases hlength : head.length with
  | zero => rfl
  | succ n =>
    have hcolon : endsWord (58 :: t) = false := rfl
    rw [wordLength, ← hlength, List.drop_left, hcolon,
      if_neg Bool.false_ne_true, hlength]
    rfl

/-- The plain word of a text with a colon: it is cut before a letter that
stands before the colon. -/
theorem matchPlain_colon {head t : JsString}
    (hspace : ∀ u ∈ head ++ 58 :: t, isSpace u = false)
    (hcolon : ∀ u ∈ head, u ≠ 58) (hr : Ends r) :
    matchPlain (head ++ 58 :: t ++ r)
      = if 2 ≤ head.length ∧ ∃ u ∈ head.getLast?, isLetter u = true then
          some (head.length - 1)
        else some (head ++ 58 :: t).length := by
  have hassoc : head ++ 58 :: t ++ r = head ++ 58 :: (t ++ r) := by simp
  have hhead : ∀ u ∈ head, isSpace u = false ∧ u ≠ 58 := fun u hu =>
    ⟨hspace u (List.mem_append_left _ hu), hcolon u hu⟩
  have hrun : (head ++ 58 :: (t ++ r)).takeWhile
      (fun u => !isSpace u && u ≠ 58) = head := by
    apply takeWhile_stop
    · intro u hu
      simp [hhead u hu]
    · intro u hu
      rw [← Option.some.inj hu]
      rfl
  have hword : (head ++ 58 :: t ++ r).takeWhile (fun u => !isSpace u)
      = head ++ 58 :: t := by
    apply takeWhile_stop
    · intro u hu
      simp [hspace u hu]
    · exact hr.head fun u hu => by simp [hu]
  unfold matchPlain
  simp only
  rw [hword, hassoc, hrun, wordLength_colon]
  by_cases hcut : 2 ≤ head.length ∧ ∃ u ∈ head.getLast?, isLetter u = true
  · obtain ⟨hlength, v, hlast, hletter⟩ := hcut
    rw [if_pos ⟨hlength, v, hlast, hletter⟩]
    obtain ⟨front, rfl⟩ := List.getLast?_eq_some_iff.mp hlast
    rw [List.length_append, List.length_singleton] at hlength ⊢
    obtain ⟨n, hn⟩ : ∃ n, front.length = n + 1 := ⟨front.length - 1, by omega⟩
    have hdrop : (front ++ [v] ++ 58 :: (t ++ r)).drop front.length
        = v :: 58 :: (t ++ r) := by
      rw [List.append_assoc, List.drop_left]
      rfl
    rw [Nat.add_sub_cancel, hn, wordLength, ← hn, hdrop,
      if_pos (endsWord_letter hletter)]
  · rw [if_neg hcut]
    have hnone : wordLength (head ++ 58 :: (t ++ r)) (head.length - 1)
        = none := by
      by_cases hlength : 2 ≤ head.length
      · apply wordLength_none hhead
        · intro v hv
          rw [Bool.eq_false_iff]
          exact fun hletter => hcut ⟨hlength, v, hv, hletter⟩
        · omega
      · rw [show head.length - 1 = 0 by omega]
        rfl
    rw [hnone]
    simp only
    rw [List.length_append, List.length_cons]
    rfl

-- ======== tokens

structure Read (valid : JsString → JsString → Bool) (c : Written)
    (r : JsString) (p : Condition × Nat) : Prop where
  token : matchToken valid (c.print ++ r) = some p
  of_readable : c.Readable → p = (c.condition, c.print.length)
  readable : p.1 = c.condition → c.Readable

theorem uncut_iff {head t : JsString} (hcolon : ∀ u ∈ head, u ≠ 58) :
    Uncut (head ++ 58 :: t)
      ↔ head = [] ∨ ((head.all isWord = true → t = [])
          ∧ (head.length = 1
            ∨ ∀ u ∈ head.getLast?, isLetter u = false)) := by
  have hhead : (head ++ 58 :: t).takeWhile (fun u => u ≠ 58) = head := by
    apply takeWhile_stop
    · exact fun u hu => decide_eq_true (hcolon u hu)
    · intro u hu
      rw [← Option.some.inj hu]
      rfl
  unfold Uncut
  rw [hhead]
  simp

/-- A word is read as itself exactly if it is readable. -/
theorem read_word (w : JsString) (hne : w ≠ []) (hbare : Bare w)
    (notOr : w ≠ ofString "OR") (notField : ¬IsField w) (hr : Ends r) :
    ∃ p, Read valid (.word w hne hbare notOr notField) r p := by
  have hspace : ∀ u ∈ w, isSpace u = false := fun u hu =>
    (hbare.units u hu).1
  have hregex : (w ++ r).head? ≠ some 47 := by
    cases w with
    | nil => exact absurd rfl hne
    | cons u w => exact hbare.head
  have hplain : ∀ n, matchFieldCondition valid (w ++ r) = none →
      matchPlain (w ++ r) = some n →
      matchToken valid (w ++ r)
        = some ({ value := .text ((w ++ r).take n) }, n) := by
    intro n hfield hword
    rw [matchToken_plain hfield hregex, hword]
    rfl
  rcases word_cases w with hcolon | ⟨head, t, rfl, hcolon⟩
  · -- no colon
    have hhead : w.takeWhile (fun u => u ≠ 58) = w :=
      List.takeWhile_eq_self_iff.mpr fun u hu => decide_eq_true (hcolon u hu)
    have htoken := hplain w.length (matchFieldCondition_word hcolon hr)
      (matchPlain_word hspace hcolon hne hr)
    rw [List.take_left] at htoken
    exact ⟨_, htoken, fun _ => rfl, fun _ => Or.inl hhead⟩
  · have hreadable := uncut_iff (t := t) hcolon
    by_cases hfield : head ≠ [] ∧ head.all isWord = true ∧ t ≠ []
    · -- the name of a field, and its value
      obtain ⟨hnil, hall, ht⟩ := hfield
      obtain ⟨u, t, rfl⟩ := List.exists_cons_of_ne_nil ht
      have hu := hbare.units u (by simp)
      obtain ⟨p, hp⟩ := matchValue_ne_none valid hu.1 hu.2.1
        (t ++ r)
      have hname := matchFieldCondition_name valid
        (List.all_eq_true.mp hall) hnil (u :: (t ++ r))
      rw [hp] at hname
      have htoken := matchToken_of_field hname
      refine ⟨_, by simpa [Written.print] using htoken, fun h => ?_,
        fun heq => by cases heq⟩
      rcases hreadable.mp h with hempty | ⟨hname, -⟩
      · exact absurd hempty hnil
      · exact absurd (hname hall) (List.cons_ne_nil u t)
    · have hnone := matchFieldCondition_none valid hcolon hr
        fun hnil hall => by_contra fun ht => hfield ⟨hnil, hall, ht⟩
      have hword := matchPlain_colon hspace hcolon hr
      by_cases hcut : 2 ≤ head.length
          ∧ ∃ u ∈ head.getLast?, isLetter u = true
      · -- it is cut before its last letter
        rw [if_pos hcut] at hword
        obtain ⟨hlength, v, hv, hletter⟩ := hcut
        refine ⟨_, hplain _ hnone hword, fun h => ?_, fun heq => ?_⟩
        · rcases hreadable.mp h with hempty | ⟨-, hone | hlast⟩
          · rw [hempty] at hlength
            cases hlength
          · omega
          · rw [hlast v hv] at hletter
            cases hletter
        · have htake : ((head ++ 58 :: t) ++ r).take (head.length - 1)
              = head ++ 58 :: t := Value.text.inj (Condition.mk.inj heq).2
          have := congrArg List.length htake
          simp only [List.length_take, List.length_append,
            List.length_cons] at this
          omega
      · rw [if_neg hcut] at hword
        have htoken := hplain _ hnone hword
        rw [List.take_left] at htoken
        refine ⟨_, htoken, fun _ => rfl, fun _ => hreadable.mpr ?_⟩
        by_cases hnil : head = []
        · exact Or.inl hnil
        · refine Or.inr ⟨fun hall => ?_, ?_⟩
          · exact by_contra fun ht => hfield ⟨hnil, hall, ht⟩
          · by_cases hone : head.length = 1
            · exact Or.inl hone
            · refine Or.inr fun v hv => ?_
              rw [Bool.eq_false_iff]
              have hpos := List.length_pos_iff.mpr hnil
              exact fun hletter => hcut ⟨by omega, v, hv, hletter⟩

/-- What is read of a printed condition that white space ends. -/
theorem read_print (valid : JsString → JsString → Bool) (c : Written)
    (hr : Ends r) : ∃ p, Read valid c r p := by
  cases c with
  | quoted field value noQuote =>
    let c := Written.quoted field value noQuote
    have hprint : c.print ++ r
        = field.name ++ 58 :: 34 :: (value ++ 34 :: r) := by
      simp [c, Written.print]
    have hlength : field.name.length + 1 + (value.length + 2)
        = c.print.length := by
      simp [c, Written.print]
      omega
    have hfield := matchFieldCondition_name valid field.isWord
      field.ne_nil (34 :: (value ++ 34 :: r))
    rw [matchValue_quoted noQuote] at hfield
    refine ⟨(c.condition, c.print.length), ?_, fun _ => rfl,
      fun _ => trivial⟩
    rw [hprint, ← hlength]
    exact matchToken_of_field hfield
  | unquoted field value bare =>
    have hprint : (Written.unquoted field value bare).print ++ r
        = field.name ++ 58 :: (value ++ r) := by
      simp [Written.print]
    have hfield := matchFieldCondition_name valid field.isWord
      field.ne_nil (value ++ r)
    rw [matchValue_unquoted valid bare hr] at hfield
    by_cases hvalue : value = []
    · -- the value is missing
      rw [if_pos hvalue] at hfield
      obtain ⟨u, name, hname⟩ := List.exists_cons_of_ne_nil field.ne_nil
      have hletter := field.letters u (by rw [hname]; exact List.mem_cons_self)
      obtain ⟨p, hp⟩ := matchToken_ne_none valid
        (isSpace_of_isWord (isWord_of_isLetter hletter))
        (name ++ 58 :: (value ++ r))
      rw [← List.cons_append, ← hname] at hp
      refine ⟨p, by rw [hprint]; exact hp, fun h => absurd hvalue h,
        fun heq => ?_⟩
      refine absurd hp ?_
      obtain ⟨condition, n⟩ := p
      obtain rfl : condition = _ := heq
      exact field_of_matchToken hfield
    · rw [if_neg hvalue] at hfield
      let c := Written.unquoted field value bare
      have hlength : field.name.length + 1 + value.length
          = c.print.length := by
        simp [c, Written.print]
        omega
      refine ⟨(c.condition, c.print.length), ?_, fun _ => rfl,
        fun _ => hvalue⟩
      rw [hprint, ← hlength]
      exact matchToken_of_field hfield
  | word w hne hbare notOr notField =>
    exact read_word w hne hbare notOr notField hr

-- ======== groups

theorem print_head (c : Written) :
    ∃ u s, c.print = u :: s ∧ isSpace u = false := by
  have hfield : ∀ (field : FieldName) (t : JsString),
      ∃ u s, field.name ++ t = u :: s ∧ isSpace u = false := by
    intro field t
    obtain ⟨u, name, hname⟩ := List.exists_cons_of_ne_nil field.ne_nil
    have hword := field.isWord u (by rw [hname]; exact List.mem_cons_self)
    exact ⟨u, name ++ t, by rw [hname]; rfl, isSpace_of_isWord hword⟩
  cases c with
  | quoted field value noQuote =>
    simp only [Written.print]
    rw [List.append_assoc]
    exact hfield field _
  | unquoted field value bare => exact hfield field _
  | word w hne hbare notOr notField =>
    obtain ⟨u, t, rfl⟩ := List.exists_cons_of_ne_nil hne
    exact ⟨u, t, rfl, (hbare.units u List.mem_cons_self).1⟩

theorem parseSegment_token {p : Condition × Nat} (s : JsString)
    (hu : isSpace u = false) (h : matchToken valid (u :: s) = some p) :
    parseSegment valid (u :: s)
      = p.1 :: parseSegment valid ((u :: s).drop p.2) := by
  rw [parseSegment]
  split
  next hnone =>
    rw [trimStart_cons hu, h] at hnone
    cases hnone
  next c n heq =>
    rw [trimStart_cons hu] at heq ⊢
    obtain rfl := Option.some.inj (h.symm.trans heq)
    rfl

/-- A printed condition and what is behind it are read as the condition and
some others exactly if it is readable and these are read behind it. -/
theorem parse_print_iff (hr : Ends r) :
    parseSegment valid (c.print ++ r) = c.condition :: l
      ↔ c.Readable ∧ parseSegment valid r = l := by
  obtain ⟨p, hp⟩ := read_print valid c hr
  obtain ⟨u, s, hprint, hu⟩ := print_head c
  have htoken := hp.token
  rw [hprint, List.cons_append] at htoken
  have hparse := parseSegment_token (s ++ r) hu htoken
  rw [← List.cons_append, ← hprint] at hparse
  rw [hparse]
  constructor
  · intro h
    obtain ⟨hcondition, hrest⟩ := List.cons.inj h
    have hreadable := hp.readable hcondition
    rw [hp.of_readable hreadable, List.drop_left] at hrest
    exact ⟨hreadable, hrest⟩
  · rintro ⟨hreadable, hrest⟩
    rw [hp.of_readable hreadable, List.drop_left, hrest]

theorem parseSegment_ne_nil (hu : isSpace u = false) (s : JsString) :
    parseSegment valid (u :: s) ≠ [] := by
  obtain ⟨p, hp⟩ := matchToken_ne_none valid hu s
  rw [parseSegment_token s hu hp]
  exact List.cons_ne_nil _ _

theorem parseSegment_space (s : JsString) :
    parseSegment valid (32 :: s) = parseSegment valid s := by
  have htrim : trimStart (32 :: s) = trimStart s :=
    List.dropWhile_cons_of_pos (by decide)
  rw [parseSegment, parseSegment, htrim]

theorem parseSegment_nil : parseSegment valid [] = [] := by
  rw [parseSegment]
  rfl

/-- The conditions of a group behind its first, and what is behind them. -/
def behind (group : List Written) (r : JsString) : JsString :=
  group.foldr (fun c s => 32 :: (c.print ++ s)) r

theorem printGroup_cons (c : Written) (group : List Written) (r : JsString) :
    printGroup (c :: group) ++ r = c.print ++ behind group r := by
  unfold printGroup
  induction group generalizing c with
  | nil => simp [behind]
  | cons d group ih =>
    rw [List.map_cons, List.map_cons, List.intercalate_cons_cons,
      ← List.map_cons, List.append_assoc, List.append_assoc, ih d]
    rfl

theorem behind_ends (group : List Written) (hr : Ends r) :
    Ends (behind group r) := by
  cases group with
  | nil => exact hr
  | cons c group => rfl

/-- A group is read as it is meant exactly if all its conditions are
readable. -/
theorem parse_group_iff {group : List Written} :
    parseSegment valid (behind group []) = group.map Written.condition
      ↔ ∀ c ∈ group, c.Readable := by
  induction group with
  | nil => exact iff_of_true parseSegment_nil nofun
  | cons c group ih =>
    show parseSegment valid (32 :: (c.print ++ behind group [])) = _ ↔ _
    rw [parseSegment_space, List.map_cons,
      parse_print_iff (behind_ends group Ends.nil), ih,
      List.forall_mem_cons]

-- ======== the split

variable {before after : JsString}

theorem orAt_none (hu : isSpace u = false) (s : JsString) :
    orAt (u :: s) = none := by
  unfold orAt
  exact if_neg (by simp [hu])

theorem firstOr_append (hs : ∀ u ∈ s, isSpace u = false) (r : JsString) :
    firstOr (s ++ r) = (firstOr r).map fun p => (s ++ p.1, p.2) := by
  induction s with
  | nil => simp
  | cons u s ih =>
    rw [List.cons_append,
      firstOr_of_none (orAt_none (hs u List.mem_cons_self) _),
      ih fun v hv => hs v (List.mem_cons_of_mem u hv), Option.map_map]
    rfl

theorem mem_of_firstOr (h : firstOr s = some (before, after))
    (hu : u ∈ before) : u ∈ s := by
  induction s generalizing before after with
  | nil => cases h
  | cons v s ih =>
    cases hor : orAt (v :: s) with
    | some rest =>
      rw [firstOr_of_some hor] at h
      rw [← (Prod.mk.inj (Option.some.inj h)).1] at hu
      cases hu
    | none =>
      rw [firstOr_of_none hor] at h
      obtain ⟨p, hfirst, heq⟩ := Option.map_eq_some_iff.mp h
      obtain ⟨rfl, -⟩ := Prod.mk.inj heq
      rcases List.mem_cons.mp hu with rfl | hu
      · exact List.mem_cons_self
      · exact List.mem_cons_of_mem v (ih hfirst hu)

theorem orAt_cons_space (hu : isSpace u = true)
    (h : orAt s = some after) : orAt (u :: s) = some after := by
  unfold orAt at h ⊢
  split at h
  · rw [if_pos (by simpa using hu), List.dropWhile_cons_of_pos hu]
    exact h
  · cases h

theorem firstOr_getLast (h : firstOr s = some (before, after)) :
    ∀ u ∈ before.getLast?, isSpace u = false := by
  induction s generalizing before after with
  | nil => cases h
  | cons v s ih =>
    cases hor : orAt (v :: s) with
    | some rest =>
      rw [firstOr_of_some hor] at h
      rw [← (Prod.mk.inj (Option.some.inj h)).1]
      exact nofun
    | none =>
      rw [firstOr_of_none hor] at h
      obtain ⟨⟨b, a⟩, hfirst, heq⟩ := Option.map_eq_some_iff.mp h
      obtain ⟨rfl, -⟩ := Prod.mk.inj heq
      cases b with
      | cons x b =>
        rw [List.getLast?_cons_cons]
        exact ih hfirst
      | nil =>
        -- the `or` would begin one unit before
        intro u hu
        obtain rfl : v = u := by simpa using hu
        rw [Bool.eq_false_iff]
        intro hspace
        cases s with
        | nil => cases hfirst
        | cons y s =>
          cases hor' : orAt (y :: s) with
          | some rest =>
            rw [orAt_cons_space hspace hor'] at hor
            cases hor
          | none =>
            rw [firstOr_of_none hor'] at hfirst
            obtain ⟨p, -, heq⟩ := Option.map_eq_some_iff.mp hfirst
            cases (Prod.mk.inj heq).1

theorem dropWhile_append_stop {p : UInt16 → Bool} (hu : p u = false)
    (s r : JsString) :
    (s ++ u :: r).dropWhile p = s.dropWhile p ++ u :: r := by
  induction s with
  | nil => exact List.dropWhile_cons_of_neg (by simp [hu])
  | cons v s ih =>
    rw [List.cons_append]
    by_cases hv : p v = true
    · rw [List.dropWhile_cons_of_pos hv, List.dropWhile_cons_of_pos hv, ih]
    · rw [List.dropWhile_cons_of_neg hv, List.dropWhile_cons_of_neg hv]
      rfl

theorem orAt_quote (v r : JsString) :
    orAt (v ++ 34 :: r) = (orAt v).map (· ++ 34 :: r) := by
  have hquote : isSpace 34 = false := by decide
  have hhead : ∀ s : JsString,
      (s ++ 34 :: r).head?.any isSpace = s.head?.any isSpace := by
    intro s
    cases s <;> rfl
  unfold orAt
  rw [hhead, dropWhile_append_stop hquote]
  by_cases hspace : v.head?.any isSpace = true
  · rw [if_pos hspace, if_pos hspace]
    cases v.dropWhile isSpace with
    | nil => cases r <;> rfl
    | cons o t =>
      cases t with
      | nil => exact if_neg (by simp)
      | cons q t =>
        simp only [List.cons_append]
        rw [hhead, dropWhile_append_stop hquote]
        split <;> rfl
  · rw [if_neg hspace, if_neg hspace]
    rfl

theorem firstOr_quote (v r : JsString) :
    firstOr (v ++ 34 :: r)
      = match firstOr v with
        | some (before, after) => some (before, after ++ 34 :: r)
        | none => (firstOr r).map fun p => (v ++ 34 :: p.1, p.2) := by
  induction v with
  | nil =>
    show firstOr (34 :: r) = (firstOr r).map _
    rw [firstOr_of_none (orAt_none (by decide) r)]
    rfl
  | cons u v ih =>
    have hor := orAt_quote (u :: v) r
    rw [List.cons_append] at hor ⊢
    cases hu : orAt (u :: v) with
    | some rest =>
      rw [hu] at hor
      rw [firstOr_of_some hu, firstOr_of_some hor]
    | none =>
      rw [hu] at hor
      rw [firstOr_of_none hu, firstOr_of_none hor, ih]
      cases hfirst : firstOr v with
      | some p => rfl
      | none =>
        simp only [Option.map_none, Option.map_map]
        rfl

theorem orAt_space {o q : UInt16} (ho : isSpace o = false) (s : JsString) :
    orAt (32 :: o :: q :: s)
      = if isOr [o, q] && s.head?.any isSpace then
          some (s.dropWhile isSpace)
        else none := by
  have hdrop : (32 :: o :: q :: s).dropWhile isSpace = o :: q :: s := by
    rw [List.dropWhile_cons_of_pos (by decide),
      List.dropWhile_cons_of_neg (by simp [ho])]
  unfold orAt
  rw [hdrop]
  rfl

theorem orAt_space_one {o : UInt16} (ho : isSpace o = false) :
    orAt [32, o] = none := by
  have hdrop : [32, o].dropWhile isSpace = [o] := by
    rw [List.dropWhile_cons_of_pos (by decide),
      List.dropWhile_cons_of_neg (by simp [ho])]
  unfold orAt
  rw [hdrop]
  rfl

theorem orAt_space_three {o q d : UInt16} (ho : isSpace o = false)
    (hd : isSpace d = false) (s : JsString) :
    orAt (32 :: o :: q :: d :: s) = none := by
  rw [orAt_space ho]
  exact if_neg (by simp [hd])

theorem orAt_field (field : FieldName) (t : JsString) :
    orAt (32 :: (field.name ++ 58 :: t)) = none := by
  obtain ⟨name, hne, hletters⟩ := field
  have hspace : ∀ u ∈ name, isSpace u = false := fun u hu =>
    isSpace_of_isWord (isWord_of_isLetter (hletters u hu))
  match name with
  | [] => exact absurd rfl hne
  | [o] =>
    show orAt (32 :: o :: 58 :: t) = none
    rw [orAt_space (hspace o (by simp))]
    exact if_neg (by simp [isOr])
  | [o, q] => exact orAt_space_three (hspace o (by simp)) (by decide) t
  | o :: q :: d :: name =>
    exact orAt_space_three (hspace o (by simp)) (hspace d (by simp)) _

/-- A printed condition behind a space begins an `or` exactly if it is one,
and something is behind it. -/
theorem orAt_print (c : Written) (hr : Ends r) :
    orAt (32 :: (c.print ++ r))
      = if c.isOr = true ∧ r ≠ [] then some (r.dropWhile isSpace)
        else none := by
  cases c with
  | quoted field value noQuote =>
    rw [if_neg (by simp [Written.isOr])]
    simp only [Written.print, List.append_assoc, List.cons_append]
    exact orAt_field field _
  | unquoted field value bare =>
    rw [if_neg (by simp [Written.isOr])]
    simp only [Written.print, List.append_assoc, List.cons_append]
    exact orAt_field field _
  | word w hne hbare notOr notField =>
    have hspace : ∀ u ∈ w, isSpace u = false := fun u hu =>
      (hbare.units u hu).1
    show orAt (32 :: (w ++ r)) = if isOr w = true ∧ r ≠ [] then _ else _
    match w with
    | [] => exact absurd rfl hne
    | [o] =>
      have ho := hspace o (by simp)
      rw [if_neg (by simp [isOr])]
      cases r with
      | nil => exact orAt_space_one ho
      | cons q r =>
        show orAt (32 :: o :: q :: r) = none
        have hq : isSpace q = true := hr
        rw [orAt_space ho]
        apply if_neg
        intro hcond
        simp only [isOr, Bool.and_eq_true, Bool.or_eq_true,
          decide_eq_true_eq] at hcond
        obtain ⟨⟨-, rfl | rfl⟩, -⟩ := hcond <;> cases hq
    | [o, q] =>
      show orAt (32 :: o :: q :: r) = _
      rw [orAt_space (hspace o (by simp))]
      cases r with
      | nil => simp
      | cons x r =>
        have hx : isSpace x = true := hr
        simp [hx]
    | o :: q :: d :: w =>
      rw [if_neg (by simp [isOr])]
      exact orAt_space_three (hspace o (by simp)) (hspace d (by simp)) _

theorem FieldName.isSpace_print (field : FieldName) :
    ∀ u ∈ field.name ++ [58, 34], isSpace u = false := by
  intro u hu
  rcases List.mem_append.mp hu with hu | hu
  · exact isSpace_of_isWord (field.isWord u hu)
  · rcases List.mem_cons.mp hu with rfl | hu
    · decide
    · rw [List.mem_singleton.mp hu]
      decide

theorem firstOr_print (h : c.NoOr) (r : JsString) :
    firstOr (c.print ++ r) = (firstOr r).map fun p => (c.print ++ p.1, p.2) := by
  cases c with
  | quoted field value noQuote =>
    have hsplit : ∀ t, (Written.quoted field value noQuote).print ++ t
        = (field.name ++ [58, 34]) ++ (value ++ 34 :: t) := by
      intro t
      simp [Written.print]
    have hvalue := firstOr_quote value r
    rw [show firstOr value = none from h] at hvalue
    rw [hsplit, firstOr_append field.isSpace_print, hvalue, Option.map_map]
    congr 1
    funext p
    exact congrArg (·, p.2) (hsplit p.1).symm
  | unquoted field value bare =>
    apply firstOr_append
    intro u hu
    rcases List.mem_append.mp hu with hu | hu
    · exact isSpace_of_isWord (field.isWord u hu)
    · rcases List.mem_cons.mp hu with rfl | hu
      · decide
      · exact (bare.units u hu).1
  | word w hne hbare notOr notField =>
    exact firstOr_append (fun u hu => (hbare.units u hu).1) r

/-- A text that a cut leaves of something: it begins with no white space, and
is not read as what it is left of. -/
structure Broken (meant : List Condition) (s : JsString) : Prop where
  head : ∃ u t, s = u :: t ∧ isSpace u = false
  misread : ∀ valid, parseSegment valid s ≠ meant

/-- A condition with an `or` in its value is cut there, and what is left of
it is read with the quote in its value. -/
theorem firstOr_print_cut (h : ¬c.NoOr) (r : JsString) :
    ∃ before after, firstOr (c.print ++ r) = some (before, after)
      ∧ ∀ l, Broken (c.condition :: l) before := by
  cases c with
  | unquoted field value bare => exact absurd trivial h
  | word w hne hbare notOr notField => exact absurd trivial h
  | quoted field value noQuote =>
    obtain ⟨⟨b, a⟩, hfirst⟩ := Option.ne_none_iff_exists'.mp h
    have hsplit : (Written.quoted field value noQuote).print ++ r
        = (field.name ++ [58, 34]) ++ (value ++ 34 :: r) := by
      simp [Written.print]
    have hvalue := firstOr_quote value r
    rw [hfirst] at hvalue
    refine ⟨field.name ++ 58 :: 34 :: b, a ++ 34 :: r, ?_, fun l => ?_⟩
    · rw [hsplit, firstOr_append field.isSpace_print, hvalue]
      simp
    · obtain ⟨u, name, hname⟩ := List.exists_cons_of_ne_nil field.ne_nil
      have hu : isSpace u = false := isSpace_of_isWord
        (field.isWord u (by rw [hname]; exact List.mem_cons_self))
      refine ⟨⟨u, name ++ 58 :: 34 :: b, by rw [hname]; rfl, hu⟩,
        fun valid hread => ?_⟩
      obtain ⟨t, n, hopen⟩ := matchValue_open valid (s := b)
        fun hmem => noQuote (mem_of_firstOr hfirst hmem)
      have hfield := matchFieldCondition_name valid
        field.isWord field.ne_nil (34 :: b)
      rw [hopen] at hfield
      have htoken := matchToken_of_field hfield
      rw [hname, List.cons_append] at htoken hread
      rw [parseSegment_token _ hu htoken] at hread
      have hvalue := (Condition.mk.inj (List.cons.inj hread).1).2
      apply noQuote
      rw [← Value.text.inj hvalue]
      exact List.mem_cons_self

/-- The conditions behind the first of a group leave it whole: no value has
an `or` in it, and no word is one but the last of the query. -/
def Whole (last : Prop) : List Written → Prop
  | [] => True
  | c :: group =>
    c.NoOr ∧ (c.isOr = true → group = [] ∧ last) ∧ Whole last group

/-- What is behind a group: nothing, or another one. -/
inductive Behind : Prop → JsString → Prop
  | nothing : Behind True []
  | or (u : UInt16) (s : JsString) (hu : isSpace u = false) :
      Behind False (32 :: 79 :: 82 :: 32 :: u :: s)

variable {last : Prop} {group : List Written}

theorem Behind.ends (h : Behind last r) : Ends r := by
  cases h <;> rfl

theorem Behind.iff (h : Behind last r) : last ↔ r = [] := by
  cases h with
  | nothing => exact iff_of_true trivial rfl
  | or u s hu => exact iff_of_false id (List.cons_ne_nil _ _)

/-- The first `or` behind a group. -/
def nextOr : JsString → Option (JsString × JsString)
  | _ :: _ :: _ :: _ :: s => some ([], s)
  | _ => none

theorem Behind.firstOr (h : Behind last r) :
    QueryParser.firstOr r = nextOr r := by
  cases h with
  | nothing => rfl
  | or u s hu =>
    have hor : orAt (32 :: 79 :: 82 :: 32 :: u :: s) = some (u :: s) := by
      have hspace : (32 :: u :: s).head?.any isSpace = true := rfl
      rw [orAt_space (by decide), hspace, if_pos (by decide),
        List.dropWhile_cons_of_pos (by decide),
        List.dropWhile_cons_of_neg (by simp [hu])]
    rw [firstOr_of_some hor]
    rfl

theorem firstOr_whole (h : Whole last group) (hr : Behind last r) :
    firstOr (behind group r)
      = (nextOr r).map fun p => (behind group [] ++ p.1, p.2) := by
  induction group with
  | nil =>
    show firstOr r = _
    rw [hr.firstOr]
    cases nextOr r <;> rfl
  | cons c group ih =>
    obtain ⟨hnoOr, hor, hrest⟩ := h
    have hnone : orAt (32 :: (c.print ++ behind group r)) = none := by
      rw [orAt_print c (behind_ends group hr.ends)]
      apply if_neg
      rintro ⟨hword, hne⟩
      obtain ⟨rfl, hlast⟩ := hor hword
      exact hne (hr.iff.mp hlast)
    show firstOr (32 :: (c.print ++ behind group r)) = _
    rw [firstOr_of_none hnone, firstOr_print hnoOr, ih hrest,
      Option.map_map, Option.map_map]
    congr 1
    funext p
    simp [behind]

/-- A group that is not left whole is cut: what is left of it is read as
something else. -/
theorem firstOr_cut (h : ¬Whole last group) (hr : Behind last r) :
    ∃ before after, firstOr (behind group r) = some (before, after)
      ∧ Ends before ∧ ∀ valid,
        parseSegment valid before ≠ group.map Written.condition := by
  induction group with
  | nil => exact absurd trivial h
  | cons c group ih =>
    have hends := behind_ends group hr.ends
    show ∃ before after, firstOr (32 :: (c.print ++ behind group r)) = _ ∧ _
    by_cases hor : c.isOr = true ∧ behind group r ≠ []
    · -- the condition is an `or` itself
      refine ⟨[], _, firstOr_of_some ((orAt_print c hends).trans
        (if_pos hor)), Ends.nil, fun valid => ?_⟩
      rw [parseSegment_nil, List.map_cons]
      exact (List.cons_ne_nil _ _).symm
    · rw [firstOr_of_none ((orAt_print c hends).trans (if_neg hor))]
      by_cases hnoOr : c.NoOr
      · -- it is whole, and what is behind it is not
        have hrest : ¬Whole last group := by
          intro hwhole
          refine h ⟨hnoOr, fun hword => ?_, hwhole⟩
          have hnil : behind group r = [] :=
            by_contra fun hne => hor ⟨hword, hne⟩
          cases group with
          | nil => exact ⟨rfl, hr.iff.mpr hnil⟩
          | cons d group => cases hnil
        obtain ⟨b, a, hfirst, hbends, hread⟩ := ih hrest
        refine ⟨32 :: (c.print ++ b), a, ?_, rfl, fun valid hall => ?_⟩
        · rw [firstOr_print hnoOr, hfirst]
          rfl
        · rw [parseSegment_space, List.map_cons,
            parse_print_iff hbends] at hall
          exact hread valid hall.2
      · obtain ⟨b, a, hfirst, hbroken⟩ :=
          firstOr_print_cut hnoOr (behind group r)
        refine ⟨32 :: b, a, by rw [hfirst]; rfl, rfl, fun valid => ?_⟩
        rw [parseSegment_space]
        exact (hbroken _).misread valid

-- ======== queries

def others : List (List Written) → JsString
  | [] => []
  | groups => 32 :: 79 :: 82 :: 32 :: printQuery groups

theorem printQuery_cons (g : List Written) (groups : List (List Written)) :
    printQuery (g :: groups) = printGroup g ++ others groups := by
  cases groups with
  | nil => simp [printQuery, others]
  | cons h groups =>
    unfold printQuery
    rw [List.map_cons, List.map_cons, List.intercalate_cons_cons,
      ← List.map_cons, List.append_assoc]
    rfl

theorem printQuery_head (c : Written) (group : List Written)
    (groups : List (List Written)) :
    ∃ u s, printQuery ((c :: group) :: groups) = u :: s
      ∧ isSpace u = false := by
  obtain ⟨u, s, hprint, hu⟩ := print_head c
  refine ⟨u, s ++ behind group (others groups), ?_, hu⟩
  rw [printQuery_cons, printGroup_cons, hprint]
  rfl

theorem others_behind {groups : List (List Written)}
    (h : ∀ g ∈ groups, g ≠ []) : Behind (groups = []) (others groups) := by
  cases groups with
  | nil =>
    rw [eq_self_iff_true]
    exact .nothing
  | cons g groups =>
    obtain ⟨c, group, rfl⟩ := List.exists_cons_of_ne_nil
      (h g List.mem_cons_self)
    obtain ⟨u, s, hquery, hu⟩ := printQuery_head c group groups
    have hfalse : ((c :: group) :: groups = []) = False := by simp
    rw [hfalse]
    show Behind False (32 :: 79 :: 82 :: 32 :: printQuery _)
    rw [hquery]
    exact .or u s hu

theorem print_getLast (c : Written) :
    ∃ u s, c.print = s ++ [u] ∧ isSpace u = false := by
  cases c with
  | quoted field value noQuote => exact ⟨34, _, rfl, by decide⟩
  | unquoted field value bare =>
    rcases List.eq_nil_or_concat value with rfl | ⟨v, u, rfl⟩
    · exact ⟨58, field.name, rfl, by decide⟩
    · refine ⟨u, field.name ++ 58 :: v, by simp [Written.print], ?_⟩
      exact (bare.units u (by simp)).1
  | word w hne hbare notOr notField =>
    rcases List.eq_nil_or_concat w with rfl | ⟨v, u, rfl⟩
    · exact absurd rfl hne
    · refine ⟨u, v, by simp [Written.print], ?_⟩
      exact (hbare.units u (by simp)).1

theorem behind_getLast (c : Written) (group : List Written) :
    ∃ u s, c.print ++ behind group [] = s ++ [u] ∧ isSpace u = false := by
  induction group generalizing c with
  | nil =>
    obtain ⟨u, s, hprint, hu⟩ := print_getLast c
    exact ⟨u, s, by rw [hprint]; exact List.append_nil _, hu⟩
  | cons d group ih =>
    obtain ⟨u, s, hprint, hu⟩ := ih d
    refine ⟨u, c.print ++ 32 :: s, ?_, hu⟩
    show c.print ++ 32 :: (d.print ++ behind group []) = _
    rw [hprint]
    simp

theorem printGroup_getLast (c : Written) (group : List Written) :
    ∃ u s, printGroup (c :: group) = s ++ [u] ∧ isSpace u = false := by
  have hprint := printGroup_cons c group []
  rw [List.append_nil] at hprint
  rw [hprint]
  exact behind_getLast c group

theorem printQuery_getLast {groups : List (List Written)}
    (h : ∀ g ∈ groups, g ≠ []) (hne : groups ≠ []) :
    ∃ u s, printQuery groups = s ++ [u] ∧ isSpace u = false := by
  induction groups with
  | nil => exact absurd rfl hne
  | cons g groups ih =>
    obtain ⟨c, group, rfl⟩ := List.exists_cons_of_ne_nil
      (h g List.mem_cons_self)
    rw [printQuery_cons]
    cases groups with
    | nil =>
      rw [others, List.append_nil]
      exact printGroup_getLast c group
    | cons g' groups =>
      obtain ⟨u, s, hquery, hu⟩ := ih
        (fun g hg => h g (List.mem_cons_of_mem _ hg))
        (List.cons_ne_nil _ _)
      refine ⟨u, printGroup (c :: group) ++ 32 :: 79 :: 82 :: 32 :: s, ?_,
        hu⟩
      show _ ++ 32 :: 79 :: 82 :: 32 :: printQuery (g' :: groups) = _
      rw [hquery]
      simp

/-- Nothing is trimmed from a text that begins and ends with something else
than white space. -/
theorem trim_of_ends (hfront : ∃ u t, s = u :: t ∧ isSpace u = false)
    (hback : ∀ u ∈ s.getLast?, isSpace u = false) : trim s = s := by
  obtain ⟨u, t, rfl, hu⟩ := hfront
  refine trim_eq_self (fun v hv => ?_) hback
  rw [← Option.some.inj hv]
  exact hu

theorem trim_of_getLast (hfront : ∃ u t, s = u :: t ∧ isSpace u = false)
    (hback : ∃ u t, s = t ++ [u] ∧ isSpace u = false) : trim s = s := by
  apply trim_of_ends hfront
  obtain ⟨u, t, rfl, hu⟩ := hback
  intro v hv
  obtain rfl : u = v := by simpa using hv
  exact hu

theorem splitOr_none (h : firstOr s = none) : splitOr s = [s] := by
  rw [splitOr]
  split
  · rfl
  next heq =>
    rw [h] at heq
    cases heq

theorem splitOr_some (h : firstOr s = some (before, after)) :
    splitOr s = before :: splitOr after := by
  rw [splitOr]
  split
  next heq =>
    rw [h] at heq
    cases heq
  next heq =>
    obtain ⟨rfl, rfl⟩ := Prod.mk.inj (Option.some.inj (h.symm.trans heq))
    rfl

/-- A segment that begins and ends with something else than white space is a
group of its own. -/
theorem parseSegments_cons (hfront : ∃ u t, s = u :: t ∧ isSpace u = false)
    (htrim : trim s = s) (segments : List JsString) :
    parseSegments valid (s :: segments)
      = parseSegment valid s :: parseSegments valid segments := by
  obtain ⟨u, t, rfl, hu⟩ := hfront
  unfold parseSegments
  rw [List.map_cons, htrim, List.filter_cons_of_pos]
  exact decide_eq_true (parseSegment_ne_nil hu t)

theorem firstOr_group_cut (h : ¬(c.NoOr ∧ Whole last group))
    (hr : Behind last r) :
    ∃ before after,
      firstOr (c.print ++ behind group r) = some (before, after)
        ∧ Broken ((c :: group).map Written.condition) before := by
  by_cases hnoOr : c.NoOr
  · obtain ⟨b, a, hfirst, hends, hread⟩ :=
      firstOr_cut (fun hwhole => h ⟨hnoOr, hwhole⟩) hr
    refine ⟨c.print ++ b, a, ?_, ?_, fun valid hall => ?_⟩
    · rw [firstOr_print hnoOr, hfirst]
      rfl
    · obtain ⟨u, s, hprint, hu⟩ := print_head c
      exact ⟨u, s ++ b, by rw [hprint]; rfl, hu⟩
    · rw [List.map_cons, parse_print_iff hends] at hall
      exact hread valid hall.2
  · obtain ⟨b, a, hfirst, hbroken⟩ :=
      firstOr_print_cut hnoOr (behind group r)
    exact ⟨b, a, hfirst, hbroken _⟩

/-- When a query of groups with conditions is read as it is meant, group by
group. -/
def FitsFrom : List (List Written) → Prop
  | [] => True
  | [] :: _ => False
  | (c :: group) :: groups =>
    (∀ d ∈ c :: group, d.Readable)
      ∧ (c.NoOr ∧ Whole (groups = []) group) ∧ FitsFrom groups

/-- A printed query with no empty group is read as it is meant exactly if it
fits. -/
theorem segments_iff {groups : List (List Written)}
    (h : ∀ g ∈ groups, g ≠ []) (hne : groups ≠ []) :
    parseSegments valid (splitOr (printQuery groups)) = conditions groups
      ↔ FitsFrom groups := by
  induction groups with
  | nil => exact absurd rfl hne
  | cons g groups ih =>
    obtain ⟨c, group, rfl⟩ := List.exists_cons_of_ne_nil
      (h g List.mem_cons_self)
    have hrest : ∀ g ∈ groups, g ≠ [] := fun g hg =>
      h g (List.mem_cons_of_mem _ hg)
    have hbehind := others_behind hrest
    rw [printQuery_cons, printGroup_cons]
    by_cases hwhole : c.NoOr ∧ Whole (groups = []) group
    · -- the first segment is the group
      have hfirst := firstOr_print hwhole.1 (behind group (others groups))
      rw [firstOr_whole hwhole.2 hbehind, Option.map_map] at hfirst
      obtain ⟨u, s, hprint, hu⟩ := print_head c
      have hfront : ∃ u t, c.print ++ behind group [] = u :: t
          ∧ isSpace u = false :=
        ⟨u, s ++ behind group [], by rw [hprint]; rfl, hu⟩
      have htrim := trim_of_getLast hfront (behind_getLast c group)
      have hread : parseSegment valid (c.print ++ behind group [])
          = (c :: group).map Written.condition
            ↔ ∀ d ∈ c :: group, d.Readable := by
        rw [List.map_cons, parse_print_iff (behind_ends group Ends.nil),
          parse_group_iff, List.forall_mem_cons]
      cases groups with
      | nil =>
        show parseSegments valid
          (splitOr (c.print ++ behind group [])) = _ ↔ _
        have hnone : firstOr (c.print ++ behind group []) = none := hfirst
        rw [splitOr_none hnone, parseSegments_cons hfront htrim]
        show [_] = [_] ↔ _
        rw [List.cons.injEq, hread]
        exact ⟨fun h => ⟨h.1, hwhole, trivial⟩, fun h => ⟨h.1, rfl⟩⟩
      | cons g' groups =>
        have hsplit : splitOr (c.print
              ++ behind group (others (g' :: groups)))
            = (c.print ++ behind group [])
              :: splitOr (printQuery (g' :: groups)) := by
          apply splitOr_some
          rw [hfirst]
          simp [others, nextOr]
        rw [hsplit, parseSegments_cons hfront htrim]
        show _ :: _ = (c :: group).map Written.condition
          :: conditions (g' :: groups) ↔ _
        rw [List.cons.injEq, hread, ih hrest (List.cons_ne_nil _ _)]
        exact ⟨fun h => ⟨h.1, hwhole, h.2⟩, fun h => ⟨h.1, h.2.2⟩⟩
    · refine iff_of_false (fun hall => ?_) fun hfits => hwhole hfits.2.1
      obtain ⟨b, a, hfirst, hbroken⟩ := firstOr_group_cut hwhole hbehind
      have htrim := trim_of_ends hbroken.head (firstOr_getLast hfirst)
      rw [splitOr_some hfirst, parseSegments_cons hbroken.head htrim]
        at hall
      exact hbroken.misread valid (List.cons.inj hall).1

theorem whole_iff : Whole last group
    ↔ (∀ c ∈ group, c.NoOr) ∧ ∀ first c rest, group = first ++ c :: rest →
        c.isOr = true → rest = [] ∧ last := by
  induction group with
  | nil =>
    refine iff_of_true trivial ⟨nofun, fun first c rest heq => ?_⟩
    simp at heq
  | cons d group ih =>
    unfold Whole
    rw [ih, List.forall_mem_cons]
    constructor
    · rintro ⟨hnoOr, hor, hrest, hwords⟩
      refine ⟨⟨hnoOr, hrest⟩, fun first c rest heq hword => ?_⟩
      cases first with
      | nil =>
        obtain ⟨rfl, rfl⟩ := List.cons.inj heq
        exact hor hword
      | cons e first =>
        exact hwords first c rest (List.cons.inj heq).2 hword
    · rintro ⟨⟨hnoOr, hrest⟩, hwords⟩
      refine ⟨hnoOr, hwords [] d group rfl, hrest, ?_⟩
      intro first c rest heq
      exact hwords (d :: first) c rest (by rw [heq]; rfl)

/-- Group by group, or all at once. -/
theorem fitsFrom_iff {groups : List (List Written)} :
    FitsFrom groups ↔ Fits groups := by
  induction groups with
  | nil =>
    refine iff_of_true trivial ⟨nofun, nofun, nofun, ?_⟩
    intro before group behind heq
    simp at heq
  | cons g groups ih =>
    cases g with
    | nil =>
      exact iff_of_false id fun h => h.nonempty [] List.mem_cons_self rfl
    | cons c group =>
      unfold FitsFrom
      rw [ih, whole_iff]
      constructor
      · rintro ⟨hreadable, ⟨hnoOr, hnoOrs, hwords⟩, hrest⟩
        refine ⟨?_, ?_, ?_, ?_⟩
        · rw [List.forall_mem_cons]
          exact ⟨List.cons_ne_nil c group, hrest.nonempty⟩
        · rw [List.forall_mem_cons]
          exact ⟨hreadable, hrest.readable⟩
        · rw [List.forall_mem_cons, List.forall_mem_cons]
          exact ⟨⟨hnoOr, hnoOrs⟩, hrest.noOr⟩
        · intro before g behind heq first d rest hgroup hword
          cases before with
          | cons _ before =>
            exact hrest.words before g behind (List.cons.inj heq).2
              first d rest hgroup hword
          | nil =>
            obtain ⟨rfl, rfl⟩ := List.cons.inj heq
            cases first with
            | nil => exact Or.inl rfl
            | cons _ first =>
              exact Or.inr (hwords first d rest
                (List.cons.inj hgroup).2 hword)
      · intro h
        have hnoOr := h.noOr (c :: group) List.mem_cons_self
        refine ⟨h.readable _ List.mem_cons_self,
          ⟨hnoOr c List.mem_cons_self,
            fun d hd => hnoOr d (List.mem_cons_of_mem c hd), ?_⟩, ?_⟩
        · intro first d rest heq hword
          have hall := h.words [] (c :: group) groups rfl (c :: first) d
            rest (by rw [heq]; rfl) hword
          exact hall.resolve_left (List.cons_ne_nil c first)
        · refine ⟨fun g hg => h.nonempty g (List.mem_cons_of_mem _ hg),
            fun g hg => h.readable g (List.mem_cons_of_mem _ hg),
            fun g hg => h.noOr g (List.mem_cons_of_mem _ hg), ?_⟩
          intro before g behind heq
          exact h.words (_ :: before) g behind (by rw [heq]; rfl)

theorem parseQuery_ne_nil {q : JsString} {g : List Condition}
    (h : g ∈ parseQuery valid q) : g ≠ [] := by
  unfold parseQuery at h
  simp only at h
  split at h
  · cases h
  · exact of_decide_eq_true (List.mem_filter.mp h).2

/-- A query is read as it is meant exactly if it fits. -/
theorem read_iff_fits (valid : JsString → JsString → Bool)
    (groups : List (List Written)) :
    parseQuery valid (printQuery groups) = conditions groups
      ↔ Fits groups := by
  by_cases hempty : ∀ g ∈ groups, g ≠ []
  · rw [← fitsFrom_iff]
    by_cases hne : groups = []
    · subst hne
      exact iff_of_true rfl trivial
    · obtain ⟨g, groups, rfl⟩ := List.exists_cons_of_ne_nil hne
      obtain ⟨c, group, rfl⟩ := List.exists_cons_of_ne_nil
        (hempty g List.mem_cons_self)
      have hfront := printQuery_head c group groups
      have htrim := trim_of_getLast hfront (printQuery_getLast hempty hne)
      have hquery : printQuery ((c :: group) :: groups) ≠ [] := by
        obtain ⟨u, s, hs, -⟩ := hfront
        rw [hs]
        exact List.cons_ne_nil u s
      unfold parseQuery
      simp only
      rw [htrim, if_neg hquery]
      exact segments_iff hempty hne
  · refine iff_of_false (fun hall => hempty fun g hg hnil => ?_)
      fun hfits => hempty hfits.nonempty
    subst hnil
    have hmem : [] ∈ conditions groups := List.mem_map.mpr ⟨[], hg, rfl⟩
    rw [← hall] at hmem
    exact parseQuery_ne_nil hmem rfl

/-- A name with an `or` in it, in quotes. -/
def quotedOr : List (List Written) :=
  [[.quoted ⟨ofString "name", by decide, List.all_eq_true.mp (by decide)⟩
    (ofString "a OR b") (by decide)]]

/-- It is cut at the `or`. -/
theorem quoted_or_split :
    parseQuery (fun _ _ => true) (printQuery quotedOr)
      ≠ conditions quotedOr := by
  intro h
  have htrim : trim (printQuery quotedOr) = printQuery quotedOr := by decide
  have hquery : printQuery quotedOr ≠ [] := by decide
  have hgroups : ∀ g ∈ quotedOr, g ≠ [] := by
    intro g hg
    rw [List.mem_singleton.mp hg]
    exact List.cons_ne_nil _ _
  unfold parseQuery at h
  simp only at h
  rw [htrim, if_neg hquery] at h
  have hfits := (segments_iff hgroups (List.cons_ne_nil _ _)).mp h
  have hvalue : firstOr (ofString "a OR b") = none := hfits.2.1.1
  exact absurd hvalue (by decide)

end QueryParser
