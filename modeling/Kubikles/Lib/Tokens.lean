/-
Cutting a text at a separator, by a scanner with a buffer that is not
larger than so many bytes (Go's `bufio.Scanner` with a split function).

# Scanning

The scanner gives the split function the text that is left, as far as it
fits the buffer, and is told a token and how far to go on. It ends at the
end of the text, and where the buffer is full and there is no token in
it.

# Separators

A split function that looks for a separator finds the texts that the
separator was put between, unless it comes up within one of them. That
takes no more than that none of them holds it, if it does not hold its own
first byte twice (`clean_of_not_infix`). They are read up to the first
that does not fit the buffer with its separator (`scanAll_intercalate`).
-/
import Kubikles.Lib.Text
import Mathlib.Data.List.Infix

namespace Tokens

variable {sep t s : Text} {maxTokenSize : Nat}

-- ======== searching

/-- `strings.Index`. -/
def indexOf (sep : Text) : Text → Option Nat
  | [] => if sep = [] then some 0 else none
  | b :: s =>
    if sep.isPrefixOf (b :: s) then some 0
    else (indexOf sep s).map (· + 1)

theorem indexOf_none (h : ¬sep <:+: s) : indexOf sep s = none := by
  induction s with
  | nil =>
    apply if_neg
    rintro rfl
    exact h List.infix_rfl
  | cons b s ih =>
    rw [indexOf, if_neg, ih]
    · rfl
    · exact fun hsep => h (hsep.trans (List.suffix_cons b s).isInfix)
    · intro hsep
      exact h (List.isPrefixOf_iff_prefix.mp hsep).isInfix

/-- Whatever is behind a text and a separator, the separator does not come
up within the text. -/
def Clean (sep t : Text) : Prop :=
  ∀ u v, t = u ++ v → v ≠ [] → ∀ behind, ¬sep <+: v ++ sep ++ behind

theorem indexOf_clean (h : Clean sep t) (hsep : sep ≠ []) (behind : Text) :
    indexOf sep (t ++ sep ++ behind) = some t.length := by
  induction t with
  | nil =>
    obtain ⟨b, sep, rfl⟩ := List.exists_cons_of_ne_nil hsep
    rw [List.nil_append, List.cons_append, indexOf, if_pos]
    · rfl
    · rw [← List.cons_append]
      exact List.isPrefixOf_iff_prefix.mpr (List.prefix_append _ _)
  | cons b t ih =>
    have hrest : Clean sep t := fun u v ht =>
      h (b :: u) v (congrArg (b :: ·) ht)
    rw [List.cons_append, List.cons_append, indexOf, if_neg, ih hrest]
    · rfl
    · intro hfront
      exact h [] (b :: t) rfl (List.cons_ne_nil b t) behind
        (List.isPrefixOf_iff_prefix.mp hfront)

theorem not_infix_take (h : Clean sep t) {n : Nat}
    (hn : n < t.length + sep.length) : ¬sep <:+: (t ++ sep).take n := by
  rintro ⟨u, v, heq⟩
  have hlength := congrArg List.length heq
  simp only [List.length_append, List.length_take] at hlength
  have hfront : u ++ sep <+: t ++ sep := by
    refine List.IsPrefix.trans ?_ (List.take_prefix n (t ++ sep))
    rw [← heq]
    exact List.prefix_append _ _
  have hu : u <+: t := by
    refine List.prefix_of_prefix_length_le
      ((List.prefix_append u sep).trans hfront) (List.prefix_append t sep) ?_
    omega
  obtain ⟨w, rfl⟩ := hu
  rw [List.append_assoc] at hfront
  have hsepw := (List.prefix_append_right_inj u).mp hfront
  have hw : w ≠ [] := by
    rintro rfl
    rw [List.append_nil] at hlength hn
    omega
  apply h u w rfl hw []
  rw [List.append_nil]
  exact hsepw

/-- A text that does not hold a separator is clean, if the separator has its
first byte only there. -/
theorem clean_of_not_infix {b : UInt8} {sep : Text} (hb : b ∉ sep)
    (h : ¬b :: sep <:+: t) : Clean (b :: sep) t := by
  rintro u v rfl hv behind hfront
  rw [List.append_assoc] at hfront
  by_cases hlength : sep.length + 1 ≤ v.length
  · apply h
    have hin : b :: sep <+: v :=
      List.prefix_of_prefix_length_le hfront (List.prefix_append v _)
        (by simpa using hlength)
    exact hin.isInfix.trans (List.suffix_append u v).isInfix
  · -- The text ends within the separator, where a new one begins.
    have hshort : v <+: b :: sep :=
      List.prefix_of_prefix_length_le (List.prefix_append v _) hfront
        (by simp only [List.length_cons]; omega)
    obtain ⟨w, hw⟩ := hshort
    rw [← hw] at hfront
    have hrest := (List.prefix_append_right_inj v).mp hfront
    obtain ⟨c, v, rfl⟩ := List.exists_cons_of_ne_nil hv
    rw [List.cons_append] at hw
    obtain ⟨hc, rfl⟩ := List.cons.inj hw
    cases w with
    | nil =>
      simp only [List.append_nil, List.length_cons] at hlength
      omega
    | cons d w =>
      rw [List.cons_append, List.cons_append] at hrest
      obtain ⟨hd, -⟩ := List.cons_prefix_cons.mp hrest
      rw [hd, hc] at hb
      exact hb (List.mem_append_right v List.mem_cons_self)

-- ======== scanning

/-- A split function: of what is in the buffer, and whether that is all
there is, it tells how far to go on, and a token. -/
abbrev SplitFunc := Text → Bool → Nat × Option Text

/-- The tokens of a text. The first argument counts the tokens at most. -/
def scan (maxTokenSize : Nat) (split : SplitFunc) :
    Nat → Text → List Text
  | 0, _ => []
  | fuel + 1, s =>
    let atEOF := decide (s.length < maxTokenSize)
    match split (s.take maxTokenSize) atEOF with
    | (_, none) => []
    | (advance, some token) =>
      token :: scan maxTokenSize split fuel (s.drop advance)

/-- `Scan`, until it ends. Each token takes a byte at least. -/
def scanAll (maxTokenSize : Nat) (split : SplitFunc) (s : Text) :
    List Text :=
  scan maxTokenSize split (s.length + 1) s

def splitAt (sep : Text) : SplitFunc := fun data atEOF =>
  if atEOF ∧ data = [] then (0, none)
  else
    match indexOf sep data with
    | some i => (i + sep.length, some (data.take i))
    | none => if atEOF then (data.length, some data) else (0, none)

/-- The texts between separators that are read: those in front of the first
that does not fit with its separator, but for an empty one at the
end. -/
def readable (maxTokenSize : Nat) (sep : Text) : List Text → List Text
  | [] => []
  | [t] => if t ≠ [] ∧ t.length < maxTokenSize then [t] else []
  | t :: t' :: ts =>
    if t.length + sep.length ≤ maxTokenSize then
      t :: readable maxTokenSize sep (t' :: ts)
    else []

theorem readable_isPrefix (maxTokenSize : Nat) (sep : Text)
    (ts : List Text) : readable maxTokenSize sep ts <+: ts := by
  induction ts with
  | nil => exact List.prefix_rfl
  | cons t ts ih =>
    cases ts with
    | nil =>
      unfold readable
      split
      · exact List.prefix_rfl
      · exact List.nil_prefix
    | cons t' ts =>
      rw [readable]
      split
      · exact (List.prefix_cons_inj t).mpr ih
      · exact List.nil_prefix

theorem Clean.not_infix (h : Clean sep t) (hsep : sep ≠ []) :
    ¬sep <:+: t := by
  rintro ⟨u, w, rfl⟩
  apply h u (sep ++ w) (List.append_assoc u sep w) (by simp [hsep]) []
  rw [List.append_assoc, List.append_assoc]
  exact List.prefix_append sep _

theorem scan_nil (hmax : 0 < maxTokenSize) (fuel : Nat) :
    scan maxTokenSize (splitAt sep) fuel [] = [] := by
  cases fuel with
  | zero => rfl
  | succ fuel => simp [scan, splitAt, hmax]

theorem scan_last (hmax : 0 < maxTokenSize) {fuel : Nat}
    (h : ¬sep <:+: t) :
    scan maxTokenSize (splitAt sep) (fuel + 1) t
      = readable maxTokenSize sep [t] := by
  rw [scan, readable]
  by_cases hnil : t = []
  · subst hnil
    simp [splitAt, hmax]
  · by_cases hlength : t.length < maxTokenSize
    · rw [List.take_of_length_le (Nat.le_of_lt hlength),
        if_pos ⟨hnil, hlength⟩]
      simp only [splitAt, hlength, hnil, indexOf_none h, decide_true]
      simp [scan_nil hmax]
    · have hnone : ¬sep <:+: t.take maxTokenSize := fun hin =>
        h (hin.trans (List.take_prefix _ t).isInfix)
      rw [if_neg fun hfits => hlength hfits.2]
      simp only [splitAt, hlength, indexOf_none hnone, decide_false]
      simp

/-- A text in front of a separator is a token, if both fit. -/
theorem scan_front (hsep : sep ≠ []) {fuel : Nat} (h : Clean sep t)
    (s : Text) :
    scan maxTokenSize (splitAt sep) (fuel + 1) (t ++ sep ++ s)
      = if t.length + sep.length ≤ maxTokenSize then
          t :: scan maxTokenSize (splitAt sep) fuel s
        else [] := by
  rw [scan]
  by_cases hfits : t.length + sep.length ≤ maxTokenSize
  · rw [if_pos hfits]
    have hdata : (t ++ sep ++ s).take maxTokenSize
        = t ++ sep ++ s.take (maxTokenSize - (t ++ sep).length) := by
      rw [List.take_append, List.take_of_length_le]
      rw [List.length_append]
      exact hfits
    have hne : t ++ sep ++ s.take (maxTokenSize - (t ++ sep).length)
        ≠ [] := by simp [hsep]
    have htoken : (t ++ sep ++ s.take
        (maxTokenSize - (t ++ sep).length)).take t.length = t := by
      rw [List.append_assoc, List.take_left]
    have hdrop : (t ++ sep ++ s).drop (t.length + sep.length) = s := by
      rw [← List.length_append, List.drop_left]
    rw [hdata]
    simp only [splitAt, hne, indexOf_clean h hsep, htoken, hdrop, and_false,
      if_false]
  · rw [if_neg hfits]
    have hlong : ¬(t ++ sep ++ s).length < maxTokenSize := by
      simp only [List.length_append]
      omega
    have hdata : (t ++ sep ++ s).take maxTokenSize
        = (t ++ sep).take maxTokenSize := by
      rw [List.take_append_of_le_length]
      rw [List.length_append]
      omega
    have hnone : indexOf sep ((t ++ sep).take maxTokenSize) = none :=
      indexOf_none (not_infix_take h (by omega))
    rw [hdata]
    simp only [splitAt, hlong, hnone, decide_false]
    simp

/-- Of texts that a separator was put between, those are tokens that can be
read. -/
theorem scan_intercalate (hmax : 0 < maxTokenSize) (hsep : sep ≠ [])
    {ts : List Text} (hne : ts ≠ []) (h : ∀ t ∈ ts, Clean sep t)
    {fuel : Nat} (hfuel : (sep.intercalate ts).length < fuel) :
    scan maxTokenSize (splitAt sep) fuel (sep.intercalate ts)
      = readable maxTokenSize sep ts := by
  induction ts generalizing fuel with
  | nil => exact absurd rfl hne
  | cons t ts ih =>
    have ht := h t List.mem_cons_self
    cases fuel with
    | zero => omega
    | succ fuel =>
      cases ts with
      | nil =>
        rw [List.intercalate_singleton]
        exact scan_last hmax (ht.not_infix hsep)
      | cons t' ts =>
        rw [List.intercalate_cons_cons] at hfuel ⊢
        rw [scan_front hsep ht, readable]
        have hpos := List.length_pos_of_ne_nil hsep
        rw [ih (List.cons_ne_nil t' ts)
          (fun u hu => h u (List.mem_cons_of_mem t hu))]
        simp only [List.length_append] at hfuel
        omega

theorem scanAll_intercalate (hmax : 0 < maxTokenSize) (hsep : sep ≠ [])
    {ts : List Text} (hne : ts ≠ []) (h : ∀ t ∈ ts, Clean sep t) :
    scanAll maxTokenSize (splitAt sep) (sep.intercalate ts)
      = readable maxTokenSize sep ts :=
  scan_intercalate hmax hsep hne h (Nat.lt_succ_self _)

end Tokens
