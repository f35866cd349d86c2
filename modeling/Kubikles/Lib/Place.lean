/-
Objects that are known by their place in a list.

A program's heap, where an object once made stays what it is to those who
hold it: a list that only grows, in which objects are changed at their
place. What is read at a place behind a change is read here by cases on
whether it is the place that was changed.

# Ledgers

Two counters of one sequence of requests, which are never compared.

# The parties

One counts the requests it has made since it last turned a page
(`counted`); the other counts, for each session, the requests it has
accepted (`generations`) and puts the number on what it answers. The first
takes an answer with a number below its own as one to an earlier request.

# The invariant

As long as nothing is rejected in the session that is shown, and the page
is turned only with the session or before anything was asked in it, the
first counter is the second and what is waiting (`Sound.count`). So where
nothing waits, a number is below the counter exactly if it is not the
highest (`Sound.latest_iff`).
-/
import Mathlib.Data.List.Basic

namespace Place

variable {α : Type*} {l : List α} {i j : Nat} {a b : α} {f : α → α}

theorem append_cases (h : (l ++ [a])[j]? = some b) :
    l[j]? = some b ∨ j = l.length ∧ b = a := by
  rcases Nat.lt_or_ge j l.length with hlt | hge
  · rw [List.getElem?_append_left hlt] at h
    exact .inl h
  · rw [List.getElem?_append_right hge, List.getElem?_singleton] at h
    split at h
    · exact .inr ⟨by omega, (Option.some.inj h).symm⟩
    · cases h

theorem append_of_some (h : l[j]? = some b) :
    (l ++ [a])[j]? = some b := by
  rw [List.getElem?_append_left (List.getElem?_eq_some_iff.mp h).1]
  exact h

theorem set_cases (h : (l.set i a)[j]? = some b) :
    i = j ∧ b = a ∨ i ≠ j ∧ l[j]? = some b := by
  rw [List.getElem?_set] at h
  split at h
  next hij =>
    split at h
    · exact .inl ⟨hij, (Option.some.inj h).symm⟩
    · cases h
  next hij => exact .inr ⟨hij, h⟩

theorem set_self (h : l[i]? = some b) : (l.set i a)[i]? = some a :=
  List.getElem?_set_self (List.getElem?_eq_some_iff.mp h).1

theorem modify_cases (h : (l.modify i f)[j]? = some b) :
    ∃ c, l[j]? = some c ∧ (i = j ∧ b = f c ∨ i ≠ j ∧ b = c) := by
  rw [List.getElem?_modify] at h
  obtain ⟨c, hc, rfl⟩ := Option.map_eq_some_iff.mp h
  refine ⟨c, hc, ?_⟩
  split
  next hij => exact .inl ⟨hij, rfl⟩
  next hij => exact .inr ⟨hij, rfl⟩

theorem modify_of_some (h : l[j]? = some b) :
    (l.modify i f)[j]? = some (if i = j then f b else b) := by
  rw [List.getElem?_modify, h]
  rfl

/-- How many are of a kind, behind an object that is put in the place of
another. -/
theorem countP_set {p : α → Bool} (h : l[i]? = some b) :
    (l.set i a).countP p + (p b).toNat = l.countP p + (p a).toNat := by
  obtain ⟨hlt, rfl⟩ := List.getElem?_eq_some_iff.mp h
  have hpos : p l[i] = true → 0 < l.countP p := fun hp =>
    List.countP_pos_iff.mpr ⟨l[i], List.getElem_mem hlt, hp⟩
  rw [List.countP_set hlt]
  cases hb : p l[i] <;> cases ha : p a <;> simp
  · exact Nat.sub_add_cancel (hpos hb)
  · have := hpos hb
    omega

theorem set_same (h : l[i]? = some a) : l.set i a = l := by
  obtain ⟨hlt, rfl⟩ := List.getElem?_eq_some_iff.mp h
  exact List.set_getElem_self hlt

theorem map_modify {β : Type*} (r : α → β) {g : β → β}
    (h : ∀ a, r (f a) = g (r a)) :
    (l.modify i f).map r = (l.map r).modify i g := by
  apply List.ext_getElem?
  intro j
  rw [List.getElem?_map, List.getElem?_modify, List.getElem?_modify,
    List.getElem?_map]
  cases l[j]? with
  | none => rfl
  | some a =>
    show some (r _) = some _
    split
    · exact congrArg some (h a)
    · rfl

end Place

namespace Ledger

/-- What has become of a request. -/
inductive Verdict where
  | waiting
  | rejected
  | accepted (gen : Nat)
deriving DecidableEq

/-- A request: the session it was made in, and the page. -/
structure Entry where
  session : Nat
  page : Nat
  verdict : Verdict
deriving DecidableEq

structure Book where
  shown : Nat
  counted : Nat
  page : Nat
  generations : List Nat
  entries : List Entry
  /-- The sessions that the next pages may bring. -/
  promised : List (Option Nat)

namespace Book

def generation (b : Book) (session : Nat) : Nat :=
  (b.generations[session]?).getD 0

def waits (b : Book) (e : Entry) : Bool :=
  e.session = b.shown && e.verdict = .waiting

inductive Moves (b : Book) : Book → Prop
  | same : Moves b b
  | sent : Moves b { b with
      counted := b.counted + 1
      entries := b.entries ++ [⟨b.shown, b.page, .waiting⟩] }
  | accepted {i : Nat} {e : Entry} (he : b.entries[i]? = some e)
      (hwaiting : e.verdict = .waiting) :
      Moves b { b with
        generations := b.generations.modify e.session (· + 1)
        entries := b.entries.set i
          { e with verdict := .accepted (b.generation e.session + 1) } }
  | rejected {i : Nat} {e : Entry} {generations : List Nat}
      (he : b.entries[i]? = some e) (hother : e.session ≠ b.shown)
      (hgen : generations = b.generations
        ∨ generations = b.generations.modify e.session (· + 1)) :
      Moves b { b with
        generations
        entries := b.entries.set i { e with verdict := .rejected } }
  | asked : Moves b { b with promised := b.promised ++ [none] }
  | promises {j : Nat} :
      Moves b { b with
        generations := b.generations ++ [0]
        promised := b.promised.set j (some b.generations.length) }
  | renewed {j n : Nat} (h : b.promised[j]? = some (some n)) :
      Moves b { b with
        shown := n
        counted := 0
        page := b.page + 1
        promised := b.promised.set j none }
  | stayed {promised : List (Option Nat)}
      (hunused : ∀ e ∈ b.entries, e.session ≠ b.shown)
      (hpromised : ∀ j n : Nat, promised[j]? = some (some n) →
        b.promised[j]? = some (some n)) :
      Moves b { b with counted := 0, page := b.page + 1, promised }

/-- The two counters agree. -/
structure Sound (b : Book) : Prop where
  shown : b.shown < b.generations.length
  known : ∀ {i : Nat} {e : Entry}, b.entries[i]? = some e →
    e.session < b.generations.length
  past : ∀ {i : Nat} {e : Entry}, b.entries[i]? = some e → e.page ≤ b.page
  page : ∀ {i : Nat} {e : Entry}, b.entries[i]? = some e →
    (e.session = b.shown ↔ e.page = b.page)
  count : b.counted = b.generation b.shown + b.entries.countP b.waits
  bound : ∀ {i : Nat} {e : Entry} {gen : Nat}, b.entries[i]? = some e →
    e.verdict = .accepted gen → 0 < gen ∧ gen ≤ b.generation e.session
  top : 0 < b.generation b.shown → ∃ (i : Nat) (e : Entry),
    b.entries[i]? = some e ∧ e.session = b.shown
      ∧ e.verdict = .accepted (b.generation b.shown)
  taken : ∀ {i : Nat} {e : Entry}, b.entries[i]? = some e →
    e.session = b.shown → e.verdict ≠ .rejected
  fresh : ∀ {j n : Nat}, b.promised[j]? = some (some n) →
    n < b.generations.length ∧ n ≠ b.shown ∧ b.generation n = 0
      ∧ ∀ {i : Nat} {e : Entry}, b.entries[i]? = some e → e.session ≠ n
  once : ∀ {i j n : Nat}, b.promised[i]? = some (some n) →
    b.promised[j]? = some (some n) → i = j

-- ======== generations

theorem generation_modify (b : Book) (n m : Nat)
    (h : n < b.generations.length) :
    ((b.generations.modify n (· + 1))[m]?).getD 0
      = if m = n then b.generation n + 1 else b.generation m := by
  rw [List.getElem?_modify]
  unfold generation
  by_cases hnm : n = m
  · subst hnm
    rw [if_pos rfl, List.getElem?_eq_getElem h]
    simp
  · rw [if_neg (Ne.symm hnm)]
    cases b.generations[m]? <;> simp [hnm]

theorem generation_append (b : Book) (m : Nat) :
    ((b.generations ++ [0])[m]?).getD 0 = b.generation m := by
  unfold generation
  rcases Nat.lt_or_ge m b.generations.length with hlt | hge
  · rw [List.getElem?_append_left hlt]
  · rw [List.getElem?_append_right hge, List.getElem?_eq_none hge,
      List.getElem?_singleton]
    split <;> rfl

-- ======== what is kept

theorem Sound.sent {b : Book} (hi : Sound b) :
    Sound { b with
      counted := b.counted + 1
      entries := b.entries ++ [⟨b.shown, b.page, .waiting⟩] } where
  shown := hi.shown
  known h := by
    rcases Place.append_cases h with h | ⟨-, rfl⟩
    · exact hi.known h
    · exact hi.shown
  past h := by
    rcases Place.append_cases h with h | ⟨-, rfl⟩
    · exact hi.past h
    · exact Nat.le_refl _
  page h := by
    rcases Place.append_cases h with h | ⟨-, rfl⟩
    · exact hi.page h
    · exact ⟨fun _ => rfl, fun _ => rfl⟩
  count := by
    have hone : [(⟨b.shown, b.page, .waiting⟩ : Entry)].countP b.waits
        = 1 := by simp [waits]
    show b.counted + 1 = b.generation b.shown
      + (b.entries ++ [(⟨b.shown, b.page, .waiting⟩ : Entry)]).countP
        b.waits
    rw [List.countP_append, hone, hi.count]
    omega
  bound h hv := by
    rcases Place.append_cases h with h | ⟨-, rfl⟩
    · exact hi.bound h hv
    · cases hv
  top hpos := by
    obtain ⟨i, e, he, hshown, hv⟩ := hi.top hpos
    exact ⟨i, e, Place.append_of_some he, hshown, hv⟩
  taken h hshown hv := by
    rcases Place.append_cases h with h | ⟨-, rfl⟩
    · exact hi.taken h hshown hv
    · cases hv
  fresh h := by
    obtain ⟨hlt, hne, hzero, hunused⟩ := hi.fresh h
    refine ⟨hlt, hne, hzero, fun he heq => ?_⟩
    rcases Place.append_cases he with he | ⟨-, rfl⟩
    · exact hunused he heq
    · exact hne heq.symm
  once := hi.once

/-- The generation of a session that a request of another is counted on
in. -/
theorem Sound.generation_of_ne {b : Book} (hi : Sound b) {i : Nat}
    {e : Entry} (he : b.entries[i]? = some e) {generations : List Nat}
    (hgen : generations = b.generations
      ∨ generations = b.generations.modify e.session (· + 1)) {m : Nat}
    (hm : m ≠ e.session) :
    (generations[m]?).getD 0 = b.generation m := by
  rcases hgen with rfl | rfl
  · rfl
  · rw [generation_modify b e.session m (hi.known he), if_neg hm]

theorem Sound.generation_le {b : Book} (hi : Sound b) {i : Nat}
    {e : Entry} (he : b.entries[i]? = some e) {generations : List Nat}
    (hgen : generations = b.generations
      ∨ generations = b.generations.modify e.session (· + 1)) (m : Nat) :
    b.generation m ≤ (generations[m]?).getD 0 := by
  rcases hgen with rfl | rfl
  · exact Nat.le_refl _
  · rw [generation_modify b e.session m (hi.known he)]
    split
    next hm => rw [hm]; omega
    next => exact Nat.le_refl _

theorem length_counted {l generations : List Nat} {n : Nat}
    (hgen : generations = l ∨ generations = l.modify n (· + 1)) :
    generations.length = l.length := by
  rcases hgen with rfl | rfl
  · rfl
  · simp

/-- A request is decided on: what both verdicts have in common. -/
theorem Sound.decided {b : Book} (hi : Sound b) {i : Nat} {e : Entry}
    {verdict : Verdict} {generations : List Nat}
    (he : b.entries[i]? = some e)
    (hgen : generations = b.generations
      ∨ generations = b.generations.modify e.session (· + 1))
    (hcount : b.counted = ((generations[b.shown]?).getD 0)
      + (b.entries.set i { e with verdict }).countP b.waits)
    (hbound : ∀ gen, verdict = .accepted gen →
      0 < gen ∧ gen ≤ (generations[e.session]?).getD 0)
    (htop : 0 < (generations[b.shown]?).getD 0 →
      ∃ (k : Nat) (d : Entry),
        (b.entries.set i { e with verdict })[k]? = some d
        ∧ d.session = b.shown
        ∧ d.verdict = .accepted ((generations[b.shown]?).getD 0))
    (htaken : e.session = b.shown → verdict ≠ .rejected) :
    Sound { b with
      generations
      entries := b.entries.set i { e with verdict } } := by
  have hlen := length_counted hgen
  refine
    { shown := ?_, known := ?_, past := ?_, page := ?_, count := hcount
      bound := ?_, top := htop, taken := ?_, fresh := ?_, once := hi.once }
  · show b.shown < generations.length
    rw [hlen]
    exact hi.shown
  · intro k d hd
    show d.session < generations.length
    rw [hlen]
    rcases Place.set_cases hd with ⟨-, rfl⟩ | ⟨-, hd⟩
    · exact hi.known (e := e) he
    · exact hi.known hd
  · intro k d hd
    rcases Place.set_cases hd with ⟨-, rfl⟩ | ⟨-, hd⟩
    · exact hi.past (e := e) he
    · exact hi.past hd
  · intro k d hd
    rcases Place.set_cases hd with ⟨-, rfl⟩ | ⟨-, hd⟩
    · exact hi.page (e := e) he
    · exact hi.page hd
  · intro k d gen hd hv
    rcases Place.set_cases hd with ⟨-, rfl⟩ | ⟨-, hd⟩
    · exact hbound gen hv
    · obtain ⟨hpos, hle⟩ := hi.bound hd hv
      exact ⟨hpos, Nat.le_trans hle (hi.generation_le he hgen _)⟩
  · intro k d hd hshown
    rcases Place.set_cases hd with ⟨-, rfl⟩ | ⟨-, hd⟩
    · exact htaken hshown
    · exact hi.taken hd hshown
  · intro j n hn
    obtain ⟨hlt, hne, hzero, hunused⟩ := hi.fresh hn
    refine ⟨?_, hne, ?_, ?_⟩
    · show n < generations.length
      rw [hlen]
      exact hlt
    · show (generations[n]?).getD 0 = 0
      rw [hi.generation_of_ne he hgen (hunused he).symm]
      exact hzero
    · intro k d hd
      rcases Place.set_cases hd with ⟨-, rfl⟩ | ⟨-, hd⟩
      · exact hunused (e := e) he
      · exact hunused hd

theorem countP_decided {b : Book} {i : Nat} {e : Entry} {verdict : Verdict}
    (he : b.entries[i]? = some e) (hverdict : verdict ≠ .waiting) :
    (b.entries.set i { e with verdict }).countP b.waits
      = b.entries.countP b.waits - if b.waits e then 1 else 0 := by
  obtain ⟨hlt, hget⟩ := List.getElem?_eq_some_iff.mp he
  have hnot : b.waits { e with verdict } = false := by
    simp [waits, hverdict]
  rw [List.countP_set hlt, hget, hnot]
  simp

theorem Sound.accepted {b : Book} (hi : Sound b) {i : Nat} {e : Entry}
    (he : b.entries[i]? = some e) (hwaiting : e.verdict = .waiting) :
    Sound { b with
      generations := b.generations.modify e.session (· + 1)
      entries := b.entries.set i
        { e with verdict := .accepted (b.generation e.session + 1) } } := by
  have hgen := generation_modify b e.session
  apply hi.decided he (.inr rfl)
  · rw [hgen b.shown (hi.known he), countP_decided he (by simp)]
    have hcount := hi.count
    by_cases hshown : e.session = b.shown
    · have hwaits : b.waits e = true := by simp [waits, hshown, hwaiting]
      have hpos : 0 < b.entries.countP b.waits :=
        List.countP_pos_iff.mpr ⟨e, List.mem_of_getElem? he, hwaits⟩
      rw [if_pos hshown.symm, if_pos hwaits, hshown]
      omega
    · have hwaits : b.waits e = false := by simp [waits, hshown]
      rw [if_neg (Ne.symm hshown), hwaits]
      simpa using hcount
  · intro gen heq
    cases heq
    rw [hgen e.session (hi.known he), if_pos rfl]
    exact ⟨Nat.succ_pos _, Nat.le_refl _⟩
  · intro hpos
    rw [hgen b.shown (hi.known he)] at hpos ⊢
    by_cases hshown : b.shown = e.session
    · rw [if_pos hshown]
      exact ⟨i, _, Place.set_self he, hshown.symm, rfl⟩
    · rw [if_neg hshown] at hpos ⊢
      obtain ⟨k, d, hd, hdshown, hv⟩ := hi.top hpos
      refine ⟨k, d, ?_, hdshown, hv⟩
      rw [List.getElem?_set_ne]
      · exact hd
      · rintro rfl
        rw [he] at hd
        cases hd
        exact hshown hdshown.symm
  · intro _ heq
    cases heq

theorem Sound.rejected {b : Book} (hi : Sound b) {i : Nat} {e : Entry}
    {generations : List Nat} (he : b.entries[i]? = some e)
    (hother : e.session ≠ b.shown)
    (hgen : generations = b.generations
      ∨ generations = b.generations.modify e.session (· + 1)) :
    Sound { b with
      generations
      entries := b.entries.set i { e with verdict := .rejected } } := by
  have hshown := hi.generation_of_ne he hgen hother.symm
  apply hi.decided he hgen
  · have hwaits : b.waits e = false := by simp [waits, hother]
    rw [hshown, countP_decided he (by simp), hwaits]
    simpa using hi.count
  · intro gen heq
    cases heq
  · intro hpos
    rw [hshown] at hpos ⊢
    obtain ⟨k, d, hd, hdshown, hv⟩ := hi.top hpos
    refine ⟨k, d, ?_, hdshown, hv⟩
    rw [List.getElem?_set_ne]
    · exact hd
    · rintro rfl
      rw [he] at hd
      cases hd
      exact hother hdshown
  · intro heq
    exact absurd heq hother

/-- A session is made for the next page. -/
theorem Sound.promises {b : Book} (hi : Sound b) (j : Nat) :
    Sound { b with
      generations := b.generations ++ [0]
      promised := b.promised.set j (some b.generations.length) } := by
  have hgen := generation_append b
  have hlen : (b.generations ++ [0]).length = b.generations.length + 1 :=
    List.length_append
  refine
    { shown := ?_, known := ?_, past := hi.past, page := hi.page
      count := ?_, bound := ?_, top := ?_, taken := hi.taken, fresh := ?_
      once := ?_ }
  · show b.shown < (b.generations ++ [0]).length
    rw [hlen]
    exact Nat.lt_succ_of_lt hi.shown
  · intro i e he
    show e.session < (b.generations ++ [0]).length
    rw [hlen]
    exact Nat.lt_succ_of_lt (hi.known he)
  · show b.counted = ((b.generations ++ [0])[b.shown]?).getD 0 + _
    rw [hgen]
    exact hi.count
  · intro i e gen he hv
    show 0 < gen ∧ gen ≤ ((b.generations ++ [0])[e.session]?).getD 0
    rw [hgen]
    exact hi.bound he hv
  · show 0 < ((b.generations ++ [0])[b.shown]?).getD 0 → ∃ i e, _ ∧ _
      ∧ _ = Verdict.accepted (((b.generations ++ [0])[b.shown]?).getD 0)
    rw [hgen]
    exact hi.top
  · intro k n hn
    show n < (b.generations ++ [0]).length ∧ n ≠ b.shown
      ∧ ((b.generations ++ [0])[n]?).getD 0 = 0 ∧ _
    rw [hgen, hlen]
    rcases Place.set_cases hn with ⟨-, heq⟩ | ⟨-, hn⟩
    · obtain rfl := Option.some.inj heq
      refine ⟨Nat.lt_succ_self _, Nat.ne_of_gt hi.shown, ?_, ?_⟩
      · rw [generation, List.getElem?_eq_none (Nat.le_refl _)]
        rfl
      · intro i e he
        exact Nat.ne_of_lt (hi.known he)
    · obtain ⟨hlt, hne, hzero, hunused⟩ := hi.fresh hn
      exact ⟨Nat.lt_succ_of_lt hlt, hne, hzero, hunused⟩
  · intro i k n hn hn'
    rcases Place.set_cases hn with ⟨hi₁, heq⟩ | ⟨-, hn⟩
    · obtain rfl := Option.some.inj heq
      rcases Place.set_cases hn' with ⟨hk, -⟩ | ⟨-, hn'⟩
      · exact hi₁.symm.trans hk
      · exact absurd (hi.fresh hn').1 (Nat.lt_irrefl _)
    · rcases Place.set_cases hn' with ⟨-, heq⟩ | ⟨-, hn'⟩
      · obtain rfl := Option.some.inj heq
        exact absurd (hi.fresh hn).1 (Nat.lt_irrefl _)
      · exact hi.once hn hn'

theorem countP_of_unused {b : Book} {n : Nat}
    (hunused : ∀ {i : Nat} {e : Entry}, b.entries[i]? = some e →
      e.session ≠ n) :
    b.entries.countP (fun e => e.session = n && e.verdict = .waiting) = 0 := by
  apply List.countP_eq_zero.mpr
  intro e he hboth
  obtain ⟨i, hi⟩ := List.mem_iff_getElem?.mp he
  simp only [Bool.and_eq_true, decide_eq_true_eq] at hboth
  exact hunused hi hboth.1

/-- A page is turned, and there is a session for it. -/
theorem Sound.renewed {b : Book} (hi : Sound b) {j n : Nat}
    (h : b.promised[j]? = some (some n)) :
    Sound { b with
      shown := n
      counted := 0
      page := b.page + 1
      promised := b.promised.set j none } := by
  obtain ⟨hlt, hne, hzero, hunused⟩ := hi.fresh h
  refine
    { shown := hlt, known := hi.known, past := ?_, page := ?_, count := ?_
      bound := hi.bound, top := ?_, taken := ?_, fresh := ?_, once := ?_ }
  · intro i e he
    exact Nat.le_succ_of_le (hi.past he)
  · intro i e he
    refine ⟨fun heq => absurd heq (hunused he), fun heq => ?_⟩
    have hpast := hi.past he
    have heq' : e.page = b.page + 1 := heq
    omega
  · show 0 = b.generation n + b.entries.countP _
    rw [hzero, Nat.zero_add]
    exact (countP_of_unused hunused).symm
  · intro hpos
    exact absurd hzero (Nat.ne_of_gt hpos)
  · intro i e he heq
    exact absurd heq (hunused he)
  · intro k m hm
    rcases Place.set_cases hm with ⟨-, heq⟩ | ⟨hjk, hm⟩
    · cases heq
    · obtain ⟨hlt', -, hzero', hunused'⟩ := hi.fresh hm
      refine ⟨hlt', fun heq => hjk ?_, hzero', hunused'⟩
      have hmn : m = n := heq
      rw [hmn] at hm
      exact hi.once h hm
  · intro i k m hm hm'
    rcases Place.set_cases hm with ⟨-, heq⟩ | ⟨-, hm⟩
    · cases heq
    · rcases Place.set_cases hm' with ⟨-, heq⟩ | ⟨-, hm'⟩
      · cases heq
      · exact hi.once hm hm'

theorem Sound.stayed {b : Book} (hi : Sound b)
    {promised : List (Option Nat)}
    (hunused : ∀ e ∈ b.entries, e.session ≠ b.shown)
    (hpromised : ∀ j n : Nat, promised[j]? = some (some n) →
      b.promised[j]? = some (some n)) :
    Sound { b with counted := 0, page := b.page + 1, promised } := by
  have hfree : ∀ {i : Nat} {e : Entry}, b.entries[i]? = some e →
      e.session ≠ b.shown := fun he => hunused _ (List.mem_of_getElem? he)
  have hzero : b.generation b.shown = 0 := by
    by_contra hne
    obtain ⟨i, e, he, hshown, -⟩ := hi.top (Nat.pos_of_ne_zero hne)
    exact hfree he hshown
  refine
    { shown := hi.shown, known := hi.known, past := ?_, page := ?_
      count := ?_, bound := hi.bound, top := hi.top, taken := hi.taken
      fresh := fun h => hi.fresh (hpromised _ _ h)
      once := fun h h' => hi.once (hpromised _ _ h) (hpromised _ _ h') }
  · intro i e he
    exact Nat.le_succ_of_le (hi.past he)
  · intro i e he
    refine ⟨fun heq => absurd heq (hfree he), fun heq => ?_⟩
    have hpast := hi.past he
    have heq' : e.page = b.page + 1 := heq
    omega
  · show 0 = b.generation b.shown + b.entries.countP _
    rw [hzero, Nat.zero_add]
    exact (countP_of_unused hfree).symm

theorem sound_step {b b' : Book} (hi : Sound b) (h : Moves b b') :
    Sound b' := by
  cases h with
  | same => exact hi
  | sent => exact hi.sent
  | accepted he hwaiting => exact hi.accepted he hwaiting
  | rejected he hother hgen => exact hi.rejected he hother hgen
  | asked =>
    have hback : ∀ {j n : Nat},
        (b.promised ++ [none])[j]? = some (some n) →
        b.promised[j]? = some (some n) := by
      intro j n h
      rcases Place.append_cases h with h | ⟨-, heq⟩
      · exact h
      · cases heq
    exact ⟨hi.shown, hi.known, hi.past, hi.page, hi.count, hi.bound,
      hi.top, hi.taken, fun h => hi.fresh (hback h),
      fun h h' => hi.once (hback h) (hback h')⟩
  | promises => exact hi.promises _
  | renewed h => exact hi.renewed h
  | stayed hunused hpromised => exact hi.stayed hunused hpromised

-- ======== what it is for

/-- The number of a request of a page is the highest there is on the
page, which is the current one. -/
def Latest (b : Book) (gen page : Nat) : Prop :=
  page = b.page ∧ ∀ {i : Nat} {e : Entry} {gen' : Nat},
    b.entries[i]? = some e → e.page = b.page →
    e.verdict = .accepted gen' → gen' ≤ gen

/-- Where nothing waits, unless the request is not the latest, a number is
not below the counter exactly if it is the latest of the page. -/
theorem Sound.latest_iff {b : Book} (hi : Sound b) {i gen : Nat} {e : Entry}
    (he : b.entries[i]? = some e)
    (hwaits : Latest b gen e.page → ∀ d ∈ b.entries, b.waits d = false) :
    (e.session = b.shown ∧ b.counted ≤ gen) ↔ Latest b gen e.page := by
  constructor
  · rintro ⟨hshown, hle⟩
    refine ⟨(hi.page he).mp hshown, fun {k d gen'} hd hpage hv' => ?_⟩
    obtain ⟨-, hbound⟩ := hi.bound hd hv'
    rw [(hi.page hd).mpr hpage] at hbound
    have hcount := hi.count
    omega
  · intro hlatest
    have hshown := (hi.page he).mpr hlatest.1
    have hnone : b.entries.countP b.waits = 0 :=
      List.countP_eq_zero.mpr fun d hd => by
        rw [hwaits hlatest d hd]
        exact Bool.false_ne_true
    refine ⟨hshown, ?_⟩
    have hcount := hi.count
    rcases Nat.eq_zero_or_pos (b.generation b.shown) with hzero | hpos
    · omega
    · obtain ⟨k, d, hd, hdshown, hdv⟩ := hi.top hpos
      have hle := hlatest.2 hd ((hi.page hd).mp hdshown) hdv
      omega

end Book

end Ledger
