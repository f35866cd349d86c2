/-
Which pods the pattern of a controller selects.

A pattern is the controller's name, of which a dot stands for any
character, and classes of letters and digits behind dashes
(`parse_name`). A pod's name ends in letters and digits behind its last
dash, so a pattern matches it part by part (`podMatches_iff`): a
controller's own pods always, and those of others whose names read as if
they were its own. The pattern selects the controller's pods exactly if
there are none of these (`covers_iff`).
-/
import Kubikles.Metrics.History
import Mathlib.Data.List.Forall2

namespace History

open Regex (Atom Item Token)

-- ======== patterns

def nameAtom (c : Char) : Atom := if c = '.' then .any else .char c

theorem isAlnum_iff {c : Char} :
    isAlnum c = true ↔
      ('a' ≤ c ∧ c ≤ 'z') ∨ ('0' ≤ c ∧ c ≤ '9') := by
  simp [isAlnum]

theorem tokens_nameChar {c : Char} (h : isNameChar c = true)
    (s : List Char) :
    Regex.tokens none (c :: s)
      = (Regex.tokens none s).map (.atom (nameAtom c) :: ·) := by
  have hne (x : Char) (hx : isNameChar x = false) : c ≠ x := by
    rintro rfl
    rw [h] at hx
    cases hx
  rw [Regex.tokens, if_neg (hne '[' rfl), if_neg (hne '+' rfl),
    if_neg (hne '*' rfl)]
  unfold nameAtom
  by_cases hdot : c = '.'
  · rw [if_pos hdot, if_pos hdot]
  · rw [if_neg hdot, if_neg hdot, if_neg]
    intro hspecial
    have hnot : ∀ x ∈ Regex.special, isNameChar x = false := by
      unfold Regex.special
      simp only [List.forall_mem_cons]
      exact ⟨rfl, rfl, rfl, rfl, rfl, rfl, rfl, rfl, rfl, rfl, nofun⟩
    exact hne c (hnot c hspecial) rfl

theorem tokens_name {name : List Char}
    (h : ∀ c ∈ name, isNameChar c = true) (s : List Char) :
    Regex.tokens none (name ++ s)
      = (Regex.tokens none s).map
        (name.map (fun c => .atom (nameAtom c)) ++ ·) := by
  induction name with
  | nil =>
    show Regex.tokens none s = (Regex.tokens none s).map id
    rw [Option.map_id]
    rfl
  | cons c name ih =>
    rw [List.cons_append, tokens_nameChar (h c List.mem_cons_self),
      ih fun c hc => h c (List.mem_cons_of_mem _ hc), Option.map_map]
    rfl

theorem items_atoms (l : List Atom) (a : Atom) (ts : List Token) :
    Regex.items (l.map .atom ++ .atom a :: ts)
      = (Regex.items (.atom a :: ts)).map
        (l.map (fun a => (a, .once)) ++ ·) := by
  induction l with
  | nil =>
    show Regex.items (.atom a :: ts)
      = (Regex.items (.atom a :: ts)).map id
    rw [Option.map_id]
    rfl
  | cons x l ih =>
    have hitems (y : Atom) (ts : List Token) :
        Regex.items (.atom x :: .atom y :: ts)
          = (Regex.items (.atom y :: ts)).map ((x, .once) :: ·) := by
      rw [Regex.items]
      · rintro ts' h
        cases h
      · rintro ts' h
        cases h
    cases l with
    | nil => exact hitems a ts
    | cons y l =>
      show Regex.items (.atom x :: .atom y ::
        (l.map .atom ++ .atom a :: ts)) = _
      rw [hitems]
      show Option.map _ (Regex.items ((y :: l).map .atom
        ++ .atom a :: ts)) = _
      rw [ih, Option.map_map]
      rfl

def nameItems (name : List Char) : List Item :=
  name.map fun c => (nameAtom c, .once)

theorem parse_name {name : List Char}
    (h : ∀ c ∈ name, isNameChar c = true) {s : List Char} {a : Atom}
    {ts : List Token} {l : List Item}
    (hs : Regex.tokens none s = some (.atom a :: ts))
    (hl : Regex.items (.atom a :: ts) = some l) :
    Regex.parse (name ++ s) = some (nameItems name ++ l) := by
  have hmap : (name.map fun c => Token.atom (nameAtom c))
      = (name.map nameAtom).map .atom := by
    rw [List.map_map]
    rfl
  rw [Regex.parse, tokens_name h, hs]
  show Regex.items (_ ++ .atom a :: ts) = _
  rw [hmap, items_atoms, hl, List.map_map]
  rfl

-- ======== matches

/-- A text is read as a name, a dot of which is any character. -/
def Fits (name text : String) : Prop :=
  List.Forall₂ (fun c c' => c = '.' ∨ c = c') name.toList text.toList

theorem fits_refl (name : String) : Fits name name :=
  List.forall₂_same.mpr fun _ _ => .inr rfl

theorem test_nameAtom {c c' : Char} :
    (nameAtom c).test c' = true ↔ c = '.' ∨ c = c' := by
  unfold nameAtom
  by_cases hdot : c = '.'
  · rw [if_pos hdot]
    exact iff_of_true rfl (.inl hdot)
  · rw [if_neg hdot]
    show decide (c' = c) = true ↔ _
    rw [decide_eq_true_eq, eq_comm]
    exact (or_iff_right hdot).symm

theorem matchAll_nameItems {name text : List Char} :
    Regex.matchAll (nameItems name) text = true ↔
      List.Forall₂ (fun c c' => c = '.' ∨ c = c') name text := by
  induction name generalizing text with
  | nil =>
    show text.isEmpty = true ↔ _
    rw [List.isEmpty_iff, List.forall₂_nil_left_iff]
  | cons c name ih =>
    show Regex.matchAll ((nameAtom c, .once) :: nameItems name) text
      = true ↔ _
    rw [Regex.matchAll_once, List.forall₂_cons_left_iff]
    constructor
    · rintro ⟨c', t, rfl, hc, ht⟩
      exact ⟨c', t, test_nameAtom.mp hc, ih.mp ht, rfl⟩
    · rintro ⟨c', t, hc, ht, rfl⟩
      exact ⟨c', t, rfl, test_nameAtom.mpr hc, ih.mpr ht⟩

/-- The class `[a-z0-9]`. -/
def alnumClass : Atom := .range [('a', 'z'), ('0', '9')]

/-- The class `[0-9]`. -/
def digitClass : Atom := .range [('0', '9')]

theorem test_alnumClass (c : Char) : alnumClass.test c = isAlnum c := by
  simp [alnumClass, Atom.test, isAlnum]

theorem test_digitClass (c : Char) : digitClass.test c = true ↔
    '0' ≤ c ∧ c ≤ '9' := by
  simp [digitClass, Atom.test]

theorem test_dash : (Atom.char '-').test '-' = true := by decide

theorem matchAll_dashed {name : List Char} {a : Atom} {l : List Item}
    {s : List Char} :
    Regex.matchAll (nameItems name ++ (.char '-', .once) :: (a, .plus) :: l)
        s = true ↔
      ∃ b x u, s = b ++ '-' :: (x ++ u) ∧
        List.Forall₂ (fun c c' => c = '.' ∨ c = c') name b ∧
        x ≠ [] ∧ (∀ c ∈ x, a.test c = true) ∧
        Regex.matchAll l u = true := by
  rw [Regex.matchAll_append]
  constructor
  · rintro ⟨b, t, rfl, hb, ht⟩
    obtain ⟨c, t, rfl, hc, ht⟩ := Regex.matchAll_once.mp ht
    obtain ⟨x, u, rfl, hne, hx, hu⟩ := Regex.matchAll_plus.mp ht
    have hdash : c = '-' := of_decide_eq_true hc
    subst hdash
    exact ⟨b, x, u, rfl, matchAll_nameItems.mp hb, hne, hx, hu⟩
  · rintro ⟨b, x, u, rfl, hb, hne, hx, hu⟩
    exact ⟨b, '-' :: (x ++ u), rfl, matchAll_nameItems.mpr hb,
      Regex.matchAll_once.mpr ⟨'-', x ++ u, rfl, test_dash,
        Regex.matchAll_plus.mpr ⟨x, u, rfl, hne, hx, hu⟩⟩⟩

theorem matchAll_nil {s : List Char} :
    Regex.matchAll [] s = true ↔ s = [] :=
  List.isEmpty_iff

theorem Name.chars (name : Name) :
    ∀ c ∈ name.value.toList, isNameChar c = true := by
  have h := name.subdomain
  unfold isSubdomain at h
  rw [Bool.and_eq_true, List.all_eq_true] at h
  exact h.1

theorem podMatches_append (name : Name) {rest : String} {a : Atom}
    (ts : List Token) (l : List Item)
    (hs : Regex.tokens none rest.toList = some (.atom a :: ts))
    (hl : Regex.items (.atom a :: ts) = some l) (pod : String) :
    podMatches (name.value ++ rest) pod
      = Regex.matchAll (nameItems name.value.toList ++ l) pod.toList := by
  rw [podMatches, String.toList_append, parse_name name.chars hs hl]

-- ======== pods

theorem last_dash {u u' y y' : List Char} (hy : '-' ∉ y) (hy' : '-' ∉ y') :
    u ++ '-' :: y = u' ++ '-' :: y' ↔ u = u' ∧ y = y' := by
  constructor
  · intro h
    rcases List.append_eq_append_iff.mp h with
      ⟨v, rfl, hv⟩ | ⟨v, rfl, hv⟩
    · cases v with
      | nil =>
        cases hv
        exact ⟨(List.append_nil u).symm, rfl⟩
      | cons c v =>
        rw [List.cons_append, List.cons.injEq] at hv
        rw [hv.2] at hy
        simp at hy
    · cases v with
      | nil =>
        cases hv
        exact ⟨List.append_nil u', rfl⟩
      | cons c v =>
        rw [List.cons_append, List.cons.injEq] at hv
        rw [hv.2] at hy'
        simp at hy'
  · rintro ⟨rfl, rfl⟩
    rfl

theorem not_mem_dash {l : List Char} (h : ∀ c ∈ l, isAlnum c = true) :
    '-' ∉ l := by
  intro hmem
  have hdash := h '-' hmem
  revert hdash
  decide

def isDigit (c : Char) : Prop := '0' ≤ c ∧ c ≤ '9'

theorem isAlnum_of_isDigit {c : Char} (h : isDigit c) :
    isAlnum c = true :=
  isAlnum_iff.mpr (.inr h)

theorem digits_ordinal (n : Nat) :
    ∀ c ∈ (toString n).toList, isDigit c := by
  intro c hc
  rw [Nat.toString_eq_repr, Nat.toList_repr] at hc
  have hdigit := Nat.isDigit_of_mem_toDigits (by decide) (by decide) hc
  unfold Char.isDigit at hdigit
  rw [Bool.and_eq_true, decide_eq_true_eq, decide_eq_true_eq] at hdigit
  exact hdigit

theorem Pod.ending_alnum (p : Pod) :
    ∀ c ∈ p.ending.toList, isAlnum c = true := by
  cases p with
  | deployment _ _ suffix => exact suffix.alnum
  | statefulSet _ ordinal =>
    exact fun c hc => isAlnum_of_isDigit (digits_ordinal ordinal c hc)
  | daemonSet _ suffix => exact suffix.alnum
  | replicaSet _ suffix => exact suffix.alnum

theorem Pod.ending_ne (p : Pod) : p.ending.toList ≠ [] := by
  cases p with
  | deployment _ _ suffix => exact suffix.ne
  | statefulSet _ ordinal =>
    show (toString ordinal).toList ≠ []
    rw [Nat.toString_eq_repr, Nat.toList_repr]
    exact Nat.toDigits_ne_nil
  | daemonSet _ suffix => exact suffix.ne
  | replicaSet _ suffix => exact suffix.ne

theorem Pod.toList_name (p : Pod) :
    p.name.toList = p.base.toList ++ '-' :: p.ending.toList := by
  rw [Pod.name, String.toList_append, String.toList_append,
    List.append_assoc]
  rfl

def ReadsAs (p : Pod) (c : Controller) : Prop :=
  match c.kind with
  | .deployment => ∃ (b : String) (x : Suffix),
      p.base = b ++ "-" ++ x.value ∧ Fits c.name.value b
  | .statefulSet =>
    Fits c.name.value p.base ∧ ∀ d ∈ p.ending.toList, isDigit d
  | .daemonSet => Fits c.name.value p.base
  | .replicaSet => Fits c.name.value p.base

theorem name_split_iff (p : Pod) {P : List Char → Prop} {a : Atom}
    (ha : ∀ c, a.test c = true → isAlnum c = true) :
    (∃ b x u, p.name.toList = b ++ '-' :: (x ++ u) ∧ P b ∧ x ≠ [] ∧
        (∀ c ∈ x, a.test c = true) ∧ Regex.matchAll [] u = true) ↔
      P p.base.toList ∧ ∀ c ∈ p.ending.toList, a.test c = true := by
  rw [p.toList_name]
  constructor
  · rintro ⟨b, x, u, heq, hb, -, hx, hu⟩
    rw [matchAll_nil.mp hu, List.append_nil,
      last_dash (not_mem_dash p.ending_alnum)
        (not_mem_dash fun c hc => ha c (hx c hc))] at heq
    rw [heq.1, heq.2]
    exact ⟨hb, hx⟩
  · rintro ⟨hb, hx⟩
    exact ⟨p.base.toList, p.ending.toList, [], by rw [List.append_nil], hb,
      p.ending_ne, hx, rfl⟩

theorem isAlnum_of_test_digitClass {c : Char}
    (h : digitClass.test c = true) : isAlnum c = true :=
  isAlnum_of_isDigit ((test_digitClass c).mp h)

theorem ending_test (p : Pod) :
    ∀ c ∈ p.ending.toList, alnumClass.test c = true := by
  intro c hc
  rw [test_alnumClass]
  exact p.ending_alnum c hc

theorem podMatches_suffixed (name : Name) (p : Pod) :
    podMatches (name.value ++ "-[a-z0-9]+") p.name = true ↔
      Fits name.value p.base := by
  rw [podMatches_append name [.atom alnumClass, .plus]
    [(.char '-', .once), (alnumClass, .plus)] rfl rfl, matchAll_dashed,
    name_split_iff p fun c hc => (test_alnumClass c) ▸ hc]
  exact and_iff_left (ending_test p)

theorem podMatches_numbered (name : Name) (p : Pod) :
    podMatches (name.value ++ "-[0-9]+") p.name = true ↔
      Fits name.value p.base ∧ ∀ d ∈ p.ending.toList, isDigit d := by
  rw [podMatches_append name [.atom digitClass, .plus]
    [(.char '-', .once), (digitClass, .plus)] rfl rfl, matchAll_dashed,
    name_split_iff p fun c hc => isAlnum_of_test_digitClass hc]
  exact and_congr_right fun _ =>
    forall₂_congr fun c _ => test_digitClass c

/-- The pattern of a deployment. -/
theorem podMatches_hashed (name : Name) (p : Pod) :
    podMatches (name.value ++ "-[a-z0-9]+-[a-z0-9]+") p.name = true ↔
      ∃ (b : String) (x : Suffix),
        p.base = b ++ "-" ++ x.value ∧ Fits name.value b := by
  rw [podMatches_append name [.atom alnumClass, .plus, .atom (.char '-'),
      .atom alnumClass, .plus]
    [(.char '-', .once), (alnumClass, .plus), (.char '-', .once),
      (alnumClass, .plus)] rfl rfl, matchAll_dashed, p.toList_name]
  constructor
  · rintro ⟨b, x, u, heq, hb, hne, hx, hu⟩
    obtain ⟨c, t, rfl, hc, ht⟩ := Regex.matchAll_once.mp hu
    obtain ⟨y, v, rfl, -, hy, hv⟩ := Regex.matchAll_plus.mp ht
    have hdash : c = '-' := of_decide_eq_true hc
    subst hdash
    have hsplit : b ++ '-' :: (x ++ '-' :: (y ++ v))
        = (b ++ '-' :: x) ++ '-' :: y := by
      rw [matchAll_nil.mp hv, List.append_nil, List.append_assoc,
        List.cons_append]
    rw [hsplit, last_dash (not_mem_dash p.ending_alnum)
      (not_mem_dash fun c hc => (test_alnumClass c) ▸ hy c hc)] at heq
    refine ⟨.ofList b, ⟨.ofList x, ?_, ?_⟩, ?_, ?_⟩
    · rw [String.toList_ofList]
      exact hne
    · rw [String.toList_ofList]
      exact fun c hc => (test_alnumClass c) ▸ hx c hc
    · show p.base = .ofList b ++ "-" ++ .ofList x
      rw [← String.toList_inj, String.toList_append, String.toList_append,
        String.toList_ofList, String.toList_ofList, String.toList_ofList,
        heq.1, List.append_assoc]
      rfl
    · unfold Fits
      rw [String.toList_ofList]
      exact hb
  · rintro ⟨b, x, hbase, hb⟩
    refine ⟨b.toList, x.value.toList, '-' :: p.ending.toList, ?_, hb, x.ne,
      ?_, ?_⟩
    · rw [hbase, String.toList_append, String.toList_append,
        List.append_assoc, List.append_assoc]
      rfl
    · intro c hc
      rw [test_alnumClass]
      exact x.alnum c hc
    · exact Regex.matchAll_once.mpr ⟨'-', _, rfl, test_dash,
        Regex.matchAll_plus.mpr ⟨p.ending.toList, [],
          (List.append_nil _).symm, p.ending_ne, ending_test p, rfl⟩⟩

/-- A pattern selects the pods whose names read as those of the
controller's. -/
theorem podMatches_iff (p : Pod) (c : Controller) :
    podMatches (podRegex c.kind.type c.name.value) p.name = true ↔
      ReadsAs p c := by
  obtain ⟨kind, name⟩ := c
  cases kind with
  | deployment => exact podMatches_hashed name p
  | statefulSet => exact podMatches_numbered name p
  | daemonSet => exact podMatches_suffixed name p
  | replicaSet => exact podMatches_suffixed name p

/-- A controller's own pods read as such. -/
theorem readsAs_of_belongsTo {p : Pod} {c : Controller}
    (h : p.BelongsTo c) : ReadsAs p c := by
  obtain ⟨kind, name⟩ := c
  cases p with
  | deployment owner hash suffix =>
    cases kind with
    | deployment =>
      refine ⟨owner.value, hash, rfl, ?_⟩
      change name.value = owner.value at h
      show Fits name.value owner.value
      rw [h]
      exact fits_refl _
    | replicaSet =>
      change name.value = _ at h
      show Fits name.value _
      rw [h]
      exact fits_refl _
    | statefulSet => cases h
    | daemonSet => cases h
  | statefulSet owner ordinal =>
    cases kind with
    | statefulSet =>
      refine ⟨?_, digits_ordinal ordinal⟩
      change name.value = owner.value at h
      show Fits name.value owner.value
      rw [h]
      exact fits_refl _
    | deployment => cases h
    | replicaSet => cases h
    | daemonSet => cases h
  | daemonSet owner suffix =>
    cases kind with
    | daemonSet =>
      change name.value = owner.value at h
      show Fits name.value owner.value
      rw [h]
      exact fits_refl _
    | deployment => cases h
    | replicaSet => cases h
    | statefulSet => cases h
  | replicaSet owner suffix =>
    cases kind with
    | replicaSet =>
      change name.value = owner.value at h
      show Fits name.value owner.value
      rw [h]
      exact fits_refl _
    | deployment => cases h
    | daemonSet => cases h
    | statefulSet => cases h

-- ======== coverage

/-- The pattern of a controller selects its pods, and no other. -/
def Covers (n : Namespace) (c : Controller) : Prop :=
  ∀ p ∈ n.pods,
    podMatches (podRegex c.kind.type c.name.value) p.name = true ↔
      p.BelongsTo c

/-- The pattern of a controller selects exactly its pods if and only if no
other pod of the namespace has a name that reads as one of theirs. -/
theorem covers_iff (n : Namespace) (c : Controller) :
    Covers n c ↔ ∀ p ∈ n.pods, ReadsAs p c → p.BelongsTo c := by
  unfold Covers
  constructor
  · intro h p hp hreads
    exact (h p hp).mp ((podMatches_iff p c).mpr hreads)
  · intro h p hp
    rw [podMatches_iff]
    exact ⟨h p hp, readsAs_of_belongsTo⟩

theorem subdomain_web : isSubdomain "web".toList = true := by decide

theorem subdomain_webDb : isSubdomain "web-db".toList = true := by decide

/-- A deployment and a stateful set, whose name is that of the deployment
with a word behind it. -/
def webs : Namespace where
  controllers :=
    [⟨.deployment, ⟨"web", subdomain_web⟩⟩,
      ⟨.statefulSet, ⟨"web-db", subdomain_webDb⟩⟩]
  pods := [.statefulSet ⟨"web-db", subdomain_webDb⟩ 0]
  owned p hp := by
    rw [List.mem_singleton.mp hp]
    exact ⟨_, List.mem_cons_of_mem _ List.mem_cons_self, rfl⟩

theorem db_alnum : ∀ c ∈ "db".toList, isAlnum c = true :=
  List.all_eq_true.mp (by decide)

theorem db_ne : "db".toList ≠ [] := by decide

/-- The deployment's pattern selects the pod of the stateful set. -/
theorem covers_other_pod :
    ⟨.deployment, ⟨"web", subdomain_web⟩⟩ ∈ webs.controllers ∧
      ¬Covers webs ⟨.deployment, ⟨"web", subdomain_web⟩⟩ := by
  refine ⟨List.mem_cons_self, fun h => ?_⟩
  have hpod := h (.statefulSet ⟨"web-db", subdomain_webDb⟩ 0)
    List.mem_cons_self
  exact hpod.mp ((podMatches_iff _ _).mpr
    ⟨"web", ⟨"db", db_ne, db_alnum⟩, by decide, fits_refl "web"⟩)

end History
