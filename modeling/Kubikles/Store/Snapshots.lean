/-
The cache of snapshots (frontend/src/utils/resourceSnapshots.ts, and
`observeNamespaceList` of namespaceQuery.ts).

# The map

`snapshots` is a JavaScript `Map`: its entries, in the order in which their
keys were set. To read an entry takes it out and puts it back, so the order
is that of the last use. A call takes no time; what the clock shows may be
anything.

# Maps that are kept

A map that is kept is an object, of which its values are known. How long the
JSON of a value is, is a parameter.

# The argument

The entries of the cache are, from the front to the back, in the order of
their last uses (`Recorded.recent`). A write throws out entries at the front,
and stops as soon as what is left fits (`evict_spec`); so what stood behind
an entry that is thrown out was used later, and did not fit with it.
-/
import Kubikles.Lib.Doc
import Kubikles.Lib.Machine
import Mathlib.Algebra.BigOperators.Group.List.Basic
import Mathlib.Algebra.GroupWithZero.Nat
import Mathlib.Data.List.Nodup
import Mathlib.Data.List.Perm.Subperm

namespace Snapshots

variable {M V : Type}

-- ======== the model

def maxBytes : Nat := 16 * 1024 * 1024

/-- `TTL_MS`. -/
def ttl : Nat := 30000

/-- What is kept under a key. -/
structure Entry (M : Type) where
  map : M
  bytes : Nat
  expires : Nat
deriving DecidableEq

/-- `snapshots`. -/
abbrev Cache (M : Type) := List (String × Entry M)

/-- The loop of `observeNamespaceList` over its sample, of the lengths of
all items: `largest` and `total`. -/
def sample (lengths : List Nat) (sampleSize : Nat) : Nat × Nat :=
  (List.range sampleSize).foldl (fun acc i =>
    let index :=
      if sampleSize = lengths.length then i
      else i * lengths.length / sampleSize
    let bytes := lengths.getD index 0
    (max acc.1 bytes, acc.2 + (bytes + if i = 0 then 0 else 1))) (0, 2)

/-- The `bytes` of `observeNamespaceList`. -/
def observedBytes (lengths : List Nat) : Nat :=
  let sampleSize := min lengths.length 32
  let (largest, total) := sample lengths sampleSize
  if lengths.length ≤ sampleSize then total
  else 2 + lengths.length * (largest + 1)

def readResourceSnapshot (now : Nat) (key : String) (snapshots : Cache M) :
    Option M × Cache M :=
  match Assoc.find key snapshots with
  | none => (none, snapshots)
  | some entry =>
    if entry.expires ≤ now then (none, Assoc.drop key snapshots)
    else (some entry.map, Assoc.put key entry (Assoc.drop key snapshots))

/-- The loop that takes expired entries out, and adds up the others. -/
def purge (now : Nat) (snapshots : Cache M) : Cache M × Nat :=
  snapshots.foldl (fun acc e =>
    if e.2.expires ≤ now then (Assoc.drop e.1 acc.1, acc.2)
    else (acc.1, acc.2 + e.2.bytes)) (snapshots, 0)

/-- The loop that takes the oldest entry out until the others fit. With no
entry left and `total` still too large it would throw. -/
def evict : Cache M → Nat → Option (Cache M)
  | [], total => if maxBytes < total then none else some []
  | e :: rest, total =>
    if 8 < (e :: rest).length ∨ maxBytes < total then
      evict rest (total - e.2.bytes)
    else some (e :: rest)

/-- The functions a map is looked at with: its values, and how long the JSON
of a value is. -/
structure Outside (M V : Type) where
  values : M → List V
  jsonLength : V → Nat

namespace Outside

/-- How large a map is taken to be. -/
def bytes (o : Outside M V) (map : M) : Nat :=
  observedBytes ((o.values map).map o.jsonLength)

/-- A map that `writeResourceSnapshot` does not pass over. -/
def Accepted (o : Outside M V) (map : M) : Prop :=
  ¬(maxBytes < o.bytes map ∨ 10000 < (o.values map).length)

instance (o : Outside M V) (map : M) : Decidable (o.Accepted map) :=
  inferInstanceAs (Decidable (¬_))

end Outside

/-- `writeResourceSnapshot`; there is no result if it throws. -/
def writeResourceSnapshot (o : Outside M V) (now : Nat) (key : String)
    (map : M) (snapshots : Cache M) : Option (Cache M) :=
  let snapshots := Assoc.drop key snapshots
  if o.Accepted map then
    let snapshots :=
      Assoc.put key ⟨map, o.bytes map, now + ttl⟩ snapshots
    let (snapshots, total) := purge now snapshots
    evict snapshots total
  else some snapshots

def deleteResourceSnapshot (key : String) (snapshots : Cache M) : Cache M :=
  Assoc.drop key snapshots

-- ======== histories

inductive Call (M : Type) where
  | read (key : String)
  | write (key : String) (map : M)
  | delete (key : String)
deriving DecidableEq

def Call.key : Call M → String
  | read key | write key _ | delete key => key

def Call.isUse : Call M → Bool
  | read _ | write _ _ => true
  | delete _ => false

/-- The calls so far and when they came, the last one first. -/
abbrev Past (M : Type) := List (Nat × Call M)

/-- What was last written under a key and when, if it was not deleted
since. -/
def lastWritten (key : String) : Past M → Option (M × Nat)
  | [] => none
  | (now, call) :: past =>
    if call.key = key then
      match call with
      | .read _ => lastWritten key past
      | .write _ map => some (map, now)
      | .delete _ => none
    else lastWritten key past

/-- When a key was last used: the number of the call, 0 if there was
none. -/
def lastUse (key : String) : Past M → Nat
  | [] => 0
  | (_, call) :: past =>
    if call.key = key ∧ call.isUse = true then past.length + 1
    else lastUse key past

/-- The cache, and the calls that have led to it. -/
structure State (M : Type) where
  snapshots : Cache M := []
  past : Past M := []

/-- The transitions: a call at a time. A read puts out what it returns. -/
def step (o : Outside M V) (a : Nat × Call M) (s : State M) :
    Option (State M × List (Option M)) :=
  let past := a :: s.past
  match a.2 with
  | .read key =>
    let (result, snapshots) := readResourceSnapshot a.1 key s.snapshots
    some (⟨snapshots, past⟩, [result])
  | .write key map =>
    (writeResourceSnapshot o a.1 key map s.snapshots).map
      fun snapshots => (⟨snapshots, past⟩, [])
  | .delete key =>
    some (⟨deleteResourceSnapshot key s.snapshots, past⟩, [])

-- ======== what fits

variable {o : Outside M V} {c c' : Cache M} {now : Nat} {key k : String}
variable {past : Past M} {call : Call M} {map : M} {e : Entry M}

structure Fits (c : Cache M) : Prop where
  entries : c.length ≤ 8
  bytes : (c.map fun e => e.2.bytes).sum ≤ maxBytes

theorem Fits.of_subperm (h : Fits c) (hsub : c'.Subperm c) : Fits c' := by
  obtain ⟨m, hm, hsublist⟩ := hsub
  obtain ⟨l, hperm⟩ := hsublist.exists_perm_append
  have hsum := ((hperm.trans (hm.append_right l)).map
    fun e => e.2.bytes).sum_eq
  rw [List.map_append, List.sum_append] at hsum
  have hbytes := h.bytes
  refine ⟨?_, by omega⟩
  rw [← hm.length_eq]
  exact Nat.le_trans hsublist.length_le h.entries

/-- What is left of a cache: its back that fits, and nothing in front of it
could have stayed. -/
theorem evict_spec (c : Cache M) :
    ∃ thrown kept, evict c (c.map fun e => e.2.bytes).sum = some kept
      ∧ c = thrown ++ kept ∧ Fits kept
      ∧ ∀ pre e post, thrown = pre ++ e :: post →
        ¬Fits (e :: (post ++ kept)) := by
  induction c with
  | nil =>
    exact ⟨[], [], rfl, rfl, ⟨Nat.zero_le _, Nat.zero_le _⟩,
      fun pre e post h => by simp at h⟩
  | cons e rest ih =>
    unfold evict
    split
    next hlarge =>
      obtain ⟨thrown, kept, hevict, hrest, hfits, hthrown⟩ := ih
      refine ⟨e :: thrown, kept, ?_, by rw [hrest]; rfl, hfits, ?_⟩
      · rw [List.map_cons, List.sum_cons, Nat.add_sub_cancel_left]
        exact hevict
      · intro pre x post hsplit
        cases pre with
        | nil =>
          obtain ⟨rfl, rfl⟩ := List.cons.inj hsplit
          rw [← hrest]
          intro hfits
          have := hfits.entries
          have := hfits.bytes
          omega
        | cons y pre =>
          exact hthrown pre x post (List.cons.inj hsplit).2
    next hsmall =>
      refine ⟨[], e :: rest, rfl, rfl, ⟨?_, ?_⟩,
        fun pre e post h => by simp at h⟩
      · omega
      · omega

theorem mem_of_evict {thrown kept : Cache M} {x : String × Entry M}
    (hc : c ++ [x] = thrown ++ kept) (hx : Fits [x])
    (hthrown : ∀ pre e post, thrown = pre ++ e :: post →
      ¬Fits (e :: (post ++ kept))) : x ∈ kept := by
  rcases List.eq_nil_or_concat kept with rfl | ⟨kept, y, rfl⟩
  · rw [List.append_nil] at hc
    exact absurd hx (hthrown c x [] hc.symm)
  · rw [List.concat_eq_append, ← List.append_assoc] at hc
    obtain ⟨-, hxy⟩ := List.append_inj' hc rfl
    obtain rfl := List.cons.inj hxy |>.1
    simp

/-- The entries that are not expired. -/
def live (now : Nat) (c : Cache M) : Cache M :=
  c.filter fun e => now < e.2.expires

theorem foldl_purge (now : Nat) (l c : Cache M) (total : Nat) :
    l.foldl (fun acc e =>
        if e.2.expires ≤ now then (Assoc.drop e.1 acc.1, acc.2)
        else (acc.1, acc.2 + e.2.bytes)) (c, total)
      = (c.filter (fun x => ∀ e ∈ l, e.2.expires ≤ now → x.1 ≠ e.1),
        total + ((live now l).map fun e => e.2.bytes).sum) := by
  induction l generalizing c total with
  | nil => simp [live]
  | cons e l ih =>
    rw [List.foldl_cons]
    unfold live at ih ⊢
    by_cases hexpired : e.2.expires ≤ now
    · rw [if_pos hexpired, ih,
        List.filter_cons_of_neg (by simpa using hexpired)]
      unfold Assoc.drop
      rw [List.filter_filter]
      congr 1
      refine List.filter_congr fun x _ => ?_
      rw [Bool.eq_iff_iff]
      simp [hexpired, and_comm]
    · rw [if_neg hexpired, ih,
        List.filter_cons_of_pos (by simpa using hexpired), List.map_cons,
        List.sum_cons, Nat.add_assoc]
      congr 1
      refine List.filter_congr fun x _ => ?_
      simp [hexpired]

theorem purge_eq (hc : (c.map Prod.fst).Nodup) (now : Nat) :
    purge now c
      = (live now c, ((live now c).map fun e => e.2.bytes).sum) := by
  unfold purge
  rw [foldl_purge, Nat.zero_add]
  congr 1
  refine List.filter_congr fun x hx => decide_eq_decide.mpr ?_
  constructor
  · intro h
    by_contra hexpired
    exact h x hx (Nat.not_lt.mp hexpired) rfl
  · rintro hlive e he hexpired hkey
    obtain rfl : x = e := List.inj_on_of_nodup_map hc hx he hkey
    omega

-- ======== what is recorded

theorem lastWritten_of_ne (h : call.key ≠ key) :
    lastWritten key ((now, call) :: past) = lastWritten key past :=
  if_neg h

theorem lastUse_of_ne (h : call.key ≠ key) :
    lastUse key ((now, call) :: past) = lastUse key past :=
  if_neg fun hand => h hand.1

theorem lastUse_of_use (h : call.isUse = true) :
    lastUse call.key ((now, call) :: past) = past.length + 1 :=
  if_pos ⟨rfl, h⟩

theorem lastUse_le (key : String) (past : Past M) :
    lastUse key past ≤ past.length := by
  induction past with
  | nil => exact Nat.le_refl 0
  | cons a past ih =>
    unfold lastUse
    split
    · exact Nat.le_refl _
    · exact Nat.le_trans ih (Nat.le_succ _)

/-- The entries are what was last written under their keys, in the order in
which they were last used. -/
structure Recorded (o : Outside M V) (c : Cache M) (past : Past M) :
    Prop where
  written : ∀ e ∈ c, ∃ now, lastWritten e.1 past = some (e.2.map, now)
    ∧ e.2.expires = now + ttl
  bytes : ∀ e ∈ c, e.2.bytes = o.bytes e.2.map
  recent : c.Pairwise fun a b => lastUse a.1 past < lastUse b.1 past

theorem Recorded.sublist (h : Recorded o c past) (hsub : c'.Sublist c) :
    Recorded o c' past where
  written := fun e he => h.written e (hsub.subset he)
  bytes := fun e he => h.bytes e (hsub.subset he)
  recent := h.recent.sublist hsub

theorem Recorded.pass (h : Recorded o c past)
    (hne : ∀ e ∈ c, call.key ≠ e.1) (now : Nat) :
    Recorded o c ((now, call) :: past) where
  written := by
    intro e he
    rw [lastWritten_of_ne (hne e he)]
    exact h.written e he
  bytes := h.bytes
  recent := by
    refine h.recent.imp_of_mem fun ha hb hlt => ?_
    rw [lastUse_of_ne (hne _ ha), lastUse_of_ne (hne _ hb)]
    exact hlt

theorem Recorded.use (call : Call M) (h : Recorded o c past)
    (hne : ∀ e ∈ c, call.key ≠ e.1) (huse : call.isUse = true)
    (hwritten : ∃ t, lastWritten call.key ((now, call) :: past)
      = some (e.map, t) ∧ e.expires = t + ttl)
    (hbytes : e.bytes = o.bytes e.map) :
    Recorded o (c ++ [(call.key, e)]) ((now, call) :: past) where
  written := by
    intro x hx
    rcases List.mem_append.mp hx with hx | hx
    · exact (h.pass hne now).written x hx
    · rw [List.mem_singleton.mp hx]
      exact hwritten
  bytes := by
    intro x hx
    rcases List.mem_append.mp hx with hx | hx
    · exact h.bytes x hx
    · rw [List.mem_singleton.mp hx]
      exact hbytes
  recent := by
    refine List.pairwise_append.mpr ⟨(h.pass hne now).recent,
      List.pairwise_singleton .., fun a ha b hb => ?_⟩
    rw [List.mem_singleton.mp hb, lastUse_of_use huse,
      lastUse_of_ne (hne a ha)]
    exact Nat.lt_succ_of_le (lastUse_le ..)

theorem Recorded.keys (h : Recorded o c past) :
    (c.map Prod.fst).Nodup := by
  refine List.pairwise_map.mpr (h.recent.imp fun hlt heq => ?_)
  rw [heq] at hlt
  exact Nat.lt_irrefl _ hlt

-- ======== the calls

/-- What is known of the cache in every run. -/
structure Inv (o : Outside M V) (s : State M) : Prop where
  recorded : Recorded o s.snapshots s.past
  fits : Fits s.snapshots

theorem ne_of_mem_drop {x : String × Entry M} (h : x ∈ Assoc.drop key c) :
    key ≠ x.1 := by
  have hne : x.1 ≠ key := by simpa using (List.mem_filter.mp h).2
  exact hne.symm

theorem drop_sublist (key : String) (c : Cache M) :
    (Assoc.drop key c).Sublist c := List.filter_sublist

theorem put_drop (key : String) (e : Entry M) (c : Cache M) :
    Assoc.put key e (Assoc.drop key c) = Assoc.drop key c ++ [(key, e)] := by
  have hput : ∀ c : Cache M, (∀ x ∈ c, key ≠ x.1) →
      Assoc.put key e c = c ++ [(key, e)] := by
    intro c
    induction c with
    | nil => exact fun _ => rfl
    | cons x c ih =>
      intro hne
      unfold Assoc.put
      rw [if_neg (hne x List.mem_cons_self),
        ih fun y hy => hne y (List.mem_cons_of_mem _ hy)]
      rfl
  exact hput _ fun x hx => ne_of_mem_drop hx

theorem Recorded.drop (h : Recorded o c past) (now : Nat)
    (hkey : call.key = key) :
    Recorded o (Assoc.drop key c) ((now, call) :: past) := by
  subst hkey
  exact (h.sublist (drop_sublist _ c)).pass (fun x hx => ne_of_mem_drop hx)
    now

theorem Inv.read {s : State M} (h : Inv o s) (now : Nat) (key : String) :
    Inv o ⟨(readResourceSnapshot now key s.snapshots).2,
      (now, .read key) :: s.past⟩ := by
  unfold readResourceSnapshot
  split
  next hnone =>
    refine ⟨h.recorded.pass (fun x hx heq => ?_) now, h.fits⟩
    have hlookup := Assoc.lookup_of_mem h.recorded.keys
      (show (x.1, x.2) ∈ s.snapshots from hx)
    rw [← heq] at hlookup
    cases hnone.symm.trans hlookup
  next e hfound =>
    have hmem : (key, e) ∈ s.snapshots := Assoc.mem_of_lookup hfound
    split
    · exact ⟨h.recorded.drop now rfl,
        h.fits.of_subperm (drop_sublist ..).subperm⟩
    · obtain ⟨t, hwritten, hexpires⟩ := h.recorded.written _ hmem
      rw [put_drop]
      constructor
      · refine (h.recorded.sublist (drop_sublist key _)).use
          (.read key) (fun x hx => ne_of_mem_drop hx) rfl
          ⟨t, ?_, hexpires⟩ (h.recorded.bytes _ hmem)
        unfold lastWritten
        rw [if_pos rfl]
        exact hwritten
      · refine h.fits.of_subperm ?_
        refine List.subperm_of_subset ?_ ?_
        · refine List.nodup_append.mpr ⟨?_, by simp, fun x hx y hy => ?_⟩
          · exact (h.recorded.keys.of_map _).sublist (drop_sublist ..)
          · rw [List.mem_singleton.mp hy]
            rintro rfl
            exact ne_of_mem_drop hx rfl
        · intro x hx
          rcases List.mem_append.mp hx with hx | hx
          · exact (drop_sublist ..).subset hx
          · exact List.mem_singleton.mp hx ▸ hmem

/-- The entries that stand to be thrown out by a write: those that are left,
and the new one behind them. -/
def held (o : Outside M V) (now : Nat) (key : String) (map : M)
    (c : Cache M) : Cache M :=
  live now (Assoc.drop key c) ++ [(key, ⟨map, o.bytes map, now + ttl⟩)]

theorem Recorded.held (h : Recorded o c past) (now : Nat) (key : String)
    (map : M) :
    Recorded o (held o now key map c) ((now, .write key map) :: past) :=
  Recorded.use (.write key map)
    ((h.sublist (drop_sublist key _)).sublist List.filter_sublist)
    (fun _ hx => ne_of_mem_drop (List.mem_of_mem_filter hx)) rfl
    ⟨now, if_pos rfl, rfl⟩ rfl

theorem write_spec (now : Nat) (key : String)
    (hc : (c.map Prod.fst).Nodup) (hmap : o.Accepted map) :
    ∃ thrown kept, writeResourceSnapshot o now key map c = some kept
      ∧ held o now key map c = thrown ++ kept ∧ Fits kept
      ∧ (∀ pre e post, thrown = pre ++ e :: post →
        ¬Fits (e :: (post ++ kept)))
      ∧ (key, ⟨map, o.bytes map, now + ttl⟩) ∈ kept := by
  obtain ⟨thrown, kept, hevict, hheld, hfits, hthrown⟩ :=
    evict_spec (held o now key map c)
  refine ⟨thrown, kept, ?_, hheld, hfits, hthrown, ?_⟩
  · unfold writeResourceSnapshot
    rw [if_pos hmap, put_drop]
    dsimp only
    rw [purge_eq]
    · have hlive : live now (Assoc.drop key c
          ++ [(key, ⟨map, o.bytes map, now + ttl⟩)])
          = held o now key map c := by
        unfold live held
        rw [List.filter_append]
        congr 1
        exact List.filter_cons_of_pos (by simp [ttl])
      show evict (live now _) _ = some kept
      rw [hlive]
      exact hevict
    · rw [List.map_append]
      refine List.nodup_append.mpr
        ⟨hc.sublist ((drop_sublist key c).map _), by simp, ?_⟩
      intro k hk k' hk'
      obtain ⟨x, hx, rfl⟩ := List.mem_map.mp hk
      rw [List.mem_singleton.mp hk']
      exact (ne_of_mem_drop hx).symm
  · refine mem_of_evict hheld ⟨Nat.le_add_left .., ?_⟩ hthrown
    unfold Outside.Accepted at hmap
    show o.bytes map + 0 ≤ maxBytes
    omega

theorem Inv.write {s : State M} (h : Inv o s) (now : Nat) (key : String)
    (map : M) :
    ∃ c', writeResourceSnapshot o now key map s.snapshots = some c'
      ∧ Inv o ⟨c', (now, .write key map) :: s.past⟩ := by
  by_cases hmap : o.Accepted map
  · obtain ⟨thrown, kept, hwrite, hheld, hfits, -, -⟩ :=
      write_spec now key h.recorded.keys hmap
    exact ⟨kept, hwrite, (h.recorded.held now key map).sublist
      (hheld ▸ List.sublist_append_right ..), hfits⟩
  · refine ⟨Assoc.drop key s.snapshots, ?_, h.recorded.drop now rfl,
      h.fits.of_subperm (drop_sublist ..).subperm⟩
    unfold writeResourceSnapshot
    rw [if_neg hmap]

theorem Inv.step {s s' : State M} {a : Nat × Call M}
    {out : List (Option M)} (h : Inv o s)
    (hstep : step o a s = some (s', out)) : Inv o s' := by
  obtain ⟨now, call⟩ := a
  cases call with
  | read key =>
    obtain ⟨rfl, -⟩ := Prod.mk.inj (Option.some.inj hstep)
    exact h.read now key
  | write key map =>
    obtain ⟨c', hwrite, hinv⟩ := h.write now key map
    simp only [Snapshots.step, hwrite, Option.map_some] at hstep
    obtain ⟨rfl, -⟩ := Prod.mk.inj (Option.some.inj hstep)
    exact hinv
  | delete key =>
    obtain ⟨rfl, -⟩ := Prod.mk.inj (Option.some.inj hstep)
    exact ⟨h.recorded.drop now rfl,
      h.fits.of_subperm (drop_sublist ..).subperm⟩

-- ======== the law

/-- The entries that were used no earlier than a key. -/
def usedSince (key : String) (past : Past M) (c : Cache M) : Cache M :=
  c.filter fun e => lastUse key past ≤ lastUse e.1 past

/-- What is asked of the cache in a state, and of the next call. -/
structure Lawful (o : Outside M V) (s : State M) : Prop where
  fits : Fits s.snapshots
  bytes : ∀ e ∈ s.snapshots, e.2.bytes = o.bytes e.2.map
  read : ∀ now key map c',
    readResourceSnapshot now key s.snapshots = (some map, c') →
      ∃ t, lastWritten key s.past = some (map, t) ∧ now < t + ttl
  write : ∀ now key map,
    (writeResourceSnapshot o now key map s.snapshots).isSome
  written : ∀ now key map c', o.Accepted map →
    writeResourceSnapshot o now key map s.snapshots = some c' →
      (key, ⟨map, o.bytes map, now + ttl⟩) ∈ c'
  thrown : ∀ now key map c' e,
    writeResourceSnapshot o now key map s.snapshots = some c' →
      e ∈ s.snapshots → e.1 ≠ key → now < e.2.expires → e ∉ c' →
        ¬Fits (usedSince e.1 ((now, .write key map) :: s.past)
          (held o now key map s.snapshots))

/-- An entry that is thrown out did not fit with what was used since. -/
theorem Inv.thrown {s : State M} {x : String × Entry M} (h : Inv o s)
    (hwrite : writeResourceSnapshot o now key map s.snapshots = some c')
    (hx : x ∈ s.snapshots) (hkey : x.1 ≠ key) (hlive : now < x.2.expires)
    (hout : x ∉ c') :
    ¬Fits (usedSince x.1 ((now, .write key map) :: s.past)
      (held o now key map s.snapshots)) := by
  have hdrop : x ∈ Assoc.drop key s.snapshots :=
    List.mem_filter.mpr ⟨hx, decide_eq_true hkey⟩
  by_cases hmap : o.Accepted map
  · obtain ⟨thrown, kept, hkept, hheld, -, hthrown, -⟩ :=
      write_spec now key h.recorded.keys hmap
    obtain rfl := Option.some.inj (hkept.symm.trans hwrite)
    have hmem : x ∈ held o now key map s.snapshots :=
      List.mem_append_left _
        (List.mem_filter.mpr ⟨hdrop, decide_eq_true hlive⟩)
    rw [hheld] at hmem
    rcases List.mem_append.mp hmem with hmem | hmem
    · obtain ⟨pre, post, hsplit⟩ := List.append_of_mem hmem
      intro hfits
      refine hthrown pre x post hsplit (hfits.of_subperm ?_)
      -- what stands behind the entry was used since
      have hrecent := (h.recorded.held now key map).recent
      rw [hheld, hsplit, List.append_assoc, List.cons_append]
        at hrecent
      have hbehind := (List.pairwise_append.mp hrecent).2.1
      have hall : ∀ y ∈ x :: (post ++ kept),
          lastUse x.1 ((now, .write key map) :: s.past)
            ≤ lastUse y.1 ((now, .write key map) :: s.past) := by
        intro y hy
        rcases List.mem_cons.mp hy with rfl | hy
        · exact Nat.le_refl _
        · exact Nat.le_of_lt ((List.pairwise_cons.mp hbehind).1 y hy)
      unfold usedSince
      rw [hheld, hsplit, List.append_assoc, List.cons_append,
        List.filter_append]
      rw [List.filter_eq_self.mpr fun y hy => decide_eq_true (hall y hy)]
      exact (List.sublist_append_right ..).subperm
    · exact absurd hmem hout
  · unfold writeResourceSnapshot at hwrite
    rw [if_neg hmap] at hwrite
    exact absurd (Option.some.inj hwrite ▸ hdrop) hout

/-- Every run leaves the cache lawful. -/
theorem snapshots_lawful {acts : List (Nat × Call M)} {s : State M}
    {out : List (Option M)}
    (hrun : Machine.run (step o) {} acts = some (s, out)) :
    Lawful o s := by
  have hinit : Inv o ({} : State M) :=
    ⟨⟨by simp, by simp, List.Pairwise.nil⟩, Nat.zero_le _, Nat.zero_le _⟩
  have h : Inv o s :=
    Machine.run_invariant (fun hi _ hstep => hi.step hstep) hinit
      Machine.along_true hrun
  constructor
  case fits => exact h.fits
  case bytes => exact h.recorded.bytes
  case read =>
    intro now key map c' hread
    unfold readResourceSnapshot at hread
    split at hread
    · cases hread
    next e hfound =>
      split at hread
      · cases hread
      next hlive =>
        obtain rfl := Option.some.inj (Prod.mk.inj hread).1
        obtain ⟨t, hwritten, hexpires⟩ :=
          h.recorded.written _ (Assoc.mem_of_lookup hfound)
        exact ⟨t, hwritten, hexpires ▸ Nat.not_le.mp hlive⟩
  case write =>
    intro now key map
    obtain ⟨c', hwrite, -⟩ := h.write now key map
    exact hwrite ▸ rfl
  case written =>
    intro now key map c' hmap hwrite
    obtain ⟨thrown, kept, hkept, -, -, -, hmem⟩ :=
      write_spec now key h.recorded.keys hmap
    exact Option.some.inj (hkept.symm.trans hwrite) ▸ hmem
  case thrown =>
    intro now key map c' x hwrite hx hkey hlive hout
    exact h.thrown hwrite hx hkey hlive hout

def listed : Outside (List String) String where
  values := id
  jsonLength := String.length

/-- Two maps that are written, of which one is read and one is deleted. -/
theorem snapshots_lawful_two :
    ∃ s out,
      Machine.run (step listed) {} [(0, .write "a" ["x", "yy"]),
        (5, .write "b" []), (7, .read "a"), (9, .delete "b")] = some (s, out)
      ∧ out = [some ["x", "yy"]] ∧ Lawful listed s :=
  ⟨_, _, rfl, rfl, snapshots_lawful (show Machine.run _ _ [(0, .write "a" ["x", "yy"]),
    (5, .write "b" []), (7, .read "a"), (9, .delete "b")] = _ from rfl)⟩

end Snapshots
