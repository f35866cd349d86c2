/-
Readers and writers of what a lock guards.

# The lock

A readers–writer lock lets in any number of readers or one writer. What a
frame of a goroutine holds of it (`Hold`) is known from the frame, so the
lock and the frames there are go together (`Held`): a writer is alone.

# The state behind it

A writer changes the guarded state by one write after another, a reader
looks at one part of it after another, and steps of others come between
any two of these. `Serial` says that none of that shows: while no writer
holds the lock the state is what the writers' sections make of the first
one, one whole section after another, and a reader has seen parts of that
one state only. There is one rule for each thing a frame can do with the
lock.
-/
import Kubikles.Lib.Goroutine

namespace RwLock

variable {F : Type*}

-- ======== the lock

structure Lock where
  writer : Bool := false
  readers : Nat := 0
deriving DecidableEq

/-- `RLock`: it waits for the writer. -/
def Lock.rLock (l : Lock) : Option Lock :=
  if l.writer = true then none
  else some { l with readers := l.readers + 1 }

def Lock.rUnlock (l : Lock) : Lock :=
  { l with readers := l.readers - 1 }

/-- `Lock`: it waits for everyone. -/
def Lock.lock (l : Lock) : Option Lock :=
  if l.writer = true ∨ l.readers ≠ 0 then none
  else some { l with writer := true }

def Lock.unlock (l : Lock) : Lock :=
  { l with writer := false }

theorem Lock.unlock_lock {l l' : Lock} (h : l.lock = some l') :
    l'.unlock = l := by
  unfold Lock.lock at h
  split at h
  next => cases h
  next hfree =>
    cases h
    obtain ⟨writer, readers⟩ := l
    have hwriter := (not_or.mp hfree).1
    simp only [Bool.not_eq_true] at hwriter
    show (⟨false, readers⟩ : Lock) = ⟨writer, readers⟩
    rw [hwriter]

/-- What a frame holds. -/
inductive Hold where
  | nothing
  | read
  | write
deriving DecidableEq

structure Held (hold : F → Hold) (l : Lock) (fs : List F) : Prop where
  readers : fs.countP (hold · = .read) = l.readers
  writers : fs.countP (hold · = .write) = if l.writer then 1 else 0
  apart : l.writer = true → l.readers = 0

variable {hold : F → Hold} {l l' : Lock} {f g : F} {fs fs' gs : List F}

theorem Held.nil : Held hold {} [] :=
  ⟨rfl, rfl, (fun _ => rfl)⟩

theorem Held.perm (h : Held hold l fs) (hp : fs.Perm fs') :
    Held hold l fs' where
  readers := hp.countP_eq _ ▸ h.readers
  writers := hp.countP_eq _ ▸ h.writers
  apart := h.apart

theorem countP_read (h : ∀ g ∈ gs, hold g = .nothing) :
    gs.countP (hold · = .read) = 0 := by
  apply List.countP_eq_zero.mpr
  intro g hg
  simp [h g hg]

theorem countP_write (h : ∀ g ∈ gs, hold g = .nothing) :
    gs.countP (hold · = .write) = 0 := by
  apply List.countP_eq_zero.mpr
  intro g hg
  simp [h g hg]

theorem countP_cons_hold (k : Hold) :
    (f :: fs).countP (hold · = k)
      = fs.countP (hold · = k) + if hold f = k then 1 else 0 := by
  rw [List.countP_cons]
  by_cases h : hold f = k <;> simp [h]

theorem Held.follow (h : Held hold l (f :: fs)) (hg : hold g = hold f) :
    Held hold l (g :: fs) := by
  have hr := h.readers
  have hw := h.writers
  rw [countP_cons_hold, ← hg] at hr hw
  refine ⟨?_, ?_, h.apart⟩
  · rw [countP_cons_hold]
    exact hr
  · rw [countP_cons_hold]
    exact hw

theorem Held.free (h : Held hold l (f :: fs)) (hf : hold f = .nothing)
    (hgs : ∀ g ∈ gs, hold g = .nothing) : Held hold l (gs ++ fs) := by
  have hr := h.readers
  have hw := h.writers
  rw [countP_cons_hold, hf] at hr hw
  refine ⟨?_, ?_, h.apart⟩
  · rw [List.countP_append, countP_read hgs]
    simpa using hr
  · rw [List.countP_append, countP_write hgs]
    simpa using hw

theorem Held.add (h : Held hold l fs)
    (hgs : ∀ g ∈ gs, hold g = .nothing) : Held hold l (fs ++ gs) := by
  refine ⟨?_, ?_, h.apart⟩
  · rw [List.countP_append, countP_read hgs, h.readers]
    rfl
  · rw [List.countP_append, countP_write hgs, h.writers]
    rfl

theorem Held.rLock (h : Held hold l (f :: fs)) (hf : hold f = .nothing)
    (hg : hold g = .read) (hl : l.rLock = some l') :
    Held hold l' (g :: fs) := by
  unfold Lock.rLock at hl
  split at hl
  next => cases hl
  next hfree =>
    cases hl
    have hr := h.readers
    have hw := h.writers
    rw [countP_cons_hold, hf] at hr hw
    refine ⟨?_, ?_, (fun hwriter => absurd hwriter hfree)⟩
    · rw [countP_cons_hold, hg]
      simpa using hr
    · rw [countP_cons_hold, hg]
      simpa using hw

theorem Held.rUnlock (h : Held hold l (f :: fs)) (hf : hold f = .read)
    (hgs : ∀ g ∈ gs, hold g = .nothing) :
    Held hold l.rUnlock (gs ++ fs) := by
  have hr := h.readers
  have hw := h.writers
  rw [countP_cons_hold, hf] at hr hw
  refine ⟨?_, ?_, ?_⟩
  · rw [List.countP_append, countP_read hgs]
    simp only [Lock.rUnlock, ← hr]
    simp
  · rw [List.countP_append, countP_write hgs]
    show 0 + _ = if l.writer then 1 else 0
    simpa using hw
  · intro hwriter
    show l.readers - 1 = 0
    rw [h.apart hwriter]

theorem Held.lock (h : Held hold l (f :: fs)) (hf : hold f = .nothing)
    (hg : hold g = .write) (hl : l.lock = some l') :
    Held hold l' (g :: fs) := by
  unfold Lock.lock at hl
  split at hl
  next => cases hl
  next hfree =>
    cases hl
    obtain ⟨hwriter, hreaders⟩ := not_or.mp hfree
    have hr := h.readers
    have hw := h.writers
    rw [countP_cons_hold, hf] at hr hw
    rw [if_neg hwriter] at hw
    refine ⟨?_, ?_, (fun _ => not_not.mp hreaders)⟩
    · rw [countP_cons_hold, hg]
      simpa using hr
    · rw [countP_cons_hold, hg]
      simpa using hw

theorem Held.unlock (h : Held hold l (f :: fs)) (hf : hold f = .write)
    (hgs : ∀ g ∈ gs, hold g = .nothing) :
    Held hold l.unlock (gs ++ fs) := by
  have hr := h.readers
  have hw := h.writers
  rw [countP_cons_hold, hf] at hr hw
  refine ⟨?_, ?_, (fun hwriter => nomatch hwriter)⟩
  · rw [List.countP_append, countP_read hgs]
    show 0 + _ = l.readers
    simpa using hr
  · rw [List.countP_append, countP_write hgs]
    show 0 + _ = 0
    rw [if_pos rfl] at hw
    split at hw <;> omega

theorem Held.writer (h : Held hold l (f :: fs)) (hf : hold f = .write) :
    l.writer = true ∧ ∀ g ∈ fs, hold g = .nothing := by
  have hr := h.readers
  have hw := h.writers
  rw [countP_cons_hold, hf] at hr hw
  have hwriter : l.writer = true := by
    by_contra hno
    rw [if_neg hno] at hw
    simp at hw
  rw [if_pos hwriter] at hw
  rw [h.apart hwriter] at hr
  refine ⟨hwriter, fun g hg => ?_⟩
  have hread : ¬ hold g = .read := by
    intro hread
    have hpos : 0 < fs.countP (hold · = .read) :=
      List.countP_pos_iff.mpr ⟨g, hg, by simpa using hread⟩
    omega
  have hwrite : ¬ hold g = .write := by
    intro hwrite
    have hpos : 0 < fs.countP (hold · = .write) :=
      List.countP_pos_iff.mpr ⟨g, hg, by simpa using hwrite⟩
    rw [if_pos rfl] at hw
    omega
  cases hk : hold g with
  | nothing => rfl
  | read => exact absurd hk hread
  | write => exact absurd hk hwrite

theorem Held.reader (h : Held hold l fs) (hf : f ∈ fs)
    (hread : hold f = .read) : l.writer = false := by
  by_contra hno
  have hwriter : l.writer = true := by simpa using hno
  have hpos : 0 < fs.countP (hold · = .read) :=
    List.countP_pos_iff.mpr ⟨f, hf, by simpa using hread⟩
  have hr := h.readers
  have hapart := h.apart hwriter
  omega

theorem Held.no_writer (h : Held hold l fs) (hl : l.writer = false)
    (hf : f ∈ fs) : hold f ≠ .write := by
  intro hwrite
  have hpos : 0 < fs.countP (hold · = .write) :=
    List.countP_pos_iff.mpr ⟨f, hf, by simpa using hwrite⟩
  have hw := h.writers
  rw [hl] at hw
  simp at hw
  obtain ⟨g, hg, hgw⟩ := List.countP_pos_iff.mp hpos
  exact hw g hg (by simpa using hgw)

-- ======== the state that it guards

section Serial

variable {S W V : Type*} (apply : W → S → S) (Of : V → S → Prop)
variable (hold : F → Hold) (wrote : F → List W) (saw : F → List V)

def after (ws : List W) (s : S) : S := ws.foldl (fun s w => apply w s) s

/-- Between the lock, the state behind it, the first state, the frames
there are and the sections that writers have been through: there is one
section after another, and what somebody sees is between two of them. -/
structure Serial (l : Lock) (s s₀ : S) (fs : List F)
    (past : List (List W)) : Prop where
  held : Held hold l fs
  free : l.writer = false → s = after apply past.flatten s₀
  writing : ∀ f ∈ fs, hold f = .write →
    s = after apply (wrote f) (after apply past.flatten s₀)
  reading : ∀ f ∈ fs, hold f = .read → ∀ v ∈ saw f, Of v s

variable {apply Of hold wrote saw}
variable {s s₀ : S} {past : List (List W)} {ws ws' : List W} {w : W}
variable {v : V}

@[simp] theorem after_nil : after apply ([] : List W) s = s := rfl

theorem after_append :
    after apply (ws ++ ws') s = after apply ws' (after apply ws s) :=
  List.foldl_append

theorem Serial.start :
    Serial apply Of hold wrote saw {} s s [] [] where
  held := Held.nil
  free _ := rfl
  writing := nofun
  reading := nofun

theorem Serial.perm (h : Serial apply Of hold wrote saw l s s₀ fs past)
    (hp : fs.Perm fs') : Serial apply Of hold wrote saw l s s₀ fs' past where
  held := h.held.perm hp
  free := h.free
  writing f hf := h.writing f (hp.mem_iff.mpr hf)
  reading f hf := h.reading f (hp.mem_iff.mpr hf)

theorem Serial.add (h : Serial apply Of hold wrote saw l s s₀ fs past)
    (hgs : ∀ g ∈ gs, hold g = .nothing) :
    Serial apply Of hold wrote saw l s s₀ (fs ++ gs) past where
  held := h.held.add hgs
  free := h.free
  writing g hg hw := by
    rcases List.mem_append.mp hg with hg | hg
    · exact h.writing g hg hw
    · rw [hgs g hg] at hw
      cases hw
  reading g hg hr := by
    rcases List.mem_append.mp hg with hg | hg
    · exact h.reading g hg hr
    · rw [hgs g hg] at hr
      cases hr

theorem Serial.away
    (h : Serial apply Of hold wrote saw l s s₀ (f :: fs) past)
    (hf : hold f = .nothing) (hgs : ∀ g ∈ gs, hold g = .nothing) :
    Serial apply Of hold wrote saw l s s₀ (gs ++ fs) past where
  held := h.held.free hf hgs
  free := h.free
  writing g hg hw := by
    rcases List.mem_append.mp hg with hg | hg
    · rw [hgs g hg] at hw
      cases hw
    · exact h.writing g (List.mem_cons_of_mem _ hg) hw
  reading g hg hr := by
    rcases List.mem_append.mp hg with hg | hg
    · rw [hgs g hg] at hr
      cases hr
    · exact h.reading g (List.mem_cons_of_mem _ hg) hr

theorem Serial.rLock
    (h : Serial apply Of hold wrote saw l s s₀ (f :: fs) past)
    (hf : hold f = .nothing) (hg : hold g = .read) (hsaw : saw g = [])
    (hl : l.rLock = some l') :
    Serial apply Of hold wrote saw l' s s₀ (g :: fs) past := by
  have hheld := h.held.rLock hf hg hl
  have hfree := hheld.reader (List.mem_cons_self ..) hg
  have hwriter : l.writer = false := by
    unfold Lock.rLock at hl
    split at hl
    next => cases hl
    next hno => simpa using hno
  refine ⟨hheld, (fun _ => h.free hwriter), ?_, ?_⟩
  · intro k hk hw
    exact absurd hw (hheld.no_writer hfree hk)
  · intro k hk hr v hv
    rcases List.mem_cons.mp hk with rfl | hk
    · rw [hsaw] at hv
      cases hv
    · exact h.reading k (List.mem_cons_of_mem _ hk) hr v hv

theorem Serial.see
    (h : Serial apply Of hold wrote saw l s s₀ (f :: fs) past)
    (hf : hold f = .read) (hg : hold g = .read)
    (hsaw : saw g = saw f ++ [v]) (hv : Of v s) :
    Serial apply Of hold wrote saw l s s₀ (g :: fs) past := by
  have hheld : Held hold l (g :: fs) :=
    h.held.follow (hg.trans hf.symm)
  have hfree := hheld.reader (List.mem_cons_self ..) hg
  refine ⟨hheld, h.free, ?_, ?_⟩
  · intro k hk hw
    exact absurd hw (hheld.no_writer hfree hk)
  · intro k hk hr u hu
    rcases List.mem_cons.mp hk with rfl | hk
    · rw [hsaw] at hu
      rcases List.mem_append.mp hu with hu | hu
      · exact h.reading f (List.mem_cons_self ..) hf u hu
      · rw [List.mem_singleton.mp hu]
        exact hv
    · exact h.reading k (List.mem_cons_of_mem _ hk) hr u hu

theorem Serial.rUnlock
    (h : Serial apply Of hold wrote saw l s s₀ (f :: fs) past)
    (hf : hold f = .read) (hgs : ∀ g ∈ gs, hold g = .nothing) :
    Serial apply Of hold wrote saw l.rUnlock s s₀ (gs ++ fs) past := by
  have hheld := h.held.rUnlock hf hgs
  have hwriter := h.held.reader (List.mem_cons_self ..) hf
  refine ⟨hheld, (fun _ => h.free hwriter), ?_, ?_⟩
  · intro k hk hw
    exact absurd hw (hheld.no_writer hwriter hk)
  · intro k hk hr
    rcases List.mem_append.mp hk with hk | hk
    · rw [hgs k hk] at hr
      cases hr
    · exact h.reading k (List.mem_cons_of_mem _ hk) hr

/-- What it has seen is of the state between the sections so far and those
to come. -/
theorem Serial.seen
    (h : Serial apply Of hold wrote saw l s s₀ (f :: fs) past)
    (hf : hold f = .read) :
    ∀ v ∈ saw f, Of v (after apply past.flatten s₀) := by
  have hmem : f ∈ f :: fs := List.mem_cons_self ..
  rw [← h.free (h.held.reader hmem hf)]
  exact h.reading f hmem hf

theorem Serial.lock
    (h : Serial apply Of hold wrote saw l s s₀ (f :: fs) past)
    (hf : hold f = .nothing) (hg : hold g = .write) (hwrote : wrote g = [])
    (hl : l.lock = some l') :
    Serial apply Of hold wrote saw l' s s₀ (g :: fs) past := by
  have hheld := h.held.lock hf hg hl
  obtain ⟨hwriter', halone⟩ := hheld.writer hg
  have hwriter : l.writer = false := by
    unfold Lock.lock at hl
    split at hl
    next => cases hl
    next hno => simpa using (not_or.mp hno).1
  refine ⟨hheld, (fun hno => ?_), ?_, ?_⟩
  · rw [hwriter'] at hno
    cases hno
  · intro k hk hw
    rcases List.mem_cons.mp hk with rfl | hk
    · rw [hwrote]
      exact h.free hwriter
    · rw [halone k hk] at hw
      cases hw
  · intro k hk hr
    rcases List.mem_cons.mp hk with rfl | hk
    · rw [hg] at hr
      cases hr
    · rw [halone k hk] at hr
      cases hr

theorem Serial.write
    (h : Serial apply Of hold wrote saw l s s₀ (f :: fs) past)
    (ws : List W) (hf : hold f = .write) (hg : hold g = .write)
    (hwrote : wrote g = wrote f ++ ws) :
    Serial apply Of hold wrote saw l (after apply ws s) s₀ (g :: fs)
      past := by
  have hheld : Held hold l (g :: fs) :=
    h.held.follow (hg.trans hf.symm)
  obtain ⟨hwriter, halone⟩ := hheld.writer hg
  refine ⟨hheld, (fun hno => ?_), ?_, ?_⟩
  · rw [hwriter] at hno
    cases hno
  · intro k hk hw
    rcases List.mem_cons.mp hk with rfl | hk
    · rw [hwrote, after_append,
        ← h.writing f (List.mem_cons_self ..) hf]
    · rw [halone k hk] at hw
      cases hw
  · intro k hk hr
    rcases List.mem_cons.mp hk with rfl | hk
    · rw [hg] at hr
      cases hr
    · rw [halone k hk] at hr
      cases hr

theorem Serial.unlock
    (h : Serial apply Of hold wrote saw l s s₀ (f :: fs) past)
    (hf : hold f = .write) (hgs : ∀ g ∈ gs, hold g = .nothing) :
    Serial apply Of hold wrote saw l.unlock s s₀ (gs ++ fs)
      (past ++ [wrote f]) := by
  have hheld := h.held.unlock hf hgs
  obtain ⟨-, halone⟩ := h.held.writer hf
  have hnothing : ∀ k ∈ gs ++ fs, hold k = .nothing := by
    intro k hk
    rcases List.mem_append.mp hk with hk | hk
    · exact hgs k hk
    · exact halone k hk
  refine ⟨hheld, (fun _ => ?_), ?_, ?_⟩
  · rw [List.flatten_append, List.flatten_singleton, after_append]
    exact h.writing f (List.mem_cons_self ..) hf
  · intro k hk hw
    rw [hnothing k hk] at hw
    cases hw
  · intro k hk hr
    rw [hnothing k hk] at hr
    cases hr

end Serial

end RwLock
