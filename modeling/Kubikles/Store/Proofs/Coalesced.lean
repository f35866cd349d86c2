/-
The store behind the coalescer and the store behind the raw stream.

# The simulation

Two stores read one well-formed stream, the one directly (`raw`), the
other through a coalescer with buffer `b` (`ui`). `Sim` relates them.
A live object's newest resource is what `raw` has; it is either in its
key's box or has been emitted. An object that is gone is in neither
store.

What `ui` has of a live object depends on the frames. The reducer
refuses a MODIFIED with a deletionTimestamp for an object it does not
have (it takes it for a stale event behind a DELETED), and coalescing
drops the ADDED such a MODIFIED overtakes within a frame. So `ui` has an
object only once a flush took an event of it that *shows* it: an ADDED,
or one that is not terminating. `shown` records for which uids that has
happened, and nothing else about the frames matters.
-/
import Kubikles.Store.Proofs.Reducer
import Kubikles.Watch.Proofs.Effect

namespace Store

open Machine Coalescer

variable {α : Type}

-- ======== the simulation

/-- Among the events is one that puts the object into a store that does
not have it. -/
def Shows (uid : String) (events : List (ResourceEvent α)) : Prop :=
  ∃ e ∈ events, uidOf e.resource = some uid
    ∧ (e.type = .added ∨ terminating e.resource = false)

/-- How the entry and the box of a live object stand to its newest
resource: with an empty box a shown object's entry is up to date; with
a full one the box is, and the entry only says whether the object was
shown. -/
def UpToDate (resource : Resource α) (shown : Prop)
    (entry : Option (Resource α)) : Option (ResourceEvent α) → Prop
  | none => (shown → entry = some resource) ∧ (¬ shown → entry = none)
  | some e => e.resource = resource ∧ (entry.isSome ↔ shown)
      ∧ (e.type = .modified ∨ e.type = .added ∧ ¬ shown)

/-- The two stores, with the coalescer's buffer between them. -/
structure Sim (w : Watched) (raw ui : ResourceMap α) (b : EventBuffer α)
    (shown : String → Prop) : Prop where
  /-- What is buffered belongs to the live object of its key. -/
  buffered : ∀ {k e}, b.get k = some e →
    ∃ uid, w.live.lookup k = some uid ∧ uidOf e.resource = some uid
  /-- Live objects are in the raw store, and up to date in the other. -/
  live : ∀ {k uid}, w.live.lookup k = some uid →
    ∃ r, raw.lookup uid = some r
      ∧ UpToDate r (shown uid) (ui.lookup uid) (b.get k)
  /-- Objects that are not live are in neither store. -/
  dead : ∀ {uid}, (∀ k, w.live.lookup k ≠ some uid) →
    raw.lookup uid = none ∧ ui.lookup uid = none
  /-- Only objects of the stream are shown. -/
  used : ∀ {uid}, shown uid → uid ∈ w.used

theorem sim_init :
    Sim Watched.empty ∅ ∅ (.empty : EventBuffer α) fun _ => False where
  buffered h := by simp at h
  live h := by simp [Watched.empty] at h
  dead _ := ⟨Finmap.lookup_empty _, Finmap.lookup_empty _⟩
  used h := h.elim

theorem Sim.congr {w : Watched} {raw ui : ResourceMap α}
    {b : EventBuffer α} {shown shown' : String → Prop}
    (hsim : Sim w raw ui b shown) (h : ∀ uid, shown uid ↔ shown' uid) :
    Sim w raw ui b shown' := by
  have heq : shown = shown' := funext fun uid => propext (h uid)
  exact heq ▸ hsim

/-- Whether a live object is in the second store says whether it was
shown. -/
theorem UpToDate.isSome_iff {r : Resource α} {shown : Prop}
    {entry : Option (Resource α)} {box : Option (ResourceEvent α)}
    (h : UpToDate r shown entry box) : entry.isSome ↔ shown := by
  cases box with
  | none =>
    by_cases hs : shown
    · simp [hs, h.1 hs]
    · simp [hs, h.2 hs]
  | some e => exact h.2.1

/-- Emitting what is in the box brings the entry up to date, unless the
object was never shown and is not shown by this event either. -/
theorem UpToDate.emit {r : Resource α} {shown : Prop}
    {entry : Option (Resource α)} {e : ResourceEvent α}
    (h : UpToDate r shown entry (some e)) :
    UpToDate r
      (shown ∨ e.type = .added ∨ terminating e.resource = false)
      (applyOne entry e) none := by
  obtain ⟨rfl, hentry, hmod | ⟨hadd, hno⟩⟩ := h
  · constructor
    · rintro (hs | hadd | hterm)
      · exact applyOne_modified hmod (hentry.mpr hs)
      · simp [hmod] at hadd
      · simp [applyOne, hmod, hterm]
    · intro hno
      simp only [not_or, Bool.not_eq_false] at hno
      have hnone : entry = none := by
        rw [← Option.not_isSome_iff_eq_none, hentry]
        exact hno.1
      simp [applyOne, hmod, hnone, hno.2.2]
  · have hnone : entry = none := by
      rw [← Option.not_isSome_iff_eq_none, hentry]
      exact hno
    refine ⟨fun _ => by simp [applyOne, hadd, hnone], fun h => ?_⟩
    exact absurd (Or.inr (Or.inl hadd)) h

-- ======== its steps

section Steps

variable {w w' : Watched} {raw ui : ResourceMap α} {b : EventBuffer α}
variable {shown : String → Prop}

/-- An ADDED fills the box of a new object. -/
theorem Sim.added (hsim : Sim w raw ui b shown) {e : ResourceEvent α}
    {uid : String} (hu : uidOf e.resource = some uid)
    (ht : e.type = .added) (hk : w.live.lookup (eventKey e) = none)
    (hnew : uid ∉ w.used) (hdel : e.type ≠ .deleted) :
    Sim (w.appear (eventKey e) uid hnew) (applyResourceEvent raw e) ui
      (b.put e hdel) shown := by
  have hnot : ∀ k, w.live.lookup k ≠ some uid :=
    fun k h => hnew (w.known h)
  constructor
  · intro k e' he'
    rw [EventBuffer.get_put] at he'
    simp only [Watched.appear, FinMap.lookup_insert]
    split at he'
    next h =>
      rw [if_pos h, ← Option.some.inj he']
      exact ⟨uid, rfl, hu⟩
    next h =>
      rw [if_neg h]
      exact hsim.buffered he'
  · intro k uid' hk'
    simp only [Watched.appear, FinMap.lookup_insert] at hk'
    rw [EventBuffer.get_put, lookup_applyResourceEvent, hu]
    split at hk'
    next h =>
      obtain rfl := Option.some.inj hk'
      obtain ⟨hraw, hui⟩ := hsim.dead hnot
      rw [if_pos rfl, if_pos h, hraw, hui]
      have hsh : ¬ shown uid := fun hs => hnew (hsim.used hs)
      exact ⟨e.resource, by simp [applyOne, ht], rfl, by simp [hsh],
        Or.inr ⟨ht, hsh⟩⟩
    next h =>
      have hne : some uid ≠ some uid' := fun heq =>
        hnot k (heq ▸ hk')
      rw [if_neg hne, if_neg h]
      exact hsim.live hk'
  · intro uid' hdead
    simp only [Watched.appear, FinMap.lookup_insert] at hdead
    have hne : some uid ≠ some uid' := by
      simpa using hdead (eventKey e)
    rw [lookup_applyResourceEvent, hu, if_neg hne]
    refine hsim.dead fun k hk' => ?_
    have hkne : k ≠ eventKey e := fun h => by
      rw [h, hk] at hk'
      cases hk'
    have := hdead k
    rw [if_neg hkne] at this
    exact this hk'
  · exact fun hs => List.mem_cons_of_mem _ (hsim.used hs)

theorem Sim.modified (hsim : Sim w raw ui b shown) {e : ResourceEvent α}
    {uid : String} (hu : uidOf e.resource = some uid)
    (ht : e.type = .modified)
    (hk : w.live.lookup (eventKey e) = some uid)
    (hdel : e.type ≠ .deleted) :
    Sim w (applyResourceEvent raw e) ui (b.put e hdel) shown := by
  constructor
  · intro k e' he'
    rw [EventBuffer.get_put] at he'
    split at he'
    next h =>
      rw [h, ← Option.some.inj he']
      exact ⟨uid, hk, hu⟩
    next => exact hsim.buffered he'
  · intro k uid' hk'
    obtain ⟨r, hraw, hup⟩ := hsim.live hk'
    rw [EventBuffer.get_put, lookup_applyResourceEvent, hu, hraw]
    by_cases h : k = eventKey e
    · obtain rfl : uid = uid' := by
        rw [h, hk] at hk'
        exact Option.some.inj hk'
      rw [if_pos rfl, if_pos h]
      exact ⟨e.resource, by simp [applyOne, ht], rfl, hup.isSome_iff,
        Or.inl ht⟩
    · have hne : some uid ≠ some uid' := fun heq =>
        h (w.alone (heq ▸ hk') hk)
      rw [if_neg hne, if_neg h]
      exact ⟨r, rfl, hup⟩
  · intro uid' hdead
    have hne : some uid ≠ some uid' := fun heq =>
      hdead (eventKey e) (heq ▸ hk)
    rw [lookup_applyResourceEvent, hu, if_neg hne]
    exact hsim.dead hdead
  · exact hsim.used

/-- A DELETED empties the box and takes the object from both stores. -/
theorem Sim.deleted (hsim : Sim w raw ui b shown) {e : ResourceEvent α}
    {uid : String} (hu : uidOf e.resource = some uid)
    (ht : e.type = .deleted)
    (hk : w.live.lookup (eventKey e) = some uid) :
    Sim (w.vanish (eventKey e)) (applyResourceEvent raw e)
      (applyResourceEvent ui e) (b.drop [eventKey e]) shown := by
  constructor
  · intro k e' he'
    rw [EventBuffer.get_drop] at he'
    simp only [Watched.vanish, FinMap.lookup_erase]
    split at he'
    next => cases he'
    next h =>
      rw [if_neg (by simpa using h)]
      exact hsim.buffered he'
  · intro k uid' hk'
    simp only [Watched.vanish, FinMap.lookup_erase] at hk'
    split at hk'
    next => cases hk'
    next h =>
      have hne : some uid ≠ some uid' := fun heq =>
        h (w.alone (heq ▸ hk') hk)
      rw [EventBuffer.get_drop, lookup_applyResourceEvent,
        lookup_applyResourceEvent, hu, if_neg hne, if_neg hne,
        if_neg (by simpa using h)]
      exact hsim.live hk'
  · intro uid' hdead
    simp only [Watched.vanish, FinMap.lookup_erase] at hdead
    rw [lookup_applyResourceEvent, lookup_applyResourceEvent, hu]
    by_cases heq : some uid = some uid'
    · simp [heq, applyOne, ht]
    · rw [if_neg heq, if_neg heq]
      refine hsim.dead fun k hk' => ?_
      have hkne : k ≠ eventKey e := fun h => by
        rw [h, hk] at hk'
        exact heq hk'
      have := hdead k
      rw [if_neg hkne] at this
      exact this hk'
  · exact hsim.used

theorem Sim.forUid_taken (hsim : Sim w raw ui b shown)
    {batch : List (String × ResourceEvent α)} (ht : Taken b batch)
    {k uid : String} (hk : w.live.lookup k = some uid) :
    forUid uid (batch.map Prod.snd) = forKey k (batch.map Prod.snd) := by
  unfold forUid forKey
  refine List.filter_congr fun e he => ?_
  obtain ⟨p, hp, rfl⟩ := List.mem_map.mp he
  have hget := ht.filed p hp
  obtain ⟨uid', hlive, huid⟩ := hsim.buffered hget
  rw [huid, EventBuffer.get_eventKey hget]
  by_cases heq : p.1 = k
  · rw [heq, hk] at hlive
    simp [heq, hlive]
  · have hne : uid' ≠ uid := fun h => heq (w.alone hlive (h ▸ hk))
    simp [heq, hne]

/-- A flush brings the objects of its batch up to date, and shows those
it can. -/
theorem Sim.flush (hsim : Sim w raw ui b shown)
    {batch : List (String × ResourceEvent α)} (ht : Taken b batch) :
    Sim w raw (applyResourceEvents ui (batch.map Prod.snd))
      (b.drop (batch.map Prod.fst))
      fun uid => shown uid ∨ Shows uid (batch.map Prod.snd) := by
  have hbatch : ∀ {uid}, Shows uid (batch.map Prod.snd) →
      ∃ k, w.live.lookup k = some uid := by
    rintro uid ⟨e, he, hu, -⟩
    obtain ⟨p, hp, rfl⟩ := List.mem_map.mp he
    obtain ⟨uid', hlive, huid⟩ := hsim.buffered (ht.filed p hp)
    exact ⟨p.1, by rw [hlive, ← huid, hu]⟩
  constructor
  · intro k e he
    rw [EventBuffer.get_drop] at he
    split at he
    next => cases he
    next => exact hsim.buffered he
  · intro k uid hk
    obtain ⟨r, hraw, hup⟩ := hsim.live hk
    have huid := hsim.forUid_taken ht hk
    rw [ht.forKey] at huid
    refine ⟨r, hraw, ?_⟩
    rw [lookup_applyResourceEvents, EventBuffer.get_drop, huid]
    have hshows : Shows uid (batch.map Prod.snd)
        ↔ ∃ e ∈ forUid uid (batch.map Prod.snd),
            e.type = .added ∨ terminating e.resource = false := by
      simp [Shows, forUid, and_assoc]
    rw [huid] at hshows
    by_cases hin : k ∈ batch.map Prod.fst
    · obtain ⟨p, hp, rfl⟩ := List.mem_map.mp hin
      rw [ht.filed p hp] at hup hshows ⊢
      rw [if_pos hin] at hshows ⊢
      simp only [Option.toList_some, List.mem_singleton, exists_eq_left]
        at hshows
      rw [if_pos hin, hshows]
      exact hup.emit
    · rw [if_neg hin] at hshows ⊢
      rw [if_neg hin]
      have hiff : shown uid ∨ Shows uid (batch.map Prod.snd)
          ↔ shown uid := by simp [hshows]
      rw [propext hiff]
      exact hup
  · intro uid hdead
    obtain ⟨hraw, hui⟩ := hsim.dead hdead
    have hnone : forUid uid (batch.map Prod.snd) = [] := by
      unfold forUid
      rw [List.filter_eq_nil_iff]
      intro e he hu
      obtain ⟨p, hp, rfl⟩ := List.mem_map.mp he
      obtain ⟨uid', hlive, huid⟩ := hsim.buffered (ht.filed p hp)
      rw [huid, decide_eq_true_eq] at hu
      exact hdead p.1 (hu ▸ hlive)
    rw [lookup_applyResourceEvents, hnone]
    exact ⟨hraw, hui⟩
  · rintro uid (hs | hs)
    · exact hsim.used hs
    · obtain ⟨k, hk⟩ := hbatch hs
      exact w.known hk

end Steps

-- ======== a run

def ShownAt (uid : String) (s : Sys α) (a : Act α) : Prop :=
  Shows uid (flushed s a)

/-- Every step but a `Clear` keeps the simulation. -/
theorem sim_step {w w' : Watched} {raw ui : ResourceMap α}
    {shown : String → Prop} {a : Act α} {s s' : Sys α}
    {o : List (AppEvent α)} (hs : Enabled s) (hclear : a ≠ .clear)
    (h : Coalescer.step a s = some (s', o))
    (hw : (passed [a]).foldlM Watched.accepts w = some w')
    (hsim : Sim w raw ui s.c.events shown) :
    Sim w' (applyResourceEvents raw (passed [a]))
      (applyResourceEvents ui (emitted o)) s'.c.events
      fun uid => shown uid ∨ ShownAt uid s a := by
  have heff := step_effect hs h
  have hquiet : flushed s a = [] → ∀ uid,
      shown uid ↔ shown uid ∨ ShownAt uid s a := by
    intro hno uid
    simp [ShownAt, Shows, hno]
  have hflush := step_flushed h
  generalize emitted o = es at heff hflush ⊢
  generalize hb' : s'.c.events = b' at heff ⊢
  generalize hb : s.c.events = b at heff hsim
  cases heff with
  | @deleted _ e hdel =>
    have hacc : w.accepts e = some w' := by simpa using hw
    rw [passed_emit]
    refine (Sim.congr ?_ (hquiet rfl))
    cases accepts_accepted hacc with
    | added _ ht _ _ => simp [ht] at hdel
    | modified _ ht _ => simp [ht] at hdel
    | deleted hu ht hk => exact hsim.deleted hu ht hk
  | @put _ e hdel =>
    have hacc : w.accepts e = some w' := by simpa using hw
    rw [passed_emit]
    refine (Sim.congr ?_ (hquiet rfl))
    cases accepts_accepted hacc with
    | added hu ht hk hnew => exact hsim.added hu ht hk hnew hdel
    | modified hu ht hk => exact hsim.modified hu ht hk hdel
    | deleted _ ht _ => exact absurd ht hdel
  | flush hfl ht =>
    have hp := passed_flushes hfl
    rw [hp] at hw ⊢
    obtain rfl : w = w' := by simpa using hw
    have hes := hflush hp
    refine hsim.flush ht |>.congr fun uid => ?_
    rw [ShownAt, ← hes]
  | clear _ => exact absurd rfl hclear
  | quiet _ hp =>
    rw [hp] at hw ⊢
    obtain rfl : w = w' := by simpa using hw
    exact hsim.congr (hquiet (hflush hp).symm)

theorem sim_run {w w' : Watched} {raw ui : ResourceMap α}
    {shown : String → Prop} {acts : List (Act α)} {s s' : Sys α}
    {out : List (AppEvent α)} (hs : Enabled s) (hclear : .clear ∉ acts)
    (hrun : run Coalescer.step s acts = some (s', out))
    (hw : (passed acts).foldlM Watched.accepts w = some w')
    (hsim : Sim w raw ui s.c.events shown) :
    Sim w' (applyResourceEvents raw (passed acts))
      (applyResourceEvents ui (emitted out)) s'.c.events
      fun uid => shown uid
        ∨ Sometime Coalescer.step (ShownAt uid) s acts := by
  induction acts generalizing s w raw ui shown out with
  | nil =>
    simp only [run_nil, Option.some.injEq, Prod.mk.injEq] at hrun
    obtain ⟨rfl, rfl⟩ := hrun
    obtain rfl : w = w' := by simpa using hw
    exact hsim.congr fun uid => (or_iff_left id).symm
  | cons a rest ih =>
    obtain ⟨s₁, o₁, o₂, ha, hr, rfl⟩ := run_cons_iff.mp hrun
    rw [passed_cons, List.foldlM_append] at hw
    obtain ⟨w₁, hw₁, hw₂⟩ := Option.bind_eq_some_iff.mp hw
    obtain ⟨hne, hrest⟩ := List.ne_and_not_mem_of_not_mem_cons hclear
    have hsim₁ := sim_step hs hne.symm ha hw₁ hsim
    have hsim₂ := ih (step_enabled hs ha) hrest hr hw₂ hsim₁
    rw [passed_cons, applyResourceEvents_append, emitted_append,
      applyResourceEvents_append]
    refine hsim₂.congr fun uid => ?_
    rw [sometime_cons_iff ha, or_assoc]

-- ======== the result

/-- Once the buffer has drained, the store behind the coalescer equals
the store behind the raw stream exactly when every object that is still
live was shown by some flush: taken from the buffer as an ADDED, or
without a deletionTimestamp. -/
theorem coalesced_iff {frameInterval : Int}
    (hfi : millisecond ≤ frameInterval) {acts : List (Act α)}
    (hclear : .clear ∉ acts) {s' : Sys α} {out : List (AppEvent α)}
    (hrun : run Coalescer.step (Sys.init frameInterval) acts
      = some (s', out))
    {w : Watched} (hwatch : watch (passed acts) = some w)
    (hdrained : s'.c.events.len = 0) :
    applyAppEvents ∅ out = applyResourceEvents ∅ (passed acts)
      ↔ ∀ k uid, w.live.lookup k = some uid →
          Sometime Coalescer.step (ShownAt uid) (Sys.init frameInterval)
            acts := by
  have hsim := sim_run (enabled_init hfi) hclear hrun hwatch sim_init
  have hbox := EventBuffer.len_eq_zero.mp hdrained
  rw [applyAppEvents_eq]
  constructor
  · intro heq k uid hk
    obtain ⟨r, hraw, hup⟩ := hsim.live hk
    rw [heq, hraw] at hup
    exact (hup.isSome_iff.mp rfl).resolve_left id
  · intro hshown
    refine Finmap.ext_lookup fun uid => ?_
    by_cases hlive : ∃ k, w.live.lookup k = some uid
    · obtain ⟨k, hk⟩ := hlive
      obtain ⟨r, hraw, hup⟩ := hsim.live hk
      rw [hbox k] at hup
      rw [hraw, hup.1 (Or.inr (hshown k uid hk))]
    · obtain ⟨hraw, hui⟩ := hsim.dead (not_exists.mp hlive)
      rw [hraw, hui]

section Frames

private def podEvent (type : EventType) (deletionTimestamp : Option String)
    (body : Nat) : ResourceEvent Nat :=
  ⟨type, "pods", "default",
    ⟨some { name := some "a", uid := some "u", deletionTimestamp }, body⟩⟩

/-- An object whose ADDED goes out before its deletion begins is in the
store, terminating. -/
theorem coalesced_iff_two_frames :
    let acts : List (Act Nat) :=
      [.emit (podEvent .added none 1), .timerFires 0,
        .timerFlush 0 ["pods:default:a"],
        .emit (podEvent .modified (some "now") 2), .timerFires 1,
        .timerFlush 1 ["pods:default:a"]]
    ∃ s' out w, run Coalescer.step (Sys.init (16 * millisecond)) acts
        = some (s', out)
      ∧ watch (passed acts) = some w
      ∧ (applyAppEvents ∅ out = applyResourceEvents ∅ (passed acts)
        ↔ ∀ k uid, w.live.lookup k = some uid →
            Sometime Coalescer.step (ShownAt uid)
              (Sys.init (16 * millisecond)) acts) :=
  ⟨_, _, _, rfl, rfl, coalesced_iff (by decide) (by simp) rfl rfl
    (by decide)⟩

/-- An object whose deletion begins within the frame of its ADDED never
reaches the store. -/
theorem coalesced_loses_terminating :
    let acts : List (Act Nat) :=
      [.emit (podEvent .added none 1),
        .emit (podEvent .modified (some "now") 2), .timerFires 0,
        .timerFlush 0 ["pods:default:a"]]
    ∃ s' out w, run Coalescer.step (Sys.init (16 * millisecond)) acts
        = some (s', out)
      ∧ watch (passed acts) = some w ∧ s'.c.events.len = 0
      ∧ (applyAppEvents ∅ out).lookup "u" = none
      ∧ (applyResourceEvents ∅ (passed acts)).lookup "u"
          = some (podEvent .modified (some "now") 2).resource :=
  ⟨_, _, _, rfl, rfl, by decide, by decide, by decide⟩

end Frames

end Store
