/-
Which CLI sessions are owned.

# The argument

The CLI session of a session was started for it (`Held`), so a CLI session
has one owner, and what is open is owned as long as that owner is in the
map. A quiet step closes what it takes from its owner, and so does the
section of `sendMessagePersistent`, except that it may start a CLI session
for a session that has been taken out of the map since `SendMessage` looked
it up. Nobody ever closes that one; so the open CLI sessions are owned in
every state of a run if and only if this does not happen
(`StillListed`).

# Generations

Whose generation an answer carries.

# The argument

A CLI session answers messages, and each message was given a generation;
but its callback looks up the generation that the session has now. The two
agree while every message that a CLI session has taken, and every one that
is still to be handed over to it, is of the present generation (`Current`).
Only `SendMessage` counts the generation up. So the condition is that it
does so with nothing unanswered at the CLI session that is kept
(`AllAnswered`); what a CLI session says that is not kept is ignored.
-/
import Kubikles.Ai.Persistent

namespace Ai.Persistent

open Machine
open Goroutine (Act Sys Effect Guarded)

variable {quote : Text → Text} {w w' : World} {call : SendCall}
variable {err : Option Text} {s : Session}

-- ======== the statement

/-- A CLI session that is open and alive is that of a session in the
map. -/
def Owned (w : World) : Prop :=
  ∀ c k, w.cliSessions[c]? = some k → k.isAlive = true →
    ∃ id s, w.lookup id = some s ∧ s.cliSession = some c

/-- Where `sendMessagePersistent` takes the lock, and the provider's
`StartSession` would succeed, the session is still in the map. -/
def StillListed (w : World) (_ : List Frame) : Frame → Env → Prop
  | .persistent call, .start none => (w.lookup call.sessionID).isSome
  | _, _ => True

theorem stillListed_of_isSome (fs : List Frame)
    (h : (w.lookup call.sessionID).isSome = true) :
    StillListed w fs (.persistent call) (.start err) := by
  cases err with
  | none => exact h
  | some => trivial

-- ======== quiet steps

theorem Owned.of_quiet (hi : Owned w) (h : Quiet w w') : Owned w' := by
  intro c k' hk' halive'
  obtain ⟨k, hk, -, halive, -⟩ := h.cli hk'
  obtain ⟨id, s, hs, hc⟩ := hi c k hk (halive halive')
  obtain ⟨s', hs', hc'⟩ := h.owner hs hc hk' halive'
  exact ⟨id, s', hs', hc'⟩

theorem Owned.modify (hi : Owned w) (c : Nat) {g : CLISession → CLISession}
    (hg : ∀ k, (g k).isAlive = k.isAlive) :
    Owned { w with cliSessions := w.cliSessions.modify c g } := by
  intro c' k' hk' halive'
  obtain ⟨k, hk, ⟨-, rfl⟩ | ⟨-, rfl⟩⟩ := Place.modify_cases hk'
  · exact hi c' k hk (hg k ▸ halive')
  · exact hi c' _ hk halive'

theorem Owned.sessions (hi : Owned w) {sessions : List Session}
    (h : ∀ id s, w.lookup id = some s →
      ∃ s', ({ w with sessions } : World).lookup id = some s'
        ∧ s'.cliSession = s.cliSession) : Owned { w with sessions } := by
  intro c k hk halive
  obtain ⟨id, s, hs, hc⟩ := hi c k hk halive
  obtain ⟨s', hs', hsame⟩ := h id s hs
  exact ⟨id, s', hs', hsame.trans hc⟩

-- ======== `sendMessagePersistent`

theorem lookup_set_self {id : Nat} {a : Session} (ks : List CLISession)
    (hs : w.sessions[id]? = some s) (ha : a.listed = true) :
    ({ w with sessions := w.sessions.set id a
              cliSessions := ks } : World).lookup id = some a := by
  exact lookup_iff.mpr ⟨Place.set_self hs, ha⟩

theorem kept_listed (hheld : Held w) (hi : Owned w) {c : Nat}
    (hs : w.sessions[call.sessionID]? = some s)
    (hkept : w.kept s call = some c) :
    w.lookup call.sessionID = some s := by
  obtain ⟨hc, -, k, hk, halive⟩ := kept_iff.mp hkept
  obtain ⟨id, s', hs', hc'⟩ := hi c k hk halive
  have hget := (lookup_iff.mp hs').1
  obtain rfl := hheld.inj hget hc' hs hc
  rw [hs, Option.some.injEq] at hget
  rw [hs', hget]

/-- Starting a CLI session for a session without one leaves everything
owned if and only if that session is in the map. -/
theorem start_owned_iff (hheld : Held w) (hi : Owned w) {id : Nat}
    (hs : w.sessions[id]? = some s) (hnone : s.cliSession = none) :
    Owned (w.start id s) ↔ s.listed = true := by
  constructor
  · intro howned
    -- Who has the new one?
    obtain ⟨id', s', hs', hc⟩ :=
      howned _ _ List.getElem?_concat_length rfl
    obtain ⟨hget, hlisted⟩ := lookup_iff.mp hs'
    rcases Place.set_cases hget with ⟨rfl, rfl⟩ | ⟨-, hget⟩
    · exact hlisted
    · exact absurd (hheld.lt hget hc) (Nat.lt_irrefl _)
  · intro hlisted c k hk halive
    rcases Place.append_cases hk with hk | ⟨rfl, rfl⟩
    · obtain ⟨id', s', hs', hc⟩ := hi c k hk halive
      have hne : id ≠ id' := by
        rintro rfl
        have hget := (lookup_iff.mp hs').1
        rw [hs, Option.some.injEq] at hget
        rw [← hget, hnone] at hc
        cases hc
      exact ⟨id', s', (lookup_set_ne hne _ _).trans hs', hc⟩
    · exact ⟨id, _, lookup_set_self _ hs hlisted, rfl⟩

/-- The section leaves everything owned if and only if it does not start a
CLI session for a session that is not in the map. -/
theorem sendPersistent_owned_iff (hheld : Held w) (hi : Owned w)
    (hs : w.sessions[call.sessionID]? = some s) (fs : List Frame) :
    Owned (sendPersistent call err s w).world
      ↔ StillListed w fs (.persistent call) (.start err) := by
  unfold sendPersistent
  split
  next c hkept =>
    have hlisted := kept_listed hheld hi hs hkept
    refine ⟨fun _ => ?_, fun _ => hi.sessions fun id s' hs' => ?_⟩
    · exact stillListed_of_isSome fs (by rw [hlisted]; rfl)
    · by_cases hid : call.sessionID = id
      · subst hid
        rw [hlisted, Option.some.injEq] at hs'
        subst hs'
        exact ⟨_, lookup_set_self _ hs (lookup_iff.mp hlisted).2, rfl⟩
      · exact ⟨s', (lookup_set_ne hid _ _).trans hs', rfl⟩
  next e hnone =>
    exact ⟨fun _ => trivial, fun _ => hi.of_quiet (quiet_cleared hs hnone)⟩
  next hnone =>
    have hquiet := quiet_cleared hs hnone
    refine (start_owned_iff (hheld.of_quiet hquiet) (hi.of_quiet hquiet)
      (cleared_sessions hs) rfl).trans ?_
    show s.listed = true ↔ (w.lookup call.sessionID).isSome = true
    unfold World.lookup
    rw [hs]
    by_cases hlisted : s.listed = true <;> simp [hlisted]

-- ======== the main result

theorem Owned.did (hi : Owned w) {f : Frame} {env : Env}
    {effect : Effect World Frame Out} (h : Did w f env effect)
    (hf : ∀ call, f ≠ .persistent call) : Owned effect.world := by
  cases h with
  | quiet h => exact hi.of_quiet h.world
  | persistent => exact absurd rfl (hf _)
  | sent => exact hi.modify _ fun _ => rfl
  | @oneShot id =>
    refine hi.sessions fun id' s hs => ?_
    obtain ⟨hget, hlisted⟩ := lookup_iff.mp hs
    refine ⟨if id = id' then { s with generation := s.generation + 1 }
      else s, lookup_iff.mpr ⟨?_, ?_⟩, ?_⟩
    · exact Place.modify_of_some hget
    · split <;> exact hlisted
    · split <;> rfl

/-- A step leaves everything owned if and only if it meets the
condition. -/
theorem exec_owned_iff (hheld : Held w) (hi : Owned w) {f : Frame}
    {env : Env} {effect : Effect World Frame Out} (fs : List Frame)
    (h : exec quote f env w = some effect) :
    Owned effect.world ↔ StillListed w fs f env := by
  cases f with
  | persistent call =>
    cases env with
    | start err =>
      obtain ⟨s, hs, rfl⟩ := Option.map_eq_some_iff.mp h
      exact sendPersistent_owned_iff hheld hi hs fs
    | _ => cases h
  | _ =>
    refine ⟨fun _ => trivial, fun _ => hi.did (exec_did h) ?_⟩
    intro call hf
    cases hf

/-- The condition on a step of the system. -/
abbrev Stays : Sys World Frame → Act Call Env → Prop :=
  Guarded (fun _ _ _ => True) StillListed

/-- What is held stays held, and a step leaves everything owned if and only
if it meets the condition. -/
theorem step_owned_iff {sys sys' : Sys World Frame} {a : Act Call Env}
    {out : List (Nat × Out)} (hheld : Held sys.world)
    (hi : Owned sys.world)
    (h : Goroutine.step (exec quote) framesOf a sys = some (sys', out)) :
    Held sys'.world ∧ (Owned sys'.world ↔ Stays sys a) := by
  cases a with
  | call c =>
    obtain ⟨rfl, -⟩ := Prod.mk.inj (Option.some.inj h)
    exact ⟨hheld, fun _ => trivial, fun _ => hi⟩
  | run i env =>
    obtain ⟨f, rest, others, effect, hget, heffect, -, -, hworld, -⟩ :=
      Goroutine.step_run_perm h
    rw [hworld, Stays, Guarded, hget]
    exact ⟨hheld.did (exec_did heffect),
      exec_owned_iff hheld hi _ heffect⟩

/-- Whatever calls there are and however they interleave, the CLI sessions
that are open and alive are those of sessions in the map, in every state,
if and only if no CLI session is started for a session that has been taken
out of the map. -/
theorem owned_iff (quote : Text → Text) (providerID : Text)
    (registry : Bool) (acts : List (Act Call Env)) :
    Visits (Goroutine.step (exec quote) framesOf)
        (fun sys => Owned sys.world) (initial providerID registry) acts
      ↔ Along (Goroutine.step (exec quote) framesOf) Stays
          (initial providerID registry) acts := by
  refine visits_iff_along
    (I := fun sys : Sys World Frame =>
      Held sys.world ∧ Owned sys.world)
    (fun hi hok h => ?_) (fun hi => hi.2) (fun hi h howned => ?_) ⟨?_, ?_⟩
  · obtain ⟨hheld, hiff⟩ := step_owned_iff hi.1 hi.2 h
    exact ⟨hheld, hiff.mpr hok⟩
  · exact (step_owned_iff hi.1 hi.2 h).2.mp howned
  · intro id s c hs
    cases hs
  · intro c k hk
    cases hk

/-- A session is closed while a message is on its way to it. -/
def closedMeanwhile : List (Act Call Env) :=
  [.call (.startSession []),
    .run 0 .tick,
    .call (.sendMessage { sessionID := 0 }),
    .run 1 (.sending (.ok true) true),
    .run 1 (.supports true),
    .call (.closeSession 0),
    .run 2 .tick,
    .run 1 (.start none)]

/-- It gets a CLI session that nobody owns. -/
theorem orphan_started :
    ∃ sys out, run (Goroutine.step (exec fun name => name) framesOf)
        (initial [] false) closedMeanwhile = some (sys, out)
      ∧ sys.world.cliSessions = [{ sessionID := 0 }]
      ∧ ¬ Owned sys.world := by
  have hrun : run (Goroutine.step (exec fun name => name) framesOf)
    (initial [] false) closedMeanwhile = some (_, _) := rfl
  refine ⟨_, _, hrun, rfl, fun howned => ?_⟩
  obtain ⟨id, s, hs, -⟩ := howned 0 _ rfl rfl
  obtain ⟨hget, hlisted⟩ := lookup_iff.mp hs
  cases id with
  | zero =>
    cases hget
    cases hlisted
  | succ id => cases hget

end Ai.Persistent

namespace Ai.Persistent

open Goroutine (Act Sys Effect Guarded)

variable {quote : Text → Text} {w : World} {fs others : List Frame}
variable {call : SendCall} {err : Option Text} {s : Session} {c : Nat}

-- ======== the statement

/-- A CLI session has answered what it has taken, and nothing is on its
way to it. -/
def answered (w : World) (fs : List Frame) (c : Nat) : Bool :=
  w.cliSessions[c]?.all (·.queue = [])
    && fs.all fun f => f.sends.all (·.1 ≠ c)

/-- Where `SendMessage` counts a generation up, the CLI session that the
session keeps has nothing left to answer. -/
def AllAnswered (w : World) (fs : List Frame) : Frame → Env → Prop
  | .persistent call, _ =>
    w.sessions[call.sessionID]?.all
      (fun s => (w.kept s call).all (answered w fs)) = true
  | .oneShot id, _ =>
    w.sessions[id]?.all
      (fun s => s.cliSession.all (answered w fs)) = true
  | _, _ => True

instance AllAnswered.decidable (w : World) (fs : List Frame) (f : Frame)
    (env : Env) : Decidable (AllAnswered w fs f env) := by
  unfold AllAnswered
  split <;> infer_instance

-- ======== the invariant

/-- What is unanswered at the CLI session of a session is of the session's
generation. -/
structure Current (w : World) (fs : List Frame) : Prop where
  held : Held w
  queued : ∀ (id : Nat) (s : Session) (c : Nat) (k : CLISession) (g : Nat),
    w.sessions[id]? = some s → s.cliSession = some c →
      w.cliSessions[c]? = some k → g ∈ k.queue → g = s.generation
  sending : ∀ (id : Nat) (s : Session) (c g : Nat) (f : Frame),
    w.sessions[id]? = some s → s.cliSession = some c → f ∈ fs →
      f.sends = some (c, g) → g = s.generation
  known : ∀ (f : Frame) (c g : Nat), f ∈ fs → f.sends = some (c, g) →
    c < w.cliSessions.length

theorem Current.subset {fs' : List Frame} (hi : Current w fs)
    (h : ∀ f ∈ fs', f ∈ fs) : Current w fs' where
  held := hi.held
  queued := hi.queued
  sending := fun id s c g f hs hc hf => hi.sending id s c g f hs hc (h f hf)
  known := fun f c g hf => hi.known f c g (h f hf)

theorem Current.silent {fs' : List Frame} (hi : Current w fs)
    (h : ∀ f ∈ fs', f.sends = none) : Current w (fs' ++ fs) where
  held := hi.held
  queued := hi.queued
  sending := fun id s c g f hs hc hf hsends => by
    rcases List.mem_append.mp hf with hf | hf
    · rw [h f hf] at hsends
      cases hsends
    · exact hi.sending id s c g f hs hc hf hsends
  known := fun f c g hf hsends => by
    rcases List.mem_append.mp hf with hf | hf
    · rw [h f hf] at hsends
      cases hsends
    · exact hi.known f c g hf hsends

theorem Current.of_answers (hi : Current w fs) {g : Nat}
    {event : AIResponseEvent} (h : Answers w g event) :
    event.generation = g := by
  obtain ⟨id, s, c, k, hs, hc, hk, hg, hgen⟩ := h
  rw [hgen, hi.queued id s c k g hs hc hk hg]

theorem answered_iff :
    answered w fs c = true
      ↔ (∀ k, w.cliSessions[c]? = some k → k.queue = [])
        ∧ ∀ f ∈ fs, ∀ g, f.sends ≠ some (c, g) := by
  unfold answered
  rw [Bool.and_eq_true, List.all_eq_true]
  refine and_congr ?_ (forall_congr' fun f => imp_congr_right fun _ => ?_)
  · cases w.cliSessions[c]? with
    | none => simp
    | some k => simp
  · cases f.sends with
    | none => simp
    | some p =>
      obtain ⟨d, n⟩ := p
      simp

theorem AllAnswered.perm {fs' : List Frame} {f : Frame} {env : Env}
    (h : AllAnswered w fs f env) (hperm : fs.Perm fs') :
    AllAnswered w fs' f env := by
  have hsame : answered w fs = answered w fs' := by
    funext c
    unfold answered
    rw [hperm.all_eq]
  unfold AllAnswered at h ⊢
  rw [← hsame]
  exact h

theorem AllAnswered.kept {env : Env}
    (h : AllAnswered w fs (.persistent call) env)
    (hs : w.sessions[call.sessionID]? = some s)
    (hkept : w.kept s call = some c) : answered w fs c = true := by
  have h : w.sessions[call.sessionID]?.all
    (fun s => (w.kept s call).all (answered w fs)) = true := h
  rw [hs, Option.all_some, hkept, Option.all_some] at h
  exact h

theorem AllAnswered.oneShot {id : Nat} {env : Env}
    (h : AllAnswered w fs (.oneShot id) env)
    (hs : w.sessions[id]? = some s) (hc : s.cliSession = some c) :
    answered w fs c = true := by
  have h : w.sessions[id]?.all
    (fun s => s.cliSession.all (answered w fs)) = true := h
  rw [hs, Option.all_some, hc, Option.all_some] at h
  exact h

-- ======== one step

theorem Current.of_quiet {w' : World} (hi : Current w fs)
    (h : Quiet w w') : Current w' fs where
  held := hi.held.of_quiet h
  queued := fun id s' c k' g hs' hc' hk' hg => by
    obtain ⟨s, hs, hc, hgen⟩ := h.session hs' hc'
    obtain ⟨k, hk, -, -, hqueue⟩ := h.cli hk'
    rw [hgen]
    exact hi.queued id s c k g hs hc hk (hqueue g hg)
  sending := fun id s' c g f hs' hc' hf hsends => by
    obtain ⟨s, hs, hc, hgen⟩ := h.session hs' hc'
    rw [hgen]
    exact hi.sending id s c g f hs hc hf hsends
  known := fun f c g hf hsends => by
    obtain ⟨k', hk'⟩ :=
      h.stays (List.getElem?_eq_getElem (hi.known f c g hf hsends))
    exact (List.getElem?_eq_some_iff.mp hk').1

theorem Current.sent {id gen : Nat} {message : Text}
    (hi : Current w (.send id c gen message :: others)) :
    Current { w with cliSessions := w.cliSessions.modify c fun k =>
      { k with queue := k.queue ++ [gen] } } others where
  held := hi.held.did (f := .send id c gen message) .sent
  queued := fun id' s d k' g hs hc hk' hg => by
    obtain ⟨k, hk, ⟨rfl, rfl⟩ | ⟨-, rfl⟩⟩ := Place.modify_cases hk'
    · rcases List.mem_append.mp hg with hg | hg
      · exact hi.queued id' s c k g hs hc hk hg
      · rw [List.mem_singleton] at hg
        subst hg
        exact hi.sending id' s c g _ hs hc (List.mem_cons_self ..) rfl
    · exact hi.queued id' s d _ g hs hc hk hg
  sending := fun id' s d g f hs hc hf =>
    hi.sending id' s d g f hs hc (List.mem_cons_of_mem _ hf)
  known := fun f d g hf hsends => by
    show d < (w.cliSessions.modify c _).length
    rw [List.length_modify]
    exact hi.known f d g (List.mem_cons_of_mem _ hf) hsends

theorem Current.count {sessions : List Session} (hi : Current w fs)
    (h : ∀ (id : Nat) (s' : Session), sessions[id]? = some s' →
      ∃ s, w.sessions[id]? = some s ∧ s'.cliSession = s.cliSession
        ∧ (s'.generation = s.generation
          ∨ ∀ c, s.cliSession = some c → answered w fs c = true)) :
    Current { w with sessions } fs where
  held := fun id s' c hs' hc => by
    obtain ⟨s, hs, hsame, -⟩ := h id s' hs'
    exact hi.held id s c hs (hsame ▸ hc)
  queued := fun id s' c k g hs' hc hk hg => by
    obtain ⟨s, hs, hsame, hgen | hanswered⟩ := h id s' hs'
    · rw [hgen]
      exact hi.queued id s c k g hs (hsame ▸ hc) hk hg
    · have hempty := (answered_iff.mp (hanswered c (hsame ▸ hc))).1 k hk
      rw [hempty] at hg
      cases hg
  sending := fun id s' c g f hs' hc hf hsends => by
    obtain ⟨s, hs, hsame, hgen | hanswered⟩ := h id s' hs'
    · rw [hgen]
      exact hi.sending id s c g f hs (hsame ▸ hc) hf hsends
    · have hnone := (answered_iff.mp (hanswered c (hsame ▸ hc))).2 f hf g
      exact absurd hsends hnone
  known := hi.known

theorem Current.send {id : Nat} {message : Text} (hi : Current w fs)
    (hs : w.sessions[id]? = some s) (hc : s.cliSession = some c) :
    Current w (.send id c s.generation message :: fs) where
  held := hi.held
  queued := hi.queued
  sending := fun id' s' c' g f hs' hc' hf hsends => by
    rcases List.mem_cons.mp hf with rfl | hf
    · obtain ⟨rfl, rfl⟩ := Prod.mk.inj (Option.some.inj hsends)
      obtain rfl := hi.held.inj hs hc hs' hc'
      rw [hs, Option.some.injEq] at hs'
      rw [hs']
    · exact hi.sending id' s' c' g f hs' hc' hf hsends
  known := fun f c' g hf hsends => by
    rcases List.mem_cons.mp hf with rfl | hf
    · obtain ⟨rfl, rfl⟩ := Prod.mk.inj (Option.some.inj hsends)
      exact hi.held.lt hs hc
    · exact hi.known f c' g hf hsends

theorem Current.start {id : Nat} (hi : Current w fs) :
    Current (w.start id s) fs where
  held := hi.held.start
  queued := fun id' s' c k g hs' hc hk hg => by
    rcases Place.append_cases hk with hk | ⟨rfl, rfl⟩
    · rcases Place.set_cases hs' with ⟨-, rfl⟩ | ⟨-, hs'⟩
      · obtain rfl := Option.some.inj hc
        exact absurd (List.getElem?_eq_some_iff.mp hk).1
          (Nat.lt_irrefl _)
      · exact hi.queued id' s' c k g hs' hc hk hg
    · cases hg
  sending := fun id' s' c g f hs' hc hf hsends => by
    rcases Place.set_cases hs' with ⟨-, rfl⟩ | ⟨-, hs'⟩
    · obtain rfl := Option.some.inj hc
      exact absurd (hi.known f _ g hf hsends) (Nat.lt_irrefl _)
    · exact hi.sending id' s' c g f hs' hc hf hsends
  known := fun f c g hf hsends => by
    have hlt := hi.known f c g hf hsends
    show c < (w.cliSessions ++ [_]).length
    rw [List.length_append]
    exact Nat.lt_add_right _ hlt

theorem Current.sendPersistent (hi : Current w fs)
    (hs : w.sessions[call.sessionID]? = some s)
    (hok : AllAnswered w fs (.persistent call) (.start err)) :
    Current (sendPersistent call err s w).world
      ((sendPersistent call err s w).frames ++ fs) := by
  unfold Persistent.sendPersistent
  split
  next c hkept =>
    have hanswered := hok.kept hs hkept
    have hc := (kept_iff.mp hkept).1
    refine Current.send (s := { s with generation := s.generation + 1 })
      (hi.count fun id s' hs' => ?_) (Place.set_self hs) hc
    rcases Place.set_cases hs' with ⟨rfl, rfl⟩ | ⟨-, hs'⟩
    · refine ⟨s, hs, rfl, .inr fun c' hc' => ?_⟩
      rw [hc, Option.some.injEq] at hc'
      rw [← hc']
      exact hanswered
    · exact ⟨s', hs', rfl, .inl rfl⟩
  next e hnone => exact hi.of_quiet (quiet_cleared hs hnone)
  next hnone =>
    have hcleared := hi.of_quiet (quiet_cleared hs hnone)
    exact Current.send (s := { s.cleared call with
      cliSession := some (w.cleared s call).cliSessions.length })
      hcleared.start (Place.set_self (cleared_sessions hs)) rfl

theorem sendPersistent_out {g : Nat} {event : AIResponseEvent}
    (h : Out.emit (some g) event ∈ (sendPersistent call err s w).out) :
    event.generation = g := by
  unfold sendPersistent at h
  split at h
  · cases h
  · rcases List.mem_cons.mp h with h | h
    · cases h
    · rw [List.mem_singleton, Out.emit.injEq] at h
      obtain ⟨hg, rfl⟩ := h
      exact (Option.some.inj hg).symm
  · rw [List.mem_singleton] at h
    cases h

theorem Current.did {f : Frame} {env : Env}
    {effect : Effect World Frame Out} (hi : Current w (f :: others))
    (hok : AllAnswered w (f :: others) f env) (h : Did w f env effect) :
    Current effect.world (effect.frames ++ others)
      ∧ ∀ g event, Out.emit (some g) event ∈ effect.out →
        event.generation = g := by
  have hrest := hi.subset fun g hg => List.mem_cons_of_mem f hg
  cases h with
  | quiet h =>
    refine ⟨(hrest.of_quiet h.world).silent h.frames,
      fun g event hmem => ?_⟩
    rcases h.out g event hmem with hgen | hanswers
    · exact hgen
    · exact hi.of_answers hanswers
  | persistent hs =>
    refine ⟨(hi.sendPersistent hs hok).subset fun g hg => ?_,
      fun _ _ => sendPersistent_out⟩
    rcases List.mem_append.mp hg with hg | hg
    · exact List.mem_append_left _ hg
    · exact List.mem_append_right _ (List.mem_cons_of_mem _ hg)
  | sent => exact ⟨hi.sent, fun _ _ hmem => nomatch hmem⟩
  | @oneShot id =>
    refine ⟨(hi.count fun id' s' hs' => ?_).subset
      fun g hg => List.mem_cons_of_mem _ hg,
      fun _ _ hmem => nomatch hmem⟩
    obtain ⟨s, hs, ⟨rfl, rfl⟩ | ⟨-, rfl⟩⟩ := Place.modify_cases hs'
    · exact ⟨s, hs, rfl, .inr fun c hc => hok.oneShot hs hc⟩
    · exact ⟨_, hs, rfl, .inl rfl⟩

-- ======== the main result

/-- Whatever calls there are and however they interleave with what the CLI
sessions say, where each message is sent with nothing unanswered at the CLI
session, every event about a message has the generation of that message. -/
theorem generations_kept {providerID : Text} {registry : Bool}
    {acts : List (Act Call Env)} {sys : Sys World Frame}
    {out : List (Nat × Out)}
    (hrun : Machine.run (Goroutine.step (exec quote) framesOf)
      (initial providerID registry) acts = some (sys, out))
    (hok : Machine.Along (Goroutine.step (exec quote) framesOf)
      (Guarded (fun _ _ _ => True) AllAnswered)
      (initial providerID registry) acts) :
    ∀ i g event, (i, Out.emit (some g) event) ∈ out →
      event.generation = g := by
  have hkept : Current sys.world sys.pending
      ∧ ∀ g event, Out.emit (some g) event ∈ out.map Prod.snd →
        event.generation = g := by
    refine Goroutine.run_pending_history
      (J := fun w fs out => Current w fs
        ∧ ∀ g event, Out.emit (some g) event ∈ out →
          event.generation = g)
      hrun hok ⟨⟨?_, ?_, ?_, ?_⟩, fun _ _ hmem => nomatch hmem⟩
      (fun hperm hi => ⟨hi.1.subset fun f hf => hperm.mem_iff.mpr hf,
        hi.2⟩) (fun {w fs out c} hi _ => ⟨?_, hi.2⟩) ?_
    · intro id s c hs
      cases hs
    · intro id s c k g hs
      cases hs
    · intro id s c g f hs
      cases hs
    · intro f c g hf
      cases hf
    · -- A call hands nothing over by itself.
      have hnone : ∀ f ∈ framesOf c, f.sends = none := fun f hf => by
        rw [framesOf, List.mem_singleton] at hf
        rw [hf]
        rfl
      exact (hi.1.silent hnone).subset fun f hf =>
        (List.perm_append_comm.mem_iff).mp hf
    · intro w fs f others out env effect hperm hi hguard heffect
      obtain ⟨hcurrent, hout⟩ :=
        hi.1.did (hguard.perm hperm) (exec_did heffect)
      refine ⟨hcurrent, fun g event hmem => ?_⟩
      rcases List.mem_append.mp hmem with hmem | hmem
      · exact hi.2 g event hmem
      · exact hout g event hmem
  intro i g event hmem
  exact hkept.2 g event (List.mem_map.mpr ⟨_, hmem, rfl⟩)

/-- Two messages to one session, each answered with a text: the second is
sent before the first is answered, or behind it. -/
def twoMessages (early : Bool) : List (Act Call Env) :=
  let send (i : Nat) : List (Act Call Env) :=
    [.call (.sendMessage { sessionID := 0 }),
      .run i (.sending (.ok true) true), .run i (.supports true),
      .run i (.start none), .run i (.sent none)]
  let answer (i : Nat) : List (Act Call Env) :=
    [.call (.onEvent 0 { type := .text, content := [65] }), .run i .tick,
      .call (.answered 0), .run (i + 1) .tick]
  [.call (.startSession []), .run 0 .tick] ++ send 1
    ++ if early then send 2 ++ answer 3 ++ answer 5
      else answer 2 ++ send 4 ++ answer 5

/-- Each behind the answer to the other. -/
theorem generations_kept_inTurn :
    ∃ sys out,
      Machine.run (Goroutine.step (exec fun name => name) framesOf)
          (initial [] false) (twoMessages false) = some (sys, out)
        ∧ out.length = 4
        ∧ ∀ i g event, (i, Out.emit (some g) event) ∈ out →
          event.generation = g := by
  have hrun : ∃ sys out,
      Machine.run (Goroutine.step (exec fun name => name) framesOf)
          (initial [] false) (twoMessages false) = some (sys, out)
        ∧ out.length = 4 := ⟨_, _, rfl, rfl⟩
  obtain ⟨sys, out, hrun, hlength⟩ := hrun
  exact ⟨sys, out, hrun, hlength, generations_kept hrun (by decide)⟩

/-- The text of the first answer is told to be of the second message. -/
theorem early_generation :
    ¬ ∀ (acts : List (Act Call Env)) (sys : Sys World Frame)
        (out : List (Nat × Out)),
      Machine.run (Goroutine.step (exec fun name => name) framesOf)
          (initial [] false) acts = some (sys, out) →
        ∀ i g event, (i, Out.emit (some g) event) ∈ out →
          event.generation = g := by
  intro h
  have hrun : ∃ sys out,
      Machine.run (Goroutine.step (exec fun name => name) framesOf)
          (initial [] false) (twoMessages true) = some (sys, out)
        ∧ (3, Out.emit (some 1)
          { sessionID := 0, generation := 2, chunk := [65] }) ∈ out :=
    ⟨_, _, rfl, .tail _ (.tail _ (.head _))⟩
  obtain ⟨sys, out, hrun, hmem⟩ := hrun
  exact absurd (h _ _ _ hrun _ _ _ hmem) (by decide)

end Ai.Persistent
