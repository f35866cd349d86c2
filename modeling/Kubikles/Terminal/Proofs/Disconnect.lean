/-
Terminal sessions die with their client.

# The argument

A session whose process was started is closed, or in both maps, or about to
be registered, or about to be closed (`Accounted`); so once all calls have
returned it is closed or in the maps. A disconnect takes the sessions of its
client out of the maps, and what it does not find there yet it never looks
for again. So the condition is that no session of the client is registered
behind it (`InTime`).
-/
import Kubikles.Terminal.Manager

namespace Terminal

open Goroutine (Act Sys Effect Guarded)

variable {w : World} {fs others : List Frame}

-- ======== the statement

/-- Where a session of a client is registered, the client's disconnect has
yet to scan the maps. -/
def InTime (clientID : String) (w : World) (fs : List Frame) :
    Frame → Env → Prop
  | .register id, _ =>
    ∀ s ∈ w.sessions[id]?, s.opts.clientID = clientID →
      .call (.onClientDisconnect clientID) ∈ fs
  | _, _ => True

instance InTime.decidable (clientID : String) (w : World)
    (fs : List Frame) (f : Frame) (env : Env) :
    Decidable (InTime clientID w fs f env) := by
  unfold InTime
  split <;> infer_instance

theorem InTime.perm {clientID : String} {fs' : List Frame} {f : Frame}
    {env : Env} (h : InTime clientID w fs f env) (hperm : fs.Perm fs') :
    InTime clientID w fs' f env := by
  cases f with
  | register id =>
    exact fun s hs hclient => hperm.mem_iff.mp (h s hs hclient)
  | _ => trivial

-- ======== where sessions are

def Accounted (w : World) (fs : List Frame) : Prop :=
  ∀ id s, w.sessions[id]? = some s →
    s.closed = true
      ∨ s.listed = true
        ∧ (s.opts.clientID ≠ "" → s.client = some s.opts.clientID)
      ∨ .register id ∈ fs ∨ .close id ∈ fs

theorem Accounted.mono {fs' : List Frame} (hi : Accounted w fs)
    (h : ∀ f ∈ fs, f ∈ fs') : Accounted w fs' := by
  intro id s hs
  rcases hi id s hs with hclosed | hin | hreg | hclose
  · exact .inl hclosed
  · exact .inr (.inl hin)
  · exact .inr (.inr (.inl (h _ hreg)))
  · exact .inr (.inr (.inr (h _ hclose)))

/-- And one that neither registers nor closes a session may be taken
away. -/
theorem Accounted.tail {f : Frame} (hi : Accounted w (f :: others))
    (hreg : ∀ id, f ≠ .register id) (hclose : ∀ id, f ≠ .close id) :
    Accounted w others := by
  intro id s hs
  rcases hi id s hs with h | h | h | h
  · exact .inl h
  · exact .inr (.inl h)
  · rcases List.mem_cons.mp h with h | h
    · exact absurd h.symm (hreg id)
    · exact .inr (.inr (.inl h))
  · rcases List.mem_cons.mp h with h | h
    · exact absurd h.symm (hclose id)
    · exact .inr (.inr (.inr h))

theorem Accounted.takeOut (hi : Accounted w fs)
    (p : Nat → Session → Bool) :
    Accounted (w.delete p) (w.toClose p ++ fs) := by
  intro id s' hs'
  obtain ⟨s, hs, ⟨hp, rfl⟩ | ⟨-, rfl⟩⟩ := delete_cases hs'
  · rcases hi id s hs with hclosed | hin | hreg | hclose
    · exact .inl hclosed
    · exact .inr (.inr (.inr (List.mem_append_left _
        (mem_toClose hs hin.1 hp))))
    · exact .inr (.inr (.inl (List.mem_append_right _ hreg)))
    · exact .inr (.inr (.inr (List.mem_append_right _ hclose)))
  · exact (hi.mono fun f hf => List.mem_append_right _ hf) id s' hs

/-- Whatever is called, no session is lost sight of. -/
theorem Accounted.did {f : Frame} {effect : Effect World Frame Out}
    (hi : Accounted w (f :: others)) (h : Did w f effect) :
    Accounted effect.world (effect.frames ++ others) := by
  cases h with
  | starting =>
    exact (hi.tail (fun _ h => nomatch h) (fun _ h => nomatch h)).mono
      fun f hf => List.mem_append_right _ hf
  | failed => exact hi.tail (fun _ h => nomatch h) (fun _ h => nomatch h)
  | created =>
    have hi := hi.tail (fun _ h => nomatch h) (fun _ h => nomatch h)
    intro id s hs
    rcases Place.append_cases hs with hs | ⟨rfl, -⟩
    · exact hi.mono (fun f hf => List.mem_append_right _ hf) id s hs
    · -- The new one is about to be registered.
      exact .inr (.inr (.inl (List.mem_cons_self ..)))
  | @registered id =>
    intro id' s' hs'
    obtain ⟨s, hs, ⟨rfl, rfl⟩ | ⟨hid, rfl⟩⟩ := Place.modify_cases hs'
    · exact .inr (.inl ⟨rfl, fun hne => if_pos hne⟩)
    · rcases hi id' s' hs with h | h | h | h
      · exact .inl h
      · exact .inr (.inl h)
      · rcases List.mem_cons.mp h with h | h
        · cases h
          exact absurd rfl hid
        · exact .inr (.inr (.inl h))
      · rcases List.mem_cons.mp h with h | h
        · cases h
        · exact .inr (.inr (.inr h))
  | tookOut =>
    exact (hi.tail (fun _ h => nomatch h) (fun _ h => nomatch h)).takeOut _
  | @closed id =>
    intro id' s' hs'
    obtain ⟨s, hs, ⟨rfl, rfl⟩ | ⟨hid, rfl⟩⟩ := Place.modify_cases hs'
    · exact .inl rfl
    · rcases hi id' s' hs with h | h | h | h
      · exact .inl h
      · exact .inr (.inl h)
      · rcases List.mem_cons.mp h with h | h
        · cases h
        · exact .inr (.inr (.inl h))
      · rcases List.mem_cons.mp h with h | h
        · cases h
          exact absurd rfl hid
        · exact .inr (.inr (.inr h))

-- ======== the disconnect

/-- The disconnect of a client has yet to scan the maps, or no session is
the client's in them. -/
def Scanned (clientID : String) (w : World) (fs : List Frame) : Prop :=
  .call (.onClientDisconnect clientID) ∈ fs
    ∨ ∀ (id : Nat) (s : Session), w.sessions[id]? = some s →
      s.client ≠ some clientID

/-- The disconnect is the one that scans. -/
theorem Scanned.did {clientID : String} {f : Frame} {env : Env}
    {effect : Effect World Frame Out}
    (hi : Scanned clientID w (f :: others))
    (hok : InTime clientID w (f :: others) f env) (h : Did w f effect) :
    Scanned clientID effect.world (effect.frames ++ others) := by
  by_cases hpending : .call (.onClientDisconnect clientID) ∈ others
  · exact .inl (List.mem_append_right _ hpending)
  have hnone : f ≠ .call (.onClientDisconnect clientID) →
      ∀ (id : Nat) (s : Session), w.sessions[id]? = some s →
        s.client ≠ some clientID := by
    intro hf
    rcases hi with hmem | hnone
    · rcases List.mem_cons.mp hmem with heq | hmem
      · exact absurd heq.symm hf
      · exact absurd hmem hpending
    · exact hnone
  right
  cases h with
  | starting => exact hnone (fun h => nomatch h)
  | failed => exact hnone (fun h => nomatch h)
  | created =>
    intro id s hs
    rcases Place.append_cases hs with hs | ⟨-, rfl⟩
    · exact hnone (fun h => nomatch h) id s hs
    · exact fun h => nomatch h
  | @registered id =>
    intro id' s' hs'
    obtain ⟨s, hs, ⟨rfl, rfl⟩ | ⟨-, rfl⟩⟩ := Place.modify_cases hs'
    · simp only
      split
      · -- It would be one of the client's, behind the scan.
        intro hclient
        rcases List.mem_cons.mp (hok s hs (Option.some.inj hclient))
          with h | h
        · cases h
        · exact hpending h
      · exact hnone (fun h => nomatch h) id s hs
    · exact hnone (fun h => nomatch h) id' _ hs
  | @tookOut c p hp =>
    intro id s' hs'
    obtain ⟨s, hs, ⟨-, rfl⟩ | ⟨hpass, rfl⟩⟩ := delete_cases hs'
    · exact fun h => nomatch h
    · by_cases hc : c = .onClientDisconnect clientID
      · intro hclient
        rw [hp clientID hc id _ hclient] at hpass
        cases hpass
      · exact hnone (fun h => hc (Frame.call.inj h)) id _ hs
  | closed =>
    intro id s' hs'
    obtain ⟨s, hs, ⟨-, rfl⟩ | ⟨-, rfl⟩⟩ := Place.modify_cases hs'
    · exact hnone (fun h => nomatch h) id s hs
    · exact hnone (fun h => nomatch h) id _ hs

-- ======== the main result

theorem accounted_run {s s' : Sys World Frame} {acts : List (Act Call Env)}
    {out : List (Nat × Out)} (hi : Accounted s.world s.pending)
    (hrun : Machine.run (Goroutine.step exec framesOf) s acts
      = some (s', out)) : Accounted s'.world s'.pending :=
  Goroutine.run_pending_all hrun hi
    (fun hperm hi => hi.mono fun _ hf => hperm.mem_iff.mp hf)
    (fun hi => hi.mono fun _ hf => List.mem_append_left _ hf)
    (fun hi heffect => hi.did (exec_did heffect))

/-- A client disconnects. Whatever is called before and behind it and
however the calls interleave, where no session of the client is registered
behind the scan of the maps, all its sessions are closed once all calls have
returned. -/
theorem sessions_closed {clientID : String} (hclient : clientID ≠ "")
    {s s' : Sys World Frame} {before after : List (Act Call Env)}
    {out out' : List (Nat × Out)}
    (hbefore : Machine.run (Goroutine.step exec framesOf) initial before
      = some (s, out))
    (hafter : Machine.run (Goroutine.step exec framesOf) s
      (.call (.onClientDisconnect clientID) :: after) = some (s', out'))
    (hok : Machine.Along (Goroutine.step exec framesOf)
      (Guarded (fun _ _ _ => True) (InTime clientID)) s
      (.call (.onClientDisconnect clientID) :: after))
    (hidle : s'.Idle) :
    ∀ session ∈ s'.world.sessions, session.opts.clientID = clientID →
      session.closed = true := by
  have haccounted : Accounted s'.world s'.pending := by
    refine accounted_run (accounted_run ?_ hbefore) hafter
    intro id s hs
    cases hs
  have hscanned : Scanned clientID s'.world s'.pending := by
    obtain ⟨s₁, o₁, o₂, hcall, hrest, -⟩ := Machine.run_cons_iff.mp hafter
    have hok := (hok s₁ o₁ hcall).2
    obtain ⟨rfl, -⟩ := Prod.mk.inj (Option.some.inj hcall)
    refine Goroutine.run_pending (I := Scanned clientID) hrest hok ?_
      ?_ ?_ ?_
    · left
      rw [Goroutine.pending_call]
      exact List.mem_append_right _ (List.mem_cons_self ..)
    · intro w fs fs' hperm hi
      exact hi.imp_left hperm.mem_iff.mp
    · intro w fs c hi _
      exact hi.imp_left (List.mem_append_left _)
    · intro w fs f others env effect hperm hi hguard heffect
      exact hi.did (hguard.perm hperm) (exec_did heffect)
  rintro session hmem rfl
  obtain ⟨id, hid⟩ := List.mem_iff_getElem?.mp hmem
  rw [hidle] at haccounted hscanned
  rcases haccounted id session hid with h | ⟨-, h⟩ | h | h
  · exact h
  · rcases hscanned with hpending | hnone
    · cases hpending
    · exact absurd (h hclient) (hnone id session hid)
  · cases h
  · cases h

def shell : SessionOptions :=
  { ns := "default", pod := "web", clientID := "c" }

def started : List (Act Call Env) :=
  [.call (.startSession shell), .run 0 (.emitter true),
    .run 0 (.started none)]

def registered : Sys World Frame :=
  ⟨{ sessions := [{ opts := shell, listed := true, client := some "c" }] },
    [[]]⟩

/-- The client disconnects then. -/
theorem sessions_closed_registered :
    ∃ s' out out',
      Machine.run (Goroutine.step exec framesOf) initial
          (started ++ [.run 0 .tick]) = some (registered, out)
        ∧ Machine.run (Goroutine.step exec framesOf) registered
          [.call (.onClientDisconnect "c"), .run 1 .tick, .run 1 .tick]
            = some (s', out')
        ∧ s'.world.sessions.length = 1
        ∧ ∀ session ∈ s'.world.sessions, session.opts.clientID = "c" →
          session.closed = true := by
  have hbefore : Machine.run (Goroutine.step exec framesOf) initial
    (started ++ [.run 0 .tick]) = some (registered, _) := rfl
  have hafter : Machine.run (Goroutine.step exec framesOf) registered
    [.call (.onClientDisconnect "c"), .run 1 .tick, .run 1 .tick]
      = some (_, _) := rfl
  exact ⟨_, _, _, hbefore, hafter, rfl,
    sessions_closed (by decide) hbefore hafter (by decide) rfl⟩

theorem registered_late :
    ∃ s out,
      Machine.run (Goroutine.step exec framesOf) initial
          (started ++ [.call (.onClientDisconnect "c"), .run 1 .tick,
            .run 0 .tick]) = some (s, out)
        ∧ s.Idle
        ∧ ∃ session ∈ s.world.sessions, session.opts.clientID = "c"
          ∧ session.closed = false :=
  ⟨_, _, rfl, rfl, _, List.mem_cons_self .., rfl, rfl⟩

end Terminal
