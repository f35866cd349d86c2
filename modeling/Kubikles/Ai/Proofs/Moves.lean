/-
What the steps of the chat panel and its manager do.

# Reading

One constructor for each thing that can happen (`Moves`), with what it
needs and what it leaves. Where a step leaves the panel's session and its
generation alone, and all calls, it is `quiet`.
-/
import Kubikles.Ai.Panel

namespace Chat

open Ai (AIResponseEvent)

/-- A step on a state with a session on display. -/
inductive Moves (s : State) : Act → State → Prop
  | quiet {a : Act} {ui : Ui} (hsession : ui.sessionId = s.ui.sessionId)
      (hgen : ui.generationRef = s.ui.generationRef)
      (hmessages : ui.messages = s.ui.messages)
      (hstreaming : ui.isStreaming = s.ui.isStreaming)
      (href : ui.streamingMessageRef = s.ui.streamingMessageRef) :
      Moves s a { s with ui }
  | sent {text : Text} {session : Nat}
      (hsession : s.ui.sessionId = some session)
      (hidle : s.ui.isStreaming = false) :
      Moves s (.sendMessage text)
        { s with ui := s.ui.send text
                 calls := s.calls ++ [{ session, display := s.display }] }
  | cancelled {session : Nat} (hsession : s.ui.sessionId = some session) :
      Moves s .cancelRequest
        { s with ui := s.ui.cancel, calls := cancelAll session s.calls }
  | asked {a : Act} {ui : Ui} {session : Nat} {load : Option Conversation}
      (hsession : ui.sessionId = s.ui.sessionId)
      (hgen : ui.generationRef = s.ui.generationRef)
      (hmessages : ui.messages = s.ui.messages)
      (hstreaming : ui.isStreaming = s.ui.isStreaming)
      (href : ui.streamingMessageRef = s.ui.streamingMessageRef) :
      Moves s a
        { s with ui, clears := s.clears ++ [⟨session, load, .sent⟩] }
  | deleted {convId : String} (h : s.ui.conversationId = some convId) :
      Moves s (.deleteConversation convId)
        (s.replace (s.ui.forget convId).resetChatState)
  | found {i : Nat} {c : Call} (hc : s.calls[i]? = some c)
      (hphase : c.phase = .sent) :
      Moves s (.find i) (s.setCall i { c with phase := .found })
  | rejected {i : Nat} {c : Call} {error : Text}
      (hc : s.calls[i]? = some c) (hwaiting : c.waiting = true) :
      Moves s (.reject i error) (s.setCall i { c with
        phase := .rejected
        inFlight := [{ sessionID := c.session, error, done := true }]
        ended := true })
  | accepted {i : Nat} {c : Call} (hc : s.calls[i]? = some c)
      (hphase : c.phase = .found) :
      Moves s (.accept i)
        (({ s with calls := cancelAll c.session s.calls }.advance
          c.session).setCall i { c with
            phase := .accepted (s.generation c.session + 1) })
  | rejectedStarted {i : Nat} {c : Call} {error : Text}
      (hc : s.calls[i]? = some c) (hphase : c.phase = .found) :
      Moves s (.rejectStarted i error)
        ((s.advance c.session).setCall i { c with
          phase := .rejected
          inFlight := [{ sessionID := c.session
                         generation := s.generation c.session + 1
                         error, done := true }]
          ended := true })
  | emitted {i : Nat} {c : Call} {event : AIResponseEvent} {gen : Nat}
      (hc : s.calls[i]? = some c) (hphase : c.phase = .accepted gen)
      (hended : c.ended = false) :
      Moves s (.emit i event) (s.setCall i { c with
        inFlight := c.inFlight
          ++ [{ event with sessionID := c.session, generation := gen }]
        ended := event.done })
  | delivered {i : Nat} {c : Call} {event : AIResponseEvent}
      {rest : List AIResponseEvent} (hc : s.calls[i]? = some c)
      (hnext : c.inFlight = event :: rest) :
      Moves s (.deliver i) ({ s with ui := s.ui.handler event }.setCall i
        { c with inFlight := rest })
  | granted {i : Nat} {c : Call} {gen : Nat} (hc : s.calls[i]? = some c)
      (hanswered : c.answered = false) (hphase : c.phase = .accepted gen) :
      Moves s (.respond i)
        ({ s with ui := { s.ui with isStreaming := true } }.setCall i
          { c with answered := true })
  | refused {i : Nat} {c : Call} (hc : s.calls[i]? = some c)
      (hanswered : c.answered = false) (hphase : c.phase = .rejected) :
      Moves s (.respond i) (s.setCall i { c with answered := true })
  | lost {i : Nat} {c : Call} (hc : s.calls[i]? = some c)
      (hanswered : c.answered = false) :
      Moves s (.callFails i) (s.setCall i { c with answered := true })
  | served {j : Nat} {k : Clear} (hk : s.clears[j]? = some k)
      (hphase : k.phase = .sent) :
      Moves s (.clearServed j)
        { s.unlist k.session with
          sessions := (s.unlist k.session).sessions ++ [{}]
          clears := (s.unlist k.session).clears.set j
            { k with
              phase := .served (s.unlist k.session).sessions.length } }
  | renewed {j : Nat} {k : Clear} {newId : Nat}
      (hk : s.clears[j]? = some k) (hphase : k.phase = .served newId) :
      Moves s (.clearAnswered j) (s.settle j k (some newId))
  | stayed {j : Nat} {k : Clear} (hk : s.clears[j]? = some k)
      (hphase : k.phase ≠ .settled) :
      Moves s (.clearFails j) (s.settle j k none)
  | closed {session : Nat} {rest : List Nat}
      (h : s.closes = session :: rest) :
      Moves s .closeServed { s.unlist session with closes := rest }

theorem moves_clear {s : State} {a : Act} {session : Nat}
    (hsession : s.ui.sessionId = some session)
    (load : Option Conversation) {ui : Ui}
    (hui : ui.sessionId = s.ui.sessionId)
    (hgen : ui.generationRef = s.ui.generationRef)
    (hmessages : ui.messages = s.ui.messages)
    (hstreaming : ui.isStreaming = s.ui.isStreaming)
    (href : ui.streamingMessageRef = s.ui.streamingMessageRef) :
    Moves s a (State.clear load { s with ui }) := by
  have hopen : ({ s with ui } : State).ui.sessionId = some session :=
    hui.trans hsession
  unfold State.clear
  rw [hopen]
  exact .asked hui hgen hmessages hstreaming href

/-- The panel's own steps. -/
theorem moves_of_panelStep {s s' : State} {a : Act} {session : Nat}
    (hsession : s.ui.sessionId = some session)
    (h : panelStep a s = some s') : Moves s a s' := by
  cases a with
  | sendMessage text =>
    rw [panelStep, hsession] at h
    dsimp only at h
    split at h
    next =>
      cases h
      exact .quiet rfl rfl rfl rfl rfl
    next hgo =>
      cases h
      refine .sent hsession ?_
      exact Bool.eq_false_iff.mpr fun hstreaming => hgo (.inr hstreaming)
  | cancelRequest =>
    rw [panelStep, hsession] at h
    cases h
    exact .cancelled hsession
  | startNewChat =>
    cases h
    exact moves_clear hsession none rfl rfl rfl rfl rfl
  | loadConversation convId =>
    rw [panelStep] at h
    split at h
    next conv _ =>
      cases h
      exact moves_clear hsession (some conv) rfl rfl rfl rfl rfl
    next =>
      cases h
      exact .quiet rfl rfl rfl rfl rfl
  | deleteConversation convId =>
    rw [panelStep] at h
    dsimp only at h
    split at h
    next hshown =>
      cases h
      exact .deleted hshown
    next =>
      cases h
      exact .quiet rfl rfl rfl rfl rfl
  | autosave newId =>
    cases h
    refine .quiet ?_ ?_ ?_ ?_ ?_
    all_goals
      unfold Ui.autosave
      split <;> rfl
  | find _ | reject _ _ | accept _ | rejectStarted _ _ | emit _ _
  | deliver _ | respond _ | callFails _ | clearServed _ | clearAnswered _
  | clearFails _ | closeServed => cases h

/-- What the manager does with a call of `SendMessage`. -/
theorem moves_of_serve {s s' : State} {i : Nat} {c : Call} {a : Act}
    (ha : a = .find i ∨ (∃ error, a = .reject i error) ∨ a = .accept i
      ∨ (∃ error, a = .rejectStarted i error) ∨ ∃ event, a = .emit i event)
    (hc : s.calls[i]? = some c) (h : serve i c a s = some s') :
    Moves s a s' := by
  rcases ha with rfl | ⟨error, rfl⟩ | rfl | ⟨error, rfl⟩ | ⟨event, rfl⟩
  · rw [serve] at h
    split at h
    next hfound =>
      cases h
      exact .found hc hfound.1
    next => cases h
  · rw [serve] at h
    split at h
    next hwaiting =>
      cases h
      exact .rejected hc hwaiting
    next => cases h
  · rw [serve] at h
    split at h
    next hphase =>
      cases h
      exact .accepted hc hphase
    next => cases h
  · rw [serve] at h
    split at h
    next hphase =>
      cases h
      exact .rejectedStarted hc hphase
    next => cases h
  · rw [serve] at h
    split at h
    next gen hphase =>
      split at h
      next => cases h
      next hended =>
        cases h
        exact .emitted hc hphase (Bool.eq_false_iff.mpr hended)
    next => cases h

theorem moves_of_hear {s s' : State} {i : Nat} {c : Call} {a : Act}
    (ha : a = .deliver i ∨ a = .respond i ∨ a = .callFails i)
    (hc : s.calls[i]? = some c) (h : hear i c a s = some s') :
    Moves s a s' := by
  rcases ha with rfl | rfl | rfl
  · rw [hear] at h
    split at h
    next event rest hnext =>
      cases h
      exact .delivered hc hnext
    next => cases h
  · rw [hear] at h
    split at h
    next => cases h
    next hanswered =>
      have hopen := Bool.eq_false_iff.mpr hanswered
      split at h
      next gen hphase =>
        cases h
        exact .granted hc hopen hphase
      next hphase =>
        cases h
        exact .refused hc hopen hphase
      next => cases h
  · rw [hear] at h
    split at h
    next => cases h
    next hanswered =>
      cases h
      exact .lost hc (Bool.eq_false_iff.mpr hanswered)

theorem moves_of_clearStep {s s' : State} {j : Nat} {k : Clear} {a : Act}
    (ha : a = .clearServed j ∨ a = .clearAnswered j ∨ a = .clearFails j)
    (hk : s.clears[j]? = some k) (h : clearStep j k a s = some s') :
    Moves s a s' := by
  rcases ha with rfl | rfl | rfl
  · rw [clearStep] at h
    split at h
    next hphase =>
      cases h
      exact .served hk hphase
    next => cases h
  · rw [clearStep] at h
    split at h
    next newId hphase =>
      cases h
      exact .renewed hk hphase
    next => cases h
  · rw [clearStep] at h
    split at h
    next => cases h
    next hphase =>
      cases h
      exact .stayed hk hphase

/-- Every step with a session on display is one of them. -/
theorem moves_of_next {s s' : State} {a : Act} {session : Nat}
    (hsession : s.ui.sessionId = some session)
    (h : next a s = some s') : Moves s a s' := by
  cases a with
  | sendMessage _ | cancelRequest | startNewChat | loadConversation _
  | deleteConversation _ | autosave _ => exact moves_of_panelStep hsession h
  | find i =>
    obtain ⟨c, hc, h⟩ := Option.bind_eq_some_iff.mp h
    exact moves_of_serve (.inl rfl) hc h
  | reject i error =>
    obtain ⟨c, hc, h⟩ := Option.bind_eq_some_iff.mp h
    exact moves_of_serve (.inr (.inl ⟨error, rfl⟩)) hc h
  | accept i =>
    obtain ⟨c, hc, h⟩ := Option.bind_eq_some_iff.mp h
    exact moves_of_serve (.inr (.inr (.inl rfl))) hc h
  | rejectStarted i error =>
    obtain ⟨c, hc, h⟩ := Option.bind_eq_some_iff.mp h
    exact moves_of_serve (.inr (.inr (.inr (.inl ⟨error, rfl⟩)))) hc h
  | emit i event =>
    obtain ⟨c, hc, h⟩ := Option.bind_eq_some_iff.mp h
    exact moves_of_serve (.inr (.inr (.inr (.inr ⟨event, rfl⟩)))) hc h
  | deliver i =>
    obtain ⟨c, hc, h⟩ := Option.bind_eq_some_iff.mp h
    exact moves_of_hear (.inl rfl) hc h
  | respond i =>
    obtain ⟨c, hc, h⟩ := Option.bind_eq_some_iff.mp h
    exact moves_of_hear (.inr (.inl rfl)) hc h
  | callFails i =>
    obtain ⟨c, hc, h⟩ := Option.bind_eq_some_iff.mp h
    exact moves_of_hear (.inr (.inr rfl)) hc h
  | clearServed j =>
    obtain ⟨k, hk, h⟩ := Option.bind_eq_some_iff.mp h
    exact moves_of_clearStep (.inl rfl) hk h
  | clearAnswered j =>
    obtain ⟨k, hk, h⟩ := Option.bind_eq_some_iff.mp h
    exact moves_of_clearStep (.inr (.inl rfl)) hk h
  | clearFails j =>
    obtain ⟨k, hk, h⟩ := Option.bind_eq_some_iff.mp h
    exact moves_of_clearStep (.inr (.inr rfl)) hk h
  | closeServed =>
    rw [next] at h
    split at h
    next session rest hcloses =>
      cases h
      exact .closed hcloses
    next => cases h

theorem moves_of_step {s s' : State} {a : Act} {out : List Empty}
    {session : Nat} (hsession : s.ui.sessionId = some session)
    (h : step a s = some (s', out)) : Moves s a s' := by
  obtain ⟨s₁, hnext, heq⟩ := Option.map_eq_some_iff.mp h
  cases heq
  exact moves_of_next hsession hnext

-- ======== the handler

/-- An event leaves the session and the generation of the panel alone. -/
theorem handler_counters (event : AIResponseEvent) (ui : Ui) :
    (ui.handler event).sessionId = ui.sessionId
      ∧ (ui.handler event).generationRef = ui.generationRef := by
  unfold Ui.handler
  split
  · exact ⟨rfl, rfl⟩
  · split
    · have hshow : (ui.showError event).sessionId = ui.sessionId
          ∧ (ui.showError event).generationRef = ui.generationRef := by
        unfold Ui.showError
        split <;> exact ⟨rfl, rfl⟩
      unfold Ui.applyError
      split <;> exact hshow
    · have htool : (ui.applyTool event).sessionId = ui.sessionId
          ∧ (ui.applyTool event).generationRef = ui.generationRef := by
        unfold Ui.applyTool
        split
        · exact ⟨rfl, rfl⟩
        · split <;> exact ⟨rfl, rfl⟩
      have hchunk : ∀ u : Ui, (u.applyChunk event).sessionId = u.sessionId
          ∧ (u.applyChunk event).generationRef = u.generationRef := by
        intro u
        unfold Ui.applyChunk
        split
        · exact ⟨rfl, rfl⟩
        · dsimp only
          split <;> exact ⟨rfl, rfl⟩
      have hdone : ∀ u : Ui, (u.applyDone event).sessionId = u.sessionId
          ∧ (u.applyDone event).generationRef = u.generationRef := by
        intro u
        unfold Ui.applyDone
        split
        · dsimp only
          split <;> exact ⟨rfl, rfl⟩
        · exact ⟨rfl, rfl⟩
      exact ⟨(hdone _).1.trans ((hchunk _).1.trans htool.1),
        (hdone _).2.trans ((hchunk _).2.trans htool.2)⟩

end Chat
