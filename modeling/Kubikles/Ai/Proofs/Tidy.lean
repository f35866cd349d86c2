/-
The message that streams, and the handler of the chat panel.

# The invariant

At most one message streams at a time, and the ref names it (`Ui.Tidy`).
Every branch of the handler keeps that, and a last event leaves no message
streaming (`handler_done`).
-/
import Kubikles.Ai.Chat

namespace Chat

open Ai (AIResponseEvent)

def Ui.Tidy (ui : Ui) : Prop :=
  ∀ m ∈ ui.messages, m.streaming = true →
    ui.streamingMessageRef = some m.id

def Ui.Busy (ui : Ui) : Prop :=
  ui.isStreaming = true ∨ ui.streamingMessageRef ≠ none

def Ui.Still (ui : Ui) : Prop := ∀ m ∈ ui.messages, m.streaming = false

theorem Ui.Still.tidy {ui : Ui} (h : ui.Still) : ui.Tidy := by
  intro m hm hstreaming
  rw [h m hm] at hstreaming
  cases hstreaming

theorem Ui.Tidy.edit {ui : Ui} (h : ui.Tidy) {id : Nat}
    (hid : ui.streamingMessageRef = some id)
    (f : ChatMessage → ChatMessage) (hf : ∀ m, (f m).id = m.id) :
    (ui.edit id f).Tidy := by
  intro m hm hstreaming
  obtain ⟨m', hm', rfl⟩ := List.mem_map.mp hm
  show ui.streamingMessageRef = _
  by_cases hsame : m'.id = id
  · rw [if_pos hsame, hf, hid, hsame]
  · rw [if_neg hsame] at hstreaming ⊢
    exact h m' hm' hstreaming

theorem Ui.Tidy.still_edit {ui : Ui} (h : ui.Tidy) {id : Nat}
    (hid : ui.streamingMessageRef = some id)
    (f : ChatMessage → ChatMessage) (hf : ∀ m, (f m).streaming = false) :
    (ui.edit id f).Still := by
  intro m hm
  obtain ⟨m', hm', rfl⟩ := List.mem_map.mp hm
  by_cases hsame : m'.id = id
  · rw [if_pos hsame]
    exact hf m'
  · rw [if_neg hsame]
    by_contra hstreaming
    have hnamed := h m' hm' (Bool.not_eq_false _ ▸ hstreaming)
    rw [hid] at hnamed
    exact hsame (Option.some.inj hnamed).symm

theorem Ui.Tidy.still {ui : Ui} (h : ui.Tidy)
    (hnone : ui.streamingMessageRef = none) : ui.Still := by
  intro m hm
  by_contra hstreaming
  have hnamed := h m hm (Bool.not_eq_false _ ▸ hstreaming)
  rw [hnone] at hnamed
  cases hnamed

theorem Ui.Tidy.answer {ui : Ui} (h : ui.Tidy)
    (hnone : ui.streamingMessageRef = none) (content : Text)
    (blocks : List MessageBlock) : (ui.answer content blocks).Tidy := by
  intro m hm hstreaming
  rcases List.mem_append.mp hm with hm | hm
  · rw [h.still hnone m hm] at hstreaming
    cases hstreaming
  · obtain rfl := List.mem_singleton.mp hm
    rfl

theorem Ui.Tidy.append {ui : Ui} (h : ui.Tidy) (ui' : Ui)
    {m : ChatMessage} (hm : m.streaming = false) (hmessages : ui'.messages = ui.messages ++ [m])
    (href : ui'.streamingMessageRef = ui.streamingMessageRef) :
    ui'.Tidy := by
  intro m' hm' hstreaming
  rw [hmessages] at hm'
  rw [href]
  rcases List.mem_append.mp hm' with hm' | hm'
  · exact h m' hm' hstreaming
  · obtain rfl := List.mem_singleton.mp hm'
    rw [hm] at hstreaming
    cases hstreaming

theorem showError_ref (event : AIResponseEvent) (ui : Ui) :
    (ui.showError event).streamingMessageRef = none := by
  unfold Ui.showError
  split
  · rfl
  next hnone => exact hnone

theorem Ui.Tidy.showError {ui : Ui} (h : ui.Tidy)
    (event : AIResponseEvent) : (ui.showError event).Still := by
  refine Ui.Tidy.still ?_ (showError_ref event ui)
  unfold Ui.showError
  split
  next id hid =>
    exact Ui.Still.tidy (h.still_edit hid (fun m =>
      { m.mark (errorMarker event.error) with isError := true })
      fun _ => rfl)
  next => exact h.append _ rfl rfl rfl

theorem Ui.Tidy.applyError {ui : Ui} (h : ui.Tidy)
    (event : AIResponseEvent) : (ui.applyError event).Tidy := by
  unfold Ui.applyError
  split
  · exact Ui.Still.tidy (h.showError event)
  · exact (h.showError event).tidy

theorem Ui.Tidy.applyTool {ui : Ui} (h : ui.Tidy)
    (event : AIResponseEvent) : (ui.applyTool event).Tidy := by
  unfold Ui.applyTool
  split
  · exact h
  · split
    next id hid => exact h.edit hid _ fun _ => rfl
    next hnone => exact h.answer hnone _ _

theorem Ui.Tidy.applyChunk {ui : Ui} (h : ui.Tidy)
    (event : AIResponseEvent) : (ui.applyChunk event).Tidy := by
  unfold Ui.applyChunk
  split
  · exact h
  · have hsame : ({ ui with
        currentUsageRef := event.usage.or ui.currentUsageRef } : Ui).Tidy := h
    dsimp only
    split
    next id hid => exact hsame.edit hid _ fun _ => rfl
    next hnone => exact hsame.answer hnone _ _

theorem Ui.Tidy.applyDone {ui : Ui} (h : ui.Tidy)
    (event : AIResponseEvent) : (ui.applyDone event).Tidy := by
  unfold Ui.applyDone
  split
  · dsimp only
    split
    next id hid =>
      exact Ui.Still.tidy (h.still_edit hid (fun m =>
        { m with
          streaming := false
          usage := event.usage.or ui.currentUsageRef
          blocks := m.blocks.map (finalizeBlocks .done) }) fun _ => rfl)
    next hnone => exact Ui.Still.tidy (h.still hnone)
  · exact h

theorem Ui.Tidy.handler {ui : Ui} (h : ui.Tidy) (event : AIResponseEvent) :
    (ui.handler event).Tidy := by
  unfold Ui.handler
  split
  · exact h
  · split
    · exact h.applyError event
    · exact ((h.applyTool event).applyChunk event).applyDone event

theorem handler_done {ui : Ui} {event : AIResponseEvent}
    (hpass : ui.drops event = false) (hdone : event.done = true) :
    ¬ (ui.handler event).Busy := by
  unfold Ui.handler
  rw [hpass]
  by_cases herror : event.error ≠ []
  · rw [if_neg Bool.false_ne_true, if_pos herror]
    simp [Ui.applyError, Ui.Busy, hdone]
  · rw [if_neg Bool.false_ne_true, if_neg herror]
    simp [Ui.applyDone, Ui.Busy, hdone]

theorem handler_open {ui : Ui} {event : AIResponseEvent}
    (hdone : event.done = false) :
    (ui.handler event).isStreaming = ui.isStreaming := by
  unfold Ui.handler
  split
  · rfl
  · split
    · unfold Ui.applyError Ui.showError
      rw [hdone, if_neg Bool.false_ne_true]
      split <;> rfl
    · have htool : (ui.applyTool event).isStreaming = ui.isStreaming := by
        unfold Ui.applyTool
        split
        · rfl
        · split <;> rfl
      have hchunk : ∀ u : Ui,
          (u.applyChunk event).isStreaming = u.isStreaming := by
        intro u
        unfold Ui.applyChunk
        split
        · rfl
        · dsimp only
          split <;> rfl
      have hend : ∀ u : Ui, u.applyDone event = u := by
        intro u
        unfold Ui.applyDone
        rw [hdone]
        exact if_neg Bool.false_ne_true
      rw [hend, hchunk, htool]

theorem Ui.Tidy.cancel {ui : Ui} (h : ui.Tidy) :
    ui.cancel.Still ∧ ¬ ui.cancel.Busy
      ∧ ui.cancel.sessionId = ui.sessionId
      ∧ ui.cancel.generationRef = ui.generationRef := by
  unfold Ui.cancel
  cases href : ui.streamingMessageRef with
  | some id =>
    refine ⟨h.still_edit href (·.mark cancelMarker) fun _ => rfl, ?_, rfl,
      rfl⟩
    simp [Ui.Busy]
  | none =>
    refine ⟨h.still href, ?_, rfl, rfl⟩
    simp [Ui.Busy]

end Chat
