/-
The chat panel (frontend/src/context/AIChatContext.tsx,
utils/aiChatBlocks.ts).

# React

A setter takes effect where it is called: React renders between two of the
moments that are steps here, so the updaters of one have run before the
next.

# Texts

`text.trim()` has been done where a text is sent. What is put before it and
sent along with it (the view, the system prompt, the tools) concerns the
backend alone.
-/
import Kubikles.Ai.OneShot

namespace Chat

open Ai (AIResponseEvent AIToolEvent TokenUsage)

-- ======== blocks

inductive ToolCallStatus where
  | running
  | done
  | error
deriving DecidableEq

inductive MessageBlock where
  | text (content : Text)
  | toolCall (toolId name input result : Text) (status : ToolCallStatus)
deriving DecidableEq

def appendText (blocks : List MessageBlock) (chunk : Text) :
    List MessageBlock :=
  match blocks.getLast? with
  | some (.text content) => blocks.dropLast ++ [.text (content ++ chunk)]
  | _ => blocks ++ [.text chunk]

def MessageBlock.isCall (id : Text) : MessageBlock → Bool
  | .text _ => false
  | .toolCall toolId _ _ _ _ => toolId = id

def finalStatus (ev : AIToolEvent) : ToolCallStatus :=
  if ev.error then .error else .done

def applyToolEvent (blocks : List MessageBlock) (ev : AIToolEvent) :
    List MessageBlock :=
  if ¬ ev.done then
    blocks ++ [.toolCall ev.id ev.name ev.input [] .running]
  else if blocks.any (MessageBlock.isCall ev.id) then
    blocks.map fun block =>
      match block with
      | .toolCall toolId name input result status =>
        if toolId = ev.id then
          .toolCall toolId name input ev.result (finalStatus ev)
        else .toolCall toolId name input result status
      | .text content => .text content
  else blocks ++ [.toolCall ev.id ev.name [] ev.result (finalStatus ev)]

def finalizeBlocks (interruptedStatus : ToolCallStatus)
    (blocks : List MessageBlock) : List MessageBlock :=
  blocks.map fun block =>
    match block with
    | .toolCall toolId name input result .running =>
      .toolCall toolId name input result interruptedStatus
    | _ => block

-- ======== messages

inductive MessageRole where
  | user
  | assistant
deriving DecidableEq

/-- `ChatMessage`; the `id` is the number in it. -/
structure ChatMessage where
  id : Nat
  role : MessageRole
  content : Text
  streaming : Bool := false
  isError : Bool := false
  usage : Option TokenUsage := none
  blocks : Option (List MessageBlock) := none
deriving DecidableEq

def ChatMessage.mark (marker : Text) (m : ChatMessage) : ChatMessage :=
  { m with content := m.content ++ marker
           streaming := false
           blocks := m.blocks.map fun blocks =>
             appendText (finalizeBlocks .error blocks) marker }

/-- `'\n\n[Error: ' + error + ']'`. -/
def errorMarker (error : Text) : Text :=
  Text.ofString "\n\n[Error: " ++ error ++ Text.ofString "]"

/-- `'\n\n[Cancelled]'`. -/
def cancelMarker : Text := Text.ofString "\n\n[Cancelled]"

/-- `ConversationHistoryItem`. -/
structure Conversation where
  id : String
  messages : List ChatMessage
deriving DecidableEq

def maxConversations : Nat := 10

-- ======== the panel

/-- The state and the refs of the provider; `messageCounter` belongs to
its module. -/
structure Ui where
  messages : List ChatMessage := []
  isStreaming : Bool := false
  sessionId : Option Nat := none
  conversationId : Option String := none
  conversationHistory : List Conversation := []
  streamingMessageRef : Option Nat := none
  generationRef : Nat := 0
  currentUsageRef : Option TokenUsage := none
  messageCounter : Nat := 0
deriving DecidableEq

namespace Ui

/-- The guards of the handler: an event of another session, or of a
previous generation. -/
def drops (event : AIResponseEvent) (ui : Ui) : Bool :=
  some event.sessionID ≠ ui.sessionId
    || event.generation ≠ 0 && event.generation < ui.generationRef

def edit (id : Nat) (f : ChatMessage → ChatMessage) (ui : Ui) : Ui :=
  { ui with messages := ui.messages.map fun m =>
      if m.id = id then f m else m }

/-- A new assistant message; the first to stream if it streams. -/
def answer (content : Text) (blocks : List MessageBlock) (ui : Ui) : Ui :=
  { ui with
    messages := ui.messages ++ [{
      id := ui.messageCounter + 1, role := .assistant, content
      streaming := true, blocks := some blocks }]
    streamingMessageRef := some (ui.messageCounter + 1)
    messageCounter := ui.messageCounter + 1 }

/-- An error is put to the message that streams, or stands alone. -/
def showError (event : AIResponseEvent) (ui : Ui) : Ui :=
  match ui.streamingMessageRef with
  | some id =>
    { ui.edit id fun m =>
        { m.mark (errorMarker event.error) with isError := true } with
      streamingMessageRef := none }
  | none =>
    { ui with
      messages := ui.messages ++ [{
        id := ui.messageCounter + 1, role := .assistant
        content := Text.ofString "Error: " ++ event.error
        isError := true }]
      messageCounter := ui.messageCounter + 1 }

/-- The handler's branch for an error. -/
def applyError (event : AIResponseEvent) (ui : Ui) : Ui :=
  if event.done then
    { ui.showError event with
      isStreaming := false, streamingMessageRef := none }
  else ui.showError event

/-- The handler's branch for a tool. -/
def applyTool (event : AIResponseEvent) (ui : Ui) : Ui :=
  match event.tool with
  | none => ui
  | some tool =>
    match ui.streamingMessageRef with
    | some id =>
      ui.edit id fun m =>
        { m with
          blocks := some (applyToolEvent (m.blocks.getD []) tool) }
    | none => ui.answer [] (applyToolEvent [] tool)

/-- The handler's branch for a chunk. -/
def applyChunk (event : AIResponseEvent) (ui : Ui) : Ui :=
  if event.chunk = [] then ui
  else
    let ui' := { ui with
      currentUsageRef := event.usage.or ui.currentUsageRef }
    match ui.streamingMessageRef with
    | some id =>
      ui'.edit id fun m =>
        { m with
          content := m.content ++ event.chunk
          blocks := some (appendText
            (m.blocks.getD [.text m.content]) event.chunk) }
    | none => ui'.answer event.chunk [.text event.chunk]

/-- The handler's branch for the end. -/
def applyDone (event : AIResponseEvent) (ui : Ui) : Ui :=
  if event.done then
    let usage := event.usage.or ui.currentUsageRef
    let ui' :=
      match ui.streamingMessageRef with
      | some id =>
        ui.edit id fun m =>
          { m with
            streaming := false
            usage
            blocks := m.blocks.map (finalizeBlocks .done) }
      | none => ui
    { ui' with currentUsageRef := usage
               streamingMessageRef := none
               isStreaming := false }
  else ui

/-- The handler of `ai:response`. -/
def handler (event : AIResponseEvent) (ui : Ui) : Ui :=
  if ui.drops event then ui
  else if event.error ≠ [] then ui.applyError event
  else ((ui.applyTool event).applyChunk event).applyDone event

/-- `sendMessage` up to the call, where it comes that far. -/
def send (text : Text) (ui : Ui) : Ui :=
  { ui with
    messages := ui.messages ++ [{
      id := ui.messageCounter + 1, role := .user, content := text }]
    messageCounter := ui.messageCounter + 1
    generationRef := ui.generationRef + 1
    currentUsageRef := none }

/-- `cancelRequest` of an open session. -/
def cancel (ui : Ui) : Ui :=
  match ui.streamingMessageRef with
  | some id =>
    { ui.edit id (·.mark cancelMarker) with
      isStreaming := false, streamingMessageRef := none }
  | none => { ui with isStreaming := false }

def resetChatState (ui : Ui) : Ui :=
  { ui with messages := []
            isStreaming := false
            streamingMessageRef := none
            generationRef := 0
            conversationId := none }

/-- `loadState` of `loadConversation`. -/
def loadState (conv : Conversation) (ui : Ui) : Ui :=
  { ui with messages := conv.messages
            isStreaming := false
            streamingMessageRef := none
            generationRef := 0
            conversationId := some conv.id }

/-- `messageCounter` behind the ids of a conversation that is loaded. -/
def countPast (conv : Conversation) (ui : Ui) : Ui :=
  { ui with
    messageCounter :=
      max ui.messageCounter (conv.messages.foldl (max · ·.id) 0) }

/-- `setConversationHistory` of `deleteConversation`. -/
def forget (convId : String) (ui : Ui) : Ui :=
  { ui with conversationHistory :=
      ui.conversationHistory.filter fun c => c.id ≠ convId }

/-- The effect that saves the conversation; the id is for one that has
none yet. -/
def autosave (newId : String) (ui : Ui) : Ui :=
  if ui.messages.any (·.role = .user) ∧ ui.isStreaming = false then
    let id := ui.conversationId.getD newId
    let conv : Conversation :=
      ⟨id, ui.messages.map fun m => { m with blocks := none }⟩
    let updated :=
      match ui.conversationHistory.findIdx? (·.id = id) with
      | some i => ui.conversationHistory.set i conv
      | none => conv :: ui.conversationHistory
    { ui with conversationId := some id
              conversationHistory := updated.take maxConversations }
  else ui

end Ui

end Chat
