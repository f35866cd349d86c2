/-
The provider for the Anthropic API (pkg/ai/anthropic_api.go and
anthropic_tools.go).

`SendMessage` is a loop: the model streams a message, the tools it names
in it are executed, their results are sent back. A streamed message is one
step here, with whatever the model may answer; so is the execution of one
tool, and the assignment of the allowed commands.

Costs and cache markers are left out. What the SDK makes of a block of
another type is not used by the loop; such blocks are only sent back.
-/
import Kubikles.Ai.OneShot

namespace Ai.Anthropic

open Tools (ToolDef Dispatch)

-- ======== messages

/-- `anthropic.ToolUseBlock`. -/
structure ToolUse where
  id : Text
  name : Text
  input : Text
deriving DecidableEq

inductive ContentBlock where
  | text (text : Text)
  | toolUse (use : ToolUse)
  | other
deriving DecidableEq

structure ToolResult where
  toolUseID : Text
  content : Text
  isError : Bool
deriving DecidableEq

/-- `anthropic.MessageParam`. -/
inductive MessageParam where
  | user (text : Text)
  | assistant (text : Text)
  | reply (content : List ContentBlock)
  | toolResults (results : List ToolResult)
deriving DecidableEq

def convertHistory (history : List Message) (newMessage : Text) :
    List MessageParam :=
  history.map (fun msg =>
    match msg.role with
    | .user => MessageParam.user msg.content
    | .assistant => .assistant msg.content)
  ++ [.user newMessage]

def extractToolUses (content : List ContentBlock) : List ToolUse :=
  content.filterMap fun
    | .toolUse use => some use
    | _ => none

def accumulateUsage (total usage : TokenUsage) : TokenUsage where
  inputTokens := total.inputTokens + usage.inputTokens
  outputTokens := total.outputTokens + usage.outputTokens
  cacheReadTokens := total.cacheReadTokens + usage.cacheReadTokens
  cacheCreationTokens :=
    total.cacheCreationTokens + usage.cacheCreationTokens

-- ======== texts

def compactJSON (raw : Text) : Text :=
  match Json.parse raw with
  | some value => value.compact
  | none => raw

/-- The largest place up to `cut` where a rune starts (`utf8.RuneStart`),
or 0. -/
def runeStart (s : Text) : Nat → Nat
  | 0 => 0
  | cut + 1 =>
    match s[cut + 1]? with
    | some b => if 0x80 ≤ b && b ≤ 0xBF then runeStart s cut else cut + 1
    | none => cut + 1

def truncateForUI (s : Text) (max : Nat) : Text :=
  if s.length ≤ max then s
  else s.take (runeStart s max) ++ Text.ofString "… [truncated]"

def toolResultTruncateLimit : Nat := 2000

-- ======== steps

structure Turn where
  req : Request
  i : Nat := 0
  messages : List MessageParam
  totalUsage : TokenUsage := {}
deriving DecidableEq

/-- How far `SendMessage` is. -/
inductive State where
  | start (req : Request)
  /-- `setAllowedCommands`. -/
  | setAllowedCommands (req : Request)
  /-- The look at the context at the head of the loop. -/
  | loop (turn : Turn)
  | stream (turn : Turn)
  /-- The look at the context before tools are executed. -/
  | check (turn : Turn) (toolUses : List ToolUse)
  /-- `executeToolsAndBuildResult`: the tool uses there still are, and the
  results there are already. -/
  | execute (turn : Turn) (toolUses : List ToolUse)
      (results : List ToolResult)
deriving DecidableEq

inductive StreamEnd where
  | accumulateError (err : Text)
  | streamError (err : Text)
  | message (content : List ContentBlock) (usage : TokenUsage)

inductive Answer where
  | tick
  | apiKey (configured : Bool)
  | ctx (err : Option CtxErr)
  | stream (deltas : List Text) (ending : StreamEnd)
  /-- What a tool answers; of input that cannot be parsed, what is wrong
  with it. -/
  | tool (result : Text) (isError : Bool)
  | panic (value : Text)

/-- What is seen of the provider beside its events. -/
inductive Out where
  /-- The model is asked, and told of these tools. -/
  | ask (tools : List ToolDef) (messages : List MessageParam)
  /-- `CallTool`. -/
  | callTool (name : Text) (dispatch : Dispatch)

def maxToolLoops : Nat := 25

def resultEvent (use : ToolUse) (result : Text) (isError : Bool) :
    StreamEvent where
  type := .toolResult
  content := truncateForUI result toolResultTruncateLimit
  toolID := use.id
  toolName := use.name
  isError := isError

def noClient : Text :=
  Text.ofString
    "Kubernetes client not initialized — cannot execute tools"

def Turn.back (turn : Turn) (results : List ToolResult) : Turn :=
  { turn with
    i := turn.i + 1
    messages := turn.messages ++ [.toolResults results] }

def executed (turn : Turn) (rest : List ToolUse)
    (results : List ToolResult) : State :=
  match rest with
  | [] => .loop (turn.back results)
  | _ => .execute turn rest results

variable (cfg : Config) (client : Bool)

/-- `SendMessage`; `p.k8sClient` is there or not. -/
def step : State → Answer → List Text →
    Option (Streamed State (List Text) Out)
  | .start req, .apiKey configured, tools =>
    some { tools
           provided :=
            if configured then .more (.setAllowedCommands req)
            else .returned (some (Text.ofString
              "anthropic API key not configured")) }
  | .setAllowedCommands req, .tick, _ =>
    some { tools := req.allowedCommands
           provided := .more (.loop
            { req := req
              messages := convertHistory req.history req.message }) }
  | .loop turn, .ctx err, tools =>
    if turn.i < maxToolLoops then
      match err with
      | some err =>
        some { tools, provided := .returned (some err.text) }
      | none => some { tools, provided := .more (.stream turn) }
    else
      some { tools
             provided := .returned none
             events :=
              [{ type := .error
                 content := Text.ofString
                   "exceeded maximum tool use iterations" },
                { type := .done, usage := some turn.totalUsage }] }
  | .stream turn, .stream deltas ending, tools =>
    let texts : List StreamEvent :=
      (deltas.filter (· ≠ [])).map fun delta =>
        { type := .text, content := delta }
    let out : List Out :=
      [.ask (buildToolParams cfg turn.req.allowedTools) turn.messages]
    match ending with
    | .accumulateError err =>
      some { tools
             provided := .returned (some
              (Text.ofString "stream accumulate error: " ++ err))
             events := texts
             out }
    | .streamError err =>
      some { tools
             provided := .returned (some
              (Text.ofString "anthropic API stream error: " ++ err))
             events := texts
             out }
    | .message content usage =>
      let turn' : Turn :=
        { turn with
          messages := turn.messages ++ [.reply content]
          totalUsage := accumulateUsage turn.totalUsage usage }
      match extractToolUses content with
      | [] =>
        some { tools
               provided := .returned none
               events := texts ++
                [{ type := .done, usage := some turn'.totalUsage }]
               out }
      | use :: rest =>
        some { tools
               provided := .more (.check turn' (use :: rest))
               events := texts
               out }
  | .check turn toolUses, .ctx err, tools =>
    match err with
    | some err => some { tools, provided := .returned (some err.text) }
    | none =>
      let uses : List StreamEvent := toolUses.map fun use =>
        { type := .toolUse, content := compactJSON use.input
          toolID := use.id, toolName := use.name }
      if client then
        some { tools
               provided := .more (.execute turn toolUses [])
               events := uses }
      else
        some { tools
               provided := .more (.loop (turn.back
                (toolUses.map fun use => ⟨use.id, noClient, true⟩)))
               events := uses ++ toolUses.map fun use =>
                resultEvent use noClient true }
  | .execute turn (use :: rest) results, .tool result isError, tools =>
    match (Json.parse use.input).bind (Json.decodeMap ∅) with
    | none =>
      let msg := Text.ofString "error parsing tool input: " ++ result
      some { tools
             provided := .more (executed turn rest
              (results ++ [⟨use.id, msg, true⟩]))
             events := [resultEvent use msg true] }
    | some args =>
      some { tools
             provided := .more (executed turn rest
              (results ++ [⟨use.id, result, isError⟩]))
             events := [resultEvent use result isError]
             out :=
              [.callTool use.name (Tools.callTool tools use.name args)] }
  | .execute _ (use :: _) _, .panic value, tools =>
    match (Json.parse use.input).bind (Json.decodeMap ∅) with
    | none => none
    | some args =>
      some { tools
             provided := .panicked value
             out :=
              [.callTool use.name (Tools.callTool tools use.name args)] }
  | _, _, _ => none

/-- The provider; `tools.AllowedCommandPrefixes` is what it shares. -/
def provider : Provider State Answer (List Text) Out where
  begin := .start
  step := step cfg client

end Ai.Anthropic
