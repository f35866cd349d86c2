/-
The provider for the Codex CLI (pkg/ai/codex_cli.go).

`SendMessage` runs a process and reads what it prints line by line. The
process is the environment's: which lines it prints, how reading them ends
and how it exits.
-/
import Kubikles.Ai.OneShot

namespace Ai.Codex

-- ======== the lines

structure CodexItem where
  id : Text := []
  type : Text := []
  text : Text := []
deriving DecidableEq

structure CodexUsage where
  inputTokens : Int := 0
  cachedInputTokens : Int := 0
  outputTokens : Int := 0
deriving DecidableEq

structure CodexStreamEvent where
  type : Text := []
  item : Option CodexItem := none
  usage : Option CodexUsage := none
  message : Text := []
deriving DecidableEq

/-- A member of a `codexItem`. -/
def CodexItem.field (key : Text) (value : Json) (item : CodexItem) :
    Option CodexItem :=
  if Json.isField "id" key then
    (value.decodeString item.id).map ({ item with id := · })
  else if Json.isField "type" key then
    (value.decodeString item.type).map ({ item with type := · })
  else if Json.isField "text" key then
    (value.decodeString item.text).map ({ item with text := · })
  else some item

/-- A member of a `codexUsage`. -/
def CodexUsage.field (key : Text) (value : Json) (usage : CodexUsage) :
    Option CodexUsage :=
  if Json.isField "input_tokens" key then
    (value.decodeInt usage.inputTokens).map
      ({ usage with inputTokens := · })
  else if Json.isField "cached_input_tokens" key then
    (value.decodeInt usage.cachedInputTokens).map
      ({ usage with cachedInputTokens := · })
  else if Json.isField "output_tokens" key then
    (value.decodeInt usage.outputTokens).map
      ({ usage with outputTokens := · })
  else some usage

/-- Decode through a pointer to a struct: `null` makes it nil, and a
struct that is there already is filled further. -/
def decodePointer {S : Type} (field : Text → Json → S → Option S)
    (empty : S) (old : Option S) : Json → Option (Option S)
  | .null => some none
  | value =>
    (Json.decodeFields field (old.getD empty) value).map some

/-- A member of a `codexStreamEvent`. -/
def CodexStreamEvent.field (key : Text) (value : Json)
    (msg : CodexStreamEvent) : Option CodexStreamEvent :=
  if Json.isField "type" key then
    (value.decodeString msg.type).map ({ msg with type := · })
  else if Json.isField "item" key then
    (decodePointer CodexItem.field {} msg.item value).map
      ({ msg with item := · })
  else if Json.isField "usage" key then
    (decodePointer CodexUsage.field {} msg.usage value).map
      ({ msg with usage := · })
  else if Json.isField "message" key then
    (value.decodeString msg.message).map ({ msg with message := · })
  else some msg

/-- `json.Unmarshal` of a line. -/
def CodexStreamEvent.unmarshal (line : Text) : Option CodexStreamEvent :=
  (Json.parse line).bind (Json.decodeFields CodexStreamEvent.field {})

def errorEvent (otherwise message : Text) : StreamEvent where
  type := .error
  content := if message ≠ [] then message else otherwise

def eventOf (msg : CodexStreamEvent) : Option StreamEvent :=
  if msg.type = Text.ofString "item.completed" then
    match msg.item with
    | some item =>
      if item.type = Text.ofString "agent_message" ∧ item.text ≠ [] then
        some { type := .text, content := item.text }
      else none
    | none => none
  else if msg.type = Text.ofString "turn.completed" then
    some { type := .done
           usage := msg.usage.map fun usage =>
            { inputTokens := usage.inputTokens
              outputTokens := usage.outputTokens
              cacheReadTokens := usage.cachedInputTokens } }
  else if msg.type = Text.ofString "turn.failed" then
    some (errorEvent (Text.ofString "turn failed") msg.message)
  else if msg.type = Text.ofString "error" then
    some (errorEvent (Text.ofString "unknown error") msg.message)
  else none

/-- `codexStreamParser.parseLine`: the event of a line, if there is one. -/
def parseLine (line : Text) : Option StreamEvent :=
  (CodexStreamEvent.unmarshal line).bind eventOf

/-- `sentDone` of the parser, behind an event. -/
def sentDone (before : Bool) (event : Option StreamEvent) : Bool :=
  before || event.any (·.type = .done)

-- ======== the process

def mapCodexModel (name : Text) : Text :=
  if (["gpt-5.3-codex", "gpt-5.2-codex", "gpt-5.2", "gpt-5.1-codex-max",
      "gpt-5-codex"].map Text.ofString).contains name then
    Text.ofString "gpt-5.5"
  else if (["gpt-5.1-codex-mini", "gpt-5-codex-mini"].map
      Text.ofString).contains name then
    Text.ofString "gpt-5.4-mini"
  else name

def roleName : Role → Text
  | .user => Text.ofString "user"
  | .assistant => Text.ofString "assistant"

def buildCodexPrompt (req : Request) : Text :=
  (if req.systemPrompt ≠ [] then
    req.systemPrompt ++ [Text.newline, Text.newline] else [])
  ++ (if req.history ≠ [] then
      Text.ofString "<conversation_history>\n"
        ++ (req.history.flatMap fun msg =>
          roleName msg.role ++ Text.ofString ": " ++ msg.content
            ++ [Text.newline])
        ++ Text.ofString "</conversation_history>\n\n"
    else [])
  ++ req.message

/-- The arguments of the process. -/
def cliArgs (req : Request) : List Text :=
  ["exec", "--json", "--full-auto", "--sandbox", "workspace-write"].map
    Text.ofString
  ++ (if req.model ≠ [] then
      [Text.ofString "--model", mapCodexModel req.model] else [])
  ++ [buildCodexPrompt req]

/-- How far `SendMessage` is. -/
inductive State where
  | start (req : Request)
  | reading (sentDone : Bool)
  | waiting (sentDone : Bool)
deriving DecidableEq

inductive Answer where
  /-- There is no CLI, or it cannot be started. -/
  | failed (err : Text)
  /-- It is started; with its MCP server, if the config could be
  written. -/
  | started (config : Bool)
  /-- `scanner.Text()`. -/
  | line (text : Text)
  /-- There is no line any more; `scanner.Err()`, and what a look at the
  context finds if that is an error. -/
  | eof (err : Option Text) (ctx : Option CtxErr)
  /-- `cmd.Wait()`, and the same. -/
  | exit (err : Option Text) (ctx : Option CtxErr)
deriving DecidableEq

/-- What is seen of the provider beside its events: the process that is
started, and the arguments of its MCP server. -/
structure Launch where
  args : List Text
  mcpArgs : Option (List Text)
deriving DecidableEq

def lineEvent (text : Text) : Option StreamEvent :=
  let line := Text.trimSpace text
  if line = [] then none else parseLine line

def readError (err : Text) : StreamEvent where
  type := .error
  content := Text.ofString "stream read error: " ++ err

def exitError (err : Text) : StreamEvent where
  type := .error
  content := Text.ofString "codex CLI exited with error: " ++ err

/-- The end of `SendMessage`: there is a done event, whatever was
printed. -/
def ensureDone (sentDone : Bool) : List StreamEvent :=
  if sentDone then [] else [{ type := .done }]

variable {G : Type*} (cfg : Config)

/-- `SendMessage`. -/
def step : State → Answer → G → Option (Streamed State G Launch)
  | .start _, .failed err, tools =>
    some { tools, provided := .returned (some err) }
  | .start req, .started config, tools =>
    some { tools
           provided := .more (.reading false)
           out := [⟨cliArgs req, if config then
            some (mcpArgs cfg req.k8sContext req.allowedTools
              req.allowedCommands)
            else none⟩] }
  | .reading sent, .line text, tools =>
    let event := lineEvent text
    some { tools
           provided := .more (.reading (sentDone sent event))
           events := event.toList }
  | .reading sent, .eof none _, tools =>
    some { tools, provided := .more (.waiting sent) }
  | .reading _, .eof (some _) (some ctx), tools =>
    some { tools, provided := .returned (some ctx.text) }
  | .reading sent, .eof (some err) none, tools =>
    some { tools
           provided := .more (.waiting sent)
           events := [readError err] }
  | .waiting sent, .exit none _, tools =>
    some { tools
           provided := .returned none
           events := ensureDone sent }
  | .waiting _, .exit (some _) (some ctx), tools =>
    some { tools, provided := .returned (some ctx.text) }
  | .waiting sent, .exit (some err) none, tools =>
    some { tools
           provided := .returned none
           events := exitError err :: ensureDone sent }
  | _, _, _ => none

def provider : Provider State Answer G Launch where
  begin := .start
  step := step cfg

end Ai.Codex
