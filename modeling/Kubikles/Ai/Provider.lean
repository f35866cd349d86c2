/-
What AI providers are asked, and what they stream (pkg/ai/provider.go and
config.go).

Costs are floating point numbers that nothing here decides on; a
`TokenUsage` has its counts only.

# Grants

What a request's lists of tools and commands grant: the allow set of the
API provider (pkg/ai/anthropic_tools.go), and the arguments that the Codex
provider writes for the MCP server it has started
(pkg/ai/codex_cli.go, `writeCodexMCPConfig`).

The arguments are modelled as they reach the server; how they are quoted
in the file config.toml is not.
-/
import Kubikles.Mcp.Server

namespace Ai

-- ======== config

/-- `Config`, as far as tools are concerned. -/
structure Config where
  mcpPrefix : Text
deriving DecidableEq

def defaultConfig : Config := ⟨Text.ofString "mcp__kubikles__"⟩

-- ======== requests

inductive Role where
  | user
  | assistant
deriving DecidableEq

structure Message where
  role : Role
  content : Text
deriving DecidableEq

structure Request where
  sessionID : Nat := 0
  message : Text := []
  systemPrompt : Text := []
  model : Text := []
  isResume : Bool := false
  history : List Message := []
  k8sContext : Text := []
  allowedTools : List Text := []
  allowedCommands : List Text := []
deriving DecidableEq

-- ======== events

/-- `TokenUsage`, without costs. -/
structure TokenUsage where
  inputTokens : Int := 0
  outputTokens : Int := 0
  cacheReadTokens : Int := 0
  cacheCreationTokens : Int := 0
deriving DecidableEq

/-- The type of a `StreamEvent`. -/
inductive EventType where
  | text
  | done
  | error
  | toolUse
  | toolResult
deriving DecidableEq

structure StreamEvent where
  type : EventType
  content : Text := []
  usage : Option TokenUsage := none
  toolID : Text := []
  toolName : Text := []
  isError : Bool := false
deriving DecidableEq

end Ai

namespace Ai

open Tools (ToolDef)

variable (cfg : Config)

-- ======== the API provider

def makeAllowSet (allowedTools : List Text) : List Text :=
  allowedTools.map fun t =>
    if cfg.mcpPrefix.isPrefixOf t then Text.trimPrefix t cfg.mcpPrefix
    else t

/-- `buildToolParams`: the tools the model is told of. -/
def buildToolParams (allowedTools : List Text) : List ToolDef :=
  Tools.allToolDefs.filter
    ((makeAllowSet cfg allowedTools).contains ·.name)

-- ======== the Codex provider

def shortNames (allowedTools : List Text) : List Text :=
  (allowedTools.filter cfg.mcpPrefix.isPrefixOf).map
    (Text.trimPrefix · cfg.mcpPrefix)

/-- `strings.Join`. -/
def joinWith (sep : UInt8) (texts : List Text) : Text :=
  [sep].intercalate texts

/-- The arguments of `writeCodexMCPConfig`. -/
def mcpArgs (k8sContext : Text) (allowedTools allowedCommands : List Text) :
    List Text :=
  [Mcp.mcpServerFlag]
    ++ (if k8sContext ≠ [] then [Mcp.k8sContextFlag, k8sContext] else [])
    ++ (if shortNames cfg allowedTools ≠ [] then
        [Mcp.allowedToolsFlag,
          joinWith Mcp.comma (shortNames cfg allowedTools)]
      else [])
    ++ [Mcp.allowedCommandsFlag, joinWith Mcp.bar allowedCommands]

end Ai
