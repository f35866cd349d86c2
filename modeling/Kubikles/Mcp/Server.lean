/-
The MCP server (pkg/mcp/server.go).

# Turns

`serve` reads standard input line by line. What one turn of its loop does
is a list of effects (`Effect`): a call of a tool, a response that is
written, one to a line. What a tool answers is not decided here; `serve` is
given it, by the turn and the call.

# Texts

A response holds what `json.Marshal` writes of it, not the text; texts that
quote a name hold the name.

# The command line

The program as an MCP server: the arguments of its command line (`main` in
main.go, where the first of them is `--mcp-server`).
-/
import Kubikles.Tools.Call

namespace Mcp

open Tools (Args Dispatch ToolDef)

-- ======== the structs

structure JsonRPCRequest where
  jsonrpc : Text := []
  id : Option Json := none
  method : Text := []
  params : Option Json := none

structure ToolsCallParams where
  name : Text := []
  arguments : Args := ∅

structure InitializeResult where
  protocolVersion : String := "2024-11-05"
  /-- The names of its empty objects. -/
  capabilities : List String := ["tools"]
  serverName : String := "kubikles"
  serverVersion : String := "1.0.0"
deriving DecidableEq

/-- The text of a `toolContent`. -/
inductive ToolContent where
  /-- `Tool … is not allowed by the current configuration`. -/
  | notAllowed (name : Text)
  /-- `tool … requires explicit enablement: …`. -/
  | dangerous (name : Text) (note : String)
  | text (result : Text)
deriving DecidableEq

structure ToolsCallResult where
  content : ToolContent
  isError : Bool
deriving DecidableEq

/-- What a response holds beside its ID. -/
inductive Body where
  | initializeResult (result : InitializeResult)
  | toolsList (tools : List ToolDef)
  | toolsCall (result : ToolsCallResult)
  /-- `rpcError`. -/
  | error (code : Int) (message : Text)
deriving DecidableEq

/-- `jsonRPCResponse`; without an ID it is written with `null`. -/
structure JsonRPCResponse where
  id : Option Json
  body : Body

/-- `Server`, and the command prefixes that are allowed meanwhile
(`tools.AllowedCommandPrefixes`). -/
structure Server where
  /-- `none` allows all tools. -/
  allowedTools : Option (List Text)
  allowDangerousTools : Bool
  allowedCommandPrefixes : List Text
deriving DecidableEq

/-- What the server does. -/
inductive Effect where
  /-- `tools.CallTool`. -/
  | call (dispatch : Dispatch)
  | write (response : JsonRPCResponse)

-- ======== decoding

/-- A member of a `jsonRPCRequest`. -/
def JsonRPCRequest.field (key : Text) (value : Json)
    (req : JsonRPCRequest) : Option JsonRPCRequest :=
  if Json.isField "jsonrpc" key then
    (value.decodeString req.jsonrpc).map ({ req with jsonrpc := · })
  else if Json.isField "id" key then some { req with id := some value }
  else if Json.isField "method" key then
    (value.decodeString req.method).map ({ req with method := · })
  else if Json.isField "params" key then
    some { req with params := some value }
  else some req

/-- `json.Unmarshal` of a line. -/
def JsonRPCRequest.unmarshal (line : Text) : Option JsonRPCRequest :=
  (Json.parse line).bind (Json.decodeFields JsonRPCRequest.field {})

/-- A member of a `toolsCallParams`. -/
def ToolsCallParams.field (key : Text) (value : Json)
    (params : ToolsCallParams) : Option ToolsCallParams :=
  if Json.isField "name" key then
    (value.decodeString params.name).map ({ params with name := · })
  else if Json.isField "arguments" key then
    (value.decodeMap params.arguments).map ({ params with arguments := · })
  else some params

/-- `json.Unmarshal` of the params; none are no JSON text. -/
def ToolsCallParams.unmarshal (params : Option Json) :
    Option ToolsCallParams :=
  params.bind (Json.decodeFields ToolsCallParams.field {})

-- ======== requests

def Server.allows (s : Server) (name : Text) : Bool :=
  match s.allowedTools with
  | none => true
  | some allowed => name ∈ allowed

def Server.validateToolCall (s : Server) (name : Text) :
    Option ToolContent :=
  let known := Tools.getMeta name
  if known.isDangerous && !s.allowDangerousTools then
    some (.dangerous name
      (if known.safetyNote = "" then
        "This tool can modify cluster resources" else known.safetyNote))
  else none

/-- `writeResult` and `writeError`. -/
def respond (id : Option Json) (body : Body) : Effect := .write ⟨id, body⟩

/-- `handleRequest`, for `tools/call`. -/
def Server.toolsCall (s : Server) (answer : Dispatch → Text × Bool)
    (req : JsonRPCRequest) : List Effect :=
  match ToolsCallParams.unmarshal req.params with
  | none =>
    [respond req.id (.error (-32602) (Text.ofString "Invalid params"))]
  | some params =>
    if s.allows params.name then
      match s.validateToolCall params.name with
      | some content => [respond req.id (.toolsCall ⟨content, true⟩)]
      | none =>
        let dispatch := Tools.callTool s.allowedCommandPrefixes
          params.name params.arguments
        let (result, isErr) := answer dispatch
        [.call dispatch,
          respond req.id (.toolsCall ⟨.text result, isErr⟩)]
    else
      [respond req.id (.toolsCall ⟨.notAllowed params.name, true⟩)]

def initializeMethod : Text := Text.ofString "initialize"

/-- The acknowledgment of the client. -/
def initializedMethod : Text := Text.ofString "notifications/initialized"

def toolsListMethod : Text := Text.ofString "tools/list"

def toolsCallMethod : Text := Text.ofString "tools/call"

def Server.handleRequest (s : Server) (answer : Dispatch → Text × Bool)
    (req : JsonRPCRequest) : List Effect :=
  if req.method = initializeMethod then
    [respond req.id (.initializeResult {})]
  else if req.method = initializedMethod then []
  else if req.method = toolsListMethod then
    [respond req.id (.toolsList
      (Tools.allToolDefs.filter fun tool => s.allows tool.name))]
  else if req.method = toolsCallMethod then s.toolsCall answer req
  else
    [respond req.id (.error (-32601)
      (Text.ofString "Method not found: " ++ req.method))]

-- ======== the loop

/-- The size of the scanner's buffer. -/
def maxTokenSize : Nat := 1024 * 1024

/-- The error for a line that cannot be decoded. -/
def parseError : Effect :=
  respond none (.error (-32700) (Text.ofString "Parse error"))

def Server.turn (s : Server) (answer : Dispatch → Text × Bool)
    (line : Text) : List Effect :=
  if line = [] then []
  else
    match JsonRPCRequest.unmarshal line with
    | none => [parseError]
    | some req => s.handleRequest answer req

/-- `serve`: the turns it takes over standard input. -/
def Server.serve (s : Server) (answer : Nat → Dispatch → Text × Bool)
    (stdin : Text) : List (List Effect) :=
  (Scanner.scanPieces maxTokenSize (Text.split stdin)).1.mapIdx
    fun i line => s.turn (answer i) line

/-- `RunWithOptions`, once there is a client in the context asked for. -/
def runWithOptions (allowedTools : Option (List Text))
    (allowDangerousTools : Bool) (allowedCommands : Option (List Text)) :
    Server where
  allowedTools :=
    match allowedTools.getD [] with
    | [] => none
    | allowed => some allowed
  allowDangerousTools := allowDangerousTools
  allowedCommandPrefixes := allowedCommands.getD []

end Mcp

namespace Mcp

-- ======== flags

def mcpServerFlag : Text := Text.ofString "--mcp-server"

/-- The flags, each with a value behind it. -/
def k8sContextFlag : Text := Text.ofString "--k8s-context"

def allowedToolsFlag : Text := Text.ofString "--allowed-tools"

/-- The command prefixes, between bars. -/
def allowedCommandsFlag : Text := Text.ofString "--allowed-commands"

/-- `','`. -/
def comma : UInt8 := 44

/-- `'|'`. -/
def bar : UInt8 := 124

-- ======== the loop

structure Options where
  k8sContext : Text := []
  allowedTools : Option (List Text) := none
  allowedCommands : Option (List Text) := none
deriving DecidableEq

/-- The loop over the arguments behind `--mcp-server`; one that is no flag,
or has no value behind it, is passed over. -/
def parseArgs : List Text → Options → Options
  | flag :: value :: rest, opts =>
    if flag = k8sContextFlag then
      parseArgs rest { opts with k8sContext := value }
    else if flag = allowedToolsFlag then
      parseArgs rest
        { opts with allowedTools := some (value.splitOn comma) }
    else if flag = allowedCommandsFlag then
      parseArgs rest { opts with
        allowedCommands :=
          some (if value ≠ [] then value.splitOn bar else []) }
    else parseArgs (value :: rest) opts
  | _, opts => opts

/-- `main`, for the arguments behind the program's name. -/
def main (args : List Text) : Option (Text × Server) :=
  match args with
  | first :: rest =>
    if first = mcpServerFlag then
      let opts := parseArgs rest {}
      some (opts.k8sContext,
        runWithOptions opts.allowedTools false opts.allowedCommands)
    else none
  | [] => none

end Mcp
