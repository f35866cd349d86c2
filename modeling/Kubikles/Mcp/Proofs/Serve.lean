/-
What the MCP server answers to what it reads.

# The argument

A turn of the loop sees one line, so the discipline of a line (`Answered`)
is that of its turn, and a case analysis of the turn says when it is kept
(`turn_answered_iff`). A line that does not fit the buffer ends the loop, so
there is a turn for each line exactly if all of them fit.
-/
import Kubikles.Mcp.Server

namespace Mcp

open Tools (Args Dispatch ToolDef)

variable {s : Server} {line stdin : Text} {req : JsonRPCRequest}
variable {answer : Dispatch → Text × Bool} {turn : List Effect}

-- ======== the discipline

def writes (turn : List Effect) : List JsonRPCResponse :=
  turn.filterMap fun
    | .write response => some response
    | .call _ => none

def calls (turn : List Effect) : List Dispatch :=
  turn.filterMap fun
    | .call dispatch => some dispatch
    | .write _ => none

/-- A line is a JSON-RPC message: an object that can be decoded. -/
def IsMessage (line : Text) (req : JsonRPCRequest) : Prop :=
  (∃ members, Json.parse line = some (.obj members))
    ∧ JsonRPCRequest.unmarshal line = some req

/-- A line is a `tools/call` with params that can be decoded, of a tool that
is allowed and not forbidden as dangerous; and this is the call. -/
def Calls (s : Server) (line : Text) (dispatch : Dispatch) : Prop :=
  ∃ req params, JsonRPCRequest.unmarshal line = some req
    ∧ req.method = toolsCallMethod
    ∧ ToolsCallParams.unmarshal req.params = some params
    ∧ s.allows params.name = true
    ∧ ((Tools.getMeta params.name).isDangerous = true →
      s.allowDangerousTools = true)
    ∧ dispatch = Tools.callTool s.allowedCommandPrefixes params.name
      params.arguments

structure Answered (s : Server) (line : Text) (turn : List Effect) :
    Prop where
  /-- A request with one response, and its ID. -/
  request : ∀ req, IsMessage line req → req.id ≠ none →
    ∃ response, writes turn = [response] ∧ response.id = req.id
  /-- A notification with none. -/
  notification : ∀ req, IsMessage line req → req.id = none →
    writes turn = []
  /-- What is no JSON with one parse error. -/
  invalid : Json.valid line = false → turn = [parseError]
  call : ∀ dispatch, Calls s line dispatch → calls turn = [dispatch]
  noCall : (∀ dispatch, ¬ Calls s line dispatch) → calls turn = []

/-- Each line is answered, in their order. -/
structure Disciplined (s : Server) (lines : List Text)
    (turns : List (List Effect)) : Prop where
  taken : turns.length = lines.length
  answered : ∀ (i : Nat) line turn, lines[i]? = some line → turns[i]? = some turn →
    Answered s (Scanner.dropCR line) turn

-- ======== a turn

theorem turn_error (hne : line ≠ [])
    (h : JsonRPCRequest.unmarshal line = none) :
    s.turn answer line = [parseError] := by
  unfold Server.turn
  rw [if_neg hne, h]

theorem turn_request (h : JsonRPCRequest.unmarshal line = some req) :
    s.turn answer line = s.handleRequest answer req := by
  have hne : line ≠ [] := by
    rintro rfl
    cases h
  unfold Server.turn
  rw [if_neg hne, h]

theorem writes_handleRequest (h : req.method ≠ initializedMethod) :
    ∃ response, writes (s.handleRequest answer req) = [response]
      ∧ response.id = req.id := by
  unfold Server.handleRequest
  split
  · exact ⟨_, rfl, rfl⟩
  · split
    · exact ⟨_, rfl, rfl⟩
    · split
      · unfold Server.toolsCall
        split
        · exact ⟨_, rfl, rfl⟩
        · split
          · split
            · exact ⟨_, rfl, rfl⟩
            · exact ⟨_, rfl, rfl⟩
          · exact ⟨_, rfl, rfl⟩
      · exact ⟨_, rfl, rfl⟩

theorem handleRequest_initialized (h : req.method = initializedMethod) :
    s.handleRequest answer req = [] := by
  unfold Server.handleRequest
  rw [h]
  rfl

theorem validateToolCall_none_iff {name : Text} :
    s.validateToolCall name = none
      ↔ ((Tools.getMeta name).isDangerous = true →
        s.allowDangerousTools = true) := by
  unfold Server.validateToolCall
  cases hdangerous : (Tools.getMeta name).isDangerous with
  | false => simp [hdangerous]
  | true => cases s.allowDangerousTools <;> simp [hdangerous]

theorem calls_handleRequest (h : req.method ≠ toolsCallMethod) :
    calls (s.handleRequest answer req) = [] := by
  unfold Server.handleRequest
  split
  · rfl
  · split
    · rfl
    · split
      · rfl
      · rfl

theorem handleRequest_toolsCall (h : req.method = toolsCallMethod) :
    s.handleRequest answer req = s.toolsCall answer req := by
  have hinit : toolsCallMethod ≠ initializeMethod := by decide
  have hack : toolsCallMethod ≠ initializedMethod := by decide
  have hlist : toolsCallMethod ≠ toolsListMethod := by decide
  unfold Server.handleRequest
  rw [h, if_neg hinit, if_neg hack, if_neg hlist, if_pos rfl]

theorem calls_turn (h : JsonRPCRequest.unmarshal line = some req) :
    (∀ dispatch, Calls s line dispatch →
        calls (s.turn answer line) = [dispatch])
      ∧ ((∀ dispatch, ¬ Calls s line dispatch) →
        calls (s.turn answer line) = []) := by
  rw [turn_request h]
  constructor
  · rintro dispatch ⟨req', params, hreq, hmethod, hparams, hallowed, hsafe,
      rfl⟩
    obtain rfl : req = req' := Option.some.inj (h.symm.trans hreq)
    rw [handleRequest_toolsCall hmethod]
    unfold Server.toolsCall
    rw [hparams]
    simp only [hallowed, if_true]
    rw [validateToolCall_none_iff.mpr hsafe]
    rfl
  · intro hno
    by_cases hmethod : req.method = toolsCallMethod
    · rw [handleRequest_toolsCall hmethod]
      unfold Server.toolsCall
      split
      · rfl
      next params hparams =>
        split
        next hallowed =>
          split
          · rfl
          next hvalid =>
            exact absurd ⟨req, params, h, hmethod, hparams, hallowed,
              validateToolCall_none_iff.mp hvalid, rfl⟩ (hno _)
        · rfl
    · exact calls_handleRequest hmethod

/-- A line is answered as it is to be if and only if it is not empty and,
where it is a message, has no ID exactly if it is the acknowledgment. -/
theorem turn_answered_iff :
    Answered s line (s.turn answer line)
      ↔ line ≠ [] ∧ ∀ req, IsMessage line req →
        (req.id = none ↔ req.method = initializedMethod) := by
  constructor
  · intro h
    have hne : line ≠ [] := by
      rintro rfl
      cases h.invalid rfl
    refine ⟨hne, fun req hreq => ⟨fun hid => ?_, fun hmethod => ?_⟩⟩
    · by_contra hmethod
      obtain ⟨response, hwrites, -⟩ : ∃ response,
          writes (s.handleRequest answer req) = [response]
            ∧ response.id = req.id := writes_handleRequest hmethod
      rw [← turn_request hreq.2, h.notification req hreq hid] at hwrites
      cases hwrites
    · by_contra hid
      obtain ⟨response, hwrites, -⟩ := h.request req hreq hid
      rw [turn_request hreq.2, handleRequest_initialized hmethod] at hwrites
      cases hwrites
  · rintro ⟨hne, hmessage⟩
    have hcalls : (∀ dispatch, Calls s line dispatch →
          calls (s.turn answer line) = [dispatch])
        ∧ ((∀ dispatch, ¬ Calls s line dispatch) →
          calls (s.turn answer line) = []) := by
      cases hreq : JsonRPCRequest.unmarshal line with
      | some req => exact calls_turn hreq
      | none =>
        refine ⟨?_, fun _ => by rw [turn_error hne hreq]; rfl⟩
        rintro dispatch ⟨req, params, hsome, -⟩
        rw [hreq] at hsome
        cases hsome
    refine ⟨fun req hreq hid => ?_, fun req hreq hid => ?_, fun hinvalid => ?_,
      hcalls.1, hcalls.2⟩
    · rw [turn_request hreq.2]
      exact writes_handleRequest fun hmethod =>
        hid ((hmessage req hreq).mpr hmethod)
    · rw [turn_request hreq.2,
        handleRequest_initialized ((hmessage req hreq).mp hid)]
      rfl
    · refine turn_error hne ?_
      unfold JsonRPCRequest.unmarshal
      rw [Option.isSome_eq_false_iff.mp hinvalid |> Option.isNone_iff_eq_none.mp]
      rfl

-- ======== the loop

/-- Every line of standard input is answered as it is to be, in its turn,
if and only if each of them is shorter than the scanner's buffer, is not
empty and, where it is a message, has no ID exactly if its method is
`notifications/initialized`. -/
theorem serve_disciplined_iff (s : Server)
    (answer : Nat → Dispatch → Text × Bool) (stdin : Text) :
    Disciplined s (Scanner.lines stdin) (s.serve answer stdin)
      ↔ ∀ line ∈ Scanner.lines stdin, line.length < maxTokenSize
        ∧ Scanner.dropCR line ≠ []
        ∧ ∀ req, IsMessage (Scanner.dropCR line) req →
          (req.id = none ↔ req.method = initializedMethod) := by
  have hserve : s.serve answer stdin
      = (((Scanner.lines stdin).takeWhile (·.length < maxTokenSize)).map
        Scanner.dropCR).mapIdx fun i line => s.turn (answer i) line := by
    unfold Server.serve
    rw [Scanner.scanPieces_split]
  rw [hserve]
  constructor
  · intro h
    -- as many turns as lines: no line has ended the loop
    have hall : (Scanner.lines stdin).takeWhile (·.length < maxTokenSize)
        = Scanner.lines stdin := by
      refine (List.takeWhile_prefix _).eq_of_length ?_
      simpa using h.taken
    rw [hall] at h
    intro line hline
    obtain ⟨i, hi⟩ := List.mem_iff_getElem?.mp hline
    have hanswered := turn_answered_iff.mp (h.answered i line
      (s.turn (answer i) (Scanner.dropCR line)) hi (by simp [hi]))
    refine ⟨?_, hanswered⟩
    exact of_decide_eq_true
      (List.takeWhile_eq_self_iff.mp hall line hline)
  · intro h
    have hall : (Scanner.lines stdin).takeWhile (·.length < maxTokenSize)
        = Scanner.lines stdin :=
      List.takeWhile_eq_self_iff.mpr fun line hline =>
        decide_eq_true (h line hline).1
    rw [hall]
    refine ⟨by simp, fun i line turn hline hturn => ?_⟩
    obtain rfl : s.turn (answer i) (Scanner.dropCR line) = turn := by
      simpa [hline] using hturn
    exact turn_answered_iff.mpr (h line (List.mem_of_getElem? hline)).2

/-- A notification that the server does not know, and its answer. -/
theorem notification_answered :
    ¬ ∀ (s : Server) (answer : Nat → Dispatch → Text × Bool) (stdin : Text),
      Disciplined s (Scanner.lines stdin) (s.serve answer stdin) := by
  intro h
  have hturn := (h ⟨none, false, []⟩ (fun _ _ => ([], false))
    (Text.ofString
      "\x7b\"jsonrpc\":\"2.0\",\"method\":\"notifications/cancelled\"\x7d")).answered
    0 _ _ rfl rfl
  have hno := hturn.notification _ ⟨⟨_, rfl⟩, rfl⟩ rfl
  cases hno

end Mcp
