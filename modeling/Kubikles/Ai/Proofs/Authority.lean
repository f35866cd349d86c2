/-
What the Anthropic provider lets a request do with tools.

# The argument

A tool is called in one kind of step only, and there with the name the
model has given and the command prefixes that are in force
(`callTool_of_exec`). So a call is within what its request allows where the
name is and the prefixes are (`Entitled`), and that is all there is to it.

The prefixes in force are those of the request that assigned them last,
whichever request the tool is called for.
-/
import Kubikles.Ai.Anthropic

namespace Ai.Anthropic

open Goroutine (Act Sys Effect Guarded)
open Tools (Dispatch Within)

variable {cfg : Config} {client : Bool}

-- ======== the system

abbrev managerStep (cfg : Config) (client : Bool) :=
  Goroutine.step (exec (provider cfg client)) framesOf

abbrev Requests := Sys (World (List Text)) (Frame State)

/-- A request for a tool within what its call allows: the model names a
tool of the allow set, and if it is `run_command`, the prefixes in force
allow nothing that those of the call do not. Input that cannot be parsed
asks for nothing. -/
def Entitled (cfg : Config) (w : World (List Text)) (call : SendCall)
    (use : ToolUse) : Prop :=
  ((Json.parse use.input).bind (Json.decodeMap ∅)).isSome = true →
    use.name ∈ makeAllowSet cfg call.allowedTools
      ∧ (use.name = Tools.runCommand.name →
        Within w.tools call.allowedCommands)

/-- Tools are executed for requests that are entitled to them. -/
def ExecutesEntitled (cfg : Config) (w : World (List Text))
    (_ : List (Frame State)) : Frame State → Env Answer → Prop
  | .provide call _ _ (.execute _ (use :: _) _), _ =>
    Entitled cfg w call use
  | _, _ => True

instance Entitled.decidable (cfg : Config) (w : World (List Text))
    (call : SendCall) (use : ToolUse) :
    Decidable (Entitled cfg w call use) :=
  inferInstanceAs (Decidable (_ → _))

instance ExecutesEntitled.decidable : ∀ w pending f env,
    Decidable (ExecutesEntitled cfg w pending f env)
  | w, _, .provide call _ _ (.execute _ (use :: _) _), _ =>
    Entitled.decidable cfg w call use
  | _, _, .provide _ _ _ (.execute _ [] _), _ => isTrue trivial
  | _, _, .provide _ _ _ (.start _), _
  | _, _, .provide _ _ _ (.setAllowedCommands _), _
  | _, _, .provide _ _ _ (.loop _), _
  | _, _, .provide _ _ _ (.stream _), _
  | _, _, .provide _ _ _ (.check _ _), _ => isTrue trivial
  | _, _, .startSession _, _
  | _, _, .sendMessage _, _
  | _, _, .snapshot _, _
  | _, _, .append _ _ _, _
  | _, _, .cancelRequest _, _ => isTrue trivial

/-- A tool that was called is one of the allow set of its call, and a
command that was run matches one of the prefixes of its call. -/
def Authorized (cfg : Config) (call : SendCall) (name : Text)
    (dispatch : Dispatch) : Prop :=
  name ∈ makeAllowSet cfg call.allowedTools
    ∧ ∀ tokens, dispatch = .command (.run tokens) →
      Tools.validateCommand tokens call.allowedCommands = true

-- ======== one step

/-- A step of the provider that calls a tool. -/
theorem callTool_of_step {p : State} {a : Answer} {tools : List Text}
    {e : Streamed State (List Text) Out} {name : Text}
    {dispatch : Dispatch} (h : step cfg client p a tools = some e)
    (hcall : .callTool name dispatch ∈ e.out) :
    ∃ turn use rest results args, p = .execute turn (use :: rest) results
      ∧ (Json.parse use.input).bind (Json.decodeMap ∅) = some args
      ∧ name = use.name
      ∧ dispatch = Tools.callTool tools use.name args := by
  cases p with
  | start req =>
    cases a with
    | apiKey configured =>
      obtain rfl := Option.some.inj h
      cases hcall
    | _ => cases h
  | setAllowedCommands req =>
    cases a with
    | tick =>
      obtain rfl := Option.some.inj h
      cases hcall
    | _ => cases h
  | loop turn =>
    cases a with
    | ctx err =>
      simp only [step] at h
      split at h
      · cases err with
        | none | some err =>
          obtain rfl := Option.some.inj h
          cases hcall
      · obtain rfl := Option.some.inj h
        cases hcall
    | _ => cases h
  | stream turn =>
    cases a with
    | stream deltas ending =>
      cases ending with
      | accumulateError err | streamError err =>
        obtain rfl := Option.some.inj h
        cases List.mem_singleton.mp hcall
      | message content usage =>
        simp only [step] at h
        split at h <;>
          (obtain rfl := Option.some.inj h
           cases List.mem_singleton.mp hcall)
    | _ => cases h
  | check turn toolUses =>
    cases a with
    | ctx err =>
      cases err with
      | some err =>
        obtain rfl := Option.some.inj h
        cases hcall
      | none =>
        simp only [step] at h
        split at h <;>
          (obtain rfl := Option.some.inj h
           cases hcall)
    | _ => cases h
  | execute turn toolUses results =>
    cases toolUses with
    | nil => cases a <;> cases h
    | cons use rest =>
      cases a with
      | tool result isError =>
        simp only [step] at h
        split at h
        · obtain rfl := Option.some.inj h
          cases hcall
        next args hargs =>
          obtain rfl := Option.some.inj h
          obtain ⟨rfl, rfl⟩ :=
            Out.callTool.inj (List.mem_singleton.mp hcall)
          exact ⟨turn, use, rest, results, args, rfl, hargs, rfl, rfl⟩
      | panic value =>
        simp only [step] at h
        split at h
        · cases h
        next args hargs =>
          obtain rfl := Option.some.inj h
          obtain ⟨rfl, rfl⟩ :=
            Out.callTool.inj (List.mem_singleton.mp hcall)
          exact ⟨turn, use, rest, results, args, rfl, hargs, rfl, rfl⟩
      | _ => cases h

/-- Only a request that executes tools calls one. -/
theorem callTool_of_exec {f : Frame State} {env : Env Answer}
    {w : World (List Text)} {effect} {call : SendCall} {name : Text}
    {dispatch : Dispatch}
    (h : exec (provider cfg client) f env w = some effect)
    (hcall : .provider call (.callTool name dispatch) ∈ effect.out) :
    ∃ gen events turn use rest results args,
      f = .provide call gen events (.execute turn (use :: rest) results)
        ∧ (Json.parse use.input).bind (Json.decodeMap ∅) = some args
        ∧ name = use.name
        ∧ dispatch = Tools.callTool w.tools use.name args := by
  cases f with
  | provide call' gen events p =>
    obtain ⟨a, first, second, e, rfl, he, rfl⟩ := exec_provide_iff.mp h
    obtain ⟨rfl, hout⟩ := provider_mem_provided.mp hcall
    obtain ⟨turn, use, rest, results, args, rfl, hargs, hname, hcalled⟩ :=
      callTool_of_step he hout
    exact ⟨gen, events, turn, use, rest, results, args, rfl, hargs, hname,
      hcalled⟩
  | sendMessage call' =>
    cases env with
    | context ready =>
      simp only [exec] at h
      split at h
      · obtain rfl := Option.some.inj h
        cases List.mem_singleton.mp hcall
      · split at h
        · obtain rfl := Option.some.inj h
          cases hcall
        · obtain rfl := Option.some.inj h
          cases List.mem_singleton.mp hcall
    | _ => cases h
  | startSession id =>
    cases env with
    | tick =>
      simp only [exec] at h
      split at h
      · cases h
      · obtain rfl := Option.some.inj h
        cases hcall
    | _ => cases h
  | snapshot call' | append call' gen events =>
    cases env with
    | tick =>
      obtain ⟨session, -, rfl⟩ := Option.map_eq_some_iff.mp h
      cases List.mem_singleton.mp hcall
    | _ => cases h
  | cancelRequest id =>
    cases env with
    | tick =>
      obtain rfl := Option.some.inj h
      cases hcall
    | _ => cases h

theorem command_of_callTool {prefixes tokens : List Text} {name : Text}
    {args : Tools.Args}
    (h : Tools.callTool prefixes name args = .command (.run tokens)) :
    name = Tools.runCommand.name
      ∧ Tools.validateCommand tokens prefixes = true := by
  unfold Tools.callTool at h
  split at h
  · cases h
  · split at h
    next hname =>
      exact ⟨hname, Tools.validate_of_run (Dispatch.command.inj h)⟩
    · cases h

theorem authorized_of_entitled {w : World (List Text)} {call : SendCall}
    {use : ToolUse} {args : Tools.Args} (h : Entitled cfg w call use)
    (hargs : (Json.parse use.input).bind (Json.decodeMap ∅) = some args) :
    Authorized cfg call use.name
      (Tools.callTool w.tools use.name args) := by
  obtain ⟨hname, hcommands⟩ := h (by rw [hargs]; rfl)
  refine ⟨hname, fun tokens hrun => ?_⟩
  obtain ⟨hrunCommand, hvalid⟩ := command_of_callTool hrun
  exact Tools.within_iff.mp (hcommands hrunCommand) tokens hvalid

-- ======== the runs

/-- In every run in which tools are executed only for requests that are
entitled to them, whatever is called and run is authorized. -/
theorem tools_authorized {cfg : Config} {client : Bool} {tools : List Text}
    {acts : List (Act Call (Env Answer))} {s : Requests}
    {out : List (Nat × Ai.Out Out)}
    (hrun : Machine.run (managerStep cfg client) (initial tools) acts
      = some (s, out))
    (hok : Machine.Along (managerStep cfg client)
      (Guarded (fun _ _ _ => True) (ExecutesEntitled cfg)) (initial tools)
      acts) :
    ∀ i call name dispatch,
      (i, .provider call (.callTool name dispatch)) ∈ out →
        Authorized cfg call name dispatch := by
  refine Machine.run_history_nil
    (J := fun _ out => ∀ i call name dispatch,
      (i, .provider call (.callTool name dispatch)) ∈ out →
        Authorized cfg call name dispatch) ?_
    (fun _ _ _ _ h => absurd h List.not_mem_nil) hok hrun
  intro a s s' o before hbefore hguard hstep i call name dispatch hmem
  rcases List.mem_append.mp hmem with hmem | hmem
  · exact hbefore i call name dispatch hmem
  · cases a with
    | call c =>
      obtain ⟨-, rfl⟩ := Prod.mk.inj (Option.some.inj hstep)
      cases hmem
    | run j env =>
      obtain ⟨f, rest, others, effect, hj, heffect, -, -, -, rfl⟩ :=
        Goroutine.step_run_perm hstep
      obtain ⟨o, ho, heq⟩ := List.mem_map.mp hmem
      obtain ⟨rfl, rfl⟩ := Prod.mk.inj heq
      obtain ⟨gen, events, turn, use, rest', results, args, rfl, hargs,
        rfl, rfl⟩ := callTool_of_exec heffect ho
      rw [Guarded, hj] at hguard
      exact authorized_of_entitled hguard hargs

/-- A request with these tools, whose model asks for the list of
resources. -/
def listing (allowedTools : List Text) : List (Act Call (Env Answer)) :=
  [.call (.startSession 0), .run 0 .tick,
    .call (.sendMessage { sessionID := 0, allowedTools }),
    .run 1 (.context true), .run 1 .tick,
    .run 1 (.provider (.apiKey true) none none),
    .run 1 (.provider .tick none none),
    .run 1 (.provider (.ctx none) none none),
    .run 1 (.provider (.stream [] (.message
      [.toolUse ⟨[], Tools.listResources.name, [0x7B, 0x7D]⟩] {}))
      none none),
    .run 1 (.provider (.ctx none) none none),
    .run 1 (.provider (.tool [] false) none none)]

/-- Of a request that lists the tool. -/
theorem tools_authorized_listing :
    ∃ s out,
      Machine.run (managerStep defaultConfig true) (initial [])
          (listing [Tools.listResources.name]) = some (s, out)
        ∧ out.length = 5
        ∧ ∀ i call name dispatch,
          (i, .provider call (.callTool name dispatch)) ∈ out →
            Authorized defaultConfig call name dispatch := by
  have hrun : ∃ s out,
      Machine.run (managerStep defaultConfig true) (initial [])
          (listing [Tools.listResources.name]) = some (s, out)
        ∧ out.length = 5 := ⟨_, _, rfl, rfl⟩
  obtain ⟨s, out, hrun, hlength⟩ := hrun
  exact ⟨s, out, hrun, hlength, tools_authorized hrun (by decide)⟩

/-- A request without tools calls one. -/
theorem unlisted_tool_called :
    ¬ ∀ (cfg : Config) (client : Bool) (tools : List Text)
        (acts : List (Act Call (Env Answer))) (s : Requests)
        (out : List (Nat × Ai.Out Out)),
      Machine.run (managerStep cfg client) (initial tools) acts
          = some (s, out) →
        ∀ i call name dispatch,
          (i, .provider call (.callTool name dispatch)) ∈ out →
            Authorized cfg call name dispatch := by
  intro h
  have hrun : ∃ s out,
      Machine.run (managerStep defaultConfig true) (initial [])
          (listing []) = some (s, out)
        ∧ ∃ dispatch, (1, .provider { sessionID := 0 }
          (.callTool Tools.listResources.name dispatch)) ∈ out :=
    ⟨_, _, rfl, _, .tail _ (.tail _ (.tail _ (.head _)))⟩
  obtain ⟨s, out, hrun, dispatch, hmem⟩ := hrun
  exact absurd (h _ _ _ _ _ _ hrun _ _ _ _ hmem).1 List.not_mem_nil

end Ai.Anthropic
