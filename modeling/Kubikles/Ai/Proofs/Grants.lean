/-
What the Codex provider's MCP server grants, against the allow set of the
API provider.

# The argument

The server reads back the arguments as they were written
(`main_mcpArgs`). A list that is joined and split again comes back as the
pieces of its entries (`Text.splitOn_intercalate`), so what is granted
differs where an entry has a separator in it, where an entry without the
prefix is dropped, and where no entry is left and with it the flag.
-/
import Kubikles.Ai.Provider

namespace Ai

open Tools (validateCommand allToolDefs ToolDef)
open Mcp (Server comma bar)

variable {cfg : Config} {allowedTools allowedCommands : List Text}
variable {name : Text} {s : Server}

-- ======== the grants

/-- A server accepts a name in `tools/call`: the call reaches a tool. -/
structure Accepts (s : Server) (name : Text) : Prop where
  allowed : s.allows name = true
  valid : s.validateToolCall name = none
  known : ∀ args,
    (Tools.callTool s.allowedCommandPrefixes name args).known = true

/-- A server grants what the lists of a request grant. -/
structure SameGrants (cfg : Config) (s : Server)
    (allowedTools allowedCommands : List Text) : Prop where
  tools : ∀ name, Accepts s name
    ↔ name ∈ makeAllowSet cfg allowedTools
      ∧ name ∈ allToolDefs.map ToolDef.name
  commands : ∀ tokens,
    validateCommand tokens s.allowedCommandPrefixes
      = validateCommand tokens allowedCommands

def Qualified (cfg : Config) (entry : Text) : Prop :=
  cfg.mcpPrefix.isPrefixOf entry = true

/-- A name stands between the commas of a fully-qualified entry. -/
def Listed (cfg : Config) (allowedTools : List Text) (name : Text) : Prop :=
  ∃ entry ∈ allowedTools, Qualified cfg entry
    ∧ name ∈ (Text.trimPrefix entry cfg.mcpPrefix).splitOn comma

/-- Tools for which the server's arguments say what the list says. -/
structure ToolsCarried (cfg : Config) (allowedTools : List Text) :
    Prop where
  /-- Without a fully-qualified entry the flag is left out. -/
  omitted : (∀ entry ∈ allowedTools, ¬ Qualified cfg entry) →
    ∀ tool ∈ allToolDefs, tool.name ∈ allowedTools
  /-- Beside one, bare names are left out. -/
  bare : (∃ entry ∈ allowedTools, Qualified cfg entry) →
    ∀ tool ∈ allToolDefs, tool.name ∈ allowedTools →
      ¬ Qualified cfg tool.name → Listed cfg allowedTools tool.name
  /-- A comma in an entry makes two of it. -/
  commas : ∀ tool ∈ allToolDefs, Listed cfg allowedTools tool.name →
    tool.name ∈ makeAllowSet cfg allowedTools

/-- Commands for which they do: a bar in an entry makes two of it. -/
structure CommandsCarried (allowedCommands : List Text) : Prop where
  whole : ∀ entry ∈ allowedCommands, bar ∈ entry →
    Text.fields entry ≠ [] → validateCommand (Text.fields entry)
      (allowedCommands.flatMap (·.splitOn bar)) = true
  pieces : ∀ entry ∈ allowedCommands, bar ∈ entry →
    ∀ piece ∈ entry.splitOn bar, Text.fields piece ≠ [] →
      validateCommand (Text.fields piece) allowedCommands = true

-- ======== the arguments

def toolsRead (cfg : Config) (allowedTools : List Text) :
    Option (List Text) :=
  if shortNames cfg allowedTools ≠ [] then
    some ((joinWith comma (shortNames cfg allowedTools)).splitOn comma)
  else none

def commandsRead (allowedCommands : List Text) : List Text :=
  if joinWith bar allowedCommands ≠ [] then
    (joinWith bar allowedCommands).splitOn bar
  else []

theorem main_mcpArgs (k8sContext : Text) :
    Mcp.main (mcpArgs cfg k8sContext allowedTools allowedCommands)
      = some (k8sContext, Mcp.runWithOptions (toolsRead cfg allowedTools)
        false (some (commandsRead allowedCommands))) := by
  have hcontext : Mcp.allowedToolsFlag ≠ Mcp.k8sContextFlag := by decide
  have hcontext' : Mcp.allowedCommandsFlag ≠ Mcp.k8sContextFlag := by
    decide
  have htools : Mcp.allowedCommandsFlag ≠ Mcp.allowedToolsFlag := by decide
  by_cases hk : k8sContext = []
  · by_cases ht : shortNames cfg allowedTools = []
    · simp [Mcp.main, mcpArgs, Mcp.parseArgs, toolsRead, commandsRead, hk,
        ht, hcontext', htools]
    · simp [Mcp.main, mcpArgs, Mcp.parseArgs, toolsRead, commandsRead, hk,
        ht, hcontext, hcontext', htools]
  · by_cases ht : shortNames cfg allowedTools = []
    · simp [Mcp.main, mcpArgs, Mcp.parseArgs, toolsRead, commandsRead, hk,
        ht, hcontext', htools]
    · simp [Mcp.main, mcpArgs, Mcp.parseArgs, toolsRead, commandsRead, hk,
        ht, hcontext, hcontext', htools]

-- ======== tools

theorem comma_notMem : ∀ tool ∈ allToolDefs, comma ∉ tool.name := by
  decide

theorem shortNames_eq_nil_iff :
    shortNames cfg allowedTools = []
      ↔ ∀ entry ∈ allowedTools, ¬ Qualified cfg entry := by
  unfold shortNames
  rw [List.map_eq_nil_iff, List.filter_eq_nil_iff]
  exact Iff.rfl

theorem listed_iff :
    Listed cfg allowedTools name
      ↔ name ∈ (shortNames cfg allowedTools).flatMap (·.splitOn comma) := by
  simp [Listed, Qualified, shortNames, and_assoc]

/-- The names in the allow set: bare entries, and what is behind the MCP
name of the others. -/
theorem mem_makeAllowSet_iff :
    name ∈ makeAllowSet cfg allowedTools
      ↔ (name ∈ allowedTools ∧ ¬ Qualified cfg name)
        ∨ ∃ entry ∈ allowedTools, Qualified cfg entry
          ∧ Text.trimPrefix entry cfg.mcpPrefix = name := by
  constructor
  · intro h
    obtain ⟨entry, hentry, hname⟩ := List.mem_map.mp h
    split at hname
    next hq => exact Or.inr ⟨entry, hentry, hq, hname⟩
    next hq => exact Or.inl ⟨hname ▸ hentry, hname ▸ hq⟩
  · rintro (⟨hname, hq⟩ | ⟨entry, hentry, hq, hname⟩)
    · exact List.mem_map.mpr ⟨name, hname, if_neg hq⟩
    · exact List.mem_map.mpr ⟨entry, hentry, (if_pos hq).trans hname⟩

theorem listed_of_entry {entry : Text} (hentry : entry ∈ allowedTools)
    (hq : Qualified cfg entry)
    (hname : Text.trimPrefix entry cfg.mcpPrefix = name)
    (hcomma : comma ∉ name) : Listed cfg allowedTools name := by
  refine ⟨entry, hentry, hq, ?_⟩
  rw [hname, List.splitOn_eq_singleton hcomma]
  exact List.mem_singleton_self name

/-- What the server allows: everything without a fully-qualified entry,
else the pieces of those. -/
theorem allows_iff (commands : Option (List Text)) :
    (Mcp.runWithOptions (toolsRead cfg allowedTools) false
        commands).allows name = true
      ↔ (∀ entry ∈ allowedTools, ¬ Qualified cfg entry)
        ∨ Listed cfg allowedTools name := by
  rw [← shortNames_eq_nil_iff, listed_iff]
  by_cases hnil : shortNames cfg allowedTools = []
  · have hread : toolsRead cfg allowedTools = none := if_neg (not_not.mpr hnil)
    simp [Mcp.runWithOptions, Mcp.Server.allows, hread, hnil]
  · have hread : toolsRead cfg allowedTools = some
        ((shortNames cfg allowedTools).flatMap (·.splitOn comma)) := by
      unfold toolsRead joinWith
      rw [if_pos hnil, Text.splitOn_intercalate comma hnil]
    obtain ⟨piece, pieces, hcons⟩ : ∃ piece pieces,
        (shortNames cfg allowedTools).flatMap (·.splitOn comma)
          = piece :: pieces := by
      refine List.exists_cons_of_ne_nil ?_
      rw [← Text.splitOn_intercalate comma hnil]
      exact List.splitOn_ne_nil comma _
    simp [Mcp.runWithOptions, Mcp.Server.allows, hread, hnil, hcons]

theorem accepts_iff :
    Accepts s name
      ↔ s.allows name = true ∧ name ∈ allToolDefs.map ToolDef.name := by
  constructor
  · intro h
    exact ⟨h.allowed, (Tools.callTool_known _ name ∅).mp (h.known ∅)⟩
  · rintro ⟨hallowed, hmem⟩
    refine ⟨hallowed, ?_, fun args =>
      (Tools.callTool_known _ name args).mpr hmem⟩
    unfold Mcp.Server.validateToolCall
    simp only [Tools.getMeta_isDangerous, Bool.false_and]
    rfl

/-- The server accepts the tools of the allow set if and only if the
arguments carry them. -/
theorem tools_iff (commands : Option (List Text)) :
    (∀ name, Accepts (Mcp.runWithOptions (toolsRead cfg allowedTools) false
          commands) name
        ↔ name ∈ makeAllowSet cfg allowedTools
          ∧ name ∈ allToolDefs.map ToolDef.name)
      ↔ ToolsCarried cfg allowedTools := by
  constructor
  · intro h
    have htool : ∀ tool ∈ allToolDefs,
        ((∀ entry ∈ allowedTools, ¬ Qualified cfg entry)
            ∨ Listed cfg allowedTools tool.name)
          ↔ tool.name ∈ makeAllowSet cfg allowedTools := by
      intro tool htool
      have hname := h tool.name
      rw [accepts_iff, allows_iff] at hname
      have hmem := List.mem_map_of_mem (f := ToolDef.name) htool
      exact ⟨fun hleft => (hname.mp ⟨hleft, hmem⟩).1,
        fun hright => (hname.mpr ⟨hright, hmem⟩).1⟩
    refine ⟨fun hno tool hmem => ?_, ?_, fun tool hmem hlisted => ?_⟩
    · rcases mem_makeAllowSet_iff.mp ((htool tool hmem).mp (Or.inl hno))
        with ⟨hname, -⟩ | ⟨entry, hentry, hq, -⟩
      · exact hname
      · exact absurd hq (hno entry hentry)
    · rintro ⟨entry, hentry, hq⟩ tool hmem hname hbare
      rcases (htool tool hmem).mpr
        (mem_makeAllowSet_iff.mpr (Or.inl ⟨hname, hbare⟩)) with hno | hlisted
      · exact absurd hq (hno entry hentry)
      · exact hlisted
    · exact (htool tool hmem).mp (Or.inr hlisted)
  · intro h name
    rw [accepts_iff, allows_iff]
    refine and_congr_left fun hmem => ?_
    obtain ⟨tool, htool, rfl⟩ := List.mem_map.mp hmem
    constructor
    · rintro (hno | hlisted)
      · exact mem_makeAllowSet_iff.mpr (Or.inl ⟨h.omitted hno tool htool,
          fun hq => hno _ (h.omitted hno tool htool) hq⟩)
      · exact h.commas tool htool hlisted
    · intro hset
      rcases mem_makeAllowSet_iff.mp hset with
        ⟨hname, hbare⟩ | ⟨entry, hentry, hq, hname⟩
      · by_cases hsome : ∃ entry ∈ allowedTools, Qualified cfg entry
        · exact Or.inr (h.bare hsome tool htool hname hbare)
        · exact Or.inl fun entry hentry hq => hsome ⟨entry, hentry, hq⟩
      · exact Or.inr (listed_of_entry hentry hq hname
          (comma_notMem tool htool))

-- ======== commands

/-- The commands the server reads allow what the pieces of the entries
do. -/
theorem validate_commandsRead (tokens : List Text) :
    validateCommand tokens (commandsRead allowedCommands)
      = validateCommand tokens (allowedCommands.flatMap (·.splitOn bar)) := by
  unfold commandsRead joinWith
  by_cases hnil : allowedCommands = []
  · rw [hnil]
    rfl
  · rw [← Text.splitOn_intercalate bar hnil]
    split
    · rfl
    next hempty =>
      rw [not_not.mp hempty]
      rfl

theorem splitOn_of_notMem {entry piece : Text} (h : bar ∉ entry)
    (hpiece : piece ∈ entry.splitOn bar) : piece = entry := by
  rw [List.splitOn_eq_singleton h] at hpiece
  exact List.mem_singleton.mp hpiece

theorem validate_self {entry : Text} {entries : List Text}
    (h : entry ∈ entries) (hne : Text.fields entry ≠ []) :
    validateCommand (Text.fields entry) entries = true :=
  Tools.within_iff.mpr (fun _ => id) entry h hne

/-- The server accepts the commands of the list if and only if the
arguments carry them. -/
theorem commands_iff :
    (∀ tokens, validateCommand tokens (commandsRead allowedCommands)
        = validateCommand tokens allowedCommands)
      ↔ CommandsCarried allowedCommands := by
  constructor
  · intro h
    have hpieces : ∀ tokens,
        validateCommand tokens (allowedCommands.flatMap (·.splitOn bar))
          = validateCommand tokens allowedCommands := fun tokens =>
      (validate_commandsRead tokens).symm.trans (h tokens)
    refine ⟨fun entry hentry _ hne => ?_,
      fun entry hentry _ piece hpiece hne => ?_⟩
    · rw [hpieces]
      exact validate_self hentry hne
    · rw [← hpieces]
      exact validate_self (List.mem_flatMap.mpr ⟨entry, hentry, hpiece⟩) hne
  · intro h tokens
    rw [validate_commandsRead]
    refine Bool.eq_iff_iff.mpr ⟨?_, ?_⟩
    · refine Tools.within_iff.mp (fun piece hpiece hne => ?_) tokens
      obtain ⟨entry, hentry, hsplit⟩ := List.mem_flatMap.mp hpiece
      by_cases hbar : bar ∈ entry
      · exact h.pieces entry hentry hbar piece hsplit hne
      · obtain rfl := splitOn_of_notMem hbar hsplit
        exact validate_self hentry hne
    · refine Tools.within_iff.mp (fun entry hentry hne => ?_) tokens
      by_cases hbar : bar ∈ entry
      · exact h.whole entry hentry hbar hne
      · refine validate_self (List.mem_flatMap.mpr ⟨entry, hentry, ?_⟩) hne
        rw [List.splitOn_eq_singleton hbar]
        exact List.mem_singleton_self entry

-- ======== the server

/-- A server that is started with the arguments of the Codex provider
grants what the API provider does if and only if the arguments carry
both lists. -/
theorem codex_sameGrants_iff (cfg : Config) (k8sContext : Text)
    (allowedTools allowedCommands : List Text) :
    (∃ s, Mcp.main (mcpArgs cfg k8sContext allowedTools allowedCommands)
          = some (k8sContext, s)
        ∧ SameGrants cfg s allowedTools allowedCommands)
      ↔ ToolsCarried cfg allowedTools ∧ CommandsCarried allowedCommands := by
  rw [main_mcpArgs]
  constructor
  · rintro ⟨s, hs, h⟩
    obtain ⟨-, rfl⟩ := Prod.mk.inj (Option.some.inj hs)
    exact ⟨(tools_iff _).mp h.tools, commands_iff.mp h.commands⟩
  · rintro ⟨htools, hcommands⟩
    exact ⟨_, rfl, (tools_iff _).mpr htools,
      commands_iff.mpr hcommands⟩

/-- No tools are asked for, and all of them are granted. -/
theorem codex_grants_all :
    ¬ ∀ (cfg : Config) (k8sContext : Text)
      (allowedTools allowedCommands : List Text),
      ∃ s, Mcp.main (mcpArgs cfg k8sContext allowedTools allowedCommands)
          = some (k8sContext, s)
        ∧ SameGrants cfg s allowedTools allowedCommands := by
  intro h
  obtain ⟨s, hs, hgrants⟩ := h defaultConfig [] [] []
  rw [main_mcpArgs] at hs
  obtain ⟨-, rfl⟩ := Prod.mk.inj (Option.some.inj hs)
  have hlist := (hgrants.tools Tools.listResources.name).mp
    (accepts_iff.mpr ⟨(allows_iff _).mpr (Or.inl fun _ hentry =>
      absurd hentry List.not_mem_nil), by decide⟩)
  exact absurd hlist.1 List.not_mem_nil

end Ai
