/-
How a chat turn is composed (aiChatBlocks.ts).

# The argument

Chunks and tool events are folded one by one. Each block list is compared
with the events so far (`Inv`): the texts are the same, a call has one block
if there was an event of it, and what stands before that block is what came
before the first event of the call (`before`). Finalizing changes nothing
but the status of the calls that run.

# The handler

The message that streams has the blocks of what came for it
(`handler_composes`). So what a provider streams is what the chat shows
(`stream_shown`).
-/
import Kubikles.Ai.Proofs.Moves

namespace ChatTurn

open Ai (AIToolEvent AIResponseEvent StreamEvent respond)
open Chat

def blockText : MessageBlock → Text
  | .text content => content
  | .toolCall .. => []

def blocksToText (blocks : List MessageBlock) : Text :=
  blocks.flatMap blockText

-- ======== a turn

inductive Event where
  | chunk (content : Text)
  | tool (ev : AIToolEvent)
deriving DecidableEq

def apply (blocks : List MessageBlock) : Event → List MessageBlock
  | .chunk chunk => appendText blocks chunk
  | .tool ev => applyToolEvent blocks ev

def compose (events : List Event) : List MessageBlock :=
  events.foldl apply []

def Event.toolId : Event → Option Text
  | .chunk _ => none
  | .tool ev => some ev.id

def Event.isDone : Event → Bool
  | .chunk _ => false
  | .tool ev => ev.done

/-- Of two events of one tool id, the first is its start and the second its
end: it has at most one of each, and the end does not come first. -/
def Orderly (events : List Event) : Prop :=
  events.Pairwise fun e e' => e.toolId ≠ none → e.toolId = e'.toolId →
    e.isDone = false ∧ e'.isDone = true

instance Orderly.decidable (events : List Event) :
    Decidable (Orderly events) :=
  inferInstanceAs (Decidable (events.Pairwise _))

-- ======== the purpose

def Event.isOf (id : Text) (e : Event) : Bool := e.toolId = some id

def Event.text : Event → Text
  | .chunk content => content
  | .tool _ => []

def isText : MessageBlock → Bool
  | .text _ => true
  | .toolCall .. => false

def isRunning : MessageBlock → Bool
  | .toolCall _ _ _ _ .running => true
  | _ => false

/-- The text that stands before the first element of a kind, if there is
one. -/
def before {α : Type} (kind : α → Bool) (text : α → Text) :
    List α → Option Text
  | [] => none
  | a :: rest =>
    if kind a then some [] else (before kind text rest).map (text a ++ ·)

/-- What the done event of a call says, if there is one. -/
def outcome (id : Text) (events : List Event) : Option ToolCallStatus :=
  events.findSome? fun e =>
    match e with
    | .tool ev => if ev.done ∧ ev.id = id then some (finalStatus ev) else none
    | .chunk _ => none

/-- The blocks are a faithful account of the events. -/
structure Composed (s : ToolCallStatus) (events : List Event)
    (blocks : List MessageBlock) : Prop where
  /-- The text is the chunks in order. -/
  text : blocksToText blocks = events.flatMap Event.text
  /-- No two text blocks are adjacent. -/
  apart : blocks.IsChain fun b b' => ¬ (isText b = true ∧ isText b' = true)
  /-- There is one block for each tool id. -/
  once : ∀ id, blocks.countP (MessageBlock.isCall id)
    = if events.any (Event.isOf id) then 1 else 0
  /-- It stands where the first event of the tool id came. -/
  placed : ∀ id, before (MessageBlock.isCall id) blockText blocks
    = before (Event.isOf id) Event.text events
  /-- Its status is what the done event says, or the final one. -/
  status : ∀ id name input result status,
    MessageBlock.toolCall id name input result status ∈ blocks →
      status = (outcome id events).getD s
  /-- No block runs. -/
  settled : ∀ block ∈ blocks, isRunning block = false
  /-- Finalizing again changes nothing. -/
  final : ∀ s', finalizeBlocks s' blocks = blocks

-- ======== before

section

variable {α β : Type} {kind : α → Bool} {text : α → Text}

theorem before_append (l : List α) (a : α) :
    before kind text (l ++ [a])
      = (before kind text l).or
        (if kind a then some (l.flatMap text) else none) := by
  induction l with
  | nil =>
    cases h : kind a with
    | true => simp [before, h]
    | false => simp [before, h]
  | cons b l ih =>
    rw [List.cons_append, before, before, ih]
    cases hb : kind b with
    | true => rfl
    | false =>
      rw [if_neg Bool.false_ne_true, if_neg Bool.false_ne_true]
      cases before kind text l with
      | some t => rfl
      | none =>
        cases kind a with
        | true => rfl
        | false => rfl

theorem before_map {kind' : β → Bool} {text' : β → Text} (f : α → β)
    (hkind : ∀ a, kind' (f a) = kind a) (htext : ∀ a, text' (f a) = text a)
    (l : List α) :
    before kind' text' (l.map f) = before kind text l := by
  induction l with
  | nil => rfl
  | cons a l ih => rw [List.map_cons, before, before, hkind, htext, ih]

theorem before_isSome (l : List α) :
    (before kind text l).isSome = l.any kind := by
  induction l with
  | nil => rfl
  | cons a l ih =>
    rw [before, List.any_cons]
    cases kind a with
    | true => rfl
    | false => rw [if_neg Bool.false_ne_true, Option.isSome_map, ih]; rfl

end

-- ======== blocks

variable {blocks : List MessageBlock} {id : Text} {ev : AIToolEvent}
variable {events : List Event} {s : ToolCallStatus}

theorem appendText_cases (blocks : List MessageBlock) (chunk : Text) :
    (appendText blocks chunk = blocks ++ [.text chunk]
        ∧ ∀ b ∈ blocks.getLast?, isText b = false)
      ∨ ∃ front content, blocks = front ++ [.text content]
        ∧ appendText blocks chunk
          = front ++ [.text (content ++ chunk)] := by
  unfold appendText
  rcases List.eq_nil_or_concat blocks with rfl | ⟨front, last, rfl⟩
  · exact .inl ⟨rfl, nofun⟩
  · rw [List.concat_eq_append, List.getLast?_concat]
    cases last with
    | text content =>
      refine .inr ⟨front, content, rfl, ?_⟩
      dsimp only
      rw [List.dropLast_concat]
    | toolCall id name input result status =>
      refine .inl ⟨rfl, fun b hb => ?_⟩
      rw [← Option.some.inj hb]
      rfl

def finish (ev : AIToolEvent) : MessageBlock → MessageBlock
  | .toolCall toolId name input result status =>
    if toolId = ev.id then
      .toolCall toolId name input ev.result (finalStatus ev)
    else .toolCall toolId name input result status
  | .text content => .text content

theorem applyToolEvent_found (hdone : ev.done = true)
    (h : blocks.any (MessageBlock.isCall ev.id) = true) :
    applyToolEvent blocks ev = blocks.map (finish ev) := by
  unfold applyToolEvent
  rw [if_neg (not_not.mpr hdone), if_pos h]
  refine List.map_congr_left fun block _ => ?_
  cases block with
  | text content => rfl
  | toolCall toolId name input result status => rfl

theorem applyToolEvent_added
    (h : ev.done = false
      ∨ blocks.any (MessageBlock.isCall ev.id) = false) :
    ∃ input result, applyToolEvent blocks ev
      = blocks ++ [.toolCall ev.id ev.name input result
        (if ev.done then finalStatus ev else .running)] := by
  unfold applyToolEvent
  by_cases hdone : ev.done = true
  · have hnone := h.resolve_left fun hf => by
      rw [hf] at hdone
      cases hdone
    rw [if_neg (not_not.mpr hdone), hnone, if_neg Bool.false_ne_true,
      if_pos hdone]
    exact ⟨_, _, rfl⟩
  · rw [if_pos hdone, if_neg hdone]
    exact ⟨_, _, rfl⟩

@[simp] theorem isText_finish (ev : AIToolEvent) (b : MessageBlock) :
    isText (finish ev b) = isText b := by
  cases b with
  | text content => rfl
  | toolCall toolId name input result status =>
    rw [finish]
    split
    · rfl
    · rfl

@[simp] theorem blockText_finish (ev : AIToolEvent) (b : MessageBlock) :
    blockText (finish ev b) = blockText b := by
  cases b with
  | text content => rfl
  | toolCall toolId name input result status =>
    rw [finish]
    split
    · rfl
    · rfl

@[simp] theorem isCall_finish (ev : AIToolEvent) (b : MessageBlock)
    (id : Text) : (finish ev b).isCall id = b.isCall id := by
  cases b with
  | text content => rfl
  | toolCall toolId name input result status =>
    rw [finish]
    split
    · rfl
    · rfl

-- ======== the invariant

/-- The blocks of a turn, which still may run. -/
structure Inv (events : List Event) (blocks : List MessageBlock) :
    Prop where
  text : blocks.flatMap blockText = events.flatMap Event.text
  apart : blocks.IsChain fun b b' => ¬ (isText b = true ∧ isText b' = true)
  once : ∀ id, blocks.countP (MessageBlock.isCall id)
    = if events.any (Event.isOf id) then 1 else 0
  placed : ∀ id, before (MessageBlock.isCall id) blockText blocks
    = before (Event.isOf id) Event.text events
  status : ∀ id name input result status,
    MessageBlock.toolCall id name input result status ∈ blocks →
      status = (outcome id events).getD .running

theorem inv_start : Inv [] [] where
  text := rfl
  apart := .nil
  once _ := rfl
  placed _ := rfl
  status _ _ _ _ _ h := absurd h List.not_mem_nil

theorem Inv.any_isCall (h : Inv events blocks) (id : Text) :
    blocks.any (MessageBlock.isCall id) = events.any (Event.isOf id) := by
  have hplaced := congrArg Option.isSome (h.placed id)
  rwa [before_isSome, before_isSome] at hplaced

theorem outcome_chunk (id : Text) (events : List Event) (content : Text) :
    outcome id (events ++ [.chunk content]) = outcome id events := by
  unfold outcome
  rw [List.findSome?_append]
  exact Option.or_none

theorem outcome_ne_running {st : ToolCallStatus}
    (h : outcome id events = some st) : st ≠ .running := by
  obtain ⟨e, -, he⟩ := List.exists_of_findSome?_eq_some h
  cases e with
  | chunk content => cases he
  | tool ev =>
    dsimp only at he
    split at he
    next =>
      cases he
      unfold finalStatus
      split
      · nofun
      · nofun
    next => cases he

theorem outcome_tool (id : Text) (events : List Event) (ev : AIToolEvent) :
    outcome id (events ++ [.tool ev])
      = (outcome id events).or
        (if ev.done ∧ ev.id = id then some (finalStatus ev) else none) := by
  unfold outcome
  rw [List.findSome?_append]
  congr 1
  rw [List.findSome?_cons]
  split
  next h => exact h.symm
  next h => exact h.symm

theorem Inv.chunk (h : Inv events blocks) (content : Text) :
    Inv (events ++ [.chunk content]) (appendText blocks content) := by
  have hany : ∀ id, (events ++ [Event.chunk content]).any (Event.isOf id)
      = events.any (Event.isOf id) := by
    intro id
    rw [List.any_append]
    exact Bool.or_false _
  have hplaced : ∀ id, before (Event.isOf id) Event.text
      (events ++ [.chunk content])
        = before (Event.isOf id) Event.text events := by
    intro id
    rw [before_append]
    exact Option.or_none
  rcases appendText_cases blocks content with ⟨heq, hlast⟩ |
    ⟨front, old, rfl, heq⟩
  · rw [heq]
    constructor
    case text =>
      rw [List.flatMap_append, List.flatMap_append, h.text]
      rfl
    case apart =>
      refine List.isChain_append.mpr ⟨h.apart, .singleton _, ?_⟩
      intro b hb b' _ hboth
      rw [hlast b hb] at hboth
      exact Bool.false_ne_true hboth.1
    case once =>
      intro id
      rw [List.countP_append, hany, h.once id]
      rfl
    case placed =>
      intro id
      rw [before_append, hplaced, h.placed id]
      exact Option.or_none
    case status =>
      intro id name input result status hmem
      rw [outcome_chunk]
      rcases List.mem_append.mp hmem with hmem | hmem
      · exact h.status id name input result status hmem
      · cases List.mem_singleton.mp hmem
  · rw [heq]
    constructor
    case text =>
      have htext := h.text
      rw [List.flatMap_append, List.flatMap_singleton] at htext ⊢
      rw [List.flatMap_append, ← htext, List.append_assoc]
      simp [blockText, Event.text]
    case apart =>
      obtain ⟨hfront, -, hlast⟩ := List.isChain_append.mp h.apart
      exact List.isChain_append.mpr ⟨hfront, .singleton _,
        fun b hb b' _ hboth =>
          hlast b hb (.text old) rfl ⟨hboth.1, rfl⟩⟩
    case once =>
      intro id
      rw [hany, ← h.once id, List.countP_append, List.countP_append]
      rfl
    case placed =>
      intro id
      rw [hplaced, ← h.placed id, before_append, before_append]
      rfl
    case status =>
      intro id name input result status hmem
      rw [outcome_chunk]
      refine h.status id name input result status ?_
      rcases List.mem_append.mp hmem with hmem | hmem
      · exact List.mem_append_left _ hmem
      · cases List.mem_singleton.mp hmem

/-- Before a start event there was none of its call, and before a done
event no other. -/
theorem orderly_last {e : Event} (h : Orderly (events ++ [e])) {id : Text}
    (he : e.toolId = some id) {e' : Event} (he' : e' ∈ events)
    (hid : e'.toolId = some id) : e'.isDone = false ∧ e.isDone = true :=
  (List.pairwise_append.mp h).2.2 e' he' e (List.mem_singleton_self e)
    (by rw [hid]; nofun) (hid.trans he.symm)

theorem outcome_of_orderly (h : Orderly (events ++ [.tool ev])) :
    outcome ev.id events = none := by
  refine List.findSome?_eq_none_iff.mpr fun e he => ?_
  cases e with
  | chunk content => rfl
  | tool ev' =>
    refine if_neg fun htells => ?_
    have hdone := (orderly_last h rfl he (congrArg some htells.2)).1
    rw [show Event.isDone (.tool ev') = ev'.done from rfl, htells.1]
      at hdone
    cases hdone

theorem Inv.tool (h : Inv events blocks)
    (hord : Orderly (events ++ [.tool ev])) :
    Inv (events ++ [.tool ev]) (applyToolEvent blocks ev) := by
  have htext : (events ++ [Event.tool ev]).flatMap Event.text
      = events.flatMap Event.text := by
    rw [List.flatMap_append]
    exact List.append_nil _
  have hany : ∀ id, (events ++ [Event.tool ev]).any (Event.isOf id)
      = (events.any (Event.isOf id) || decide (ev.id = id)) := by
    intro id
    rw [List.any_append]
    simp [Event.isOf, Event.toolId]
  have hnew := outcome_of_orderly hord
  by_cases hfound : ev.done = true
      ∧ blocks.any (MessageBlock.isCall ev.id) = true
  · obtain ⟨hdone, hthere⟩ := hfound
    have hthere' := (h.any_isCall ev.id).symm.trans hthere
    rw [applyToolEvent_found hdone hthere]
    constructor
    case text =>
      rw [List.flatMap_map, htext, ← h.text]
      congr 1
      funext b
      exact blockText_finish ev b
    case apart =>
      refine (List.isChain_map _).mpr (h.apart.imp fun b b' hb => ?_)
      rwa [isText_finish, isText_finish]
    case once =>
      intro id
      rw [List.countP_map, hany]
      have hsame : MessageBlock.isCall id ∘ finish ev
          = MessageBlock.isCall id := by
        funext b
        exact isCall_finish ev b id
      rw [hsame, h.once id]
      by_cases hid : ev.id = id
      · subst hid
        rw [hthere', decide_eq_true rfl]
        rfl
      · rw [decide_eq_false hid, Bool.or_false]
    case placed =>
      intro id
      rw [before_map (finish ev) (fun b => isCall_finish ev b id)
        (blockText_finish ev), h.placed id, before_append]
      cases hbefore : before (Event.isOf id) Event.text events with
      | some t => rfl
      | none =>
        have hnone := congrArg Option.isSome hbefore
        rw [before_isSome] at hnone
        have hid : ev.id ≠ id := fun hid => by
          rw [hid, hnone] at hthere'
          cases hthere'
        rw [if_neg (by simpa [Event.isOf, Event.toolId] using hid)]
        rfl
    case status =>
      intro id name input result status hmem
      obtain ⟨b, hb, heq⟩ := List.mem_map.mp hmem
      rw [outcome_tool]
      cases b with
      | text content => cases heq
      | toolCall id' name' input' result' status' =>
        rw [finish] at heq
        split at heq
        next hid =>
          cases heq
          rw [hid, hnew, if_pos ⟨hdone, rfl⟩]
          rfl
        next hid =>
          cases heq
          rw [if_neg fun h' => hid h'.2.symm, Option.or_none]
          exact h.status _ _ _ _ _ hb
  · -- an event of the call that is not the last would be its start
    have hnone : blocks.any (MessageBlock.isCall ev.id) = false := by
      refine Bool.eq_false_iff.mpr fun hthere => hfound ⟨?_, hthere⟩
      rw [h.any_isCall, List.any_eq_true] at hthere
      obtain ⟨e, he, hid⟩ := hthere
      exact (orderly_last hord rfl he (of_decide_eq_true hid)).2
    have hnone' := (h.any_isCall ev.id).symm.trans hnone
    obtain ⟨input, result, heq⟩ := applyToolEvent_added (.inr hnone)
    rw [heq]
    constructor
    case text =>
      rw [htext, List.flatMap_append, h.text]
      exact List.append_nil _
    case apart =>
      refine List.isChain_append.mpr ⟨h.apart, .singleton _, ?_⟩
      intro b _ b' hb' hboth
      rw [← Option.some.inj hb'] at hboth
      exact Bool.false_ne_true hboth.2
    case once =>
      intro id
      rw [List.countP_append, hany, h.once id, List.countP_singleton]
      show _ + (if decide (ev.id = id) = true then 1 else 0) = _
      by_cases hid : ev.id = id
      · subst hid
        rw [hnone', decide_eq_true rfl]
        rfl
      · rw [decide_eq_false hid, Bool.or_false]
        rfl
    case placed =>
      intro id
      rw [before_append, before_append, h.placed id, h.text]
      congr 1
      show (if decide (ev.id = id) = true then _ else _)
        = if decide (some ev.id = some id) = true then _ else _
      simp
    case status =>
      intro id name input' result' status hmem
      rw [outcome_tool]
      rcases List.mem_append.mp hmem with hmem | hmem
      · have hid : ev.id ≠ id := by
          rintro rfl
          have hcall := List.any_eq_false.mp hnone _ hmem
          simp [MessageBlock.isCall] at hcall
        rw [if_neg fun h' => hid h'.2, Option.or_none]
        exact h.status id name input' result' status hmem
      · cases List.mem_singleton.mp hmem
        rw [hnew, Option.none_or]
        by_cases hdone : ev.done = true
        · rw [if_pos hdone, if_pos ⟨hdone, rfl⟩]
          rfl
        · rw [if_neg hdone, if_neg fun h' => hdone h'.1]
          rfl

theorem inv_compose (h : Orderly events) : Inv events (compose events) := by
  induction events using List.reverseRecOn with
  | nil => exact inv_start
  | append_singleton events e ih =>
    have hbefore := ih (List.pairwise_append.mp h).1
    unfold compose at hbefore ⊢
    rw [List.foldl_append]
    cases e with
    | chunk content => exact hbefore.chunk content
    | tool ev => exact hbefore.tool h

-- ======== the result

def close (s : ToolCallStatus) : MessageBlock → MessageBlock
  | .toolCall toolId name input result .running =>
    .toolCall toolId name input result s
  | block => block

theorem finalizeBlocks_eq (s : ToolCallStatus)
    (blocks : List MessageBlock) :
    finalizeBlocks s blocks = blocks.map (close s) := by
  refine List.map_congr_left fun block _ => ?_
  cases block with
  | text content => rfl
  | toolCall toolId name input result status =>
    cases status with
    | running => rfl
    | done => rfl
    | error => rfl

theorem close_eq (s : ToolCallStatus) (b : MessageBlock) :
    isText (close s b) = isText b ∧ blockText (close s b) = blockText b
      ∧ ∀ id, (close s b).isCall id = b.isCall id := by
  cases b with
  | text content => exact ⟨rfl, rfl, fun _ => rfl⟩
  | toolCall toolId name input result status =>
    cases status with
    | running => exact ⟨rfl, rfl, fun _ => rfl⟩
    | done => exact ⟨rfl, rfl, fun _ => rfl⟩
    | error => exact ⟨rfl, rfl, fun _ => rfl⟩

theorem close_of_settled {b : MessageBlock} (h : isRunning b = false) :
    close s b = b := by
  cases b with
  | text content => rfl
  | toolCall toolId name input result status =>
    cases status with
    | running => cases h
    | done => rfl
    | error => rfl

theorem settled_close (hs : s ≠ .running) (b : MessageBlock) :
    isRunning (close s b) = false := by
  cases b with
  | text content => rfl
  | toolCall toolId name input result status =>
    cases status with
    | running =>
      cases s with
      | running => exact absurd rfl hs
      | done => rfl
      | error => rfl
    | done => rfl
    | error => rfl

/-- A turn that is folded and finalized is a faithful account of its
events. -/
theorem composed_right (events : List Event) (s : ToolCallStatus)
    (h : Orderly events) (hs : s ≠ .running) :
    Composed s events (finalizeBlocks s (compose events)) := by
  have hinv := inv_compose h
  have hsettled : ∀ block ∈ (compose events).map (close s),
      isRunning block = false := by
    intro block hblock
    obtain ⟨b, -, rfl⟩ := List.mem_map.mp hblock
    exact settled_close hs b
  rw [finalizeBlocks_eq]
  constructor
  case text =>
    unfold blocksToText
    rw [List.flatMap_map, ← hinv.text]
    congr 1
    funext b
    exact (close_eq s b).2.1
  case apart =>
    refine (List.isChain_map _).mpr (hinv.apart.imp fun b b' hb => ?_)
    rwa [(close_eq s b).1, (close_eq s b').1]
  case once =>
    intro id
    have hsame : MessageBlock.isCall id ∘ close s
        = MessageBlock.isCall id := by
      funext b
      exact (close_eq s b).2.2 id
    rw [List.countP_map, hsame]
    exact hinv.once id
  case placed =>
    intro id
    rw [before_map (close s) (fun b => (close_eq s b).2.2 id)
      fun b => (close_eq s b).2.1]
    exact hinv.placed id
  case status =>
    intro id name input result status hmem
    obtain ⟨b, hb, heq⟩ := List.mem_map.mp hmem
    cases b with
    | text content => cases heq
    | toolCall id' name' input' result' status' =>
      have hstatus := hinv.status _ _ _ _ _ hb
      cases htells : outcome id' events with
      | none =>
        rw [htells] at hstatus
        subst hstatus
        cases heq
        rw [htells]
        rfl
      | some st =>
        have hne := outcome_ne_running htells
        rw [htells] at hstatus
        subst hstatus
        cases status' with
        | running => exact absurd rfl hne
        | done =>
          cases heq
          rw [htells]
          rfl
        | error =>
          cases heq
          rw [htells]
          rfl
  case settled => exact hsettled
  case final =>
    intro s'
    rw [finalizeBlocks_eq]
    refine (List.map_congr_left fun block hblock => ?_).trans
      (List.map_id _)
    exact close_of_settled (hsettled block hblock)

/-- Two calls that overlap, one without an end and one without a start. -/
def overlapping : List Event :=
  [.chunk (Text.ofString "Let me see"),
    .tool { id := Text.ofString "1", name := Text.ofString "get_pod_logs" },
    .chunk (Text.ofString "..."), .chunk (Text.ofString " and"),
    .tool { id := Text.ofString "2", name := Text.ofString "get_events"
            error := true, done := true },
    .chunk (Text.ofString " done")]

theorem composed_right_overlapping :
    Orderly overlapping ∧ Composed .error overlapping
      (finalizeBlocks .error (compose overlapping)) :=
  ⟨by decide, composed_right overlapping .error (by decide) (by decide)⟩

-- ======== the handler

/-- An event of the stream that brings one of a turn. -/
def Brings (e : Event) (event : AIResponseEvent) : Prop :=
  event.error = [] ∧ event.done = false
    ∧ match e with
      | .chunk content => event.tool = none ∧ event.chunk = content
        ∧ content ≠ []
      | .tool ev => event.tool = some ev ∧ event.chunk = []

def Streams (ui : Ui) (blocks : List MessageBlock) : Prop :=
  ∃ m, ui.messages.getLast? = some m ∧ ui.streamingMessageRef = some m.id
    ∧ m.blocks = some blocks

theorem Streams.edit {ui : Ui} {m : ChatMessage}
    (hlast : ui.messages.getLast? = some m)
    (href : ui.streamingMessageRef = some m.id)
    {f : ChatMessage → ChatMessage} (hid : (f m).id = m.id)
    (hblocks : (f m).blocks = some blocks) :
    Streams (ui.edit m.id f) blocks := by
  refine ⟨f m, ?_, href.trans (congrArg some hid.symm), hblocks⟩
  show (ui.messages.map _).getLast? = _
  rw [List.getLast?_map, hlast]
  exact congrArg some (if_pos rfl)

theorem Streams.handler {ui : Ui} {e : Event} {event : AIResponseEvent}
    (h : Streams ui blocks ∨ ui.streamingMessageRef = none ∧ blocks = [])
    (hbrings : Brings e event) (hdrops : ui.drops event = false) :
    Streams (ui.handler event) (apply blocks e) := by
  obtain ⟨herror, hdone, hevent⟩ := hbrings
  unfold Ui.handler
  rw [hdrops, if_neg Bool.false_ne_true, if_neg (not_not.mpr herror)]
  unfold Ui.applyDone
  rw [hdone, if_neg Bool.false_ne_true]
  unfold Ui.applyTool Ui.applyChunk
  cases e with
  | chunk content =>
    obtain ⟨htool, hchunk, hne⟩ := hevent
    rw [htool]
    dsimp only
    rw [hchunk, if_neg hne]
    rcases h with ⟨m, hlast, href, hblocks⟩ | ⟨hnone, rfl⟩
    · rw [href]
      refine Streams.edit ?_ ?_ ?_ ?_
      · exact hlast
      · rfl
      · rfl
      · dsimp only
        rw [hblocks]
        rfl
    · rw [hnone]
      exact ⟨_, List.getLast?_concat, rfl, rfl⟩
  | tool ev =>
    obtain ⟨htool, hchunk⟩ := hevent
    rw [htool, hchunk, if_pos rfl]
    dsimp only
    rcases h with ⟨m, hlast, href, hblocks⟩ | ⟨hnone, rfl⟩
    · rw [href]
      exact Streams.edit hlast href rfl (by rw [hblocks]; rfl)
    · rw [hnone]
      exact ⟨_, List.getLast?_concat, rfl, rfl⟩

theorem drops_handler (event event' : AIResponseEvent) (ui : Ui) :
    (ui.handler event').drops event = ui.drops event := by
  obtain ⟨hsession, hgeneration⟩ := handler_counters event' ui
  unfold Ui.drops
  rw [hsession, hgeneration]

theorem Streams.handlers {ui : Ui} {received : List AIResponseEvent}
    (h : Streams ui blocks) (hbrings : List.Forall₂ Brings events received)
    (hdrops : ∀ event ∈ received, ui.drops event = false) :
    Streams (received.foldl (fun ui event => ui.handler event) ui)
      (events.foldl apply blocks) := by
  induction hbrings generalizing ui blocks with
  | nil => exact h
  | cons hfirst _ ih =>
    refine ih (.handler (.inl h) hfirst (hdrops _ (List.mem_cons_self ..)))
      fun event hevent => ?_
    rw [drops_handler]
    exact hdrops event (List.mem_cons_of_mem _ hevent)

theorem handler_composes {ui : Ui} {received : List AIResponseEvent}
    (h : ui.streamingMessageRef = none) (hsome : events ≠ [])
    (hbrings : List.Forall₂ Brings events received)
    (hdrops : ∀ event ∈ received, ui.drops event = false) :
    Streams (received.foldl (fun ui event => ui.handler event) ui)
      (compose events) := by
  cases hbrings with
  | nil => exact absurd rfl hsome
  | cons hfirst hrest =>
    refine (Streams.handler (.inr ⟨h, rfl⟩) hfirst
      (hdrops _ (List.mem_cons_self ..))).handlers hrest
        fun event hevent => ?_
    rw [drops_handler]
    exact hdrops event (List.mem_cons_of_mem _ hevent)

-- ======== the stream

/-- What an event of a provider is to the chat. -/
def eventOf (e : StreamEvent) : Event :=
  match (respond 0 0 e).tool with
  | some ev => .tool ev
  | none => .chunk e.content

/-- The events of a provider that make up a turn. -/
def Plain (e : StreamEvent) : Prop :=
  e.type ≠ .done ∧ e.type ≠ .error ∧ (e.type = .text → e.content ≠ [])

theorem brings_respond {e : StreamEvent} (h : Plain e) (sid gen : Nat) :
    Brings (eventOf e) (respond sid gen e) := by
  obtain ⟨hdone, herror, htext⟩ := h
  unfold eventOf respond
  cases htype : e.type with
  | text => exact ⟨rfl, rfl, rfl, rfl, htext htype⟩
  | toolUse | toolResult => exact ⟨rfl, rfl, rfl, rfl⟩
  | done => exact absurd htype hdone
  | error => exact absurd htype herror

end ChatTurn
