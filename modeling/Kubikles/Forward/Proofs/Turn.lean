/-
What a turn of the manager changes, and what it says about it.

`Move` lists what a turn can do together with the events it emits: the
maps change in six ways, each has its event, and what has no event
changes nothing the UI shows. Behind it stands the shape of the frames
(`Paired`): a critical section that is to be followed by an emission has
it right behind it.
-/
import Kubikles.Forward.Proofs.Change
import Kubikles.Lib.Place

namespace PortForwardManager

-- ======== the events

/-- What `AddConfig` emits. -/
def addedEvent (cfg : PortForwardConfig) : PortForwardEvent :=
  { type := .configAdded, configID := cfg.id, config := some cfg }

/-- What `UpdateConfig` emits. -/
def updatedEvent (cfg : PortForwardConfig) : PortForwardEvent :=
  { type := .configUpdated, configID := cfg.id, config := some cfg }

/-- What `DeleteConfig` emits. -/
def removedEvent (configID : String) : PortForwardEvent :=
  { type := .configRemoved, configID }

/-- What `Start` emits. -/
def startedEvent (configID : String) (cfg : PortForwardConfig) :
    PortForwardEvent :=
  { type := .started, configID, config := some cfg
    status := some .starting }

/-- What `Stop` emits. -/
def stoppedEvent (configID : String) : PortForwardEvent :=
  { type := .status .stopped, configID, status := some .stopped }

/-- What `updateStatus` emits. -/
def statusEvent (configID : String) (status : Status) (errMsg : String) :
    PortForwardEvent :=
  { type := status.eventType, configID, status := some status
    error := errMsg }

-- ======== the moves

def ActivePortForward.shown (af : ActivePortForward) :
    PortForwardConfig × Status :=
  (af.config, af.status)

/-- The manager behind a turn, and the events of the turn. -/
inductive Move (m : Manager) :
    Frame → Env → Manager → List PortForwardEvent → Prop where
  | quiet {frame : Frame} {env : Env} {m' : Manager}
      (hconfigs : m'.configs = m.configs)
      (hfiled : ∀ id, (m'.filed id).map (·.shown)
        = (m.filed id).map (·.shown)) :
      Move m frame env m' []
  | addConfig {cfg : PortForwardConfig} {newID : String} {now : Nat}
      (hport : m.portTaken (cfg.stamp newID now).localPort
        (cfg.stamp newID now).id = false) :
      Move m (.call (.addConfig cfg)) (.added newID now)
        (m.load (cfg.stamp newID now)) [addedEvent (cfg.stamp newID now)]
  | updateConfig {cfg existing : PortForwardConfig} {m' : Manager}
      (hlookup : m.configs.lookup cfg.id = some existing)
      (hport : existing.localPort = cfg.localPort
        ∨ m.portTaken cfg.localPort cfg.id = false)
      (hconfigs : m'.configs = m.configs.insert cfg.id
        { cfg with createdAt := existing.createdAt })
      (hactive : m'.active = m.active)
      (hforwards : m'.forwards = m.forwards) :
      Move m (.call (.updateConfig cfg)) .go m'
        [updatedEvent { cfg with createdAt := existing.createdAt }]
  | deleteConfig {configID : String} {localPort : Int}
      (hidle : configID ∉ m.active) :
      Move m (.call (.deleteConfig configID)) .go
        (m.finishDelete configID localPort).manager
        [removedEvent configID]
  | finishDelete {configID : String} {localPort : Int} :
      Move m (.finishDelete configID localPort) .go
        (m.finishDelete configID localPort).manager
        [removedEvent configID]
  | start {configID : String} {cfg : PortForwardConfig} {now : Nat}
      (hlookup : m.configs.lookup configID = some cfg)
      (hidle : configID ∉ m.active) :
      Move m (.call (.start configID)) (.started true now)
        (m.register configID cfg now) [startedEvent configID cfg]
  | remove {configID : String} :
      Move m (.remove configID) .go
        { m with active := m.active.erase configID }
        [stoppedEvent configID]
  | updateStatus {configID : String} {status : Status}
      {errMsg : String} :
      Move m (.updateStatus configID status errMsg) .go
        (m.updateStatus configID status errMsg)
        [statusEvent configID status errMsg]

variable {m : Manager} {frame : Frame} {env : Env}

theorem Move.nothing : Move m frame env m [] :=
  Move.quiet rfl fun _ => rfl

theorem Move.unseen {af : Nat} {f : ActivePortForward → ActivePortForward}
    (hf : ∀ a, (f a).shown = a.shown) :
    Move m frame env (m.modifyForward af f) [] := by
  refine Move.quiet rfl fun id => ?_
  show ((m.active.lookup id).bind ((m.forwards.modify af f)[·]?)).map _ = _
  unfold Manager.filed
  cases m.active.lookup id with
  | none => rfl
  | some i =>
    show ((m.forwards.modify af f)[i]?).map _ = (m.forwards[i]?).map _
    rw [List.getElem?_modify]
    cases m.forwards[i]? with
    | none => rfl
    | some a =>
      show some (ActivePortForward.shown _) = some a.shown
      split
      next => rw [hf]
      next => rfl

-- ======== the frames

def Frame.alone : Frame → Bool
  | .remove _ => false
  | .emitEvent _ => false
  | _ => true

/-- Behind the second critical section of `Stop` comes its emission, and
no other emission has still to be made. -/
inductive Paired : List Frame → Prop where
  | nil : Paired []
  | remove {configID : String} {rest : List Frame} (h : Paired rest) :
      Paired (.remove configID :: .emitEvent (stoppedEvent configID)
        :: rest)
  | alone {frame : Frame} {rest : List Frame}
      (hframe : frame.alone = true) (h : Paired rest) :
      Paired (frame :: rest)

theorem Paired.append {frames rest : List Frame} (h : Paired frames)
    (hrest : Paired rest) : Paired (frames ++ rest) := by
  induction h with
  | nil => exact hrest
  | remove _ ih => exact ih.remove
  | alone hframe _ ih => exact ih.alone hframe

theorem paired_calls (ids : List String) (call : String → Call) :
    Paired (ids.map (fun id => .call (call id)) ++ [.reply .ok]) := by
  induction ids with
  | nil => exact Paired.nil.alone rfl
  | cons id ids ih => exact ih.alone rfl

/-- The effect of a frame is one of the moves, up to an emission that
comes first in the frames it leaves. -/
def Effect.Moves (m : Manager) (frame : Frame) (env : Env) (e : Effect) :
    Prop :=
  ∃ (emission : Option PortForwardEvent) (frames : List Frame),
    e.frames = emission.toList.map .emitEvent ++ frames ∧ Paired frames
      ∧ (∀ l ∈ e.spawned, Paired l)
      ∧ Move m frame env e.manager
          (e.out.filterMap (·.event?) ++ emission.toList)

theorem moves_of_frames {e : Effect} (hframes : Paired e.frames)
    (hspawned : ∀ l ∈ e.spawned, Paired l)
    (hmove : Move m frame env e.manager (e.out.filterMap (·.event?))) :
    e.Moves m frame env :=
  ⟨none, e.frames, rfl, hframes, hspawned, by
    simpa only [Option.toList_none, List.append_nil] using hmove⟩

theorem moves_error (message : String) :
    Effect.Moves m frame env
      { manager := m, out := [.returned (.error message)] } :=
  moves_of_frames Paired.nil (fun _ hl => nomatch hl) Move.nothing

theorem addConfig_moves (newID : String) (now : Nat)
    (cfg : PortForwardConfig) :
    (m.addConfig newID now cfg).Moves m (.call (.addConfig cfg))
      (.added newID now) := by
  unfold Manager.addConfig
  simp only
  split
  next => exact moves_error _
  next hport =>
    refine moves_of_frames Paired.nil (fun _ hl => nomatch hl) ?_
    exact Move.addConfig (by simpa using hport)

theorem updateConfig_moves (cfg : PortForwardConfig) :
    (m.updateConfig cfg).Moves m (.call (.updateConfig cfg)) .go := by
  unfold Manager.updateConfig
  cases hlookup : m.configs.lookup cfg.id with
  | none => exact moves_error _
  | some existing =>
    simp only
    split
    next hport =>
      refine moves_of_frames Paired.nil (fun _ hl => nomatch hl) ?_
      exact Move.updateConfig hlookup (Or.inl hport) rfl rfl rfl
    next =>
      split
      next => exact moves_error _
      next hport =>
        refine moves_of_frames Paired.nil (fun _ hl => nomatch hl) ?_
        exact Move.updateConfig hlookup (Or.inr (by simpa using hport))
          rfl rfl rfl

theorem deleteConfig_moves (configID : String) :
    (m.deleteConfig configID).Moves m (.call (.deleteConfig configID))
      .go := by
  unfold Manager.deleteConfig
  cases hlookup : m.configs.lookup configID with
  | none => exact moves_error _
  | some cfg =>
    simp only
    split
    next =>
      refine moves_of_frames ?_ (fun _ hl => nomatch hl) Move.nothing
      exact (Paired.nil.alone rfl).alone rfl
    next hidle =>
      exact ⟨some (removedEvent configID), [.reply .ok], rfl,
        Paired.nil.alone rfl, (fun _ hl => nomatch hl),
        Move.deleteConfig hidle⟩

theorem start_moves (available : Bool) (now : Nat) (configID : String) :
    (m.start available now configID).Moves m (.call (.start configID))
      (.started available now) := by
  unfold Manager.start
  cases hlookup : m.configs.lookup configID with
  | none => exact moves_error _
  | some cfg =>
    simp only
    split
    next => exact moves_error _
    next hidle =>
      cases available with
      | false => exact moves_error _
      | true =>
        exact ⟨some (startedEvent configID cfg),
          [.spawn m.forwards.length, .reply .ok], rfl,
          (Paired.nil.alone rfl).alone rfl, (fun _ hl => nomatch hl),
          Move.start hlookup hidle⟩

theorem stop_moves (configID : String) :
    (m.stop configID).Moves m (.call (.stop configID)) .go := by
  unfold Manager.stop
  cases m.active.lookup configID with
  | none => exact moves_error _
  | some af =>
    refine moves_of_frames ?_ (fun _ hl => nomatch hl) Move.nothing
    exact ((Paired.nil.alone rfl).remove.alone rfl).alone rfl

theorem forEach_moves {p : Prop} [Decidable p] {ids : List String}
    {method : String → Call} {e : Effect}
    (h : (if p then some (m.forEach ids method) else none) = some e) :
    e.Moves m frame env := by
  split at h
  next =>
    cases h
    exact moves_of_frames (paired_calls ..) (fun _ hl => nomatch hl)
      Move.nothing
  next => cases h

theorem call_moves {call : Call} {e : Effect}
    (h : call.exec m env = some e) : e.Moves m (.call call) env := by
  unfold Call.exec at h
  split at h
  next cfg newID now =>
    cases h
    exact addConfig_moves ..
  next cfg =>
    cases h
    exact updateConfig_moves ..
  next configID =>
    cases h
    exact deleteConfig_moves ..
  next configID available now =>
    cases h
    exact start_moves ..
  next configID =>
    cases h
    exact stop_moves ..
  next ids => exact forEach_moves h
  next contextName ids => exact forEach_moves h
  next contextName ids => exact forEach_moves h
  next contextName ids => exact forEach_moves h
  next => cases h

/-- What a forward's goroutine does next is in no pair. -/
theorem runWithReconnect_paired {af : ActivePortForward} {i : Nat}
    {attempt : Int} {backoff : Nat} {point : Point} {frames : List Frame}
    (h : af.runWithReconnect i attempt backoff point env = some frames) :
    Paired frames := by
  have hone : ∀ frame : Frame, frame.alone = true → Paired [frame] :=
    fun _ hframe => Paired.nil.alone hframe
  unfold ActivePortForward.runWithReconnect at h
  split at h
  next =>
    split at h
    next =>
      split at h <;> cases h
      · exact Paired.nil
      · exact hone _ rfl
    next =>
      cases h
      exact hone _ rfl
  next =>
    cases h
    exact (hone _ rfl).alone rfl
  next =>
    cases h
    exact hone _ rfl
  next =>
    split at h <;> cases h
    exact hone _ rfl
  next =>
    cases h
    exact hone _ rfl
  next =>
    split at h <;> cases h
    exact hone _ rfl
  next =>
    split at h <;> cases h
    · exact Paired.nil
    · exact (hone _ rfl).alone rfl
  next =>
    split at h <;> cases h
    exact Paired.nil
  next =>
    simp only at h
    split at h <;> cases h
    · exact hone _ rfl
    · exact hone _ rfl
  next =>
    split at h <;> cases h
    · exact hone _ rfl
    · exact hone _ rfl
  next => cases h

/-- The effect of every frame but those of a pair. -/
theorem exec_moves {e : Effect} (hframe : frame.alone = true)
    (h : frame.exec m env = some e) : e.Moves m frame env := by
  unfold Frame.exec at h
  split at h
  next method env => exact call_moves h
  next event => cases hframe
  next result =>
    cases h
    exact moves_of_frames Paired.nil (fun _ hl => nomatch hl) Move.nothing
  next af =>
    cases h
    refine moves_of_frames Paired.nil (fun l hl => ?_)
      (Move.unseen fun _ => rfl)
    rw [List.mem_singleton.mp hl]
    exact (Paired.nil.alone rfl).alone rfl
  next af =>
    cases h
    exact moves_of_frames Paired.nil (fun _ hl => nomatch hl)
      (Move.unseen fun _ => rfl)
  next af =>
    split at h
    next =>
      cases h
      exact moves_of_frames Paired.nil (fun _ hl => nomatch hl) Move.nothing
    next => cases h
  next af =>
    cases h
    exact moves_of_frames Paired.nil (fun _ hl => nomatch hl) Move.nothing
  next configID => cases hframe
  next configID localPort =>
    cases h
    exact ⟨some (removedEvent configID), [.reply .ok], rfl,
      Paired.nil.alone rfl, (fun _ hl => nomatch hl), Move.finishDelete⟩
  next af point attempt backoff env =>
    obtain ⟨frames, hframes, heq⟩ := Option.map_eq_some_iff.mp h
    obtain ⟨forward, -, hrun⟩ := Option.bind_eq_some_iff.mp hframes
    rw [← heq]
    exact moves_of_frames (runWithReconnect_paired hrun)
      (fun _ hl => nomatch hl) Move.nothing
  next configID status errMsg =>
    cases h
    exact ⟨some (statusEvent configID status errMsg), [], rfl, Paired.nil,
      (fun _ hl => nomatch hl), Move.updateStatus⟩
  next af =>
    cases h
    exact moves_of_frames Paired.nil (fun _ hl => nomatch hl)
      (Move.unseen fun _ => rfl)
  next => cases h

-- ======== the turns

variable {s s' : Sys} {out : List (Nat × Out)}

/-- The frames of every goroutine come in pairs where they have to. -/
def Sys.Paired (s : Sys) : Prop :=
  ∀ frames ∈ s.goroutines, PortForwardManager.Paired frames

theorem turn_of_step {i : Nat} {s₁ : Sys} {out₁ : List (Nat × Out)}
    {emission : Option PortForwardEvent} {frames : List Frame}
    (hstep : step (.run i env) s = some (s₁, out₁))
    (hnext : s₁.goroutines[i]?
      = some (emission.toList.map .emitEvent ++ frames))
    (hpaired : Paired frames) :
    turn (.run i env) s
      = some (⟨s₁.manager, s₁.goroutines.set i frames⟩,
        out₁ ++ emission.toList.map fun event => (i, .event event)) := by
  simp only [turn, hstep]
  cases emission with
  | some event =>
    have hsys : s₁.next i = some (.emitEvent event, frames) := by
      unfold Sys.next
      rw [hnext]
      rfl
    have hemits : s₁.emitsNext i = true := by
      unfold Sys.emitsNext
      rw [hsys]
    rw [if_pos hemits]
    simp only [step, hsys, Frame.exec, Option.map_some, List.map_cons,
      List.map_nil, List.nil_append, List.append_nil, Option.toList_some]
  | none =>
    have hnext' : s₁.goroutines[i]? = some frames := hnext
    have hquiet : s₁.emitsNext i = false := by
      unfold Sys.emitsNext Sys.next
      rw [hnext']
      cases hpaired with
      | nil => rfl
      | remove _ => rfl
      | @alone frame rest hframe _ =>
        cases frame <;> first | rfl | cases hframe
    rw [hquiet, Place.set_same hnext']
    simp

/-- The turn of a goroutine whose next frame has this effect. -/
theorem turn_of_exec {i : Nat} {frame : Frame} {rest frames : List Frame}
    {e : Effect} (emission : Option PortForwardEvent)
    (hpaired : s.Paired) (hnext : s.goroutines[i]? = some (frame :: rest))
    (hexec : frame.exec s.manager env = some e)
    (hframes : e.frames ++ rest
      = emission.toList.map .emitEvent ++ frames)
    (hrest : Paired frames) (hspawned : ∀ l ∈ e.spawned, Paired l)
    (hmove : Move s.manager frame env e.manager
      (e.out.filterMap (·.event?) ++ emission.toList))
    (h : turn (.run i env) s = some (s', out)) :
    Move s.manager frame env s'.manager (events out) ∧ s'.Paired := by
  have hlt := (List.getElem?_eq_some_iff.mp hnext).1
  have hsys : s.next i = some (frame, rest) := by
    unfold Sys.next
    rw [hnext]
  have hstep : step (.run i env) s
      = some (⟨e.manager, s.goroutines.set i (e.frames ++ rest)
        ++ e.spawned⟩, e.out.map (i, ·)) := by
    simp only [step, hsys, hexec, Option.map_some]
  have hplace : (s.goroutines.set i (e.frames ++ rest)
      ++ e.spawned)[i]? = some (e.frames ++ rest) := by
    rw [List.getElem?_append_left (by rwa [List.length_set])]
    exact Place.set_self hnext
  have hturn := turn_of_step hstep (by rw [hplace, hframes]) hrest
  rw [hturn] at h
  cases h
  constructor
  · have hevents : events (e.out.map (i, ·)
        ++ emission.toList.map fun event => (i, .event event))
        = e.out.filterMap (·.event?) ++ emission.toList := by
      unfold events
      rw [List.filterMap_append, List.filterMap_map]
      cases emission with
      | none => rfl
      | some event => rfl
    rw [hevents]
    exact hmove
  · intro l hl
    have hset : (s.goroutines.set i (e.frames ++ rest)
        ++ e.spawned).set i frames
        = s.goroutines.set i frames ++ e.spawned := by
      rw [List.set_append_left _ _ (by rwa [List.length_set]),
        List.set_set]
    rw [hset] at hl
    rcases List.mem_append.mp hl with hl | hl
    · rcases List.mem_or_eq_of_mem_set hl with hl | hl
      · exact hpaired l hl
      · rw [hl]
        exact hrest
    · exact hspawned l hl

/-- A turn of a goroutine makes a move and emits its event, and leaves
the frames paired. -/
theorem turn_moves {i : Nat} (hpaired : s.Paired)
    (h : turn (.run i env) s = some (s', out)) :
    (∃ p ∈ s.next i, Move s.manager p.1 env s'.manager (events out))
      ∧ s'.Paired := by
  cases hnext : s.next i with
  | none => simp [turn, step, hnext] at h
  | some p =>
    obtain ⟨frame, rest⟩ := p
    have hgoroutine : s.goroutines[i]? = some (frame :: rest) := by
      unfold Sys.next at hnext
      split at hnext
      next hsome =>
        cases hnext
        exact hsome
      next => cases hnext
    cases hexec : frame.exec s.manager env with
    | none => simp [turn, step, hnext, hexec] at h
    | some e =>
      suffices hboth : Move s.manager frame env s'.manager (events out)
          ∧ s'.Paired from ⟨⟨_, rfl, hboth.1⟩, hboth.2⟩
      cases hpaired _ (List.mem_of_getElem? hgoroutine) with
      | @remove configID rest hrest =>
        -- `Stop` forgets the forward and says so.
        cases env <;> cases hexec
        exact turn_of_exec (some (stoppedEvent configID)) hpaired
          hgoroutine rfl rfl hrest
          (fun _ hl => absurd hl List.not_mem_nil) Move.remove h
      | alone hframe hrest =>
        obtain ⟨emission, frames, hframes, hpair, hspawned, hmove⟩ :=
          exec_moves hframe hexec
        refine turn_of_exec emission hpaired hgoroutine hexec ?_
          (hpair.append hrest) hspawned hmove h
        rw [hframes, List.append_assoc]

theorem call_paired {call : Call} (hpaired : s.Paired)
    (h : turn (.call call) s = some (s', out)) :
    s'.manager = s.manager ∧ out = [] ∧ s'.Paired := by
  cases h
  refine ⟨rfl, rfl, fun l hl => ?_⟩
  rcases List.mem_append.mp hl with hl | hl
  · exact hpaired l hl
  · rw [List.mem_singleton.mp hl]
    exact Paired.nil.alone rfl

end PortForwardManager
