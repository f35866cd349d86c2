/-
What one request of the manager comes to in one-shot mode.

# The argument

A request's goroutine is followed by itself (`Own`): what the provider has
streamed for it (`Streams`) is what it has emitted, with its generation,
and nothing but what ends it comes behind. That the events of a generation
are those of one goroutine is the other half: a generation is requested
once (`requested_once`).
-/
import Kubikles.Ai.OneShot

namespace Ai

open Goroutine (Act Sys Effect answersOf outputOf)

variable {P A G O : Type*} {provider : Provider P A G O}
variable {w : World G} {sid gen : Nat} {f : Frame P} {env : Env A}

-- ======== the provider

/-- The runs of a provider's `SendMessage`: the answers it was given, the
events it has streamed, and how far it is. The variables of the tools
package are whatever they are in each step. -/
inductive Streams (provider : Provider P A G O) (req : Request) :
    List A → List StreamEvent → Provided P → Prop where
  | begin : Streams provider req [] [] (.more (provider.begin req))
  | step {as events p a tools e} :
      Streams provider req as events (.more p) →
        provider.step p a tools = some e →
          Streams provider req (as ++ [a]) (events ++ e.events) e.provided

def providerAnswers (envs : List (Env A)) : List A :=
  envs.filterMap fun
    | .provider a _ _ => some a
    | _ => none

def emitted (os : List (Out O)) : List AIResponseEvent :=
  os.filterMap fun
    | .emit event => some event
    | _ => none

def eventsOf (sessionID gen : Nat) (out : List (Out O)) :
    List AIResponseEvent :=
  (emitted out).filter fun event =>
    event.sessionID = sessionID ∧ event.generation = gen

theorem providerAnswers_append (envs envs' : List (Env A)) :
    providerAnswers (envs ++ envs')
      = providerAnswers envs ++ providerAnswers envs' :=
  List.filterMap_append

theorem emitted_append (os os' : List (Out O)) :
    emitted (os ++ os') = emitted os ++ emitted os' :=
  List.filterMap_append

theorem mem_emitted {os : List (Out O)} {event : AIResponseEvent} :
    event ∈ emitted os ↔ .emit event ∈ os := by
  unfold emitted
  rw [List.mem_filterMap]
  constructor
  · rintro ⟨o, ho, hsome⟩
    cases o with
    | emit event' =>
      cases hsome
      exact ho
    | _ => cases hsome
  · intro h
    exact ⟨_, h, rfl⟩

-- ======== the goroutine

/-- What a request has given away while it was streaming. -/
structure Emitted (sid gen : Nat) (history : List Message)
    (events : List StreamEvent) (os : List (Out O)) : Prop where
  generation : 1 ≤ gen
  requested : .requested sid gen history ∈ os
  only : ∀ sid' gen' history', .requested sid' gen' history' ∈ os →
    sid' = sid ∧ gen' = gen
  events : emitted os = events.map (respond sid gen)

/-- A goroutine by itself: what it has still to do, the answers it was
given, what it has given away. -/
inductive Own (provider : Provider P A G O) :
    List (Frame P) → List (Env A) → List (Out O) → Prop where
  /-- No request, or not yet. -/
  | idle {f envs} (htag : f.tag = none) (hempty : providerAnswers envs = []) :
      Own provider [f] envs []
  /-- Nothing came of it but a refusal. -/
  | refused {envs os} (hempty : providerAnswers envs = [])
      (hrefused : ∀ o ∈ os, ∃ event : AIResponseEvent,
        o = .emit event ∧ event.generation = 0) : Own provider [] envs os
  | streaming {call gen req history events p envs os}
      (hstream : Streams provider req (providerAnswers envs) events
        (.more p))
      (hemitted : Emitted call.sessionID gen history events os) :
      Own provider [.provide call gen events p] envs os
  | succeeded {call gen req history events envs os}
      (hstream : Streams provider req (providerAnswers envs) events
        (.returned none))
      (hemitted : Emitted call.sessionID gen history events os) :
      Own provider [.append call gen events] envs os
  | appended {sid gen req history events turn envs os}
      (hstream : Streams provider req (providerAnswers envs) events
        (.returned none))
      (hemitted : Emitted sid gen history events os) :
      Own provider [] envs (os ++ [.turn sid gen turn])
  | failed {sid gen req history events res last envs os}
      (hstream : Streams provider req (providerAnswers envs) events res)
      (hfailed : res ≠ .returned none ∧ ∀ p, res ≠ .more p)
      (hemitted : Emitted sid gen history events os)
      (hlast : last.sessionID = sid ∧ last.generation = gen
        ∧ last.done = true) :
      Own provider [] envs (os ++ [.emit last])

theorem failed_last (err : Text) (first second : Option CtxErr) :
    (failed sid gen err first second).sessionID = sid
      ∧ (failed sid gen err first second).generation = gen
      ∧ (failed sid gen err first second).done = true := by
  unfold failed
  split
  · exact ⟨rfl, rfl, rfl⟩
  · split <;> exact ⟨rfl, rfl, rfl⟩

theorem Emitted.stream {call : SendCall} {history : List Message}
    {events : List StreamEvent} {os : List (Out O)}
    (h : Emitted call.sessionID gen history events os)
    (e : Streamed P G O) :
    Emitted call.sessionID gen history (events ++ e.events)
      (os ++ (e.out.map (Out.provider call) ++ e.events.map fun event =>
        .emit (respond call.sessionID gen event))) := by
  have hno : ∀ sid' gen' history', Out.requested sid' gen' history'
      ∉ e.out.map (Out.provider call) ++ e.events.map fun event =>
        .emit (respond call.sessionID gen event) := by
    intro sid' gen' history' hmem
    rcases List.mem_append.mp hmem with hmem | hmem
    · obtain ⟨o, -, heq⟩ := List.mem_map.mp hmem
      cases heq
    · obtain ⟨event, -, heq⟩ := List.mem_map.mp hmem
      cases heq
  refine ⟨h.generation, List.mem_append_left _ h.requested,
    fun sid' gen' history' hmem => ?_, ?_⟩
  · rcases List.mem_append.mp hmem with hmem | hmem
    · exact h.only sid' gen' history' hmem
    · exact absurd hmem (hno sid' gen' history')
  · have hout : emitted (e.out.map (Out.provider call)) = [] := by
      simp [emitted, List.filterMap_map]
    have hevents : emitted (O := O) (e.events.map fun event =>
        .emit (respond call.sessionID gen event))
        = e.events.map (respond call.sessionID gen) := by
      simp [emitted, List.filterMap_map]
    rw [emitted_append, emitted_append, h.events, hout, hevents,
      List.nil_append, List.map_append]

theorem Own.provided {call : SendCall} {req : Request}
    {history : List Message} {events : List StreamEvent} {p : P} {a : A}
    {first second : Option CtxErr} {e : Streamed P G O}
    {envs : List (Env A)} {os : List (Out O)}
    (hstream : Streams provider req (providerAnswers envs) events
      (.more p))
    (hemitted : Emitted call.sessionID gen history events os)
    (he : provider.step p a w.tools = some e) :
    Own provider (provided call gen events first second w e).frames
      (envs ++ [.provider a first second])
      (os ++ (provided call gen events first second w e).out) := by
  have hstream' : Streams provider req
      (providerAnswers (envs ++ [.provider a first second]))
      (events ++ e.events) e.provided := by
    rw [providerAnswers_append]
    exact .step hstream he
  have hemitted' := hemitted.stream e
  obtain ⟨tools, rest, new, out⟩ := e
  rcases rest with p' | (- | err) | value
  · exact .streaming hstream' hemitted'
  · exact .succeeded hstream' hemitted'
  · rw [show os ++ (Ai.provided call gen events first second w
        ⟨tools, .returned (some err), new, out⟩).out
      = os ++ _ ++ [_] from (List.append_assoc ..).symm]
    exact .failed hstream' ⟨(fun h => by cases h), fun p h => by cases h⟩
      hemitted' (failed_last err first second)
  · rw [show os ++ (Ai.provided call gen events first second w
        ⟨tools, .panicked value, new, out⟩).out
      = os ++ _ ++ [_] from (List.append_assoc ..).symm]
    exact .failed hstream' ⟨(fun h => by cases h), fun p h => by cases h⟩
      hemitted' ⟨rfl, rfl, rfl⟩

/-- What a frame does keeps what holds of its goroutine. -/
theorem Own.exec {rest : List (Frame P)} {envs : List (Env A)}
    {os : List (Out O)} {effect} (h : Own provider (f :: rest) envs os)
    (he : exec provider f env w = some effect) :
    Own provider (effect.frames ++ rest) (envs ++ [env])
      (os ++ effect.out) := by
  cases h with
  | idle htag hempty =>
    rw [List.append_nil]
    cases f with
    | startSession id =>
      cases env with
      | tick =>
        simp only [Ai.exec] at he
        split at he
        · cases he
        · obtain rfl := Option.some.inj he
          refine .refused ?_ (fun o ho => absurd ho List.not_mem_nil)
          rw [providerAnswers_append, hempty]
          rfl
      | _ => cases he
    | sendMessage call =>
      cases env with
      | context ready =>
        have hempty' : providerAnswers (envs ++ [.context ready])
            = [] := by
          rw [providerAnswers_append, hempty]
          rfl
        simp only [Ai.exec] at he
        split at he
        · obtain rfl := Option.some.inj he
          refine .refused hempty' fun o ho => ⟨_,
            List.mem_singleton.mp ho, rfl⟩
        · split at he
          · obtain rfl := Option.some.inj he
            exact .idle rfl hempty'
          · obtain rfl := Option.some.inj he
            refine .refused hempty' fun o ho => ⟨_,
              List.mem_singleton.mp ho, rfl⟩
      | _ => cases he
    | snapshot call =>
      obtain ⟨session, rfl, -, rfl⟩ := exec_snapshot_iff.mp he
      have hstream : Streams provider (requestOf call session)
          (providerAnswers (envs ++ [.tick])) []
          (.more (provider.begin (requestOf call session))) := by
        rw [providerAnswers_append, hempty]
        exact .begin
      have hemitted : Emitted (O := O) call.sessionID
          (session.generation + 1) session.messages []
          [.requested call.sessionID (session.generation + 1)
            session.messages] := by
        refine ⟨Nat.succ_pos _, List.mem_singleton_self _,
          fun sid' gen' history' hmem => ?_, rfl⟩
        obtain ⟨rfl, rfl, -⟩ :=
          Out.requested.inj (List.mem_singleton.mp hmem)
        exact ⟨rfl, rfl⟩
      exact .streaming hstream hemitted
    | cancelRequest id =>
      cases env with
      | tick =>
        obtain rfl := Option.some.inj he
        refine .refused ?_ (fun o ho => absurd ho List.not_mem_nil)
        rw [providerAnswers_append, hempty]
        rfl
      | _ => cases he
    | provide call gen events p => cases htag
    | append call gen events => cases htag
  | streaming hstream hemitted =>
    obtain ⟨a, first, second, e, rfl, hstep, rfl⟩ :=
      exec_provide_iff.mp he
    rw [List.append_nil]
    exact Own.provided hstream hemitted hstep
  | succeeded hstream hemitted =>
    obtain ⟨session, rfl, -, rfl⟩ := exec_append_iff.mp he
    have hnone : providerAnswers (envs ++ [Env.tick])
        = providerAnswers envs := by
      rw [providerAnswers_append]
      exact List.append_nil _
    exact .appended (hnone ▸ hstream) hemitted

theorem Own.call (c : Call) : Own provider (framesOf c) [] [] := by
  cases c <;> exact .idle rfl rfl

theorem Emitted.tag {history : List Message} {events : List StreamEvent}
    {os : List (Out O)} {event : AIResponseEvent}
    (h : Emitted sid gen history events os) (hmem : .emit event ∈ os) :
    event.sessionID = sid ∧ event.generation = gen := by
  rw [← mem_emitted, h.events] at hmem
  obtain ⟨streamed, -, rfl⟩ := List.mem_map.mp hmem
  unfold respond
  cases streamed.type <;> exact ⟨rfl, rfl⟩

/-- A goroutine is no request, and what it emits is of no generation; or
it is one, and what it emits is of its generation. -/
theorem Own.tagged {fs : List (Frame P)} {envs : List (Env A)}
    {os : List (Out O)} (h : Own provider fs envs os) :
    ((∀ sid gen history, .requested sid gen history ∉ os)
        ∧ ∀ event : AIResponseEvent, .emit event ∈ os →
          event.generation = 0)
      ∨ ∃ sid gen history, 1 ≤ gen ∧ .requested sid gen history ∈ os
        ∧ (∀ sid' gen' history', .requested sid' gen' history' ∈ os →
          sid' = sid ∧ gen' = gen)
        ∧ ∀ event : AIResponseEvent, .emit event ∈ os →
          event.sessionID = sid ∧ event.generation = gen := by
  cases h with
  | idle => exact Or.inl ⟨fun _ _ _ => List.not_mem_nil,
      fun _ hmem => absurd hmem List.not_mem_nil⟩
  | refused _ hrefused =>
    refine Or.inl ⟨fun sid gen history hmem => ?_, fun event hmem => ?_⟩
    · obtain ⟨_, heq, -⟩ := hrefused _ hmem
      cases heq
    · obtain ⟨event', heq, hzero⟩ := hrefused _ hmem
      exact Out.emit.inj heq ▸ hzero
  | streaming _ hemitted | succeeded _ hemitted =>
    exact Or.inr ⟨_, _, _, hemitted.generation, hemitted.requested,
      hemitted.only, fun event => hemitted.tag⟩
  | appended _ hemitted =>
    refine Or.inr ⟨_, _, _, hemitted.generation,
      List.mem_append_left _ hemitted.requested,
      fun sid' gen' history' hmem => ?_, fun event hmem => ?_⟩
    · rcases List.mem_append.mp hmem with hmem | hmem
      · exact hemitted.only sid' gen' history' hmem
      · cases List.mem_singleton.mp hmem
    · rcases List.mem_append.mp hmem with hmem | hmem
      · exact hemitted.tag hmem
      · cases List.mem_singleton.mp hmem
  | failed _ _ hemitted hlast =>
    refine Or.inr ⟨_, _, _, hemitted.generation,
      List.mem_append_left _ hemitted.requested,
      fun sid' gen' history' hmem => ?_, fun event hmem => ?_⟩
    · rcases List.mem_append.mp hmem with hmem | hmem
      · exact hemitted.only sid' gen' history' hmem
      · cases List.mem_singleton.mp hmem
    · rcases List.mem_append.mp hmem with hmem | hmem
      · exact hemitted.tag hmem
      · obtain rfl := Out.emit.inj (List.mem_singleton.mp hmem)
        exact ⟨hlast.1, hlast.2.1⟩

-- ======== the generations

/-- The requests that were handed to the provider, and by which
goroutine. -/
def requests (out : List (Nat × Out O)) : List (Nat × (Nat × Nat)) :=
  out.filterMap fun
    | (i, .requested sid gen _) => some (i, (sid, gen))
    | _ => none

theorem requests_append (out out' : List (Nat × Out O)) :
    requests (out ++ out') = requests out ++ requests out' :=
  List.filterMap_append

theorem mem_requests {i : Nat} {history : List Message}
    {out : List (Nat × Out O)}
    (h : (i, .requested sid gen history) ∈ out) :
    (i, (sid, gen)) ∈ requests out :=
  List.mem_filterMap.mpr ⟨_, h, rfl⟩

/-- No generation is taken back, and a request is given a new one. -/
theorem generation_of_exec {effect}
    (h : exec provider f env w = some effect) :
    (∀ sid, w.generation sid ≤ effect.world.generation sid)
      ∧ ∀ i, (requests (effect.out.map (i, ·)) = []
        ∨ ∃ sid gen, requests (effect.out.map (i, ·)) = [(i, (sid, gen))]
          ∧ w.generation sid < gen
          ∧ gen ≤ effect.world.generation sid) := by
  cases f with
  | startSession id =>
    cases env with
    | tick =>
      simp only [exec] at h
      split at h
      · cases h
      next hid =>
        obtain rfl := Option.some.inj h
        refine ⟨fun sid => ?_, fun i => Or.inl rfl⟩
        unfold World.generation
        rw [FinMap.lookup_insert]
        split
        next heq => rw [heq, hid]; rfl
        next => exact le_rfl
    | _ => cases h
  | sendMessage call =>
    cases env with
    | context ready =>
      simp only [exec] at h
      split at h
      · obtain rfl := Option.some.inj h
        exact ⟨fun _ => le_rfl, fun i => Or.inl rfl⟩
      · split at h <;>
          (obtain rfl := Option.some.inj h
           exact ⟨fun _ => le_rfl, fun i => Or.inl rfl⟩)
    | _ => cases h
  | snapshot call =>
    obtain ⟨session, -, hsession, rfl⟩ := exec_snapshot_iff.mp h
    have hold : w.generation call.sessionID = session.generation := by
      unfold World.generation
      rw [hsession]
      rfl
    have hnew : World.generation { w with
        sessions := w.sessions.insert call.sessionID
          { session with generation := session.generation + 1 } }
        call.sessionID = session.generation + 1 := by
      unfold World.generation
      rw [FinMap.lookup_insert, if_pos rfl]
      rfl
    refine ⟨fun sid => ?_, fun i => Or.inr ⟨_, _, rfl, ?_, hnew.ge⟩⟩
    · by_cases heq : sid = call.sessionID
      · rw [heq, hold]
        exact (Nat.le_succ _).trans hnew.ge
      · unfold World.generation
        rw [FinMap.lookup_insert, if_neg heq]
    · rw [hold]
      exact Nat.lt_succ_self _
  | provide call gen events p =>
    obtain ⟨a, first, second, e, -, -, rfl⟩ := exec_provide_iff.mp h
    refine ⟨fun sid => ?_, fun i => Or.inl ?_⟩
    · rw [tools_provided]
      rfl
    · refine List.filterMap_eq_nil_iff.mpr fun o ho => ?_
      obtain ⟨o', ho', rfl⟩ := List.mem_map.mp ho
      rcases out_provided ho' with ⟨_, rfl⟩ | ⟨_, rfl, -⟩ <;> rfl
  | append call gen events =>
    obtain ⟨session, -, hsession, rfl⟩ := exec_append_iff.mp h
    refine ⟨fun sid => ?_, fun i => Or.inl rfl⟩
    unfold World.generation
    rw [FinMap.lookup_insert]
    split
    next heq => rw [heq, hsession]; rfl
    next => exact le_rfl
  | cancelRequest id =>
    cases env with
    | tick =>
      obtain rfl := Option.some.inj h
      exact ⟨fun _ => le_rfl, fun i => Or.inl rfl⟩
    | _ => cases h

/-- A generation is requested once. -/
theorem requested_once {tools : G} {acts : List (Act Call (Env A))}
    {s : Sys (World G) (Frame P)} {out : List (Nat × Out O)}
    (hrun : Machine.run (Goroutine.step (exec provider) framesOf)
      (initial tools) acts = some (s, out)) :
    ((requests out).map Prod.snd).Nodup := by
  refine (Machine.run_history_nil
    (J := fun s out => (∀ r ∈ requests out,
        r.2.2 ≤ s.world.generation r.2.1)
      ∧ ((requests out).map Prod.snd).Nodup) ?_
    ⟨fun _ h => absurd h List.not_mem_nil, List.nodup_nil⟩
    Machine.along_true hrun).2
  intro a s s' o before hbefore _ hstep
  cases a with
  | call c =>
    obtain ⟨rfl, rfl⟩ := Prod.mk.inj (Option.some.inj hstep)
    rw [List.append_nil]
    exact hbefore
  | run i env =>
    obtain ⟨f, rest, others, effect, -, heffect, -, -, hworld, rfl⟩ :=
      Goroutine.step_run_perm hstep
    obtain ⟨hmono, hnew⟩ := generation_of_exec heffect
    rw [hworld, requests_append]
    have hbound : ∀ r ∈ requests before,
        r.2.2 ≤ effect.world.generation r.2.1 := fun r hr =>
      (hbefore.1 r hr).trans (hmono _)
    rcases hnew i with hnil | ⟨sid, gen, hone, hlt, hle⟩
    · rw [hnil, List.append_nil]
      exact ⟨hbound, hbefore.2⟩
    · rw [hone, List.map_append]
      refine ⟨fun r hr => ?_, List.nodup_append.mpr
        ⟨hbefore.2, List.nodup_singleton _, ?_⟩⟩
      · rcases List.mem_append.mp hr with hr | hr
        · exact hbound r hr
        · obtain rfl := List.mem_singleton.mp hr
          exact hle
      · rintro tag htag _ hlast rfl
        obtain ⟨r, hr, rfl⟩ := List.mem_map.mp htag
        have heq := List.mem_singleton.mp hlast
        have hold := hbefore.1 r hr
        rw [heq] at hold
        exact absurd hlt (Nat.not_lt.mpr hold)

/-- The events of a generation are what the goroutine emits that has
requested it. -/
theorem eventsOf_request {tools : G} {acts : List (Act Call (Env A))}
    {s : Sys (World G) (Frame P)} {out : List (Nat × Out O)} {i : Nat}
    {history : List Message}
    (hrun : Machine.run (Goroutine.step (exec provider) framesOf)
      (initial tools) acts = some (s, out))
    (hreq : (i, .requested sid gen history) ∈ out) :
    eventsOf sid gen (out.map Prod.snd) = emitted (outputOf i out) := by
  obtain ⟨hown, hnone⟩ :=
    Goroutine.run_own_empty (J := Own provider) Own.call Own.exec hrun
  have hthere : ∀ {j o}, (j, o) ∈ out →
      ∃ fs, Own provider fs (answersOf j acts) (outputOf j out) := by
    intro j o hmem
    cases hj : s.goroutines[j]? with
    | some fs => exact ⟨fs, hown j fs hj⟩
    | none =>
      rw [← Goroutine.mem_outputOf, hnone j hj] at hmem
      cases hmem
  have honce := requested_once hrun
  unfold eventsOf emitted outputOf
  rw [List.filterMap_map, List.filter_filterMap, List.filterMap_filterMap]
  refine List.filterMap_congr fun jo hmem => ?_
  obtain ⟨j, o⟩ := jo
  cases o with
  | emit event =>
    have hiff : (event.sessionID = sid ∧ event.generation = gen)
        ↔ j = i := by
      obtain ⟨fs, hj⟩ := hthere hmem
      obtain ⟨fs', hi⟩ := hthere hreq
      constructor
      · rintro ⟨rfl, rfl⟩
        rcases hi.tagged with ⟨hno, -⟩ | ⟨_, _, _, hpos, -, honly, -⟩
        · exact absurd (Goroutine.mem_outputOf.mpr hreq) (hno _ _ _)
        · obtain ⟨-, hgen⟩ := honly _ _ _ (Goroutine.mem_outputOf.mpr hreq)
          rcases hj.tagged with ⟨-, hzero⟩ | ⟨_, _, _, -, hreq', -, htag⟩
          · rw [← hgen, hzero event (Goroutine.mem_outputOf.mpr hmem)]
              at hpos
            exact absurd hpos (Nat.not_succ_le_zero 0)
          · obtain ⟨hs, hg⟩ :=
              htag event (Goroutine.mem_outputOf.mpr hmem)
            rw [← hs, ← hg] at hreq'
            have heq := List.inj_on_of_nodup_map honce
              (mem_requests (Goroutine.mem_outputOf.mp hreq'))
              (mem_requests hreq) rfl
            exact (Prod.mk.inj heq).1
      · rintro rfl
        rcases hj.tagged with ⟨hno, -⟩ | ⟨_, _, _, -, -, honly, htag⟩
        · exact absurd (Goroutine.mem_outputOf.mpr hreq) (hno _ _ _)
        · obtain ⟨rfl, rfl⟩ :=
            honly _ _ _ (Goroutine.mem_outputOf.mpr hreq)
          exact htag event (Goroutine.mem_outputOf.mpr hmem)
    by_cases hji : j = i
    · simp [hji, hiff.mpr hji]
    · simpa [hji] using fun hs hg => hji (hiff.mp ⟨hs, hg⟩)
  | requested sid' gen' history' | provider call o | turn sid' gen' t =>
    by_cases hji : j = i <;> simp [hji]

end Ai
