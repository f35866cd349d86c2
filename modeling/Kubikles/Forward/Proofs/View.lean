/-
The port forwards the UI shows are those the manager has.

# Where they are not

A response takes the place of what the hook shows, the events that were
delivered since it was read included (`snapshot_overwrites`). Beside
that, some moves emit less than the hook would have to be told: a status
it does not handle, an update that takes a configuration across the
filter, the start of one that the filter hides, a second configuration
under an ID.

# Where they are

In a run without such moves (`Told`) in which no response arrives behind
an event that was emitted after it had been read, what each request has
been answered stays ready (`Inv.ready`): the events still to come take
it to what the manager has. When nothing is on its way any more, the
hook shows what the manager answers.
-/
import Kubikles.Forward.Proofs.Handle

namespace PortForwardsHook

open Machine (run Along Visits)
open PortForwardManager

-- ======== the claim

/-- The hook shows what the manager answers, in whatever order. -/
structure Agrees (contextFilter : String) (s : State) : Prop where
  configs : ∀ ids, FinMap.Enumerates ids s.backend.manager.configs →
    s.hook.configs.Perm (s.backend.manager.getConfigs contextFilter ids)
  forwards : ∀ ids, FinMap.Enumerates ids s.backend.manager.active →
    (s.hook.activeForwards.map shown).Perm
      ((s.backend.manager.getActiveForwards ids).map shown)

/-- What the manager does its event tells, and a response arrives before
every event emitted after it was first read. -/
def InTime (contextFilter : String) (s : State) : Act → Prop
  | .backend (.run i env) =>
    ∀ p ∈ s.backend.next i,
      Told contextFilter s.pending s.backend.manager p.1 env
  | .respond i =>
    ∀ request ∈ s.requests[i]?, ∀ n ∈ request.since, s.delivered ≤ n
  | _ => True

instance inTimeDecidable (contextFilter : String) (s : State) (act : Act) :
    Decidable (InTime contextFilter s act) := by
  unfold InTime
  split
  · exact inferInstance
  · exact inferInstance
  · exact isTrue trivial

-- ======== the invariant

def Request.about (request : Request) (id : String) : Answer :=
  ⟨request.configs.map fun l => Keyed.find (·.id) l id,
    request.activeForwards.map fun l =>
      (Keyed.find (·.config.id) l id).map shown⟩

structure Request.Kept (request : Request) (emitted : Nat) : Prop where
  configs : ∀ l ∈ request.configs, Keyed.Distinct (·.id) l
  forwards : ∀ l ∈ request.activeForwards,
    Keyed.Distinct (·.config.id) l
  since : ∀ n ∈ request.since, n ≤ emitted
  unread : request.since = none →
    request.configs = none ∧ request.activeForwards = none

/-- What holds in every state of such a run. -/
structure Inv (contextFilter : String) (s : State) : Prop where
  paired : s.backend.Paired
  registered : Registered s.backend.manager
  named : ∀ e ∈ s.emitted, ∀ cfg ∈ e.config, cfg.id = e.configID
  bound : s.delivered ≤ s.emitted.length
  distinct : s.hook.Distinct
  kept : ∀ request ∈ s.requests, request.Kept s.emitted.length
  calm : ∀ id q, s.delivered ≤ q →
    Calm contextFilter id (s.emitted.drop q)
      (id ∈ s.backend.manager.configs)
      (seen contextFilter s.backend.manager id)
  ready : ∀ request : Request, request = {} ∨ request ∈ s.requests →
    ∀ id q, s.delivered ≤ q → (∀ n ∈ request.since, q ≤ n) →
      Ready contextFilter id (s.emitted.drop q) (request.about id)
        (seen contextFilter s.backend.manager id)
  settled : s.requests = [] → ∀ id,
    told contextFilter id s.pending (s.hook.seen id)
      = seen contextFilter s.backend.manager id

variable {contextFilter : String} {s s' : State}

theorem kept_empty {n : Nat} : Request.Kept {} n :=
  ⟨(fun _ h => nomatch h), (fun _ h => nomatch h), (fun _ h => nomatch h),
    fun _ => ⟨rfl, rfl⟩⟩

@[simp] theorem about_empty (id : String) : Request.about {} id = {} := rfl

theorem inv_mount {sys : Sys} (hpaired : sys.Paired)
    (hregistered : Registered sys.manager) :
    Inv contextFilter (State.mount sys) where
  paired := hpaired
  registered := hregistered
  named _ h := nomatch h
  bound := le_rfl
  distinct := ⟨Keyed.distinct_nil, Keyed.distinct_nil⟩
  kept request h := by
    rw [List.mem_singleton.mp h]
    exact kept_empty
  calm id q _ := by
    show Calm contextFilter id (List.drop q []) _ _
    rw [List.drop_nil]
    exact calm_nil
  ready request h id q _ _ := by
    have hempty : request = {} := by
      rcases h with h | h
      · exact h
      · exact List.mem_singleton.mp h
    show Ready contextFilter id (List.drop q []) _ _
    rw [List.drop_nil, hempty]
    rfl
  settled h := nomatch h

theorem Inv.agrees (h : Inv contextFilter s) (hs : s.Settled) :
    Agrees contextFilter s := by
  have hseen : ∀ id, s.hook.seen id
      = seen contextFilter s.backend.manager id := by
    intro id
    have hpending : s.pending = [] := by
      unfold State.pending
      rw [hs.events, List.drop_length]
    have hsettled := h.settled hs.responses id
    rwa [hpending] at hsettled
  constructor
  · intro ids hids
    apply Keyed.perm_of_find h.distinct.configs
      (getConfigs_distinct h.registered hids)
    intro id
    rw [getConfigs_find h.registered hids, ← hseen]
    rfl
  · intro ids hids
    have hdistinct : ∀ {l : List ActiveForward},
        Keyed.Distinct (·.config.id) l →
        Keyed.Distinct (fun p : PortForwardConfig × Status => p.1.id)
          (l.map shown) := by
      intro l hl
      unfold Keyed.Distinct
      rw [List.map_map]
      exact hl
    apply Keyed.perm_of_find (hdistinct h.distinct.forwards)
      (hdistinct (getActiveForwards_distinct h.registered hids))
    intro id
    rw [Keyed.find_map, Keyed.find_map]
    exact (congrArg Seen.forward (hseen id)).trans
      (getActiveForwards_find h.registered hids).symm

-- ======== a move's event

section

variable {pending events : List PortForwardEvent} {m m' : Manager}
  {e : PortForwardEvent} {id : String}
  (hf : Follows contextFilter pending m m' e)
  (hsub : ∀ e' ∈ events, e' ∈ pending)

theorem Steady.mono {known : Prop} {b : Seen}
    (h : Steady pending id known b e) (hsub : ∀ e' ∈ events, e' ∈ pending) :
    Steady events id known b e where
  added := h.added
  updated htype := by
    obtain ⟨hknown, hupdated⟩ := h.updated htype
    refine ⟨hknown, hupdated.imp_right fun hquiet e' he' => ?_⟩
    exact hquiet e' (hsub e' he')
  started := h.started

theorem told_other {x : Seen} (hid : id ≠ e.configID) :
    told contextFilter id (events ++ [e]) x
      = told contextFilter id events x :=
  told_concat.trans (if_neg (Ne.symm hid))

include hf hsub

theorem Follows.calm
    (h : Calm contextFilter id events (id ∈ m.configs)
      (seen contextFilter m id)) :
    Calm contextFilter id (events ++ [e]) (id ∈ m'.configs)
      (seen contextFilter m' id) := by
  by_cases hid : id = e.configID
  · subst hid
    have hcalm := h.tell rfl (hf.steady.mono hsub)
    rwa [← hf.here, ← propext hf.known] at hcalm
  · obtain ⟨hseen, hknown⟩ := hf.away id hid
    rw [hseen, propext hknown]
    refine ⟨fun hidle => ?_, fun hunknown => ?_⟩
    · simp only [told_other hid]
      exact h.idle hidle
    · simp only [told_other hid]
      exact h.unknown hunknown

theorem Follows.ready {a : Answer}
    (hc : Calm contextFilter id events (id ∈ m.configs)
      (seen contextFilter m id))
    (h : Ready contextFilter id events a (seen contextFilter m id)) :
    Ready contextFilter id (events ++ [e]) a
      (seen contextFilter m' id) := by
  by_cases hid : id = e.configID
  · subst hid
    rw [hf.here]
    exact h.tell hc rfl (hf.steady.mono hsub)
  · unfold Ready
    rw [(hf.away id hid).1, told_other hid]
    exact h

omit hsub in
theorem Follows.told {x : Seen}
    (h : PortForwardsHook.told contextFilter id events x
      = seen contextFilter m id) :
    PortForwardsHook.told contextFilter id (events ++ [e]) x
      = seen contextFilter m' id := by
  by_cases hid : id = e.configID
  · subst hid
    rw [told_concat, if_pos rfl, h, hf.here]
  · rw [told_other hid, h, (hf.away id hid).1]

end

-- ======== the steps

theorem Inv.quiet (h : Inv contextFilter s) {sys : Sys}
    (hpaired : sys.Paired) (hregistered : Registered sys.manager)
    (hsame : ∀ id, seen contextFilter sys.manager id
        = seen contextFilter s.backend.manager id
      ∧ (id ∈ sys.manager.configs ↔ id ∈ s.backend.manager.configs)) :
    Inv contextFilter { s with backend := sys } where
  paired := hpaired
  registered := hregistered
  named := h.named
  bound := h.bound
  distinct := h.distinct
  kept := h.kept
  calm id q hq := by
    obtain ⟨hseen, hknown⟩ := hsame id
    show Calm contextFilter id (s.emitted.drop q)
      (id ∈ sys.manager.configs) (seen contextFilter sys.manager id)
    rw [hseen, propext hknown]
    exact h.calm id q hq
  ready request hr id q hq hsince := by
    show Ready contextFilter id (s.emitted.drop q) (request.about id)
      (seen contextFilter sys.manager id)
    rw [(hsame id).1]
    exact h.ready request hr id q hq hsince
  settled hr id := by
    show told contextFilter id s.pending (s.hook.seen id)
      = seen contextFilter sys.manager id
    rw [(hsame id).1]
    exact h.settled hr id

theorem drop_concat {α : Type} (l : List α) (a : α) (q : Nat) :
    (q ≤ l.length ∧ (l ++ [a]).drop q = l.drop q ++ [a])
      ∨ l.length < q ∧ (l ++ [a]).drop q = [] := by
  by_cases hq : q ≤ l.length
  · exact Or.inl ⟨hq, List.drop_append_of_le_length hq⟩
  · refine Or.inr ⟨by omega, List.drop_eq_nil_of_le ?_⟩
    rw [List.length_append, List.length_singleton]
    omega

/-- A manager that has moved as the event says that it has emitted. -/
theorem Inv.emit (h : Inv contextFilter s) {sys : Sys}
    {e : PortForwardEvent} (hpaired : sys.Paired)
    (hregistered : Registered sys.manager)
    (hf : Follows contextFilter s.pending s.backend.manager sys.manager
      e) :
    Inv contextFilter
      { s with backend := sys, emitted := s.emitted ++ [e] } := by
  have hsub : ∀ q, s.delivered ≤ q →
      ∀ e' ∈ s.emitted.drop q, e' ∈ s.pending := by
    intro q hq e' he'
    have heq : s.emitted.drop q
        = s.pending.drop (q - s.delivered) := by
      unfold State.pending
      rw [List.drop_drop]
      congr 1
      omega
    rw [heq] at he'
    exact List.mem_of_mem_drop he'
  constructor
  · exact hpaired
  · exact hregistered
  · intro e' he'
    rcases List.mem_append.mp he' with he' | he'
    · exact h.named e' he'
    · rw [List.mem_singleton.mp he']
      exact hf.named
  · show s.delivered ≤ (s.emitted ++ [e]).length
    rw [List.length_append]
    exact Nat.le_add_right_of_le h.bound
  · exact h.distinct
  · intro request hr
    have hkept := h.kept request hr
    refine ⟨hkept.configs, hkept.forwards, fun n hn => ?_, hkept.unread⟩
    have hle := hkept.since n hn
    show n ≤ (s.emitted ++ [e]).length
    rw [List.length_append]
    omega
  · intro id q hq
    show Calm contextFilter id ((s.emitted ++ [e]).drop q) _ _
    rcases drop_concat s.emitted e q with ⟨-, hdrop⟩ | ⟨-, hdrop⟩
    · rw [hdrop]
      exact hf.calm (hsub q hq) (h.calm id q hq)
    · rw [hdrop]
      exact calm_nil
  · intro request hr id q hq hsince
    show Ready contextFilter id ((s.emitted ++ [e]).drop q) _ _
    rcases drop_concat s.emitted e q with ⟨-, hdrop⟩ | ⟨hlt, hdrop⟩
    · rw [hdrop]
      exact hf.ready (hsub q hq) (h.calm id q hq)
        (h.ready request hr id q hq hsince)
    · -- Only of a request that has not been answered at all.
      have habout : request.about id = {} := by
        rcases hr with hr | hr
        · rw [hr]
          rfl
        · have hkept := h.kept request hr
          cases hread : request.since with
          | none =>
            obtain ⟨hconfigs, hforwards⟩ := hkept.unread hread
            unfold Request.about
            rw [hconfigs, hforwards]
            rfl
          | some n =>
            have hle := hkept.since n hread
            have hq := hsince n hread
            omega
      rw [hdrop, habout]
      rfl
  · intro hr id
    show told contextFilter id ((s.emitted ++ [e]).drop s.delivered) _ = _
    rw [List.drop_append_of_le_length h.bound]
    exact hf.told (h.settled hr id)

theorem Inv.backend (h : Inv contextFilter s)
    {act : PortForwardManager.Act} {sys : Sys} {out : List (Nat × Out)}
    (hok : InTime contextFilter s (.backend act))
    (hturn : turn act s.backend = some (sys, out)) :
    Inv contextFilter
      { s with backend := sys, emitted := s.emitted ++ events out } := by
  have hregistered := registered_turn h.registered hturn
  cases act with
  | call call =>
    obtain ⟨hmanager, hout, hpaired⟩ := call_paired h.paired hturn
    have hevents : events out = [] := by
      rw [hout]
      rfl
    rw [hevents, List.append_nil]
    apply h.quiet hpaired hregistered
    intro id
    rw [hmanager]
    exact ⟨rfl, Iff.rfl⟩
  | run i env =>
    obtain ⟨⟨p, hp, hmove⟩, hpaired⟩ := turn_moves h.paired hturn
    rcases move_follows h.registered hmove (hok p hp)
      with ⟨hevents, hsame⟩ | ⟨e, hevents, hf⟩
    · rw [hevents, List.append_nil]
      exact h.quiet hpaired hregistered hsame
    · rw [hevents]
      exact h.emit hpaired hregistered hf

theorem Inv.requests (h : Inv contextFilter s) {requests : List Request}
    (hrequests : ∀ request ∈ requests, request ∈ s.requests
      ∨ request.Kept s.emitted.length
        ∧ ∀ id q, s.delivered ≤ q → (∀ n ∈ request.since, q ≤ n) →
          Ready contextFilter id (s.emitted.drop q) (request.about id)
            (seen contextFilter s.backend.manager id))
    (hsome : requests ≠ []) :
    Inv contextFilter { s with requests } where
  paired := h.paired
  registered := h.registered
  named := h.named
  bound := h.bound
  distinct := h.distinct
  kept request hr := by
    rcases hrequests request hr with hr | hr
    · exact h.kept request hr
    · exact hr.1
  calm := h.calm
  ready request hr := by
    rcases hr with hr | hr
    · exact h.ready request (Or.inl hr)
    · rcases hrequests request hr with hr | hr
      · exact h.ready request (Or.inr hr)
      · exact hr.2
  settled hr := absurd hr hsome

theorem Inv.fetchData (h : Inv contextFilter s) :
    Inv contextFilter { s with requests := s.requests ++ [{}] } := by
  apply h.requests
  · intro request hr
    rcases List.mem_append.mp hr with hr | hr
    · exact Or.inl hr
    · rw [List.mem_singleton.mp hr]
      exact Or.inr ⟨kept_empty, h.ready {} (Or.inl rfl)⟩
  · exact List.append_ne_nil_of_right_ne_nil _ (List.cons_ne_nil _ _)

theorem Inv.answer (h : Inv contextFilter s) {i : Nat}
    {request request' : Request} (hi : s.requests[i]? = some request)
    (hkept : request'.Kept s.emitted.length)
    (hsince : request'.since = request.since.or s.emitted.length)
    (hfill : ∀ id,
      (request'.about id).fill (seen contextFilter s.backend.manager id)
        = (request.about id).fill
          (seen contextFilter s.backend.manager id)) :
    Inv contextFilter { s with requests := s.requests.set i request' } := by
  apply h.requests
  · intro r hr
    rcases List.mem_or_eq_of_mem_set hr with hr | hr
    · exact Or.inl hr
    · rw [hr]
      refine Or.inr ⟨hkept, fun id q hq hle => ?_⟩
      unfold Ready
      rw [hfill]
      refine h.ready request (Or.inr (List.mem_of_getElem? hi)) id q hq ?_
      intro n hn
      apply hle
      rw [hsince, hn]
      rfl
  · intro hnil
    have hlt := (List.getElem?_eq_some_iff.mp hi).1
    have hlength := congrArg List.length hnil
    rw [List.length_set, List.length_nil] at hlength
    omega

theorem since_le {request : Request} {n : Nat} (h : request.Kept n) :
    ∀ k ∈ request.since.or (some n), k ≤ n := by
  intro k hk
  cases hsince : request.since with
  | none =>
    rw [hsince] at hk
    cases hk
    exact le_rfl
  | some k' =>
    rw [hsince] at hk
    cases hk
    exact h.since k hsince

theorem Inv.readConfigs (h : Inv contextFilter s) {i : Nat}
    {request : Request} {ids : List String}
    (hi : s.requests[i]? = some request)
    (hunread : request.configs.isNone)
    (hids : FinMap.Enumerates ids s.backend.manager.configs) :
    Inv contextFilter (s.readConfigs contextFilter i request ids) := by
  have hkept := h.kept request (List.mem_of_getElem? hi)
  apply h.answer hi
  · refine ⟨?_, hkept.forwards, since_le hkept, ?_⟩
    · intro l hl
      cases hl
      exact getConfigs_distinct h.registered hids
    · intro hnone
      cases hsince : request.since <;> simp [hsince] at hnone
  · rfl
  · intro id
    rw [Option.isNone_iff_eq_none] at hunread
    unfold Request.about Answer.fill
    simp only [Option.map_some, Option.getD_some, hunread, Option.map_none,
      Option.getD_none]
    rw [getConfigs_find h.registered hids]

theorem Inv.readActive (h : Inv contextFilter s) {i : Nat}
    {request : Request} {ids : List String}
    (hi : s.requests[i]? = some request)
    (hunread : request.activeForwards.isNone)
    (hids : FinMap.Enumerates ids s.backend.manager.active) :
    Inv contextFilter (s.readActive i request ids) := by
  have hkept := h.kept request (List.mem_of_getElem? hi)
  apply h.answer hi
  · refine ⟨hkept.configs, ?_, since_le hkept, ?_⟩
    · intro l hl
      cases hl
      exact getActiveForwards_distinct h.registered hids
    · intro hnone
      cases hsince : request.since <;> simp [hsince] at hnone
  · rfl
  · intro id
    rw [Option.isNone_iff_eq_none] at hunread
    unfold Request.about Answer.fill
    simp only [Option.map_some, Option.getD_some, hunread, Option.map_none,
      Option.getD_none]
    rw [getActiveForwards_find h.registered hids]

theorem Inv.respond (h : Inv contextFilter s) {i : Nat}
    {configs : List PortForwardConfig}
    {activeForwards : List ActiveForward} {since : Option Nat}
    (hi : s.requests[i]? = some ⟨some configs, some activeForwards, since⟩)
    (hintime : ∀ n ∈ since, s.delivered ≤ n) :
    Inv contextFilter
      { s with requests := s.requests.eraseIdx i
               hook := ⟨configs, activeForwards⟩ } where
  paired := h.paired
  registered := h.registered
  named := h.named
  bound := h.bound
  distinct := by
    have hkept := h.kept _ (List.mem_of_getElem? hi)
    exact ⟨hkept.configs _ rfl, hkept.forwards _ rfl⟩
  kept request hr := h.kept request (List.mem_of_mem_eraseIdx hr)
  calm := h.calm
  ready request hr :=
    h.ready request (hr.imp_right List.mem_of_mem_eraseIdx)
  settled _ id :=
    h.ready _ (Or.inr (List.mem_of_getElem? hi)) id s.delivered le_rfl
      hintime

theorem Inv.deliver (h : Inv contextFilter s) {e : PortForwardEvent}
    (he : s.emitted[s.delivered]? = some e) (now : Nat) :
    Inv contextFilter
      { s with delivered := s.delivered + 1
               hook := s.hook.handle contextFilter now e } where
  paired := h.paired
  registered := h.registered
  named := h.named
  bound := (List.getElem?_eq_some_iff.mp he).1
  distinct := h.distinct.handle
  kept := h.kept
  calm id q hq := h.calm id q (Nat.le_of_succ_le hq)
  ready request hr id q hq := h.ready request hr id q (Nat.le_of_succ_le hq)
  settled hr id := by
    have hpending : s.pending = e :: s.emitted.drop (s.delivered + 1) := by
      obtain ⟨hlt, heq⟩ := List.getElem?_eq_some_iff.mp he
      unfold State.pending
      rw [List.drop_eq_getElem_cons hlt, heq]
    have hsettled := h.settled hr id
    rw [hpending, told_cons] at hsettled
    have hnamed := h.named e (List.mem_of_getElem? he)
    show told contextFilter id (s.emitted.drop (s.delivered + 1))
      ((s.hook.handle contextFilter now e).seen id) = _
    rw [handle_seen hnamed]
    exact hsettled

/-- Every step in time keeps the invariant. -/
theorem inv_step {act : Act} {out : List Empty} (h : Inv contextFilter s)
    (hok : InTime contextFilter s act)
    (hstep : step contextFilter act s = some (s', out)) :
    Inv contextFilter s' := by
  cases act with
  | backend act =>
    obtain ⟨⟨sys, given⟩, hturn, heq⟩ := Option.map_eq_some_iff.mp hstep
    cases heq
    exact h.backend hok hturn
  | fetchData =>
    cases hstep
    exact h.fetchData
  | readConfigs i ids =>
    simp only [step] at hstep
    split at hstep
    next => cases hstep
    next request hi =>
      split at hstep
      next hread =>
        cases hstep
        exact h.readConfigs hi hread.1 hread.2
      next => cases hstep
  | readActive i ids =>
    simp only [step] at hstep
    split at hstep
    next => cases hstep
    next request hi =>
      split at hstep
      next hread =>
        cases hstep
        exact h.readActive hi hread.1 hread.2
      next => cases hstep
  | respond i =>
    simp only [step] at hstep
    split at hstep
    next configs activeForwards since hi =>
      cases hstep
      exact h.respond hi (hok _ hi)
    next => cases hstep
  | deliver now =>
    simp only [step] at hstep
    split at hstep
    next => cases hstep
    next e he =>
      cases hstep
      exact h.deliver he now

-- ======== the runs

theorem inv_before {storage : Option (List PortForwardConfig)}
    {before : List PortForwardManager.Act} {sys : Sys}
    {out : List (Nat × Out)}
    (h : run turn (Sys.init storage) before = some (sys, out)) :
    Inv contextFilter (State.mount sys) := by
  have hboth : sys.Paired ∧ Registered sys.manager := by
    refine Machine.run_invariant
      (I := fun s : Sys => s.Paired ∧ Registered s.manager) ?_ ?_
      Machine.along_true h
    · intro act s s' out hs _ hturn
      refine ⟨?_, registered_turn hs.2 hturn⟩
      cases act with
      | call call => exact (call_paired hs.1 hturn).2.2
      | run i env => exact (turn_moves hs.1 hturn).2
    · exact ⟨(fun _ hl => nomatch hl), registered_loadConfigs storage⟩
  exact inv_mount hboth.1 hboth.2

def onPort : PortForwardConfig := { id := "a", localPort := 8080 }

/-- The hook is answered, and then a configuration is added. -/
def answeredFirst : List Act :=
  [.readConfigs 0 [], .readActive 0 [], .respond 0,
    .backend (.call (.addConfig onPort)),
    .backend (.run 0 (.added "" 0)), .deliver 0]

/-- A configuration is added, and its event handled, between the answers
and their arrival. -/
def answeredLate : List Act :=
  [.readConfigs 0 [], .readActive 0 [],
    .backend (.call (.addConfig onPort)),
    .backend (.run 0 (.added "" 0)), .deliver 0, .respond 0]

end PortForwardsHook
