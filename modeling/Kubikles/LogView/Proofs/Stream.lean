/-
The log view owns its stream where no answer comes late.

# The argument

A live stream is the one the ref names or one whose start call is still
pending (`Inv.owned`), and a pending one is live and has lost nothing
yet. Stopping acts on the ref alone, so it does not reach a pending
stream; and the handlers drop every event that the ref does not name. A
response therefore has to find the ref free and the hook there to take
the stream, and no event may overtake the response of its own stream
(`Orderly`). Nothing else can go wrong: with no call pending every live
stream is the ref's.
-/
import Kubikles.Lib.Place
import Kubikles.LogView.Stream

namespace StreamHook

open LogView
open Machine (run Along Visits)

-- ======== what is owned

/-- The view owns exactly its stream: a live stream is the one in the
ref, and there is none after an unmount or while the tab is stale; the
ref does not name a stream that has ended; and of a stream that was
never stopped nothing was discarded. -/
structure Owns (s : Sys) : Prop where
  only : ∀ (id : Nat) (stream : Stream), s.streams[id]? = some stream →
    stream.live = true → s.hook.streamIdRef = some id
      ∧ s.hook.mounted = true ∧ s.hook.isStale = false
  named : ∀ (id : Nat) (stream : Stream), s.hook.streamIdRef = some id →
    s.streams[id]? = some stream → stream.ended = false
  shown : ∀ (id : Nat) (stream : Stream), s.streams[id]? = some stream →
    stream.stopped = false → stream.discarded = []

/-- No answer comes late: the response of a start call finds the ref
free and the hook mounted in a tab that is not stale, an event that says
anything finds the start call of its stream answered, and the lines of
the stream are newer than what is shown. -/
def Orderly (s : Sys) : Act → Prop
  | .respond _ => s.hook.streamIdRef = none ∧ s.hook.mounted = true
      ∧ s.hook.isStale = false
  | .event event =>
    (some event.streamId ∈ s.starts →
      event.ends = false ∧ event.entries = [])
    ∧ (Sys.takes event s.hook = true →
      newerThan (lastTimestamp s.hook.logs) event.entries
        = event.entries)
  | _ => True

instance orderlyDecidable (s : Sys) (a : Act) :
    Decidable (Orderly s a) := by
  cases a with
  | respond call => exact inferInstanceAs (Decidable (_ ∧ _))
  | event event => exact inferInstanceAs (Decidable (_ ∧ _))
  | _ => exact isTrue trivial

-- ======== the invariant

structure Inv (s : Sys) : Prop where
  named : ∀ id, s.hook.streamIdRef = some id →
    ∃ stream, s.streams[id]? = some stream ∧ stream.live = true
  here : ∀ id, s.hook.streamIdRef = some id →
    s.hook.mounted = true ∧ s.hook.isStale = false
  pending : ∀ id, some id ∈ s.starts →
    ∃ stream, s.streams[id]? = some stream ∧ stream.live = true
  apart : ∀ id, some id ∈ s.starts → s.hook.streamIdRef ≠ some id
  once : ∀ i j id : Nat, s.starts[i]? = some (some id) →
    s.starts[j]? = some (some id) → i = j
  owned : ∀ (id : Nat) (stream : Stream), s.streams[id]? = some stream →
    stream.live = true →
    s.hook.streamIdRef = some id ∨ some id ∈ s.starts
  shown : ∀ (id : Nat) (stream : Stream), s.streams[id]? = some stream →
    stream.stopped = false → stream.discarded = []

/-- With no start call pending that is what the claim of ownership
says. -/
theorem Inv.owns {s : Sys} (h : Inv s) (hquiet : s.starts = []) :
    Owns s := by
  refine ⟨fun id stream hs hlive => ?_, fun id stream href hs => ?_,
    h.shown⟩
  · rcases h.owned id stream hs hlive with href | hmem
    · exact ⟨href, h.here id href⟩
    · rw [hquiet] at hmem
      cases hmem
  · obtain ⟨stream', hs', hlive⟩ := h.named id href
    rw [hs] at hs'
    cases hs'
    unfold Stream.live at hlive
    simp only [Bool.and_eq_true, Bool.not_eq_true'] at hlive
    exact hlive.2

-- ======== stopping

section Stopping

variable {s : Sys}

theorem stopStreaming_ref : s.stopStreaming.hook.streamIdRef = none := by
  unfold Sys.stopStreaming
  cases href : s.hook.streamIdRef with
  | none => exact href
  | some id => rfl

@[simp] theorem stopStreaming_starts :
    s.stopStreaming.starts = s.starts := by
  unfold Sys.stopStreaming
  cases s.hook.streamIdRef with
  | none => rfl
  | some id => rfl

theorem stopStreaming_streams :
    s.stopStreaming.streams
      = s.hook.streamIdRef.elim s.streams fun id =>
        s.streams.modify id ({ · with stopped := true }) := by
  unfold Sys.stopStreaming
  cases s.hook.streamIdRef with
  | none => rfl
  | some id => rfl

/-- Stopping stops the stream in the ref and no other. -/
theorem Inv.stopStreaming (h : Inv s) : Inv s.stopStreaming := by
  have hnone : ∀ id, s.stopStreaming.hook.streamIdRef ≠ some id := by
    intro id href
    rw [stopStreaming_ref] at href
    cases href
  cases href : s.hook.streamIdRef with
  | none =>
    have hsame : s.stopStreaming = s := by
      unfold Sys.stopStreaming
      rw [href]
    rw [hsame]
    exact h
  | some ref =>
    have hstreams : s.stopStreaming.streams
        = s.streams.modify ref ({ · with stopped := true }) := by
      rw [stopStreaming_streams, href]
      rfl
    refine ⟨fun id hid => absurd hid (hnone id),
      fun id hid => absurd hid (hnone id), ?_, fun id _ => hnone id,
      ?_, ?_, ?_⟩
    · intro id hmem
      rw [stopStreaming_starts] at hmem
      obtain ⟨stream, hs, hlive⟩ := h.pending id hmem
      have hne : ref ≠ id := by
        intro heq
        subst heq
        exact h.apart ref hmem href
      refine ⟨stream, ?_, hlive⟩
      rw [hstreams, Place.modify_of_some hs, if_neg hne]
    · intro i j id hi hj
      rw [stopStreaming_starts] at hi hj
      exact h.once i j id hi hj
    · intro id stream hs hlive
      rw [hstreams] at hs
      rcases Place.modify_cases hs with ⟨old, hold, ⟨_, rfl⟩ | ⟨hne, rfl⟩⟩
      · cases hlive
      · refine Or.inr ?_
        rw [stopStreaming_starts]
        refine (h.owned id stream hold hlive).resolve_left fun hid => ?_
        rw [href] at hid
        exact hne (Option.some.inj hid)
    · intro id stream hs hstopped
      rw [hstreams] at hs
      rcases Place.modify_cases hs with ⟨old, hold, ⟨_, rfl⟩ | ⟨_, rfl⟩⟩
      · cases hstopped
      · exact h.shown id stream hold hstopped

/-- A change of the hook that leaves the ref free, the calls and the
streams alone. -/
theorem Inv.of_free {s' : Sys} (h : Inv s)
    (hstarts : s'.starts = s.starts) (hstreams : s'.streams = s.streams)
    (href : s.hook.streamIdRef = none)
    (href' : s'.hook.streamIdRef = none) : Inv s' := by
  have hnone : ∀ id, s'.hook.streamIdRef ≠ some id := by
    intro id hid
    rw [href'] at hid
    cases hid
  refine ⟨fun id hid => absurd hid (hnone id),
    fun id hid => absurd hid (hnone id), ?_, fun id _ => hnone id, ?_,
    ?_, ?_⟩
  · rw [hstarts, hstreams]
    exact h.pending
  · rw [hstarts]
    exact h.once
  · rw [hstarts, hstreams, href', ← href]
    exact h.owned
  · rw [hstreams]
    exact h.shown

end Stopping

-- ======== start calls

section Starts

variable {s : Sys}

theorem Inv.ask (h : Inv s) :
    Inv { s with starts := s.starts ++ [none] } := by
  have hmem : ∀ id, some id ∈ s.starts ++ [none] → some id ∈ s.starts := by
    intro id hid
    rcases List.mem_append.mp hid with hid | hid
    · exact hid
    · cases List.mem_singleton.mp hid
  refine ⟨h.named, h.here, fun id hid => h.pending id (hmem id hid),
    fun id hid => h.apart id (hmem id hid), ?_, ?_, h.shown⟩
  · intro i j id hi hj
    rcases Place.append_cases hi with hi | ⟨_, hi⟩
    · rcases Place.append_cases hj with hj | ⟨_, hj⟩
      · exact h.once i j id hi hj
      · cases hj
    · cases hi
  · intro id stream hs hlive
    exact (h.owned id stream hs hlive).imp_right
      (List.mem_append_left _)

/-- The backend serves a call. -/
theorem Inv.serve (h : Inv s) {call : Nat}
    (hcall : s.starts[call]? = some none) :
    Inv { s with
      starts := s.starts.set call (some s.streams.length)
      streams := s.streams ++ [{}] } := by
  have hnew : (s.streams ++ [({} : Stream)])[s.streams.length]?
      = some {} := List.getElem?_concat_length
  have hold : ∀ {id stream}, s.streams[id]? = some stream →
      id ≠ s.streams.length := by
    intro id stream hs
    have hlt := (List.getElem?_eq_some_iff.mp hs).1
    omega
  refine ⟨?_, h.here, ?_, ?_, ?_, ?_, ?_⟩
  · intro id href
    obtain ⟨stream, hs, hlive⟩ := h.named id href
    exact ⟨stream, Place.append_of_some hs, hlive⟩
  · intro id hid
    rcases List.mem_or_eq_of_mem_set hid with hid | hid
    · obtain ⟨stream, hs, hlive⟩ := h.pending id hid
      exact ⟨stream, Place.append_of_some hs, hlive⟩
    · cases hid
      exact ⟨{}, hnew, rfl⟩
  · intro id hid href
    rcases List.mem_or_eq_of_mem_set hid with hid | hid
    · exact h.apart id hid href
    · obtain ⟨stream, hs, -⟩ := h.named id href
      exact hold hs (Option.some.inj hid)
  · intro i j id hi hj
    rcases Place.set_cases hi with ⟨hcall, hnew⟩ | ⟨_, hi⟩
    · rcases Place.set_cases hj with ⟨hcall', _⟩ | ⟨_, hj⟩
      · exact hcall.symm.trans hcall'
      · obtain ⟨stream, hs, -⟩ :=
          h.pending id (List.mem_of_getElem? hj)
        exact absurd (Option.some.inj hnew) (hold hs)
    · rcases Place.set_cases hj with ⟨_, hnew⟩ | ⟨_, hj⟩
      · obtain ⟨stream, hs, -⟩ :=
          h.pending id (List.mem_of_getElem? hi)
        exact absurd (Option.some.inj hnew) (hold hs)
      · exact h.once i j id hi hj
  · intro id stream hs hlive
    rcases Place.append_cases hs with hs | ⟨rfl, _⟩
    · refine (h.owned id stream hs hlive).imp_right fun hid => ?_
      obtain ⟨j, hj⟩ := List.mem_iff_getElem?.mp hid
      have hne : call ≠ j := by
        intro heq
        rw [← heq, hcall] at hj
        cases hj
      refine List.mem_of_getElem? (i := j) ?_
      rw [List.getElem?_set_ne hne]
      exact hj
    · exact Or.inr (List.mem_of_getElem? (Place.set_self hcall))
  · intro id stream hs hstopped
    rcases Place.append_cases hs with hs | ⟨_, rfl⟩
    · exact h.shown id stream hs hstopped
    · rfl

theorem Inv.once_eraseIdx (h : Inv s) (call : Nat) :
    ∀ i j id : Nat, (s.starts.eraseIdx call)[i]? = some (some id) →
      (s.starts.eraseIdx call)[j]? = some (some id) → i = j := by
  intro i j id hi hj
  rw [List.getElem?_eraseIdx] at hi hj
  split at hi
  next hlt =>
    split at hj
    next => exact h.once i j id hi hj
    next hge =>
      have heq := h.once i (j + 1) id hi hj
      omega
  next hge =>
    split at hj
    next hlt =>
      have heq := h.once (i + 1) j id hi hj
      omega
    next =>
      have heq := h.once (i + 1) (j + 1) id hi hj
      omega

theorem Inv.respond (h : Inv s) {call id : Nat}
    (hcall : s.starts[call]? = some (some id))
    (hfree : s.hook.streamIdRef = none) (hmounted : s.hook.mounted = true)
    (hfresh : s.hook.isStale = false) :
    Inv { s with
      hook := { s.hook with streamIdRef := some id }
      starts := s.starts.eraseIdx call } := by
  refine ⟨?_, fun _ _ => ⟨hmounted, hfresh⟩, ?_, ?_,
    h.once_eraseIdx call, ?_, h.shown⟩
  · intro id' href
    cases href
    exact h.pending id (List.mem_of_getElem? hcall)
  · intro id' hid
    exact h.pending id' (List.mem_of_mem_eraseIdx hid)
  · intro id' hid href
    cases href
    obtain ⟨i, hne, hi⟩ := List.mem_eraseIdx_iff_getElem?.mp hid
    exact hne (h.once i call id hi hcall)
  · intro id' stream hs hlive
    rcases h.owned id' stream hs hlive with href | hid
    · rw [hfree] at href
      cases href
    · obtain ⟨i, hi⟩ := List.mem_iff_getElem?.mp hid
      by_cases hne : i = call
      · rw [hne, hcall] at hi
        cases hi
        exact Or.inl rfl
      · exact Or.inr (List.mem_eraseIdx_iff_getElem?.mpr ⟨i, hne, hi⟩)

theorem Inv.fail (h : Inv s) {call : Nat}
    (hcall : s.starts[call]? = some none) :
    Inv { s with starts := s.starts.eraseIdx call } := by
  refine ⟨h.named, h.here,
    fun id hid => h.pending id (List.mem_of_mem_eraseIdx hid),
    fun id hid => h.apart id (List.mem_of_mem_eraseIdx hid),
    h.once_eraseIdx call, ?_, h.shown⟩
  intro id stream hs hlive
  refine (h.owned id stream hs hlive).imp_right fun hid => ?_
  obtain ⟨i, hi⟩ := List.mem_iff_getElem?.mp hid
  refine List.mem_eraseIdx_iff_getElem?.mpr ⟨i, fun heq => ?_, hi⟩
  rw [heq, hcall] at hi
  cases hi

end Starts

-- ======== events

section Events

variable {s : Sys} {event : Event}

theorem entries_of_ends (h : event.ends = true) : event.entries = [] := by
  cases event with
  | logStream event => exact if_pos h
  | logStreamBatch event => cases h

/-- A handler clears the ref where the event ends the stream, and
touches neither the mount nor the tab. -/
theorem handle_hook (hook : Hook) (event : Event) :
    (Sys.handle hook event).streamIdRef
        = (if event.ends then none else hook.streamIdRef)
      ∧ (Sys.handle hook event).mounted = hook.mounted
      ∧ (Sys.handle hook event).isStale = hook.isStale := by
  cases event with
  | logStreamBatch event => exact ⟨rfl, rfl, rfl⟩
  | logStream event =>
    unfold Sys.handle Sys.handleLogEvent Event.ends
    by_cases hdone : event.done = true
    · simp [hdone]
    · by_cases herror : event.error = ""
      · simp [hdone, herror, Sys.processEntries]
      · simp [hdone, herror]

theorem deliver_hook (event : Event) (s : Sys) :
    (s.deliver event).hook.streamIdRef
        = (if Sys.takes event s.hook && event.ends then none
          else s.hook.streamIdRef)
      ∧ (s.deliver event).hook.mounted = s.hook.mounted
      ∧ (s.deliver event).hook.isStale = s.hook.isStale := by
  unfold Sys.deliver
  dsimp only
  split
  next htakes =>
    rw [htakes, Bool.true_and]
    exact handle_hook s.hook event
  next htakes =>
    simp [htakes]

theorem Inv.takes (h : Inv s) (href : s.hook.streamIdRef
    = some event.streamId) : Sys.takes event s.hook = true := by
  unfold Sys.takes
  rw [(h.here _ href).1, href]
  simp

theorem Inv.discards (h : Inv s) (hok : Orderly s (.event event))
    {stream : Stream} (hs : s.streams[event.streamId]? = some stream)
    (hmore : stream.ended = true → event.ends = true)
    (hstopped : stream.stopped = false) :
    Sys.discards event s.hook = [] := by
  have hnone : event.entries = [] → Sys.discards event s.hook = [] := by
    intro hempty
    unfold Sys.discards
    rw [hempty]
    split
    · rfl
    · split
      · rfl
      · rfl
  cases hended : stream.ended with
  | true => exact hnone (entries_of_ends (hmore hended))
  | false =>
    have hlive : stream.live = true := by
      simp [Stream.live, hstopped, hended]
    rcases h.owned _ stream hs hlive with href | hpending
    · have htakes := h.takes href
      unfold Sys.discards
      rw [if_pos htakes, hok.2 htakes, List.filter_eq_nil_iff]
      intro e he
      simp [he]
    · exact hnone (hok.1 hpending).2

theorem Inv.deliver (h : Inv s) (hok : Orderly s (.event event))
    {stream : Stream} (hs : s.streams[event.streamId]? = some stream)
    (hmore : stream.ended = true → event.ends = true) :
    Inv (s.deliver event) := by
  obtain ⟨href, hmounted, hstale⟩ := deliver_hook event s
  -- Where the ref still names a stream, it did before, and the event did
  -- not end that stream.
  have hkept : ∀ id, (s.deliver event).hook.streamIdRef = some id →
      s.hook.streamIdRef = some id
        ∧ (event.streamId = id → event.ends = false) := by
    intro id hid
    rw [href] at hid
    split at hid
    next => cases hid
    next hnot =>
      refine ⟨hid, fun heq => ?_⟩
      subst heq
      rw [h.takes hid, Bool.true_and] at hnot
      simpa using hnot
  have hlive : ∀ {id old}, s.streams[id]? = some old → old.live = true →
      (event.streamId = id → event.ends = false) →
      ∃ new, (s.deliver event).streams[id]? = some new
        ∧ new.live = true := by
    intro id old hold hlive hends
    refine ⟨_, Place.modify_of_some hold, ?_⟩
    split
    next heq =>
      unfold Stream.live at hlive ⊢
      rw [hends heq, Bool.or_false]
      exact hlive
    next => exact hlive
  refine ⟨?_, ?_, ?_, ?_, h.once, ?_, ?_⟩
  · intro id hid
    obtain ⟨hid, hends⟩ := hkept id hid
    obtain ⟨old, hold, holdlive⟩ := h.named id hid
    exact hlive hold holdlive hends
  · intro id hid
    rw [hmounted, hstale]
    exact h.here id (hkept id hid).1
  · intro id hid
    obtain ⟨old, hold, holdlive⟩ := h.pending id hid
    refine hlive hold holdlive fun heq => ?_
    subst heq
    exact (hok.1 hid).1
  · intro id hid hid'
    exact h.apart id hid (hkept id hid').1
  · intro id new hnew hnewlive
    obtain ⟨old, hold, hcases⟩ := Place.modify_cases hnew
    have hboth : old.live = true
        ∧ (event.streamId = id → event.ends = false) := by
      rcases hcases with ⟨heq, rfl⟩ | ⟨hne, rfl⟩
      · unfold Stream.live at hnewlive ⊢
        simp only [Bool.and_eq_true, Bool.not_eq_true',
          Bool.or_eq_false_iff] at hnewlive
        simp [hnewlive.1, hnewlive.2.1, hnewlive.2.2]
      · exact ⟨hnewlive, fun heq => absurd heq hne⟩
    refine (h.owned id old hold hboth.1).imp_left fun hid => ?_
    rw [href, if_neg, hid]
    intro hends
    simp only [Bool.and_eq_true] at hends
    have htaken : s.hook.streamIdRef = some event.streamId := by
      simpa [Sys.takes] using (Bool.and_eq_true_iff.mp hends.1).2
    rw [hid] at htaken
    rw [hboth.2 (Option.some.inj htaken).symm] at hends
    cases hends.2
  · intro id new hnew hstopped
    obtain ⟨old, hold, ⟨heq, rfl⟩ | ⟨_, rfl⟩⟩ := Place.modify_cases hnew
    · subst heq
      rw [hs] at hold
      cases hold
      show stream.discarded ++ _ = []
      rw [h.shown _ stream hs hstopped,
        h.discards hok hs hmore hstopped, List.append_nil]
    · exact h.shown id _ hold hstopped

end Events

-- ======== a run

theorem inv_step {s s' : Sys} {a : Act} {out : List Empty} (h : Inv s)
    (hok : Orderly s a) (hstep : step a s = some (s', out)) : Inv s' := by
  cases a with
  | startStreaming =>
    cases hstep
    exact h.stopStreaming.ask
  | stopStreaming =>
    cases hstep
    exact h.stopStreaming
  | fetchLogs =>
    cases hstep
    exact h.stopStreaming.of_free rfl rfl stopStreaming_ref
      stopStreaming_ref
  | loadAllLogs =>
    cases hstep
    exact h.stopStreaming.of_free rfl rfl stopStreaming_ref
      stopStreaming_ref
  | setLogs logs =>
    cases hstep
    exact ⟨h.named, h.here, h.pending, h.apart, h.once, h.owned,
      h.shown⟩
  | setIsStale isStale =>
    cases hstep
    cases isStale with
    | false =>
      exact ⟨h.named, fun id href => ⟨(h.here id href).1, rfl⟩,
        h.pending, h.apart, h.once, h.owned, h.shown⟩
    | true =>
      refine h.stopStreaming.of_free ?_ ?_ stopStreaming_ref ?_
      · simp [Sys.setIsStale]
      · simp [Sys.setIsStale, stopStreaming_streams]
      · exact stopStreaming_ref
  | unmount =>
    simp only [step] at hstep
    split at hstep
    next =>
      cases hstep
      exact h.stopStreaming.of_free rfl rfl stopStreaming_ref
        stopStreaming_ref
    next => cases hstep
  | serve call =>
    simp only [step] at hstep
    split at hstep
    next hcall =>
      cases hstep
      exact h.serve hcall
    next => cases hstep
  | respond call =>
    simp only [step] at hstep
    split at hstep
    next id hcall =>
      cases hstep
      obtain ⟨hfree, hmounted, hfresh⟩ := hok
      exact h.respond hcall hfree hmounted hfresh
    next => cases hstep
  | fail call =>
    simp only [step] at hstep
    split at hstep
    next hcall =>
      cases hstep
      exact h.fail hcall
    next => cases hstep
  | event event =>
    simp only [step] at hstep
    split at hstep
    next => cases hstep
    next stream hs =>
      split at hstep
      next => cases hstep
      next hmore =>
        cases hstep
        exact h.deliver hok hs fun hended => by
          by_contra hends
          exact hmore ⟨hended, hends⟩

theorem inv_init : Inv {} := by
  constructor
  all_goals simp

/-- Where every answer comes in order, the view owns exactly its stream
in every state with no start call pending. -/
theorem owns_its_stream (acts : List Act)
    (hok : Along step Orderly {} acts) :
    Visits step (fun s => s.starts = [] → Owns s) {} acts :=
  Machine.visits_of_invariant inv_step (fun h => h.owns) inv_init hok

def inOrder : List Act :=
  [.startStreaming, .serve 0, .respond 0,
    .event (.logStream { streamId := 0, line := "up" }), .stopStreaming]

theorem owns_its_stream_inOrder :
    Visits step (fun s => s.starts = [] → Owns s) {} inOrder :=
  owns_its_stream inOrder (by decide)

def closedEarly : List Act :=
  [.startStreaming, .serve 0, .unmount, .respond 0]

/-- The stream lives on, and nothing will ever stop it. -/
theorem closed_early_leaks :
    ¬ ∀ acts, Visits step (fun s => s.starts = [] → Owns s) {} acts := by
  intro h
  have hstarted := (h closedEarly).2 _ _ rfl
  have hserved := hstarted.2 _ _ rfl
  have hclosed := hserved.2 _ _ rfl
  have howns : Owns _ := (hclosed.2 _ _ rfl) rfl
  cases (howns.only 0 {} rfl rfl).2.1

end StreamHook
