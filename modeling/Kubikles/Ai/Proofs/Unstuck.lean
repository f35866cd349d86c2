/-
When the chat panel gets stuck.

# The argument

The panel streams, or has a message that does, only while something is owed
to it: a call of the session on display that the manager has not decided
on, or one whose last event is still to come and will pass the handler's
guards (`Owes`). That event takes both back. Only the last call can be
unanswered or have a request running (`Alive.unanswered`, `Alive.running`).
What breaks this is an answer that comes behind the last event, a
generation of the manager that has fallen behind the panel's, and a
conversation that is replaced while something is under way (`Calm`).
-/
import Kubikles.Ai.Proofs.Shown
import Kubikles.Ai.Proofs.Tidy

namespace Chat

open Ai (AIResponseEvent)
open Machine (Along run)

-- ======== a call

def Ends : List AIResponseEvent → Bool → Prop
  | [], _ => True
  | [event], ended => event.done = ended
  | event :: rest, ended => event.done = false ∧ Ends rest ended

theorem Ends.append {events : List AIResponseEvent}
    (h : Ends events false) (event : AIResponseEvent) :
    Ends (events ++ [event]) event.done := by
  induction events with
  | nil => rfl
  | cons e rest ih =>
    cases rest with
    | nil => exact ⟨h, rfl⟩
    | cons e' rest => exact ⟨h.1, ih h.2⟩

theorem Ends.tail {event : AIResponseEvent} {rest : List AIResponseEvent}
    {ended : Bool} (h : Ends (event :: rest) ended) : Ends rest ended := by
  cases rest with
  | nil => trivial
  | cons e rest => exact h.2

def Call.running (c : Call) : Bool :=
  c.accepted && !c.ended && !c.cancelled

def Call.over (c : Call) : Bool := c.ended && c.inFlight.isEmpty

/-- An event of a number passes the generation of the panel. -/
def Passes (counted gen : Nat) : Prop := gen = 0 ∨ counted ≤ gen

/-- The events of a call, those on their way and those to come, pass it. -/
structure Heard (counted : Nat) (c : Call) : Prop where
  coming : ∀ gen ∈ c.gen?, counted ≤ gen
  inFlight : ∀ event ∈ c.inFlight, Passes counted event.generation

def Owes (ui : Ui) (c : Call) : Prop :=
  ui.sessionId = some c.session
    ∧ (c.waiting = true ∨ c.over = false ∧ Heard ui.generationRef c)

structure Call.Orderly (c : Call) : Prop where
  ends : Ends c.inFlight c.ended
  undecided : c.waiting = true → c.ended = false ∧ c.answered = false
  counted : ∀ gen ∈ c.gen?, 0 < gen
  /-- All events of a call carry one number. -/
  one : ∀ event ∈ c.inFlight, ∀ event' ∈ c.inFlight,
    event.generation = event'.generation

theorem Call.waiting_of_found {c : Call} (h : c.phase = .found) :
    c.waiting = true := by
  simp [Call.waiting, h]

theorem Call.gen?_of_accepted {c : Call} {gen : Nat}
    (h : c.phase = .accepted gen) : c.gen? = some gen := by
  simp [Call.gen?, h]

-- ======== the guard

def Settled (s : State) : Prop :=
  ∀ c ∈ s.calls, c.answered = true ∧ c.running = false

/-- What keeps the panel from getting stuck: nothing is sent while a call
is unanswered; the manager's generation has not fallen behind the panel's
when a request is accepted, or its CLI does not start; an accepted call is
answered before the last event of its request is handled, and a call's
promise is rejected only if the manager has rejected the call; the last
event of a call that passes the guards is that of the last call; and the
conversation is replaced only where all is settled, by one in which no
message streams. -/
def Calm (s : State) : Act → Prop
  | .sendMessage _ => s.ui.isStreaming = false →
      ∀ c ∈ s.calls, c.answered = true
  | .accept i | .rejectStarted i _ => ∀ c ∈ s.calls[i]?,
      s.ui.generationRef ≤ s.generation c.session + 1
  | .respond i => ∀ c ∈ s.calls[i]?, c.accepted = true → c.over = false
  | .callFails i => ∀ c ∈ s.calls[i]?, c.phase = .rejected
  | .deliver i => ∀ c ∈ s.calls[i]?, ∀ event ∈ c.inFlight.head?,
      event.done = true → s.ui.drops event = false →
        i + 1 = s.calls.length
  | .clearAnswered j | .clearFails j => Settled s
      ∧ ∀ k ∈ s.clears[j]?, ∀ conv ∈ k.load,
        ∀ m ∈ conv.messages, m.streaming = false
  | .deleteConversation convId =>
    s.ui.conversationId = some convId → Settled s
  | _ => True

instance Settled.decidable (s : State) : Decidable (Settled s) :=
  inferInstanceAs (Decidable (∀ c ∈ s.calls, _))

instance Calm.decidable (s : State) (a : Act) : Decidable (Calm s a) :=
  match a with
  | .sendMessage _ =>
    inferInstanceAs (Decidable (s.ui.isStreaming = false → _))
  | .accept i | .rejectStarted i _ =>
    inferInstanceAs (Decidable (∀ c ∈ s.calls[i]?, _))
  | .respond i => inferInstanceAs (Decidable (∀ c ∈ s.calls[i]?, _))
  | .callFails i => inferInstanceAs (Decidable (∀ c ∈ s.calls[i]?, _))
  | .deliver i => inferInstanceAs (Decidable (∀ c ∈ s.calls[i]?, _))
  | .clearAnswered _ | .clearFails _ =>
    inferInstanceAs (Decidable (Settled s ∧ _))
  | .deleteConversation convId =>
    inferInstanceAs (Decidable (s.ui.conversationId = some convId → _))
  | .cancelRequest | .startNewChat | .loadConversation _ | .autosave _
  | .find _ | .reject _ _ | .emit _ _ | .clearServed _ | .closeServed =>
    isTrue trivial

-- ======== the invariant

/-- The panel is not stuck. -/
structure Alive (s : State) : Prop where
  shown : ∃ shown, s.ui.sessionId = some shown
  tagged : Tagged s
  orderly : ∀ c ∈ s.calls, c.Orderly
  tidy : s.ui.Tidy
  owing : s.ui.Busy → ∃ c ∈ s.calls, Owes s.ui c
  unanswered : ∀ {i : Nat} {c : Call}, s.calls[i]? = some c →
    c.answered = false → i + 1 = s.calls.length
      ∧ s.ui.sessionId = some c.session ∧ Heard s.ui.generationRef c
  running : ∀ {i : Nat} {c : Call}, s.calls[i]? = some c →
    c.running = true → i + 1 = s.calls.length
      ∧ (c.answered = true → s.ui.sessionId = some c.session
        ∧ s.ui.isStreaming = true)

theorem Ui.Busy.of_eq {ui ui' : Ui}
    (hstreaming : ui'.isStreaming = ui.isStreaming)
    (href : ui'.streamingMessageRef = ui.streamingMessageRef) :
    ui'.Busy ↔ ui.Busy := by
  unfold Ui.Busy
  rw [hstreaming, href]

theorem Alive.quiet {s : State} {ui : Ui} (hi : Alive s)
    (hsession : ui.sessionId = s.ui.sessionId)
    (hgen : ui.generationRef = s.ui.generationRef)
    (hmessages : ui.messages = s.ui.messages)
    (hstreaming : ui.isStreaming = s.ui.isStreaming)
    (href : ui.streamingMessageRef = s.ui.streamingMessageRef) :
    Alive { s with ui } where
  shown := by
    show ∃ shown, ui.sessionId = some shown
    rw [hsession]
    exact hi.shown
  tagged := hi.tagged
  orderly := hi.orderly
  tidy m hm := by
    show m.streaming = true → ui.streamingMessageRef = some m.id
    rw [href]
    exact hi.tidy m (hmessages ▸ hm)
  owing hbusy := by
    obtain ⟨c, hc, howes⟩ :=
      hi.owing ((Ui.Busy.of_eq hstreaming href).mp hbusy)
    refine ⟨c, hc, ?_⟩
    unfold Owes at howes ⊢
    show ui.sessionId = _ ∧ (_ ∨ _ ∧ Heard ui.generationRef c)
    rw [hsession, hgen]
    exact howes
  unanswered hc hopen := by
    show _ ∧ ui.sessionId = _ ∧ Heard ui.generationRef _
    rw [hsession, hgen]
    exact hi.unanswered hc hopen
  running hc hrun := by
    show _ ∧ (_ → ui.sessionId = _ ∧ ui.isStreaming = true)
    rw [hsession, hstreaming]
    exact hi.running hc hrun

theorem cancelAll_getElem? {session : Nat} {calls : List Call} {i : Nat}
    {d : Call} (h : (cancelAll session calls)[i]? = some d) :
    ∃ c, calls[i]? = some c
      ∧ (d = c ∨ d = { c with cancelled := true })
      ∧ (d.running = true → c.running = true
        ∧ c.session ≠ session) := by
  unfold cancelAll at h
  rw [List.getElem?_map] at h
  obtain ⟨c, hc, rfl⟩ := Option.map_eq_some_iff.mp h
  refine ⟨c, hc, ?_, ?_⟩
  · split
    · exact .inr rfl
    · exact .inl rfl
  · split
    · intro hrun
      simp [Call.running] at hrun
    next hnot =>
      intro hrun
      refine ⟨hrun, fun heq => hnot ⟨heq, ?_⟩⟩
      unfold Call.running at hrun
      simp only [Bool.and_eq_true] at hrun
      exact hrun.1.1

theorem mem_cancelAll {session : Nat} {calls : List Call} {d : Call}
    (h : d ∈ cancelAll session calls) :
    ∃ c ∈ calls, d = c ∨ d = { c with cancelled := true } := by
  obtain ⟨i, hi⟩ := List.mem_iff_getElem?.mp h
  obtain ⟨c, hc, hd, -⟩ := cancelAll_getElem? hi
  exact ⟨c, List.mem_of_getElem? hc, hd⟩

theorem Call.Orderly.cancel {c d : Call} (h : c.Orderly)
    (hd : d = c ∨ d = { c with cancelled := true }) : d.Orderly := by
  rcases hd with rfl | rfl
  · exact h
  · exact ⟨h.ends, h.undecided, h.counted, h.one⟩

theorem Heard.cancel {counted : Nat} {c d : Call} (h : Heard counted c)
    (hd : d = c ∨ d = { c with cancelled := true }) : Heard counted d := by
  rcases hd with rfl | rfl
  · exact h
  · exact ⟨h.coming, h.inFlight⟩

theorem Alive.cancelAll {s : State} (hi : Alive s) (session : Nat) :
    Alive { s with calls := Chat.cancelAll session s.calls } where
  shown := hi.shown
  tagged := Tagged.cancelAll hi.tagged session
  orderly d hd := by
    obtain ⟨c, hc, heq⟩ := mem_cancelAll hd
    exact (hi.orderly c hc).cancel heq
  tidy := hi.tidy
  owing hbusy := by
    obtain ⟨c, hc, hsession, howes⟩ := hi.owing hbusy
    obtain ⟨i, hi'⟩ := List.mem_iff_getElem?.mp hc
    refine ⟨_, List.mem_map_of_mem hc, ?_⟩
    split
    · exact ⟨hsession, howes.imp id fun h => ⟨h.1, h.2.cancel (.inr rfl)⟩⟩
    · exact ⟨hsession, howes⟩
  unanswered hd hopen := by
    obtain ⟨c, hc, heq, -⟩ := cancelAll_getElem? hd
    have hlen : (Chat.cancelAll session s.calls).length
        = s.calls.length := List.length_map _
    rw [hlen]
    have hopen' : c.answered = false := by
      rcases heq with rfl | rfl <;> exact hopen
    obtain ⟨hlast, hsession, hheard⟩ := hi.unanswered hc hopen'
    refine ⟨hlast, ?_, hheard.cancel heq⟩
    rcases heq with rfl | rfl <;> exact hsession
  running hd hrun := by
    obtain ⟨c, hc, heq, hback⟩ := cancelAll_getElem? hd
    have hlen : (Chat.cancelAll session s.calls).length
        = s.calls.length := List.length_map _
    rw [hlen]
    obtain ⟨hlast, hshown⟩ := hi.running hc (hback hrun).1
    refine ⟨hlast, fun hanswered => ?_⟩
    rcases heq with rfl | rfl
    · exact hshown hanswered
    · exact hshown hanswered

theorem Alive.rest {s : State} (hi : Alive s) (sessions : List Session)
    (clears : List Clear) (closes : List Nat) (display : Nat) :
    Alive { s with sessions, clears, closes, display } :=
  ⟨hi.shown, hi.tagged, hi.orderly, hi.tidy, hi.owing, hi.unanswered,
    hi.running⟩

theorem Alive.unlist {s : State} (hi : Alive s) (session : Nat) :
    Alive (s.unlist session) := by
  unfold State.unlist
  split
  · exact (hi.cancelAll session).rest _ s.clears s.closes s.display
  · exact hi

theorem Alive.replaced {s s' : State} (hi : Alive s) (hsettled : Settled s)
    (hcalls : s'.calls = s.calls) (hshown : ∃ n, s'.ui.sessionId = some n)
    (hstill : s'.ui.Still) (hidle : ¬ s'.ui.Busy) : Alive s' where
  shown := hshown
  tagged := by
    unfold Tagged
    rw [hcalls]
    exact hi.tagged
  orderly := by
    rw [hcalls]
    exact hi.orderly
  tidy := hstill.tidy
  owing hbusy := absurd hbusy hidle
  unanswered hc hopen := by
    rw [hcalls] at hc
    have hanswered := (hsettled _ (List.mem_of_getElem? hc)).1
    rw [hopen] at hanswered
    cases hanswered
  running hc hrun := by
    rw [hcalls] at hc
    have hnot := (hsettled _ (List.mem_of_getElem? hc)).2
    rw [hrun] at hnot
    cases hnot

/-- A call gets on, and the panel with it. -/
theorem Alive.set {s : State} {i : Nat} {c c' : Call} (hi : Alive s)
    (ui : Ui) (hc : s.calls[i]? = some c)
    (hsession : ui.sessionId = s.ui.sessionId)
    (hgen : ui.generationRef = s.ui.generationRef) (htidy : ui.Tidy)
    (hsame : c'.session = c.session) (htagged : c'.Tagged)
    (horderly : c'.Orderly)
    (howing : ui.Busy → Owes s.ui c'
      ∨ s.ui.Busy ∧ (Owes s.ui c → Owes s.ui c'))
    (hunanswered : c'.answered = false → c.answered = false
      ∧ Heard s.ui.generationRef c')
    (hrunning : c'.running = true → i + 1 = s.calls.length
      ∧ (c'.answered = true → s.ui.sessionId = some c.session
        ∧ ui.isStreaming = true))
    (hkeep : s.ui.isStreaming = true → ui.isStreaming = true
      ∨ i + 1 = s.calls.length) :
    Alive ({ s with ui }.setCall i c') := by
  have howes : ∀ d, Owes s.ui d → Owes ui d := by
    intro d hd
    unfold Owes
    rw [hsession, hgen]
    exact hd
  have hlen : (s.calls.set i c').length = s.calls.length :=
    List.length_set
  refine
    { shown := ?_, tagged := Tagged.set hi.tagged htagged, orderly := ?_
      tidy := htidy, owing := ?_, unanswered := ?_, running := ?_ }
  · obtain ⟨shown, hshown⟩ := hi.shown
    exact ⟨shown, hsession.trans hshown⟩
  · intro d hd
    rcases List.mem_or_eq_of_mem_set hd with hd | rfl
    · exact hi.orderly d hd
    · exact horderly
  · intro hbusy
    have hself : c' ∈ s.calls.set i c' :=
      List.mem_of_getElem? (Place.set_self hc)
    rcases howing hbusy with hown | ⟨hbusy', hpass⟩
    · exact ⟨c', hself, howes c' hown⟩
    · obtain ⟨d, hd, hdowes⟩ := hi.owing hbusy'
      obtain ⟨k, hk⟩ := List.mem_iff_getElem?.mp hd
      by_cases hki : k = i
      · subst hki
        rw [hc] at hk
        cases hk
        exact ⟨c', hself, howes c' (hpass hdowes)⟩
      · refine ⟨d, List.mem_of_getElem? (i := k) ?_, howes d hdowes⟩
        show (s.calls.set i c')[k]? = some d
        rw [List.getElem?_set_ne (Ne.symm hki)]
        exact hk
  · intro k d hd hopen
    show k + 1 = (s.calls.set i c').length ∧ ui.sessionId = _
      ∧ Heard ui.generationRef d
    rw [hlen, hsession, hgen]
    rcases Place.set_cases hd with ⟨rfl, rfl⟩ | ⟨-, hd⟩
    · obtain ⟨hopen', hheard⟩ := hunanswered hopen
      obtain ⟨hlast, hshown, -⟩ := hi.unanswered hc hopen'
      exact ⟨hlast, by rw [hsame]; exact hshown, hheard⟩
    · exact hi.unanswered hd hopen
  · intro k d hd hrun
    show k + 1 = (s.calls.set i c').length ∧ (_ → ui.sessionId = _
      ∧ ui.isStreaming = true)
    rw [hlen, hsession]
    rcases Place.set_cases hd with ⟨rfl, rfl⟩ | ⟨hne, hd⟩
    · rw [hsame]
      exact hrunning hrun
    · obtain ⟨hlast, hshown⟩ := hi.running hd hrun
      refine ⟨hlast, fun hanswered => ?_⟩
      obtain ⟨hsid, hstreaming⟩ := hshown hanswered
      rcases hkeep hstreaming with hstreaming' | hilast
      · exact ⟨hsid, hstreaming'⟩
      · exact absurd (by omega) hne

-- ======== one step

theorem Call.Orderly.rejected {c : Call} {event : AIResponseEvent}
    (hphase : c.phase = .rejected) (hin : c.inFlight = [event])
    (hended : c.ended = true) (hdone : event.done = true) : c.Orderly where
  ends := by
    rw [hin, hended]
    exact hdone
  undecided hw := by simp [Call.waiting, hphase] at hw
  counted gen hgen := by simp [Call.gen?, hphase] at hgen
  one e he e' he' := by
    rw [hin] at he he'
    obtain rfl := List.mem_singleton.mp he
    obtain rfl := List.mem_singleton.mp he'
    rfl

theorem Heard.rejected {counted : Nat} {c : Call} {event : AIResponseEvent}
    (hphase : c.phase = .rejected) (hin : c.inFlight = [event])
    (hpass : Passes counted event.generation) : Heard counted c where
  coming gen hgen := by simp [Call.gen?, hphase] at hgen
  inFlight e he := by
    rw [hin] at he
    obtain rfl := List.mem_singleton.mp he
    exact hpass

theorem Alive.reject {s : State} {i : Nat} {c c' : Call}
    {event : AIResponseEvent} (hi : Alive s) (hc : s.calls[i]? = some c)
    (hsame : c'.session = c.session) (hphase : c'.phase = .rejected) (hin : c'.inFlight = [event])
    (hended : c'.ended = true) (hanswered : c'.answered = c.answered)
    (hsession : event.sessionID = c'.session) (hdone : event.done = true)
    (hpass : Passes s.ui.generationRef event.generation) :
    Alive (s.setCall i c') := by
  have hheard := Heard.rejected hphase hin hpass
  refine hi.set s.ui hc rfl rfl hi.tidy hsame
    (Call.Tagged.rejected hphase hin hsession)
    (Call.Orderly.rejected hphase hin hended hdone)
    (fun hbusy => .inr ⟨hbusy, fun howes => ?_⟩)
    (fun hopen => ⟨hanswered ▸ hopen, hheard⟩) (fun hrun => ?_) .inl
  · refine ⟨by rw [hsame]; exact howes.1, .inr ⟨?_, hheard⟩⟩
    simp [Call.over, hin]
  · simp [Call.running, Call.accepted, hphase] at hrun

theorem Alive.accept {s : State} {i : Nat} {c : Call} (hi : Alive s)
    (hc : s.calls[i]? = some c) (hphase : c.phase = .found)
    (hcount : s.ui.generationRef ≤ s.generation c.session + 1) :
    Alive (({ s with calls := Chat.cancelAll c.session s.calls }.advance
      c.session).setCall i { c with
        phase := .accepted (s.generation c.session + 1) }) := by
  have hmarked : Alive ({ s with
      calls := Chat.cancelAll c.session s.calls }.advance c.session) :=
    (hi.cancelAll c.session).rest _ s.clears s.closes s.display
  have hc' : (Chat.cancelAll c.session s.calls)[i]? = some c := by
    unfold Chat.cancelAll
    rw [List.getElem?_map, hc]
    simp [Call.accepted, hphase]
  have hwaiting := Call.waiting_of_found hphase
  have horderly := hi.orderly c (List.mem_of_getElem? hc)
  obtain ⟨hended, hopen⟩ := horderly.undecided hwaiting
  have hnone : c.inFlight = [] :=
    (hi.tagged c (List.mem_of_getElem? hc)).silent hwaiting
  have hheard : Heard s.ui.generationRef
      { c with phase := .accepted (s.generation c.session + 1) } := by
    refine ⟨fun gen hgen => ?_, fun event he => ?_⟩
    · cases hgen
      exact hcount
    · have he' : event ∈ c.inFlight := he
      rw [hnone] at he'
      cases he'
  refine hmarked.set s.ui hc' rfl rfl hi.tidy rfl ?_ ?_
    (fun hbusy => .inr ⟨hbusy, fun howes => ⟨howes.1, .inr ⟨?_, hheard⟩⟩⟩)
    (fun h => ⟨h, hheard⟩) (fun _ => ?_) .inl
  · refine (hi.tagged c (List.mem_of_getElem? hc)).of_eq rfl rfl
      (fun hw => by cases hw) fun gen _ => .inr hwaiting
  · refine ⟨horderly.ends, fun hw => ?_, fun gen hgen => ?_, horderly.one⟩
    · cases hw
    · cases hgen
      exact Nat.succ_pos _
  · simp [Call.over, hended]
  · obtain ⟨hlast, -⟩ := hmarked.unanswered hc' hopen
    refine ⟨hlast, fun hanswered => ?_⟩
    rw [hopen] at hanswered
    cases hanswered

theorem Alive.emit {s : State} {i gen : Nat} {c : Call}
    {event : AIResponseEvent} (hi : Alive s) (hc : s.calls[i]? = some c)
    (hphase : c.phase = .accepted gen) (hended : c.ended = false)
    (htagged : ({ c with
      inFlight := c.inFlight
        ++ [{ event with sessionID := c.session, generation := gen }]
      ended := event.done } : Call).Tagged) :
    Alive (s.setCall i { c with
      inFlight := c.inFlight
        ++ [{ event with sessionID := c.session, generation := gen }]
      ended := event.done }) := by
  have hmem := List.mem_of_getElem? hc
  have horderly := hi.orderly c hmem
  have hgen : c.gen? = some gen := Call.gen?_of_accepted hphase
  have hheard : Heard s.ui.generationRef c →
      Heard s.ui.generationRef { c with
        inFlight := c.inFlight
          ++ [{ event with sessionID := c.session, generation := gen }]
        ended := event.done } := by
    intro h
    refine ⟨h.coming, fun e he => ?_⟩
    rcases List.mem_append.mp he with he | he
    · exact h.inFlight e he
    · obtain rfl := List.mem_singleton.mp he
      exact .inr (h.coming gen hgen)
  refine hi.set s.ui hc rfl rfl hi.tidy rfl htagged ?_
    (fun hbusy => .inr ⟨hbusy, fun howes => ⟨howes.1, ?_⟩⟩)
    (fun hopen => ⟨hopen, hheard (hi.unanswered hc hopen).2.2⟩)
    (fun hrun => hi.running (c := c) hc ?_) .inl
  · refine ⟨?_, fun hw => ?_, horderly.counted, fun e he e' he' => ?_⟩
    · have hends := horderly.ends
      rw [hended] at hends
      exact hends.append _
    · simp [Call.waiting, hphase] at hw
    · have hall : ∀ e ∈ c.inFlight ++ [{ event with
          sessionID := c.session, generation := gen }],
          e.generation = gen := by
        intro e he
        rcases List.mem_append.mp he with he | he
        · exact (hi.tagged c hmem).generation e he gen hphase
        · obtain rfl := List.mem_singleton.mp he
          rfl
      exact (hall e he).trans (hall e' he').symm
  · rcases howes.2 with hw | ⟨-, h⟩
    · simp [Call.waiting, hphase] at hw
    · exact .inr ⟨by simp [Call.over], hheard h⟩
  · simp only [Call.running, Bool.and_eq_true] at hrun ⊢
    exact ⟨⟨hrun.1.1, by rw [hended]; rfl⟩, hrun.2⟩

theorem Alive.deliver {s : State} {i : Nat} {c : Call}
    {event : AIResponseEvent} {rest : List AIResponseEvent} (hi : Alive s)
    (hc : s.calls[i]? = some c) (hnext : c.inFlight = event :: rest)
    (hlast : event.done = true → s.ui.drops event = false →
      i + 1 = s.calls.length)
    (htagged : ({ c with inFlight := rest } : Call).Tagged) :
    Alive ({ s with ui := s.ui.handler event }.setCall i
      { c with inFlight := rest }) := by
  have hmem := List.mem_of_getElem? hc
  have horderly := hi.orderly c hmem
  obtain ⟨hsession, hgen⟩ := handler_counters event s.ui
  have hends := horderly.ends
  rw [hnext] at hends
  have hevent : event ∈ c.inFlight := by rw [hnext]; exact List.mem_cons_self
  have htail : ∀ e ∈ rest, e ∈ c.inFlight := fun e he => by
    rw [hnext]
    exact List.mem_cons_of_mem _ he
  have hid := (hi.tagged c hmem).session event hevent
  have hdecided : c.waiting = false := by
    by_contra hw
    have hnone := (hi.tagged c hmem).silent (Bool.not_eq_false _ ▸ hw)
    rw [hnext] at hnone
    cases hnone
  have hheard : Heard s.ui.generationRef c →
      Heard s.ui.generationRef { c with inFlight := rest } :=
    fun h => ⟨h.coming, fun e he => h.inFlight e (htail e he)⟩
  -- An event that someone owes passes the guards.
  have hpass : Owes s.ui c → s.ui.drops event = false := by
    rintro ⟨hshown, hw | ⟨-, h⟩⟩
    · rw [hdecided] at hw
      cases hw
    · unfold Ui.drops
      rw [hshown, hid]
      rcases h.inFlight event hevent with hzero | hle
      · simp [hzero]
      · simp [hle]
  refine hi.set (s.ui.handler event) hc hsession hgen (hi.tidy.handler event) rfl htagged ?_ ?_
    (fun hopen => ⟨hopen, hheard (hi.unanswered hc hopen).2.2⟩) ?_ ?_
  · refine ⟨hends.tail, fun hw => ?_, horderly.counted,
      fun e he e' he' => horderly.one e (htail e he) e' (htail e' he')⟩
    have hw' : c.waiting = true := hw
    rw [hdecided] at hw'
    cases hw'
  · intro hbusy
    cases hdrops : s.ui.drops event with
    | true =>
      have hsame : s.ui.handler event = s.ui := by
        unfold Ui.handler
        rw [hdrops, if_pos rfl]
      rw [hsame] at hbusy
      refine .inr ⟨hbusy, fun howes => ?_⟩
      rw [hpass howes] at hdrops
      cases hdrops
    | false =>
      cases hdone : event.done with
      | true => exact absurd hbusy (handler_done hdrops hdone)
      | false =>
        -- The last event is still to come, with the same number.
        left
        unfold Ui.drops at hdrops
        simp only [Bool.or_eq_false_iff, decide_eq_false_iff_not,
          Classical.not_not, Bool.and_eq_false_iff] at hdrops
        obtain ⟨hshown, hnumber⟩ := hdrops
        have hpasses : Passes s.ui.generationRef event.generation := by
          rcases hnumber with hzero | hle
          · exact .inl (by simpa using hzero)
          · exact .inr (by simpa using hle)
        refine ⟨hshown.symm.trans (congrArg some hid), .inr ⟨?_, ?_, ?_⟩⟩
        · cases rest with
          | nil =>
            have hended : event.done = c.ended := hends
            simp [Call.over, ← hended, hdone]
          | cons e rest => simp [Call.over]
        · intro gen hgen'
          have hphase : c.phase = .accepted gen := by
            have hgen'' : gen ∈ c.gen? := hgen'
            unfold Call.gen? at hgen''
            split at hgen''
            next g hphase =>
              cases hgen''
              exact hphase
            next => cases hgen''
          have heq := (hi.tagged c hmem).generation event hevent gen hphase
          have hpos := horderly.counted gen hgen'
          rcases hpasses with hzero | hle
          · omega
          · omega
        · intro e he
          rw [horderly.one e (htail e he) event hevent]
          exact hpasses
  · intro hrun
    have hrun' : c.running = true := hrun
    obtain ⟨hilast, hshown⟩ := hi.running hc hrun'
    refine ⟨hilast, fun hanswered => ?_⟩
    obtain ⟨hsid, hstreaming⟩ := hshown hanswered
    refine ⟨hsid, ?_⟩
    have hended : c.ended = false := by
      simp only [Call.running, Bool.and_eq_true, Bool.not_eq_true'] at hrun'
      exact hrun'.1.2
    have hdone : event.done = false := by
      rw [hended] at hends
      cases rest with
      | nil => exact hends
      | cons e rest => exact hends.1
    rw [handler_open hdone]
    exact hstreaming
  · intro hstreaming
    cases hdone : event.done with
    | false =>
      left
      rw [handler_open hdone]
      exact hstreaming
    | true =>
      cases hdrops : s.ui.drops event with
      | false => exact .inr (hlast hdone hdrops)
      | true =>
        left
        unfold Ui.handler
        rw [hdrops, if_pos rfl]
        exact hstreaming

theorem Alive.refuse {s : State} {i : Nat} {c : Call} (hi : Alive s)
    (hc : s.calls[i]? = some c) (hphase : c.phase = .rejected) :
    Alive (s.setCall i { c with answered := true }) := by
  have hmem := List.mem_of_getElem? hc
  have horderly := hi.orderly c hmem
  refine hi.set s.ui hc rfl rfl hi.tidy rfl
    ((hi.tagged c hmem).of_eq rfl rfl id fun _ h => .inl h)
    ⟨horderly.ends, fun hw => ?_, horderly.counted, horderly.one⟩
    (fun hbusy => .inr ⟨hbusy, fun howes => ⟨howes.1, howes.2.imp id
      fun h => ⟨h.1, ⟨h.2.coming, h.2.inFlight⟩⟩⟩⟩)
    (fun hopen => by cases hopen) (fun hrun => ?_) .inl
  · simp [Call.waiting, hphase] at hw
  · simp [Call.running, Call.accepted, hphase] at hrun

theorem Alive.grant {s : State} {i gen : Nat} {c : Call} (hi : Alive s)
    (hc : s.calls[i]? = some c) (hopen : c.answered = false)
    (hphase : c.phase = .accepted gen) (hover : c.over = false) :
    Alive ({ s with ui := { s.ui with isStreaming := true } }.setCall i
      { c with answered := true }) := by
  have hmem := List.mem_of_getElem? hc
  have horderly := hi.orderly c hmem
  obtain ⟨hlast, hshown, hheard⟩ := hi.unanswered hc hopen
  refine hi.set { s.ui with isStreaming := true } hc rfl rfl hi.tidy
    rfl ((hi.tagged c hmem).of_eq rfl rfl id fun _ h => .inl h)
    ⟨horderly.ends, fun hw => ?_, horderly.counted, horderly.one⟩
    (fun _ => .inl ⟨hshown, .inr ⟨hover, hheard.coming, hheard.inFlight⟩⟩)
    (fun h => by cases h) (fun _ => ⟨hlast, fun _ => ⟨hshown, rfl⟩⟩)
    (fun _ => .inl rfl)
  simp [Call.waiting, hphase] at hw

theorem resetUi_idle (load : Option Conversation) (ui : Ui)
    (hload : ∀ conv ∈ load, ∀ m ∈ conv.messages, m.streaming = false) :
    (State.resetUi load ui).Still ∧ ¬ (State.resetUi load ui).Busy
      ∧ (State.resetUi load ui).sessionId = ui.sessionId := by
  unfold State.resetUi
  cases load with
  | none =>
    refine ⟨fun m hm => absurd hm List.not_mem_nil, ?_, rfl⟩
    simp [Ui.Busy, Ui.resetChatState]
  | some conv =>
    refine ⟨hload conv rfl, ?_, rfl⟩
    simp [Ui.Busy, Ui.loadState]

theorem alive_step {a : Act} {s s' : State} {out : List Empty}
    (hi : Alive s) (hok : Calm s a) (hstep : step a s = some (s', out)) :
    Alive s' := by
  obtain ⟨shown, hshown⟩ := hi.shown
  have hmoves := moves_of_step hshown hstep
  have htagged := tagged_step hi.tagged hmoves
  have hat : ∀ {i : Nat} {c : Call}, s.calls[i]? = some c →
      ∀ {c' : Call}, (∀ d ∈ s.calls.set i c', d.Tagged) → c'.Tagged :=
    fun hc _ h => h _ (List.mem_of_getElem? (Place.set_self hc))
  cases hmoves with
  | quiet hsession hgen hmessages hstreaming href =>
    exact hi.quiet hsession hgen hmessages hstreaming href
  | asked hsession hgen hmessages hstreaming href =>
    exact (hi.quiet hsession hgen hmessages hstreaming href).rest _ _ _ _
  | @sent text session hsession hidle =>
    have hall := hok hidle
    have hnone : ∀ {i : Nat} {c : Call}, s.calls[i]? = some c →
        c.running = true → False := by
      intro i c hc hrun
      have hstreaming := ((hi.running hc hrun).2
        (hall c (List.mem_of_getElem? hc))).2
      rw [hidle] at hstreaming
      cases hstreaming
    have hlen : (s.calls ++ [({ session, display := s.display } :
        Call)]).length = s.calls.length + 1 := List.length_append
    have hheard : Heard (s.ui.generationRef + 1)
        { session, display := s.display } :=
      ⟨fun _ h => (by cases h), fun _ h => absurd h List.not_mem_nil⟩
    refine
      { shown := ⟨session, hsession⟩, tagged := htagged, orderly := ?_
        tidy := hi.tidy.append (s.ui.send text) rfl rfl rfl
        owing := fun _ => ⟨_, List.mem_append_right _
          (List.mem_singleton_self _), hsession, .inl rfl⟩
        unanswered := ?_, running := ?_ }
    · intro c hc
      rcases List.mem_append.mp hc with hc | hc
      · exact hi.orderly c hc
      · obtain rfl := List.mem_singleton.mp hc
        exact ⟨trivial, fun _ => ⟨rfl, rfl⟩, fun _ h => (by cases h),
          fun _ h => absurd h List.not_mem_nil⟩
    · intro i c hc hopen
      rcases Place.append_cases hc with hc | ⟨rfl, rfl⟩
      · rw [hall c (List.mem_of_getElem? hc)] at hopen
        cases hopen
      · exact ⟨hlen.symm, hsession, hheard⟩
    · intro i c hc hrun
      rcases Place.append_cases hc with hc | ⟨rfl, rfl⟩
      · exact absurd (hnone hc hrun) id
      · simp [Call.running, Call.accepted] at hrun
  | @cancelled session hsession =>
    obtain ⟨hstill, hidle, hsid, hgen⟩ := hi.tidy.cancel
    have hmarked := hi.cancelAll session
    refine
      { shown := ⟨session, hsid.trans hsession⟩, tagged := htagged
        orderly := hmarked.orderly, tidy := hstill.tidy
        owing := fun hbusy => absurd hbusy hidle
        unanswered := ?_, running := ?_ }
    · intro i c hc hopen
      show _ ∧ s.ui.cancel.sessionId = _ ∧ Heard s.ui.cancel.generationRef c
      rw [hsid, hgen]
      exact hmarked.unanswered hc hopen
    · intro i d hd hrun
      obtain ⟨c, hc, heq, hback⟩ := cancelAll_getElem? hd
      obtain ⟨hrun', hother⟩ := hback hrun
      refine ⟨(hmarked.running hd hrun).1, fun hanswered => ?_⟩
      have hanswered' : c.answered = true := by
        rcases heq with rfl | rfl <;> exact hanswered
      have hsame := ((hi.running hc hrun').2 hanswered').1
      rw [hsession] at hsame
      exact absurd (Option.some.inj hsame).symm hother
  | deleted hconv =>
    exact hi.replaced (hok hconv) rfl ⟨shown, hshown⟩
      (resetUi_idle none _ fun _ h => (by cases h)).1
      (resetUi_idle none _ fun _ h => (by cases h)).2.1
  | @found i c hc hphase =>
    have hmem := List.mem_of_getElem? hc
    have hwaiting : c.waiting = true := by simp [Call.waiting, hphase]
    have horderly := hi.orderly c hmem
    have hheard : Heard s.ui.generationRef c →
        Heard s.ui.generationRef { c with phase := .found } :=
      fun h => ⟨fun _ hg => (by cases hg), h.inFlight⟩
    refine hi.set s.ui hc rfl rfl hi.tidy rfl (hat hc htagged)
      ⟨horderly.ends, fun _ => horderly.undecided hwaiting,
        fun _ hg => (by cases hg), horderly.one⟩
      (fun hbusy => .inr ⟨hbusy, fun howes => ⟨howes.1, .inl rfl⟩⟩)
      (fun hopen => ⟨hopen, hheard (hi.unanswered hc hopen).2.2⟩)
      (fun hrun => ?_) .inl
    simp [Call.running, Call.accepted] at hrun
  | rejected hc _ =>
    exact hi.reject hc rfl rfl rfl rfl rfl rfl rfl (.inl rfl)
  | @accepted i c hc hphase => exact hi.accept hc hphase (hok c hc)
  | @rejectedStarted i c error hc _ =>
    have hcounted : Alive (s.advance c.session) :=
      hi.rest _ s.clears s.closes s.display
    exact hcounted.reject hc rfl rfl rfl rfl rfl rfl rfl (.inr (hok c hc))
  | @emitted i c event gen hc hphase hended =>
    exact hi.emit hc hphase hended (hat hc htagged)
  | @delivered i c event rest hc hnext =>
    refine hi.deliver hc hnext (fun hdone hdrops => ?_) (hat hc htagged)
    exact hok c hc event (by rw [hnext]; rfl) hdone hdrops
  | @granted i c gen hc hopen hphase =>
    exact hi.grant hc hopen hphase (hok c hc (by
      simp [Call.accepted, hphase]))
  | refused hc _ hphase => exact hi.refuse hc hphase
  | @lost i c hc _ => exact hi.refuse hc (hok c hc)
  | served _ _ => exact (hi.unlist _).rest _ _ _ _
  | @renewed j k newId hk _ =>
    obtain ⟨hsettled, hload⟩ := hok
    obtain ⟨hstill, hidle, -⟩ := resetUi_idle k.load s.ui (hload k hk)
    exact hi.replaced hsettled rfl ⟨newId, rfl⟩ hstill hidle
  | @stayed j k hk _ =>
    obtain ⟨hsettled, hload⟩ := hok
    obtain ⟨hstill, hidle, hsid⟩ := resetUi_idle k.load s.ui (hload k hk)
    exact hi.replaced hsettled rfl ⟨shown, hsid.trans hshown⟩ hstill hidle
  | closed _ => exact (hi.unlist _).rest _ _ _ _

-- ======== the runs

def Quiet (s : State) : Prop :=
  ∀ c ∈ s.calls, c.answered = true ∧ c.waiting = false ∧ c.over = true

instance Quiet.decidable (s : State) : Decidable (Quiet s) :=
  inferInstanceAs (Decidable (∀ c ∈ s.calls, _))

theorem alive_start (history : List Conversation) : Alive (start history) :=
  { shown := ⟨0, rfl⟩
    tagged := fun _ h => absurd h List.not_mem_nil
    orderly := fun _ h => absurd h List.not_mem_nil
    tidy := fun _ h => absurd h List.not_mem_nil
    owing := fun h => by simp [Ui.Busy, start] at h
    unanswered := fun h => by simp [start] at h
    running := fun h => by simp [start] at h }

theorem Alive.idle {s : State} (hi : Alive s) (hquiet : Quiet s) :
    s.ui.isStreaming = false ∧ s.ui.Still := by
  have hidle : ¬ s.ui.Busy := by
    intro hbusy
    obtain ⟨c, hc, -, hw | ⟨hover, -⟩⟩ := hi.owing hbusy
    · rw [(hquiet c hc).2.1] at hw
      cases hw
    · rw [(hquiet c hc).2.2] at hover
      cases hover
  unfold Ui.Busy at hidle
  push Not at hidle
  exact ⟨by simpa using hidle.1, hi.tidy.still hidle.2⟩

theorem Alive.blocks {s : State} (hi : Alive s) {text : Text}
    (hok : Calm s (.sendMessage text))
    (hrunning : ∃ c ∈ s.calls, c.running = true) :
    next (.sendMessage text) s = some s := by
  obtain ⟨shown, hshown⟩ := hi.shown
  obtain ⟨c, hc, hrun⟩ := hrunning
  have hstreaming : s.ui.isStreaming = true := by
    by_contra hidle
    have hidle' : s.ui.isStreaming = false := by simpa using hidle
    obtain ⟨i, hi'⟩ := List.mem_iff_getElem?.mp hc
    exact hidle ((hi.running hi' hrun).2 (hok hidle' c hc)).2
  show panelStep (.sendMessage text) s = some s
  rw [panelStep, hshown]
  exact if_pos (.inr hstreaming)

/-- A message is sent, granted and answered, in a chunk and an end. -/
def answeredInTurn : List Act :=
  [.sendMessage [104], .find 0, .accept 0, .respond 0,
    .emit 0 { sessionID := 0, chunk := [104] }, .deliver 0,
    .emit 0 { sessionID := 0, done := true }, .deliver 0]

/-- The request ends before the answer to its call is handled. -/
def endsFirst : List Act :=
  [.sendMessage [104], .find 0, .accept 0,
    .emit 0 { sessionID := 0, done := true }, .deliver 0, .respond 0]

end Chat
