/-
Which answers the chat panel shows.

# The argument

The panel and the manager keep the books of `Ledger`: the panel's
generation counts the requests it has made since the conversation on
display was last replaced, the manager's those it has accepted in the
session (`book_moves`). What a request emits carries its session and number
(`Tagged`). So the handler's two guards tell the latest accepted request of
the conversation on display from all others, as long as the two counters go
together (`Steady`).
-/
import Kubikles.Ai.Proofs.Moves

namespace Chat

open Ai (AIResponseEvent)
open Ledger (Book Entry Verdict)
open Machine (Along run)

-- ======== the books

def Call.verdict (c : Call) : Verdict :=
  match c.phase with
  | .sent | .found => .waiting
  | .rejected => .rejected
  | .accepted gen => .accepted gen

def Call.entry (c : Call) : Entry := ⟨c.session, c.display, c.verdict⟩

def Clear.promise (k : Clear) : Option Nat :=
  match k.phase with
  | .served newId => some newId
  | _ => none

def State.book (s : State) (shown : Nat) : Book where
  shown
  counted := s.ui.generationRef
  page := s.display
  generations := s.sessions.map Session.generation
  entries := s.calls.map Call.entry
  promised := s.clears.map Clear.promise

theorem Call.verdict_of_waiting {c : Call} (h : c.waiting = true) :
    c.verdict = .waiting := by
  unfold Call.waiting at h
  unfold Call.verdict
  cases hphase : c.phase <;> simp_all

theorem Call.waiting_iff (c : Call) :
    c.waiting = true ↔ c.verdict = .waiting := by
  refine ⟨c.verdict_of_waiting, fun h => ?_⟩
  unfold Call.verdict at h
  unfold Call.waiting
  cases hphase : c.phase with
  | sent => rfl
  | found => rfl
  | accepted gen =>
    rw [hphase] at h
    cases h
  | rejected =>
    rw [hphase] at h
    cases h

theorem entry_cancelAll (session : Nat) (calls : List Call) :
    (cancelAll session calls).map Call.entry = calls.map Call.entry := by
  unfold cancelAll
  rw [List.map_map]
  apply List.map_congr_left
  intro c _
  show Call.entry (if _ then _ else _) = _
  split <;> rfl

theorem entry_set {calls : List Call} {i : Nat} {c : Call}
    (hc : calls[i]? = some c) (c' : Call) (h : c'.entry = c.entry) :
    (calls.set i c').map Call.entry = calls.map Call.entry := by
  rw [List.map_set, h]
  exact Place.set_same (by rw [List.getElem?_map, hc]; rfl)

theorem generations_unlist (s : State) (session : Nat) :
    (s.unlist session).sessions.map Session.generation
      = s.sessions.map Session.generation := by
  unfold State.unlist
  split
  · have h := Place.map_modify (l := s.sessions) (i := session)
      (f := fun a : Session => { a with listed := false })
      Session.generation (g := id) fun _ => rfl
    rw [List.modify_id] at h
    exact h
  · rfl

theorem entries_unlist (s : State) (session : Nat) :
    (s.unlist session).calls.map Call.entry = s.calls.map Call.entry := by
  unfold State.unlist
  split
  · exact entry_cancelAll session s.calls
  · rfl

theorem unlist_rest (s : State) (session : Nat) :
    (s.unlist session).ui = s.ui ∧ (s.unlist session).display = s.display
      ∧ (s.unlist session).clears = s.clears := by
  unfold State.unlist
  split <;> exact ⟨rfl, rfl, rfl⟩

theorem generations_modify (sessions : List Session) (session : Nat) :
    (sessions.modify session fun a =>
        { a with generation := a.generation + 1 }).map Session.generation
      = (sessions.map Session.generation).modify session (· + 1) :=
  Place.map_modify Session.generation fun _ => rfl

theorem generation_book (s : State) (shown session : Nat) :
    (s.book shown).generation session = s.generation session := by
  unfold Book.generation State.generation State.book
  rw [List.getElem?_map]

theorem entry_getElem? {s : State} {i : Nat} {c : Call}
    (hc : s.calls[i]? = some c) (shown : Nat) :
    (s.book shown).entries[i]? = some c.entry := by
  show (s.calls.map Call.entry)[i]? = _
  rw [List.getElem?_map, hc]
  rfl

-- ======== the guard

def Call.gen? (c : Call) : Option Nat :=
  match c.phase with
  | .accepted gen => some gen
  | _ => none

/-- A call is the latest accepted request of the conversation on display. -/
def LatestAccepted (s : State) (c : Call) : Prop :=
  ∃ gen ∈ c.gen?, c.display = s.display
    ∧ ∀ d ∈ s.calls, d.display = s.display → ∀ gen' ∈ d.gen?, gen' ≤ gen

theorem Call.mem_gen?_iff (c : Call) {gen : Nat} :
    gen ∈ c.gen? ↔ c.verdict = .accepted gen := by
  unfold Call.gen? Call.verdict
  cases c.phase <;> simp

def Unused (s : State) : Prop :=
  ∀ c ∈ s.calls, s.ui.sessionId ≠ some c.session

/-- What keeps the two counters together: no call of the session on display
is rejected, its conversation is not replaced without a new session once
something was asked in it, and no event of the latest accepted request
arrives while another call of the session is not decided on. -/
def Steady (s : State) : Act → Prop
  | .reject i _ | .rejectStarted i _ =>
    ∀ c ∈ s.calls[i]?, s.ui.sessionId ≠ some c.session
  | .deliver i => ∀ c ∈ s.calls[i]?, LatestAccepted s c →
      ∀ d ∈ s.calls, s.ui.sessionId = some d.session → d.waiting = false
  | .clearFails _ => Unused s
  | .deleteConversation convId =>
    s.ui.conversationId = some convId → Unused s
  | _ => True

instance LatestAccepted.decidable (s : State) (c : Call) :
    Decidable (LatestAccepted s c) :=
  inferInstanceAs (Decidable (∃ gen ∈ c.gen?, _))

instance Unused.decidable (s : State) : Decidable (Unused s) :=
  inferInstanceAs (Decidable (∀ c ∈ s.calls, _))

instance Steady.decidable (s : State) (a : Act) : Decidable (Steady s a) :=
  match a with
  | .reject i _ | .rejectStarted i _ =>
    inferInstanceAs (Decidable (∀ c ∈ s.calls[i]?, _))
  | .deliver i =>
    inferInstanceAs (Decidable (∀ c ∈ s.calls[i]?, _))
  | .clearFails _ => inferInstanceAs (Decidable (Unused s))
  | .deleteConversation convId =>
    inferInstanceAs (Decidable (s.ui.conversationId = some convId → _))
  | .sendMessage _ | .cancelRequest | .startNewChat | .loadConversation _
  | .autosave _ | .find _ | .accept _ | .emit _ _ | .respond _
  | .callFails _ | .clearServed _ | .clearAnswered _ | .closeServed =>
    isTrue trivial

-- ======== one step

/-- The books of a state behind a step are those of the two counters. -/
theorem book_moves {s s' : State} {a : Act} {shown : Nat}
    (hshown : s.ui.sessionId = some shown) (hok : Steady s a)
    (h : Moves s a s') : ∃ shown', s'.ui.sessionId = some shown'
      ∧ Book.Moves (s.book shown) (s'.book shown') := by
  -- Steps that the books do not see.
  have hsame : ∀ t : State, t.ui.sessionId = some shown →
      t.book shown = s.book shown → ∃ shown', t.ui.sessionId = some shown'
        ∧ Book.Moves (s.book shown) (t.book shown') := by
    intro t ht heq
    exact ⟨shown, ht, heq ▸ .same⟩
  cases h with
  | quiet hsession hgen _ _ _ =>
    refine hsame _ (hsession.trans hshown) ?_
    simp [State.book, hgen]
  | sent hsession _ =>
    cases hshown.symm.trans hsession
    refine ⟨shown, hshown, ?_⟩
    have hmove := Book.Moves.sent (b := s.book shown)
    simpa [State.book, Ui.send, Call.entry, Call.verdict] using hmove
  | cancelled _ =>
    have hui : s.ui.cancel.sessionId = s.ui.sessionId
        ∧ s.ui.cancel.generationRef = s.ui.generationRef := by
      unfold Ui.cancel
      split <;> exact ⟨rfl, rfl⟩
    refine hsame _ (hui.1.trans hshown) ?_
    simp [State.book, hui.2, entry_cancelAll]
  | asked hsession hgen _ _ _ =>
    refine ⟨shown, hsession.trans hshown, ?_⟩
    have hmove := Book.Moves.asked (b := s.book shown)
    simpa [State.book, hgen, Clear.promise] using hmove
  | deleted hconv =>
    refine ⟨shown, hshown, ?_⟩
    have hunused := hok hconv
    refine Book.Moves.stayed (b := s.book shown) ?_ fun _ _ h => h
    intro e he hother
    obtain ⟨c, hc, rfl⟩ := List.mem_map.mp he
    exact hunused c hc (hshown.trans (congrArg some hother.symm))
  | @found i c hc hphase =>
    refine hsame _ hshown ?_
    have hentry := entry_set hc { c with phase := .found } (by
      simp [Call.entry, Call.verdict, hphase])
    simp only [State.book, State.setCall, hentry]
  | @rejected i c error hc hwaiting =>
    refine ⟨shown, hshown, ?_⟩
    have hother : c.session ≠ shown := fun heq =>
      hok c hc (hshown.trans (congrArg some heq.symm))
    have hmove := Book.Moves.rejected (b := s.book shown)
      (entry_getElem? hc shown) hother (.inl rfl)
    simpa [State.book, State.setCall, List.map_set, Call.entry,
      Call.verdict] using hmove
  | @accepted i c hc hphase =>
    refine ⟨shown, hshown, ?_⟩
    have hmove := Book.Moves.accepted (b := s.book shown)
      (entry_getElem? hc shown) (by simp [Call.entry, Call.verdict, hphase])
    rw [generation_book] at hmove
    simpa [State.book, State.setCall, State.advance, List.map_set,
      Call.entry, Call.verdict, generations_modify, entry_cancelAll]
      using hmove
  | @rejectedStarted i c error hc hphase =>
    refine ⟨shown, hshown, ?_⟩
    have hother : c.session ≠ shown := fun heq =>
      hok c hc (hshown.trans (congrArg some heq.symm))
    have hmove := Book.Moves.rejected (b := s.book shown)
      (entry_getElem? hc shown) hother (.inr rfl)
    simpa [State.book, State.setCall, State.advance, List.map_set,
      Call.entry, Call.verdict, generations_modify] using hmove
  | @emitted i c event gen hc _ _ =>
    refine hsame _ hshown ?_
    have hentry := entry_set hc { c with
      inFlight := c.inFlight
        ++ [{ event with sessionID := c.session, generation := gen }]
      ended := event.done } rfl
    simp only [State.book, State.setCall, hentry]
  | @delivered i c event rest hc _ =>
    obtain ⟨hsession, hgen⟩ := handler_counters event s.ui
    refine hsame _ (hsession.trans hshown) ?_
    have hentry := entry_set hc { c with inFlight := rest } rfl
    simp only [State.book, State.setCall, hentry, hgen]
  | @granted i c gen hc _ _ =>
    refine hsame _ hshown ?_
    have hentry := entry_set hc { c with answered := true } rfl
    simp only [State.book, State.setCall, hentry]
  | @refused i c hc _ _ =>
    refine hsame _ hshown ?_
    have hentry := entry_set hc { c with answered := true } rfl
    simp only [State.book, State.setCall, hentry]
  | @lost i c hc _ =>
    refine hsame _ hshown ?_
    have hentry := entry_set hc { c with answered := true } rfl
    simp only [State.book, State.setCall, hentry]
  | @served j k hk hphase =>
    obtain ⟨hui, hdisplay, hclears⟩ := unlist_rest s k.session
    refine ⟨shown, by rw [← hshown, ← hui], ?_⟩
    have hmove := Book.Moves.promises (b := s.book shown) (j := j)
    have hlen : (s.unlist k.session).sessions.length
        = s.sessions.length := by
      have := congrArg List.length (generations_unlist s k.session)
      simpa using this
    simpa [State.book, hui, hdisplay, hclears, generations_unlist,
      entries_unlist, List.map_set, Clear.promise, hlen] using hmove
  | @renewed j k newId hk hphase =>
    refine ⟨newId, rfl, ?_⟩
    have hpromise : (s.book shown).promised[j]? = some (some newId) := by
      show (s.clears.map Clear.promise)[j]? = _
      rw [List.getElem?_map, hk]
      simp [Clear.promise, hphase]
    have hmove := Book.Moves.renewed hpromise
    have hgen : (State.resetUi k.load s.ui).generationRef = 0 := by
      unfold State.resetUi
      cases k.load <;> rfl
    simpa [State.book, State.settle, State.replace, List.map_set,
      Clear.promise, hgen] using hmove
  | @stayed j k hk _ =>
    have hui : (State.resetUi k.load s.ui).sessionId = s.ui.sessionId
        ∧ (State.resetUi k.load s.ui).generationRef = 0 := by
      unfold State.resetUi
      cases k.load <;> exact ⟨rfl, rfl⟩
    refine ⟨shown, hui.1.trans hshown, ?_⟩
    have hunused : Unused s := hok
    have hfree : ∀ e ∈ (s.book shown).entries, e.session ≠ shown := by
      intro e he hother
      obtain ⟨c, hc, rfl⟩ := List.mem_map.mp he
      exact hunused c hc (hshown.trans (congrArg some hother.symm))
    have hback : ∀ m n : Nat,
        ((s.clears.map Clear.promise).set j none)[m]? = some (some n) →
        (s.book shown).promised[m]? = some (some n) := by
      intro m n h
      rcases Place.set_cases h with ⟨-, heq⟩ | ⟨-, h⟩
      · cases heq
      · exact h
    have hmove := Book.Moves.stayed hfree hback
    simpa [State.book, State.settle, State.replace, List.map_set,
      Clear.promise, hui.2] using hmove
  | @closed session rest _ =>
    obtain ⟨hui, hdisplay, hclears⟩ := unlist_rest s session
    refine hsame _ (by rw [← hshown, ← hui]) ?_
    simp [State.book, hui, hdisplay, hclears, generations_unlist,
      entries_unlist]

-- ======== the tags

/-- What a call's events carry. -/
structure Call.Tagged (c : Call) : Prop where
  silent : c.waiting = true → c.inFlight = []
  session : ∀ event ∈ c.inFlight, event.sessionID = c.session
  generation : ∀ event ∈ c.inFlight, ∀ gen, c.phase = .accepted gen →
    event.generation = gen

def Tagged (s : State) : Prop := ∀ c ∈ s.calls, c.Tagged

theorem Tagged.set {calls : List Call} (h : ∀ c ∈ calls, c.Tagged) {i : Nat}
    {c : Call} (hc : c.Tagged) : ∀ d ∈ calls.set i c, d.Tagged := by
  intro d hd
  rcases List.mem_or_eq_of_mem_set hd with hd | rfl
  · exact h d hd
  · exact hc

theorem Tagged.cancelAll {calls : List Call} (h : ∀ c ∈ calls, c.Tagged)
    (session : Nat) : ∀ c ∈ cancelAll session calls, c.Tagged := by
  intro d hd
  obtain ⟨c, hc, rfl⟩ := List.mem_map.mp hd
  obtain ⟨hsilent, hsession, hgen⟩ := h c hc
  split
  · exact ⟨hsilent, hsession, hgen⟩
  · exact ⟨hsilent, hsession, hgen⟩

theorem Tagged.unlist {s : State} (h : Tagged s) (session : Nat) :
    Tagged (s.unlist session) := by
  unfold State.unlist
  split
  · exact Tagged.cancelAll h session
  · exact h

theorem Call.Tagged.of_eq {c c' : Call} (h : c.Tagged)
    (hsession : c'.session = c.session) (hin : c'.inFlight = c.inFlight)
    (hsilent : c'.waiting = true → c.waiting = true)
    (hphase : ∀ gen, c'.phase = .accepted gen →
      c.phase = .accepted gen ∨ c.waiting = true) : c'.Tagged where
  silent hw := by rw [hin]; exact h.silent (hsilent hw)
  session event he := by
    rw [hin] at he
    rw [hsession]
    exact h.session event he
  generation event he gen hgen := by
    rw [hin] at he
    rcases hphase gen hgen with hgen | hw
    · exact h.generation event he gen hgen
    · rw [h.silent hw] at he
      cases he

theorem Call.Tagged.rejected {c : Call} {event : AIResponseEvent}
    (hphase : c.phase = .rejected) (hin : c.inFlight = [event])
    (hsession : event.sessionID = c.session := by rfl) : c.Tagged where
  silent hw := by simp [Call.waiting, hphase] at hw
  session e he := by
    rw [hin] at he
    obtain rfl := List.mem_singleton.mp he
    exact hsession
  generation _ _ gen hgen := by
    rw [hphase] at hgen
    cases hgen

theorem tagged_step {s s' : State} {a : Act} (hi : Tagged s)
    (h : Moves s a s') : Tagged s' := by
  have hat : ∀ {i : Nat} {c : Call}, s.calls[i]? = some c → c.Tagged :=
    fun hc => hi _ (List.mem_of_getElem? hc)
  cases h with
  | quiet _ _ _ _ _ => exact hi
  | asked _ _ _ _ _ => exact hi
  | deleted _ => exact hi
  | sent _ _ =>
    intro c hc
    rcases List.mem_append.mp hc with hc | hc
    · exact hi c hc
    · obtain rfl := List.mem_singleton.mp hc
      exact ⟨fun _ => rfl, fun _ he => absurd he List.not_mem_nil,
        fun _ he => absurd he List.not_mem_nil⟩
  | cancelled _ => exact Tagged.cancelAll hi _
  | @found i c hc hphase =>
    apply Tagged.set hi
    refine (hat hc).of_eq rfl rfl (fun _ => ?_) fun gen hgen => ?_
    · simp [Call.waiting, hphase]
    · cases hgen
  | rejected hc _ => exact Tagged.set hi (Call.Tagged.rejected rfl rfl)
  | @accepted i c hc hphase =>
    apply Tagged.set (Tagged.cancelAll hi _)
    refine (hat hc).of_eq rfl rfl (fun hw => by cases hw) fun gen _ => ?_
    exact .inr (by simp [Call.waiting, hphase])
  | rejectedStarted hc _ =>
    exact Tagged.set hi (Call.Tagged.rejected rfl rfl)
  | @emitted i c event gen hc hphase _ =>
    apply Tagged.set hi
    refine ⟨fun hw => ?_, fun e he => ?_, fun e he gen' hgen' => ?_⟩
    · simp [Call.waiting, hphase] at hw
    · rcases List.mem_append.mp he with he | he
      · exact (hat hc).session e he
      · obtain rfl := List.mem_singleton.mp he
        rfl
    · have heq : gen = gen' := by
        have hboth : Phase.accepted gen = .accepted gen' :=
          hphase.symm.trans hgen'
        exact Phase.accepted.inj hboth
      rcases List.mem_append.mp he with he | he
      · exact (hat hc).generation e he gen' (heq ▸ hphase)
      · obtain rfl := List.mem_singleton.mp he
        exact heq
  | @delivered i c event rest hc hnext =>
    apply Tagged.set hi
    have htail : ∀ e ∈ rest, e ∈ c.inFlight := fun e he => by
      rw [hnext]
      exact List.mem_cons_of_mem _ he
    refine ⟨fun hw => ?_, fun e he => (hat hc).session e (htail e he),
      fun e he => (hat hc).generation e (htail e he)⟩
    have hnone := (hat hc).silent hw
    rw [hnext] at hnone
    cases hnone
  | granted hc _ _ =>
    exact Tagged.set hi ((hat hc).of_eq rfl rfl id fun _ h => .inl h)
  | refused hc _ _ =>
    exact Tagged.set hi ((hat hc).of_eq rfl rfl id fun _ h => .inl h)
  | lost hc _ =>
    exact Tagged.set hi ((hat hc).of_eq rfl rfl id fun _ h => .inl h)
  | served _ _ => exact Tagged.unlist hi _
  | renewed _ _ => exact hi
  | stayed _ _ => exact hi
  | closed _ => exact Tagged.unlist hi _

-- ======== the runs

structure Agreed (s : State) : Prop where
  books : ∃ shown, s.ui.sessionId = some shown ∧ (s.book shown).Sound
  tagged : Tagged s

theorem agreed_start (history : List Conversation) :
    Agreed (start history) where
  books := by
    refine ⟨0, rfl, ?_⟩
    refine
      { shown := Nat.zero_lt_one, known := ?_, past := ?_, page := ?_
        count := rfl, bound := ?_, top := ?_, taken := ?_, fresh := ?_
        once := ?_ }
    · intro i e he
      simp [State.book, start] at he
    · intro i e he
      simp [State.book, start] at he
    · intro i e he
      simp [State.book, start] at he
    · intro i e gen he
      simp [State.book, start] at he
    · intro hpos
      exact absurd hpos (Nat.lt_irrefl 0)
    · intro i e he
      simp [State.book, start] at he
    · intro j n hn
      simp [State.book, start] at hn
    · intro i j n hn
      simp [State.book, start] at hn
  tagged c hc := absurd hc List.not_mem_nil

theorem agreed_step {a : Act} {s s' : State} {out : List Empty}
    (hi : Agreed s) (hok : Steady s a) (hstep : step a s = some (s', out)) :
    Agreed s' := by
  obtain ⟨⟨shown, hshown, hsound⟩, htagged⟩ := hi
  have hmoves := moves_of_step hshown hstep
  obtain ⟨shown', hshown', hbook⟩ := book_moves hshown hok hmoves
  exact ⟨⟨shown', hshown', Book.sound_step hsound hbook⟩,
    tagged_step htagged hmoves⟩

theorem drops_iff {s : State} {c : Call} {event : AIResponseEvent}
    {shown gen : Nat} (hshown : s.ui.sessionId = some shown)
    (hsession : event.sessionID = c.session) (hgen : event.generation = gen)
    (hpos : 0 < gen) : s.ui.drops event = false
      ↔ c.session = shown ∧ s.ui.generationRef ≤ gen := by
  unfold Ui.drops
  rw [hshown, hsession, hgen]
  have hne : gen ≠ 0 := Nat.ne_of_gt hpos
  simp [hne]

theorem latestAccepted_iff {s : State} {c : Call} {gen shown : Nat}
    (hphase : c.phase = .accepted gen) :
    LatestAccepted s c ↔ (s.book shown).Latest gen c.entry.page := by
  unfold LatestAccepted Book.Latest
  have hgen : c.gen? = some gen := by simp [Call.gen?, hphase]
  constructor
  · rintro ⟨g, hg, hdisplay, hall⟩
    rw [hgen] at hg
    cases hg
    refine ⟨hdisplay, fun {i e gen'} he hpage hv => ?_⟩
    obtain ⟨d, hd, rfl⟩ := List.mem_map.mp (List.mem_of_getElem? he)
    exact hall d hd hpage gen' (d.mem_gen?_iff.mpr hv)
  · rintro ⟨hdisplay, hall⟩
    refine ⟨gen, hgen, hdisplay, fun d hd hpage gen' hgen' => ?_⟩
    obtain ⟨i, hi⟩ := List.mem_iff_getElem?.mp hd
    exact hall (entry_getElem? hi shown) hpage (d.mem_gen?_iff.mp hgen')

/-- A call that is made, found and accepted, and whose request emits one
chunk. -/
def asks (i : Nat) (text : Text) : List Act :=
  [.sendMessage text, .find i, .accept i,
    .emit i { sessionID := 0, chunk := [104] }]

/-- The provider is not available for the first message, and is for the
second. -/
def refusedOnce : List Act :=
  [.sendMessage [104], .reject 0 [110], .deliver 0, .respond 0]
    ++ asks 1 [104]

end Chat
