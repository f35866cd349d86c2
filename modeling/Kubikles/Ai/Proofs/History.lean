/-
What a session remembers of its requests in one-shot mode, whatever the
provider.

# The argument

What matters of the frames there are is which requests are in progress,
and of which of them the frontend has seen a done event (`marks`). The
invariant (`Inv`) says of a request that was seen done that it is either
still in progress, with its mark saying so, or gone; and what is gone does
not append a turn any more. A snapshot that is taken while no request of
its session is marked as done finds the turns of all that were seen done,
and they stay what it has found.
-/
import Kubikles.Ai.Anthropic

namespace Ai

open Goroutine (Act Sys Effect Guarded)

variable {P A G O : Type*} {provider : Provider P A G O}
variable {w w' : World G} {sid h : Nat}

-- ======== the property

/-- The turns of a session that were appended, by their generations. -/
def turnsOf (sessionID : Nat) (out : List (Out O)) :
    List (Nat × List Message) :=
  out.filterMap fun
    | .turn sid gen turn =>
      if sid = sessionID then some (gen, turn) else none
    | _ => none

/-- No session has lost a turn. -/
structure HistoryKept (w : World G) (out : List (Out O)) : Prop where
  /-- The messages of a session are its turns. -/
  messages : ∀ sid session, w.sessions.lookup sid = some session →
    session.messages = (turnsOf sid out).flatMap Prod.snd
  /-- They are turns of distinct generations, in their order. -/
  ordered : ∀ sid session, w.sessions.lookup sid = some session →
    ((turnsOf sid out).map Prod.fst).Pairwise (· < ·)
  /-- A request behind the done event of a generation knows its turn. -/
  known : out.Pairwise fun before after =>
    ∀ event sid gen history, before = .emit event → event.done = true →
      after = .requested sid gen history → event.sessionID = sid →
        ∀ turn, .turn sid event.generation turn ∈ out → turn <:+: history

/-- A snapshot is taken while no request of the session stands between its
done event and its end, and a turn is appended while there is none of a
later generation. -/
def KeepsOrder (w : World G) (pending : List (Frame P)) :
    Frame P → Env A → Prop
  | .snapshot call, _ => ∀ f ∈ pending, f.answered = true →
      f.tag.map Prod.fst ≠ some call.sessionID
  | .append call gen _, _ => ∀ turn ∈ w.turns,
      turn.1 = call.sessionID → turn.2 < gen
  | _, _ => True

instance KeepsOrder.decidable : ∀ w pending f env,
    Decidable (KeepsOrder (G := G) (P := P) (A := A) w pending f env)
  | _, pending, .snapshot _, _ =>
    inferInstanceAs (Decidable (∀ f ∈ pending, _))
  | w, _, .append _ _ _, _ =>
    inferInstanceAs (Decidable (∀ turn ∈ w.turns, _))
  | _, _, .startSession _, _
  | _, _, .sendMessage _, _
  | _, _, .provide _ _ _ _, _
  | _, _, .cancelRequest _, _ => isTrue trivial

-- ======== the turns

@[simp] theorem turnsOf_append (sid : Nat) (out new : List (Out O)) :
    turnsOf sid (out ++ new) = turnsOf sid out ++ turnsOf sid new :=
  List.filterMap_append

theorem mem_turnsOf {gen : Nat} {turn : List Message}
    {out : List (Out O)} :
    (gen, turn) ∈ turnsOf sid out ↔ .turn sid gen turn ∈ out := by
  unfold turnsOf
  rw [List.mem_filterMap]
  constructor
  · rintro ⟨o, ho, hsome⟩
    cases o with
    | turn sid' gen' turn' =>
      simp only at hsome
      split at hsome
      next heq =>
        cases hsome
        exact heq ▸ ho
      next => cases hsome
    | _ => cases hsome
  · intro hmem
    exact ⟨_, hmem, if_pos rfl⟩

theorem turnsOf_eq_nil {new : List (Out O)}
    (hno : ∀ gen turn, .turn sid gen turn ∉ new) :
    turnsOf sid new = [] := by
  refine List.eq_nil_iff_forall_not_mem.mpr fun t ht => ?_
  exact hno t.1 t.2 (mem_turnsOf.mp ht)

-- ======== the marks

/-- A request in progress, and whether it was seen done. -/
abbrev Mark := (Nat × Nat) × Bool

def Frame.mark (f : Frame P) : Option Mark :=
  f.tag.map (·, f.answered)

def marks (fs : List (Frame P)) : List Mark := fs.filterMap Frame.mark

def Gone (ms : List Mark) (sid h : Nat) : Prop :=
  ∀ done, ((sid, h), done) ∉ ms

/-- A done event and a request behind it that knows the turn: the
generation of the event is gone and has its turns in the history. -/
def Settled (w : World G) (ms : List Mark) (out : List (Out O))
    (before after : Out O) : Prop :=
  ∀ event sid gen history, before = .emit event → event.done = true →
    after = .requested sid gen history → event.sessionID = sid →
      event.generation ≤ w.generation sid
        ∧ Gone ms sid event.generation
        ∧ ∀ turn, .turn sid event.generation turn ∈ out →
          turn <:+: history

/-- What holds between the sections. -/
structure Inv (w : World G) (ms : List Mark) (out : List (Out O)) :
    Prop where
  messages : ∀ sid session, w.sessions.lookup sid = some session →
    session.messages = (turnsOf sid out).flatMap Prod.snd
  absent : ∀ sid, w.sessions.lookup sid = none → turnsOf sid out = []
  ordered : ∀ sid, ((turnsOf sid out).map Prod.fst).Pairwise (· < ·)
  logged : ∀ sid h turn, .turn sid h turn ∈ out → (sid, h) ∈ w.turns
  started : ∀ m ∈ ms, 1 ≤ m.1.2 ∧ m.1.2 ≤ w.generation m.1.1
  single : (ms.map Prod.fst).Nodup
  /-- A generation that was seen done is in progress or gone. -/
  seen : ∀ event, .emit event ∈ out → event.done = true →
    event.generation ≤ w.generation event.sessionID
      ∧ (((event.sessionID, event.generation), true) ∈ ms
        ∨ Gone ms event.sessionID event.generation)
  known : out.Pairwise (Settled w ms out)

theorem marks_append (fs fs' : List (Frame P)) :
    marks (fs ++ fs') = marks fs ++ marks fs' :=
  List.filterMap_append

theorem Inv.perm {ms ms' : List Mark} {out : List (Out O)}
    (hperm : ms.Perm ms') (hi : Inv w ms out) : Inv w ms' out := by
  have hgone : ∀ {sid h}, Gone ms sid h → Gone ms' sid h :=
    fun hg done hmem => hg done (hperm.mem_iff.mpr hmem)
  refine ⟨hi.messages, hi.absent, hi.ordered, hi.logged,
    fun m hm => hi.started m (hperm.mem_iff.mpr hm),
    (hperm.map Prod.fst).nodup_iff.mp hi.single,
    fun event hevent hdone => ?_, ?_⟩
  · obtain ⟨hle, hor⟩ := hi.seen event hevent hdone
    exact ⟨hle, hor.imp hperm.mem_iff.mp hgone⟩
  · refine hi.known.imp fun hs event sid gen history hb hd ha heq => ?_
    obtain ⟨hle, hg, hinfix⟩ := hs event sid gen history hb hd ha heq
    exact ⟨hle, hgone hg, hinfix⟩

/-- What is settled stays so where nothing is requested, no generation
comes back and only those in progress append turns. -/
theorem Inv.known_append {ms ms' : List Mark} {out new : List (Out O)}
    (hi : Inv w ms out)
    (hgen : ∀ sid, w.generation sid ≤ w'.generation sid)
    (hgone : ∀ sid h, h ≤ w.generation sid → Gone ms sid h →
      Gone ms' sid h)
    (hturn : ∀ sid h turn, .turn sid h turn ∈ new → ¬ Gone ms sid h)
    (hreq : ∀ sid gen history, .requested sid gen history ∉ new) :
    (out ++ new).Pairwise (Settled w' ms' (out ++ new)) := by
  refine List.pairwise_append.mpr ⟨?_, ?_, ?_⟩
  · refine hi.known.imp fun hs event sid gen history hb hd ha heq => ?_
    obtain ⟨hle, hg, hinfix⟩ := hs event sid gen history hb hd ha heq
    refine ⟨hle.trans (hgen sid), hgone sid _ hle hg, fun turn hmem => ?_⟩
    rcases List.mem_append.mp hmem with hmem | hmem
    · exact hinfix turn hmem
    · exact absurd hg (hturn _ _ _ hmem)
  · refine List.pairwise_of_forall_mem_list fun before _ after hafter => ?_
    rintro event sid gen history - - rfl -
    exact absurd hafter (hreq sid gen history)
  · rintro before - after hafter event sid gen history - - rfl -
    exact absurd hafter (hreq sid gen history)

-- ======== the steps

theorem generation_insert_new {id : Nat}
    (hid : w.sessions.lookup id = none) (sid : Nat) :
    World.generation { w with sessions := w.sessions.insert id {} } sid
      = w.generation sid := by
  unfold World.generation
  rw [FinMap.lookup_insert]
  split
  next heq =>
    rw [heq, hid]
    rfl
  next => rfl

/-- The messages are the turns still, where there are no new turns and no
messages. -/
theorem Inv.start {ms : List Mark} {out : List (Out O)} {id : Nat}
    (hi : Inv w ms out) (hid : w.sessions.lookup id = none) :
    Inv { w with sessions := w.sessions.insert id {} } ms out := by
  refine ⟨fun sid session hs => ?_, fun sid hs => ?_, hi.ordered, hi.logged,
    fun m hm => ?_, hi.single, fun event he hd => ?_, ?_⟩
  · rw [FinMap.lookup_insert] at hs
    split at hs
    next heq =>
      cases hs
      rw [heq, hi.absent id hid]
      rfl
    next => exact hi.messages sid session hs
  · rw [FinMap.lookup_insert] at hs
    split at hs
    · cases hs
    · exact hi.absent sid hs
  · rw [generation_insert_new hid]
    exact hi.started m hm
  · rw [generation_insert_new hid]
    exact hi.seen event he hd
  · refine hi.known.imp fun hset event sid gen history hb hd ha heq => ?_
    rw [generation_insert_new hid]
    exact hset event sid gen history hb hd ha heq

theorem Inv.refuse {ms : List Mark} {out : List (Out O)}
    {event : AIResponseEvent} (hi : Inv w ms out)
    (hzero : event.generation = 0) : Inv w ms (out ++ [.emit event]) := by
  have hno : ∀ sid, turnsOf sid [Out.emit (O := O) event] = [] :=
    fun sid => rfl
  refine ⟨fun sid session hs => ?_, fun sid hs => ?_, fun sid => ?_,
    fun sid h turn hmem => ?_, hi.started, hi.single,
    fun event' he hd => ?_, ?_⟩
  · rw [turnsOf_append, hno, List.append_nil]
    exact hi.messages sid session hs
  · rw [turnsOf_append, hno, List.append_nil]
    exact hi.absent sid hs
  · rw [turnsOf_append, hno, List.append_nil]
    exact hi.ordered sid
  · rcases List.mem_append.mp hmem with hmem | hmem
    · exact hi.logged sid h turn hmem
    · cases List.mem_singleton.mp hmem
  · rcases List.mem_append.mp he with he | he
    · exact hi.seen event' he hd
    · obtain rfl := Out.emit.inj (List.mem_singleton.mp he)
      rw [hzero]
      refine ⟨Nat.zero_le _, Or.inr fun done hmem => ?_⟩
      exact absurd (hi.started _ hmem).1 (Nat.not_succ_le_zero 0)
  · refine hi.known_append (fun _ => le_rfl) (fun _ _ _ hg => hg)
      (fun sid h turn hmem => ?_) (fun sid gen history hmem => ?_)
    · cases List.mem_singleton.mp hmem
    · cases List.mem_singleton.mp hmem

/-- A request goes on, or ends without a turn. -/
theorem Inv.provide {ms ms' : List Mark} {out new : List (Out O)}
    {gen : Nat} {b : Bool} (hi : Inv w (((sid, gen), b) :: ms) out)
    (hsessions : w'.sessions = w.sessions) (hturns : w'.turns = w.turns)
    (hms : ms' = ms ∨ ∃ b', ms' = ((sid, gen), b') :: ms
      ∧ (b = true → b' = true))
    (hnew : ∀ o ∈ new, (∃ call o', o = .provider call o')
      ∨ ∃ event, o = .emit event ∧ event.sessionID = sid
        ∧ event.generation = gen
        ∧ (event.done = true → ms' = ms ∨ ((sid, gen), true) ∈ ms')) :
    Inv w' ms' (out ++ new) := by
  have hgenOf : ∀ sid, w'.generation sid = w.generation sid := fun sid => by
    unfold World.generation
    rw [hsessions]
  have hnoTurn : ∀ sid h turn, .turn sid h turn ∉ new := by
    intro sid h turn hmem
    rcases hnew _ hmem with ⟨_, _, heq⟩ | ⟨_, heq, -⟩ <;> cases heq
  have hno : ∀ sid, turnsOf sid new = [] := fun sid =>
    turnsOf_eq_nil (hnoTurn sid)
  have hfresh : ∀ done, ((sid, gen), done) ∉ ms := fun done hmem =>
    (List.nodup_cons.mp hi.single).1 (List.mem_map.mpr ⟨_, hmem, rfl⟩)
  -- a mark stays, or its request has ended
  have hmarks : ∀ m, m ∈ ms' → m ∈ ms ∨ ∃ b', m = ((sid, gen), b') := by
    intro m hm
    rcases hms with rfl | ⟨b', rfl, -⟩
    · exact Or.inl hm
    · rcases List.mem_cons.mp hm with rfl | hm
      · exact Or.inr ⟨b', rfl⟩
      · exact Or.inl hm
  have hgone : ∀ sid' h, Gone (((sid, gen), b) :: ms) sid' h →
      Gone ms' sid' h := by
    intro sid' h hg done hmem
    rcases hmarks _ hmem with hmem | ⟨b', heq⟩
    · exact hg done (List.mem_cons_of_mem _ hmem)
    · obtain ⟨heq, -⟩ := Prod.mk.inj heq
      exact hg b (heq ▸ List.mem_cons_self ..)
  refine ⟨fun sid session hs => ?_, fun sid hs => ?_, fun sid => ?_,
    fun sid h turn hmem => ?_, fun m hm => ?_, ?_, fun event he hd => ?_, ?_⟩
  · rw [turnsOf_append, hno, List.append_nil]
    exact hi.messages sid session (hsessions ▸ hs)
  · rw [turnsOf_append, hno, List.append_nil]
    exact hi.absent sid (hsessions ▸ hs)
  · rw [turnsOf_append, hno, List.append_nil]
    exact hi.ordered sid
  · rw [hturns]
    rcases List.mem_append.mp hmem with hmem | hmem
    · exact hi.logged sid h turn hmem
    · exact absurd hmem (hnoTurn sid h turn)
  · rw [hgenOf]
    rcases hmarks m hm with hm | ⟨b', rfl⟩
    · exact hi.started m (List.mem_cons_of_mem _ hm)
    · exact hi.started ((sid, gen), b) (List.mem_cons_self ..)
  · rcases hms with rfl | ⟨b', rfl, -⟩
    · exact (List.nodup_cons.mp hi.single).2
    · exact hi.single
  · rw [hgenOf]
    rcases List.mem_append.mp he with he | he
    · obtain ⟨hle, hor⟩ := hi.seen event he hd
      refine ⟨hle, ?_⟩
      rcases hor with hmem | hg
      · rcases List.mem_cons.mp hmem with heq | hmem
        · obtain ⟨htag, rfl⟩ := Prod.mk.inj heq
          obtain ⟨hsid, hgen⟩ := Prod.mk.inj htag
          rw [hsid, hgen]
          rcases hms with rfl | ⟨b', rfl, hb⟩
          · exact Or.inr hfresh
          · exact Or.inl (hb rfl ▸ List.mem_cons_self ..)
        · refine Or.inl ?_
          rcases hms with rfl | ⟨b', rfl, -⟩
          · exact hmem
          · exact List.mem_cons_of_mem _ hmem
      · exact Or.inr (hgone _ _ hg)
    · rcases hnew _ he with ⟨_, _, heq⟩ | ⟨event', heq, rfl, rfl, hdone⟩
      · cases heq
      · obtain rfl := Out.emit.inj heq
        refine ⟨(hi.started _ (List.mem_cons_self ..)).2, ?_⟩
        rcases hdone hd with rfl | hmem
        · exact Or.inr hfresh
        · exact Or.inl hmem
  · refine hi.known_append (fun sid => (hgenOf sid).ge)
      (fun sid' h _ hg => hgone sid' h hg)
      (fun sid h turn hmem => absurd hmem (hnoTurn sid h turn))
      (fun sid gen history hmem => ?_)
    rcases hnew _ hmem with ⟨_, _, heq⟩ | ⟨_, heq, -⟩ <;> cases heq

/-- A snapshot opens the next generation of its session. -/
theorem Inv.snapshot {ms : List Mark} {out : List (Out O)}
    {session : Session} (hi : Inv w ms out)
    (hs : w.sessions.lookup sid = some session)
    (hok : ∀ m ∈ ms, m.2 = true → m.1.1 ≠ sid) :
    Inv { w with
        sessions := w.sessions.insert sid
          { session with generation := session.generation + 1 } }
      (((sid, session.generation + 1), false) :: ms)
      (out ++ [.requested sid (session.generation + 1)
        session.messages]) := by
  have hold : w.generation sid = session.generation := by
    unfold World.generation
    rw [hs]
    rfl
  have hnew : World.generation { w with
      sessions := w.sessions.insert sid
        { session with generation := session.generation + 1 } } sid
        = session.generation + 1 := by
    unfold World.generation
    rw [FinMap.lookup_insert, if_pos rfl]
    rfl
  have hother : ∀ sid', sid' ≠ sid → World.generation { w with
      sessions := w.sessions.insert sid
        { session with generation := session.generation + 1 } } sid'
        = w.generation sid' := by
    intro sid' hne
    unfold World.generation
    rw [FinMap.lookup_insert, if_neg hne]
  have hmono : ∀ sid', w.generation sid' ≤ World.generation { w with
      sessions := w.sessions.insert sid
        { session with generation := session.generation + 1 } } sid' := by
    intro sid'
    by_cases heq : sid' = sid
    · rw [heq, hnew, hold]
      exact Nat.le_succ _
    · rw [hother sid' heq]
  have hgone : ∀ sid' h, h ≤ w.generation sid' → Gone ms sid' h →
      Gone (((sid, session.generation + 1), false) :: ms) sid' h := by
    intro sid' h hle hg done hmem
    rcases List.mem_cons.mp hmem with heq | hmem
    · obtain ⟨htag, -⟩ := Prod.mk.inj heq
      obtain ⟨rfl, rfl⟩ := Prod.mk.inj htag
      rw [hold] at hle
      exact absurd hle (Nat.not_succ_le_self _)
    · exact hg done hmem
  have hno : ∀ sid', turnsOf sid' [Out.requested (O := O) sid
      (session.generation + 1) session.messages] = [] := fun sid' => rfl
  have hkeep : ∀ sid' h turn, .turn sid' h turn ∈ out
      ++ [Out.requested (O := O) sid (session.generation + 1)
        session.messages] → .turn sid' h turn ∈ out := by
    intro sid' h turn hmem
    rcases List.mem_append.mp hmem with hmem | hmem
    · exact hmem
    · cases List.mem_singleton.mp hmem
  refine ⟨fun sid' session' hs' => ?_, fun sid' hs' => ?_, fun sid' => ?_,
    fun sid' h turn hmem => hi.logged sid' h turn (hkeep sid' h turn hmem),
    fun m hm => ?_, ?_, fun event he hd => ?_, ?_⟩
  · rw [turnsOf_append, hno, List.append_nil]
    rw [FinMap.lookup_insert] at hs'
    split at hs'
    next heq =>
      cases hs'
      exact heq ▸ hi.messages sid session hs
    next => exact hi.messages sid' session' hs'
  · rw [turnsOf_append, hno, List.append_nil]
    rw [FinMap.lookup_insert] at hs'
    split at hs'
    · cases hs'
    · exact hi.absent sid' hs'
  · rw [turnsOf_append, hno, List.append_nil]
    exact hi.ordered sid'
  · rcases List.mem_cons.mp hm with rfl | hm
    · exact ⟨Nat.succ_pos _, hnew.ge⟩
    · exact ⟨(hi.started m hm).1, (hi.started m hm).2.trans (hmono _)⟩
  · refine List.nodup_cons.mpr ⟨fun hmem => ?_, hi.single⟩
    obtain ⟨m, hm, htag⟩ := List.mem_map.mp hmem
    have hle := (hi.started m hm).2
    rw [htag, hold] at hle
    exact absurd hle (Nat.not_succ_le_self _)
  · rcases List.mem_append.mp he with he | he
    · obtain ⟨hle, hor⟩ := hi.seen event he hd
      exact ⟨hle.trans (hmono _), hor.imp (List.mem_cons_of_mem _)
        (hgone _ _ hle)⟩
    · cases List.mem_singleton.mp he
  · refine List.pairwise_append.mpr ⟨?_, List.pairwise_singleton _ _, ?_⟩
    · refine hi.known.imp
        fun hset event sid' gen history hb hd ha heq => ?_
      obtain ⟨hle, hg, hinfix⟩ := hset event sid' gen history hb hd ha heq
      exact ⟨hle.trans (hmono sid'), hgone sid' _ hle hg,
        fun turn hmem => hinfix turn (hkeep _ _ _ hmem)⟩
    · rintro before hbefore after hafter event sid' gen history rfl hd rfl
        rfl
      -- what was seen done is gone, and what is gone is in the messages
      obtain ⟨rfl, rfl, rfl⟩ :=
        Out.requested.inj (List.mem_singleton.mp hafter)
      obtain ⟨hle, hor⟩ := hi.seen event hbefore hd
      have hg : Gone ms event.sessionID event.generation := by
        rcases hor with hmem | hg
        · exact absurd rfl (hok _ hmem rfl)
        · exact hg
      refine ⟨hle.trans (hmono _), hgone _ _ hle hg, fun turn hmem => ?_⟩
      have hturn := mem_turnsOf.mpr (hkeep _ _ _ hmem)
      rw [hi.messages _ session hs, List.flatMap_def]
      exact List.infix_of_mem_flatten (List.mem_map.mpr ⟨_, hturn, rfl⟩)

/-- A turn is appended, and its request has ended. -/
theorem Inv.append {ms : List Mark} {out : List (Out O)}
    {session : Session} {gen : Nat} {b : Bool} {turn : List Message}
    (hi : Inv w (((sid, gen), b) :: ms) out)
    (hs : w.sessions.lookup sid = some session)
    (hok : ∀ t ∈ w.turns, t.1 = sid → t.2 < gen) :
    Inv { w with
        sessions := w.sessions.insert sid
          { session with
            hasHistory := true
            messages := session.messages ++ turn }
        turns := w.turns ++ [(sid, gen)] }
      ms (out ++ [.turn sid gen turn]) := by
  have hgenOf : ∀ sid', World.generation { w with
      sessions := w.sessions.insert sid
        { session with
          hasHistory := true
          messages := session.messages ++ turn }
      turns := w.turns ++ [(sid, gen)] } sid' = w.generation sid' := by
    intro sid'
    unfold World.generation
    rw [FinMap.lookup_insert]
    split
    next heq =>
      rw [heq, hs]
      rfl
    next => rfl
  have hown : turnsOf sid [Out.turn (O := O) sid gen turn]
      = [(gen, turn)] := by
    simp [turnsOf]
  have hno : ∀ sid', sid' ≠ sid →
      turnsOf sid' [Out.turn (O := O) sid gen turn] = [] := by
    intro sid' hne
    simp [turnsOf, hne.symm]
  have hfresh : Gone ms sid gen := fun done hmem =>
    (List.nodup_cons.mp hi.single).1 (List.mem_map.mpr ⟨_, hmem, rfl⟩)
  have hgone : ∀ sid' h, Gone (((sid, gen), b) :: ms) sid' h →
      Gone ms sid' h :=
    fun sid' h hg done hmem => hg done (List.mem_cons_of_mem _ hmem)
  refine ⟨fun sid' session' hs' => ?_, fun sid' hs' => ?_, fun sid' => ?_,
    fun sid' h turn' hmem => ?_, fun m hm => ?_,
    (List.nodup_cons.mp hi.single).2, fun event he hd => ?_, ?_⟩
  · rw [FinMap.lookup_insert] at hs'
    split at hs'
    next heq =>
      cases hs'
      rw [heq, turnsOf_append, hown, List.flatMap_append,
        ← hi.messages sid session hs]
      simp
    next hne =>
      rw [turnsOf_append, hno sid' hne, List.append_nil]
      exact hi.messages sid' session' hs'
  · rw [FinMap.lookup_insert] at hs'
    split at hs'
    · cases hs'
    next hne =>
      rw [turnsOf_append, hno sid' hne, List.append_nil]
      exact hi.absent sid' hs'
  · by_cases heq : sid' = sid
    · rw [heq, turnsOf_append, hown, List.map_append]
      refine List.pairwise_append.mpr
        ⟨hi.ordered sid, List.pairwise_singleton _ _, ?_⟩
      rintro g hg _ hlast
      obtain rfl := List.mem_singleton.mp hlast
      obtain ⟨⟨g', t⟩, hmem, rfl⟩ := List.mem_map.mp hg
      exact hok _ (hi.logged sid g' t (mem_turnsOf.mp hmem)) rfl
    · rw [turnsOf_append, hno sid' heq, List.append_nil]
      exact hi.ordered sid'
  · rcases List.mem_append.mp hmem with hmem | hmem
    · exact List.mem_append_left _ (hi.logged sid' h turn' hmem)
    · obtain ⟨rfl, rfl, -⟩ := Out.turn.inj (List.mem_singleton.mp hmem)
      exact List.mem_append_right _ (List.mem_singleton_self _)
  · rw [hgenOf]
    exact hi.started m (List.mem_cons_of_mem _ hm)
  · rw [hgenOf]
    rcases List.mem_append.mp he with he | he
    · obtain ⟨hle, hor⟩ := hi.seen event he hd
      refine ⟨hle, ?_⟩
      rcases hor with hmem | hg
      · rcases List.mem_cons.mp hmem with heq | hmem
        · obtain ⟨htag, -⟩ := Prod.mk.inj heq
          obtain ⟨hsid, hgen⟩ := Prod.mk.inj htag
          rw [hsid, hgen]
          exact Or.inr hfresh
        · exact Or.inl hmem
      · exact Or.inr (hgone _ _ hg)
    · cases List.mem_singleton.mp he
  · refine hi.known_append (fun sid' => (hgenOf sid').ge)
      (fun sid' h _ hg => hgone sid' h hg)
      (fun sid' h turn' hmem hg => ?_) (fun sid' gen' history hmem => ?_)
    · obtain ⟨rfl, rfl, -⟩ := Out.turn.inj (List.mem_singleton.mp hmem)
      exact hg b (List.mem_cons_self ..)
    · cases List.mem_singleton.mp hmem

-- ======== the runs

theorem marks_framesOf (c : Call) :
    marks (framesOf c : List (Frame P)) = [] := by
  cases c <;> rfl

theorem marks_cons_some {f : Frame P} {m : Mark} (h : f.mark = some m)
    (fs : List (Frame P)) : marks (f :: fs) = m :: marks fs :=
  List.filterMap_cons_some h

theorem Inv.exec {fs others : List (Frame P)} {f : Frame P} {env : Env A}
    {out : List (Out O)} {effect}
    (hperm : fs.Perm (f :: others)) (hi : Inv w (marks (f :: others)) out)
    (hok : KeepsOrder w fs f env)
    (h : exec provider f env w = some effect) :
    Inv effect.world (marks (effect.frames ++ others))
      (out ++ effect.out) := by
  rw [marks_append]
  cases f with
  | startSession id =>
    cases env with
    | tick =>
      simp only [Ai.exec] at h
      split at h
      · cases h
      next hid =>
        obtain rfl := Option.some.inj h
        rw [List.append_nil]
        exact hi.start hid
    | _ => cases h
  | sendMessage call =>
    cases env with
    | context ready =>
      simp only [Ai.exec] at h
      split at h
      · obtain rfl := Option.some.inj h
        exact hi.refuse rfl
      · split at h
        · obtain rfl := Option.some.inj h
          rw [List.append_nil]
          exact hi
        · obtain rfl := Option.some.inj h
          exact hi.refuse rfl
    | _ => cases h
  | snapshot call =>
    obtain ⟨session, -, hsession, rfl⟩ := exec_snapshot_iff.mp h
    refine hi.snapshot hsession fun m hm hdone => ?_
    obtain ⟨f, hf, hmark⟩ := List.mem_filterMap.mp hm
    obtain ⟨tag, htag, rfl⟩ := Option.map_eq_some_iff.mp hmark
    intro heq
    refine hok f (hperm.mem_iff.mpr hf) hdone ?_
    rw [htag, ← heq]
    rfl
  | provide call gen events p =>
    obtain ⟨a, first, second, e, -, -, rfl⟩ := exec_provide_iff.mp h
    rw [marks_cons_some rfl] at hi
    have hworld := tools_provided call gen events first second w e
    refine hi.provide (by rw [hworld]) (by rw [hworld]) ?_ ?_
    · rcases frames_provided call gen events first second w e with
        hnil | ⟨f, hf, htag, hanswered⟩
      · rw [hnil]
        exact Or.inl rfl
      · refine Or.inr ⟨f.answered, ?_, fun hdone => ?_⟩
        · have hmark : f.mark
              = some ((call.sessionID, gen), f.answered) := by
            rw [Frame.mark, htag]
            rfl
          rw [hf, marks_cons_some hmark]
          rfl
        · rw [hanswered, List.any_append, Bool.or_eq_true]
          exact Or.inl hdone
    · intro o ho
      rcases out_provided ho with ⟨o', rfl⟩ | ⟨event, rfl, hid, hgen, hd⟩
      · exact Or.inl ⟨call, o', rfl⟩
      · refine Or.inr ⟨event, rfl, hid, hgen, fun hdone => ?_⟩
        rcases frames_provided call gen events first second w e with
          hnil | ⟨f, hf, htag, hanswered⟩
        · rw [hnil]
          exact Or.inl rfl
        · rcases hd hdone with hnil | hany
          · rw [hnil] at hf
            cases hf
          · refine Or.inr ?_
            have hmark : f.mark = some ((call.sessionID, gen), true) := by
              rw [Frame.mark, htag, hanswered, List.any_append, hany,
                Bool.or_true]
              rfl
            rw [hf, marks_cons_some hmark]
            exact List.mem_cons_self ..
  | append call gen events =>
    obtain ⟨session, -, hsession, rfl⟩ := exec_append_iff.mp h
    rw [marks_cons_some rfl] at hi
    exact hi.append hsession hok
  | cancelRequest id =>
    cases env with
    | tick =>
      obtain rfl := Option.some.inj h
      rw [List.append_nil]
      exact hi
    | _ => cases h

theorem Inv.init (tools : G) :
    Inv (O := O) (⟨∅, tools, []⟩ : World G) [] [] where
  messages _ _ h := by cases h
  absent _ _ := rfl
  ordered _ := List.Pairwise.nil
  logged _ _ _ h := absurd h List.not_mem_nil
  started _ h := absurd h List.not_mem_nil
  single := List.nodup_nil
  seen _ h := absurd h List.not_mem_nil
  known := List.Pairwise.nil

/-- In every run in which snapshots and turns keep to the order, no
session loses a turn. -/
theorem history_kept {tools : G} {acts : List (Act Call (Env A))}
    {s : Sys (World G) (Frame P)} {out : List (Nat × Out O)}
    (hrun : Machine.run (Goroutine.step (exec provider) framesOf)
      (initial tools) acts = some (s, out))
    (hok : Machine.Along (Goroutine.step (exec provider) framesOf)
      (Guarded (fun _ _ _ => True) KeepsOrder) (initial tools) acts) :
    HistoryKept s.world (out.map Prod.snd) := by
  have hi : Inv s.world (marks s.pending) (out.map Prod.snd) := by
    refine Goroutine.run_pending_history
      (J := fun w fs out => Inv w (marks fs) out) hrun hok
      (Inv.init tools) (fun hperm hi => hi.perm (hperm.filterMap _))
      (fun hi _ => ?_) Inv.exec
    rw [marks_append, marks_framesOf, List.append_nil]
    exact hi
  refine ⟨hi.messages, fun sid _ _ => hi.ordered sid, ?_⟩
  exact hi.known.imp fun hset event sid gen history hb hd ha heq =>
    (hset event sid gen history hb hd ha heq).2.2

/-- A session, and a request that is answered up to its done event. -/
def answeredRequest : List (Act Call (Env Anthropic.Answer)) :=
  [.call (.startSession 0), .run 0 .tick,
    .call (.sendMessage { sessionID := 0, message := [65] }),
    .run 1 (.context true), .run 1 .tick,
    .run 1 (.provider (.apiKey true) none none),
    .run 1 (.provider .tick none none),
    .run 1 (.provider (.ctx none) none none),
    .run 1 (.provider (.stream [[66]] (.message [.text [66]] {}))
      none none)]

def nextRequest : List (Act Call (Env Anthropic.Answer)) :=
  [.call (.sendMessage { sessionID := 0, message := [67] }),
    .run 2 (.context true), .run 2 .tick]

def turnAppended : List (Act Call (Env Anthropic.Answer)) :=
  [.run 1 .tick]

/-- Of a request behind the end of another. -/
theorem history_kept_inTurn :
    ∃ (s : Sys (World (List Text)) (Frame Anthropic.State)) (out : _),
      Machine.run (Goroutine.step (exec (Anthropic.provider defaultConfig
          true)) framesOf) (initial [])
          (answeredRequest ++ turnAppended ++ nextRequest) = some (s, out)
        ∧ (turnsOf 0 (out.map Prod.snd)).length = 1
        ∧ HistoryKept s.world (out.map Prod.snd) := by
  have hrun : ∃ (s : Sys (World (List Text)) (Frame Anthropic.State))
      (out : _),
      Machine.run (Goroutine.step (exec (Anthropic.provider defaultConfig
          true)) framesOf) (initial [])
          (answeredRequest ++ turnAppended ++ nextRequest) = some (s, out)
        ∧ (turnsOf 0 (out.map Prod.snd)).length = 1 := ⟨_, _, rfl, rfl⟩
  obtain ⟨s, out, hrun, hone⟩ := hrun
  exact ⟨s, out, hrun, hone, history_kept hrun (by decide)⟩

/-- A request between the done event of another and the end of it does not
know its turn. -/
theorem turn_lost :
    ¬ ∀ (cfg : Config) (client : Bool) (tools : List Text)
        (acts : List (Act Call (Env Anthropic.Answer)))
        (s : Sys (World (List Text)) (Frame Anthropic.State))
        (out : List (Nat × Out Anthropic.Out)),
      Machine.run (Goroutine.step (exec (Anthropic.provider cfg client))
          framesOf) (initial tools) acts = some (s, out) →
        HistoryKept s.world (out.map Prod.snd) := by
  intro h
  have hrun : ∃ (s : Sys (World (List Text)) (Frame Anthropic.State))
      (before after : List (Out Anthropic.Out)) (out : _) (event : _),
      Machine.run (Goroutine.step (exec (Anthropic.provider defaultConfig
          true)) framesOf) (initial [])
          (answeredRequest ++ nextRequest ++ turnAppended) = some (s, out)
        ∧ out.map Prod.snd = before ++ .requested 0 2 [] :: after
        ∧ .emit event ∈ before ∧ event.done = true
        ∧ event.sessionID = 0 ∧ event.generation = 1
        ∧ .turn 0 1 [⟨.user, [65]⟩, ⟨.assistant, [66]⟩] ∈ after :=
    ⟨_, [_, _, _, _], [_], _, _, rfl, rfl,
      .tail _ (.tail _ (.tail _ (.head _))), rfl, rfl, rfl, .head _⟩
  obtain ⟨s, before, after, out, event, hrun, hout, hevent, hdone, hsid,
    hgen, hturn⟩ := hrun
  have hkept := h _ _ _ _ s out hrun
  have hknown := hkept.known
  rw [hout] at hknown
  have hinfix := (List.pairwise_append.mp hknown).2.2 _ hevent _
    (List.mem_cons_self ..) event 0 2 [] rfl hdone rfl hsid
    [⟨.user, [65]⟩, ⟨.assistant, [66]⟩] (by
      rw [hgen]
      exact List.mem_append_right _ (List.mem_cons_of_mem _ hturn))
  exact absurd hinfix.length_le (by decide)

end Ai
