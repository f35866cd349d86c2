/-
How often an AI request in one-shot mode ends.

# The argument

The events of a finished request are those its provider has streamed, and
one that ends it if the provider did not succeed (`Own`). So a request ends
once where a provider that succeeds streams one done event, behind all
others, and one that fails streams none (`EndsOnce`).

The Anthropic provider does (`anthropic_endsOnce`). What the Codex provider
streams is what the lines say and what goes wrong behind them
(`streams_codex`); it does so too unless the process says that it is done
and is not (`codex_endsOnce_iff`).
-/
import Kubikles.Ai.Anthropic
import Kubikles.Ai.Codex
import Kubikles.Ai.Proofs.Requests

namespace Ai

open Goroutine (Act Sys answersOf outputOf)

variable {P A G O : Type*} {provider : Provider P A G O}
variable {req : Request} {events : List StreamEvent}

-- ======== the property

/-- Events end once: the last of them is done, and no other. -/
def OneEnd (events : List AIResponseEvent) : Prop :=
  ∃ before last, events = before ++ [last] ∧ last.done = true
    ∧ ∀ event ∈ before, event.done = false

namespace Codex

def Answer.completes : Answer → Bool
  | .line text => (lineEvent text).any (·.type = .done)
  | _ => false

/-- An answer is a line without an event, or the process reads and exits
without an error. -/
def Answer.silent : Answer → Bool
  | .line text => (lineEvent text).isNone
  | .eof err _ => err.isNone
  | .exit err _ => err.isNone
  | .failed _ => false
  | .started _ => true

/-- A process that does not complete its turn, or does so once and is
silent from there on. -/
def Ends (answers : List Answer) : Prop :=
  (∀ a ∈ answers, a.completes = false)
    ∨ ∃ before a after, answers = before ++ a :: after
      ∧ a.completes = true
      ∧ (∀ b ∈ before, b.completes = false)
      ∧ ∀ b ∈ after, b.silent = true

end Codex

def NoDone (events : List StreamEvent) : Prop :=
  ∀ event ∈ events, event.type ≠ .done

/-- A provider that has returned has streamed what ends its request
once. -/
def EndsOnce (events : List StreamEvent) : Provided P → Prop
  | .returned none => ∃ before last, events = before ++ [last]
      ∧ last.type = .done ∧ NoDone before
  | _ => NoDone events

-- ======== the goroutine

/-- The events a provider streams end once where it says done once, and
last. -/
theorem oneEnd_respond_iff (sid gen : Nat) :
    OneEnd (events.map (respond sid gen))
      ↔ EndsOnce events (.returned none : Provided P) := by
  constructor
  · rintro ⟨before, last, heq, hlast, hbefore⟩
    obtain ⟨before', rest, rfl, rfl, hrest⟩ :=
      List.map_eq_append_iff.mp heq
    obtain ⟨last', tail, rfl, rfl, htail⟩ := List.map_eq_cons_iff.mp hrest
    obtain rfl := List.map_eq_nil_iff.mp htail
    refine ⟨before', last', rfl, ?_, fun event hmem hdone => ?_⟩
    · rw [respond_done] at hlast
      exact of_decide_eq_true hlast
    · have hfalse := hbefore _ (List.mem_map_of_mem hmem)
      rw [respond_done, decide_eq_true hdone] at hfalse
      cases hfalse
  · rintro ⟨before, last, rfl, hlast, hbefore⟩
    refine ⟨before.map (respond sid gen), respond sid gen last,
      List.map_append, ?_, fun event hmem => ?_⟩
    · rw [respond_done]
      exact decide_eq_true hlast
    · obtain ⟨streamed, hstreamed, rfl⟩ := List.mem_map.mp hmem
      rw [respond_done]
      exact decide_eq_false (hbefore streamed hstreamed)

/-- With an event behind them that ends the request, where it says done
never. -/
theorem oneEnd_failed_iff (sid gen : Nat) {last : AIResponseEvent}
    (hlast : last.done = true) :
    OneEnd (events.map (respond sid gen) ++ [last]) ↔ NoDone events := by
  constructor
  · rintro ⟨before, last', heq, -, hbefore⟩ event hmem hdone
    obtain ⟨rfl, -⟩ := List.append_inj' heq rfl
    have hfalse := hbefore _ (List.mem_map_of_mem hmem)
    rw [respond_done, decide_eq_true hdone] at hfalse
    cases hfalse
  · intro h
    refine ⟨_, last, rfl, hlast, fun event hmem => ?_⟩
    obtain ⟨streamed, hstreamed, rfl⟩ := List.mem_map.mp hmem
    rw [respond_done]
    exact decide_eq_false (h streamed hstreamed)

/-- A request that has finished ends once where its provider has streamed
what ends it once. -/
theorem Own.oneEnd_iff {envs : List (Env A)} {os : List (Out O)}
    {sid gen : Nat} {history : List Message}
    (h : Own provider [] envs os) (hreq : .requested sid gen history ∈ os) :
    ∃ req events res,
      Streams provider req (providerAnswers envs) events res
        ∧ (∀ p, res ≠ .more p)
        ∧ (OneEnd (emitted os) ↔ EndsOnce events res) := by
  cases h with
  | refused _ hrefused =>
    obtain ⟨_, heq, -⟩ := hrefused _ hreq
    cases heq
  | appended hstream hemitted =>
    refine ⟨_, _, _, hstream, (fun p h => by cases h), ?_⟩
    rw [emitted_append, hemitted.events]
    rw [show emitted [Out.turn (O := O) _ _ _] = [] from rfl,
      List.append_nil]
    exact oneEnd_respond_iff _ _
  | @failed _ _ _ _ _ res last _ _ hstream hfailed hemitted hlast =>
    refine ⟨_, _, _, hstream, hfailed.2, ?_⟩
    rw [emitted_append, hemitted.events,
      show emitted [Out.emit (O := O) last] = [last] from rfl,
      oneEnd_failed_iff _ _ hlast.2.2]
    cases res with
    | more p => exact Iff.rfl
    | returned err =>
      cases err with
      | none => exact absurd rfl hfailed.1
      | some err => exact Iff.rfl
    | panicked value => exact Iff.rfl

-- ======== the providers

theorem NoDone.append {more : List StreamEvent} (h : NoDone events)
    (h' : NoDone more) : NoDone (events ++ more) := by
  intro event hmem
  rcases List.mem_append.mp hmem with hmem | hmem
  · exact h event hmem
  · exact h' event hmem

theorem noDone_map {α : Type*} (l : List α) {make : α → StreamEvent}
    (h : ∀ a, (make a).type ≠ .done) : NoDone (l.map make) := by
  intro event hmem
  obtain ⟨a, -, rfl⟩ := List.mem_map.mp hmem
  exact h a

/-- A step of the Anthropic provider streams a done event where it
succeeds, as its last. -/
theorem anthropic_step {cfg : Config} {client : Bool}
    {p : Anthropic.State} {a : Anthropic.Answer} {tools : List Text}
    {e : Streamed Anthropic.State (List Text) Anthropic.Out}
    (h : Anthropic.step cfg client p a tools = some e) :
    EndsOnce e.events e.provided := by
  have htexts : ∀ deltas : List Text,
      NoDone ((deltas.filter (· ≠ [])).map fun delta =>
        { type := .text, content := delta }) := fun deltas =>
    noDone_map _ fun _ h => by cases h
  cases p with
  | start req =>
    cases a with
    | apiKey configured =>
      obtain rfl := Option.some.inj h
      cases configured <;> exact fun _ hmem => absurd hmem
        List.not_mem_nil
    | _ => cases h
  | setAllowedCommands req =>
    cases a with
    | tick =>
      obtain rfl := Option.some.inj h
      exact fun _ hmem => absurd hmem List.not_mem_nil
    | _ => cases h
  | loop turn =>
    cases a with
    | ctx err =>
      simp only [Anthropic.step] at h
      split at h
      · cases err with
        | none | some err =>
          obtain rfl := Option.some.inj h
          exact fun _ hmem => absurd hmem List.not_mem_nil
      · obtain rfl := Option.some.inj h
        refine ⟨[_], _, rfl, rfl, fun event hmem => ?_⟩
        obtain rfl := List.mem_singleton.mp hmem
        exact fun h => by cases h
    | _ => cases h
  | stream turn =>
    cases a with
    | stream deltas ending =>
      cases ending with
      | accumulateError err | streamError err =>
        obtain rfl := Option.some.inj h
        exact htexts deltas
      | message content usage =>
        simp only [Anthropic.step] at h
        split at h
        · obtain rfl := Option.some.inj h
          exact ⟨_, _, rfl, rfl, htexts deltas⟩
        · obtain rfl := Option.some.inj h
          exact htexts deltas
    | _ => cases h
  | check turn toolUses =>
    cases a with
    | ctx err =>
      cases err with
      | some err =>
        obtain rfl := Option.some.inj h
        exact fun _ hmem => absurd hmem List.not_mem_nil
      | none =>
        simp only [Anthropic.step] at h
        split at h
        · obtain rfl := Option.some.inj h
          exact noDone_map _ fun _ h => by cases h
        · obtain rfl := Option.some.inj h
          exact NoDone.append (noDone_map _ fun _ h => by cases h)
            (noDone_map _ fun _ h => by cases h)
    | _ => cases h
  | execute turn toolUses results =>
    cases toolUses with
    | nil => cases a <;> cases h
    | cons use rest =>
      cases a with
      | tool result isError =>
        simp only [Anthropic.step] at h
        split at h <;>
          (obtain rfl := Option.some.inj h
           intro event hmem
           obtain rfl := List.mem_singleton.mp hmem
           exact fun h => by cases h)
      | panic value =>
        simp only [Anthropic.step] at h
        split at h
        · cases h
        · obtain rfl := Option.some.inj h
          exact fun _ hmem => absurd hmem List.not_mem_nil
      | _ => cases h

theorem EndsOnce.prepend {more : List StreamEvent} {res : Provided P}
    (h : NoDone events) (h' : EndsOnce more res) :
    EndsOnce (events ++ more) res := by
  cases res with
  | returned err =>
    cases err with
    | none =>
      obtain ⟨before, last, rfl, hlast, hbefore⟩ := h'
      exact ⟨_, last, (List.append_assoc ..).symm, hlast,
        h.append hbefore⟩
    | some err => exact h.append h'
  | more p => exact h.append h'
  | panicked value => exact h.append h'

theorem anthropic_endsOnce {cfg : Config} {client : Bool}
    {answers : List Anthropic.Answer} {res : Provided Anthropic.State}
    (h : Streams (Anthropic.provider cfg client) req answers events res) :
    EndsOnce events res := by
  induction h with
  | begin => exact fun _ hmem => absurd hmem List.not_mem_nil
  | step _ hstep ih => exact EndsOnce.prepend ih (anthropic_step hstep)

namespace Codex

variable {cfg : Config} {answers : List Answer} {G : Type*}

/-- The events of an answer, but for the done event that `SendMessage`
adds at its end. -/
def Answer.streamed : Answer → List StreamEvent
  | .line text => (lineEvent text).toList
  | .eof (some err) none => [readError err]
  | .exit (some err) none => [exitError err]
  | _ => []

/-- An answer has a done event where it is a line that completes the
turn. -/
theorem Answer.completes_eq (a : Answer) :
    a.completes = a.streamed.any (·.type = .done) := by
  cases a with
  | line text =>
    show (lineEvent text).any _ = (lineEvent text).toList.any _
    cases lineEvent text <;> simp
  | eof err ctx | exit err ctx =>
    cases err <;> cases ctx <;> rfl
  | failed err | started config => rfl

theorem Answer.streamed_of_completes {a : Answer} (h : a.completes = true) :
    ∃ event, a.streamed = [event] ∧ event.type = .done := by
  cases a with
  | line text =>
    change (lineEvent text).any _ = true at h
    show ∃ event, (lineEvent text).toList = [event] ∧ _
    cases hline : lineEvent text with
    | none =>
      rw [hline] at h
      cases h
    | some event =>
      rw [hline] at h
      exact ⟨event, rfl, of_decide_eq_true h⟩
  | eof err ctx | exit err ctx | failed err | started config => cases h

theorem Answer.streamed_of_silent {a : Answer} (h : a.silent = true) :
    a.streamed = [] := by
  cases a with
  | line text =>
    change (lineEvent text).isNone = true at h
    show (lineEvent text).toList = []
    rw [Option.isNone_iff_eq_none.mp h]
    rfl
  | eof err ctx | exit err ctx =>
    change err.isNone = true at h
    rw [Option.isNone_iff_eq_none.mp h]
    rfl
  | failed err => cases h
  | started config => rfl

def sent (answers : List Answer) : Bool := answers.any Answer.completes

def NoError (answers : List Answer) : Prop :=
  ∀ a ∈ answers, a.streamed = [] → a.silent = true

/-- What `SendMessage` knows of its answers. -/
def Knows (answers : List Answer) : State → Prop
  | .start _ => answers = []
  | .reading sentDone => sentDone = sent answers
  | .waiting sentDone => sentDone = sent answers

/-- What `SendMessage` has streamed: what its answers say, and where it
succeeds without one, a done event. If it has failed, its last answer was
an error without an event. -/
def Told (answers : List Answer) (events : List StreamEvent) :
    Provided State → Prop
  | .more p => events = answers.flatMap Answer.streamed
      ∧ NoError answers ∧ Knows answers p
  | .returned none => events
        = answers.flatMap Answer.streamed ++ ensureDone (sent answers)
      ∧ NoError answers
  | .returned (some _) => events = answers.flatMap Answer.streamed
      ∧ ∃ before a, answers = before ++ [a] ∧ a.streamed = []
        ∧ a.silent = false
  | .panicked _ => False

theorem sent_concat (answers : List Answer) (a : Answer) :
    sent (answers ++ [a]) = (sent answers || a.completes) := by
  simp [sent]

theorem flatMap_concat (answers : List Answer) (a : Answer) :
    (answers ++ [a]).flatMap Answer.streamed
      = answers.flatMap Answer.streamed ++ a.streamed := by
  simp

theorem NoError.concat {a : Answer} (h : NoError answers)
    (ha : a.streamed = [] → a.silent = true) : NoError (answers ++ [a]) := by
  intro b hb
  rcases List.mem_append.mp hb with hb | hb
  · exact h b hb
  · obtain rfl := List.mem_singleton.mp hb
    exact ha

theorem told_step {p : State} {a : Answer} {tools : G}
    {e : Streamed State G Launch} (h : Told answers events (.more p))
    (hstep : step cfg p a tools = some e) :
    Told (answers ++ [a]) (events ++ e.events) e.provided := by
  obtain ⟨rfl, hok, hknows⟩ := h
  cases p with
  | start req =>
    obtain rfl : answers = [] := hknows
    cases a with
    | failed err =>
      obtain rfl := Option.some.inj hstep
      exact ⟨rfl, [], _, rfl, rfl, rfl⟩
    | started config =>
      obtain rfl := Option.some.inj hstep
      exact ⟨rfl, hok.concat fun _ => rfl, rfl⟩
    | _ => cases hstep
  | reading sentDone =>
    obtain rfl : sentDone = sent answers := hknows
    cases a with
    | line text =>
      obtain rfl := Option.some.inj hstep
      refine ⟨(flatMap_concat answers (.line text)).symm, hok.concat fun hnil => ?_, ?_⟩
      · unfold Answer.silent
        exact Option.isNone_iff_eq_none.mpr (Option.toList_eq_nil_iff.mp
          hnil)
      · show Codex.sentDone _ _ = _
        rw [sent_concat]
        rfl
    | eof err ctx =>
      cases err with
      | none =>
        obtain rfl := Option.some.inj hstep
        refine ⟨(flatMap_concat answers (.eof none ctx)).symm, hok.concat fun _ => rfl, ?_⟩
        show sent answers = _
        rw [sent_concat, show (Answer.eof none ctx).completes = false
          from rfl, Bool.or_false]
      | some err =>
        cases ctx with
        | some ctx =>
          obtain rfl := Option.some.inj hstep
          exact ⟨(flatMap_concat answers (.eof (some err) (some ctx))).symm, _, _, rfl, rfl, rfl⟩
        | none =>
          obtain rfl := Option.some.inj hstep
          refine ⟨(flatMap_concat answers (.eof (some err) none)).symm,
            hok.concat (fun hnil => by cases hnil), ?_⟩
          show sent answers = _
          rw [sent_concat, show (Answer.eof (some err)
            none).completes = false from rfl, Bool.or_false]
    | _ => cases hstep
  | waiting sentDone =>
    obtain rfl : sentDone = sent answers := hknows
    cases a with
    | exit err ctx =>
      have hsent : sent (answers ++ [.exit err ctx]) = sent answers := by
        rw [sent_concat]
        exact Bool.or_false _
      cases err with
      | none =>
        obtain rfl := Option.some.inj hstep
        refine ⟨?_, hok.concat fun _ => rfl⟩
        rw [flatMap_concat, hsent, List.append_assoc]
        rfl
      | some err =>
        cases ctx with
        | some ctx =>
          obtain rfl := Option.some.inj hstep
          exact ⟨(flatMap_concat answers (.exit (some err) (some ctx))).symm, _, _, rfl, rfl, rfl⟩
        | none =>
          obtain rfl := Option.some.inj hstep
          refine ⟨?_, hok.concat fun hnil => by cases hnil⟩
          rw [flatMap_concat, hsent, List.append_assoc]
          rfl
    | _ => cases hstep

theorem told_of_streams {res : Provided State}
    (h : Streams (Codex.provider cfg : Provider State Answer G Launch) req
      answers events res) : Told answers events res := by
  induction h with
  | begin => exact ⟨rfl, fun _ hmem => absurd hmem List.not_mem_nil, rfl⟩
  | step _ hstep ih => exact told_step ih hstep

theorem noDone_iff :
    NoDone (answers.flatMap Answer.streamed)
      ↔ ∀ a ∈ answers, a.completes = false := by
  constructor
  · intro h a ha
    rw [a.completes_eq]
    refine List.any_eq_false.mpr fun event hevent hdone => ?_
    exact h event (List.mem_flatMap.mpr ⟨a, ha, hevent⟩)
      (of_decide_eq_true hdone)
  · intro h event hevent hdone
    obtain ⟨a, ha, hmem⟩ := List.mem_flatMap.mp hevent
    have hno := h a ha
    rw [a.completes_eq] at hno
    exact List.any_eq_false.mp hno event hmem (decide_eq_true hdone)

/-- What completes the turn once and is silent then has its done event
last. -/
theorem last_of_ends {before after : List Answer} {a : Answer}
    (ha : a.completes = true) (hbefore : ∀ b ∈ before, b.completes = false)
    (hafter : ∀ b ∈ after, b.silent = true) :
    ∃ init last, (before ++ a :: after).flatMap Answer.streamed
        = init ++ [last] ∧ last.type = .done ∧ NoDone init := by
  obtain ⟨event, hevent, hdone⟩ := Answer.streamed_of_completes ha
  have hnil : after.flatMap Answer.streamed = [] :=
    List.flatMap_eq_nil_iff.mpr fun b hb =>
      Answer.streamed_of_silent (hafter b hb)
  refine ⟨before.flatMap Answer.streamed, event, ?_, hdone,
    noDone_iff.mpr hbefore⟩
  rw [List.flatMap_append, List.flatMap_cons, hevent, hnil]
  rfl

/-- And the other way round, where no answer was an error without an
event. -/
theorem ends_of_last {init : List StreamEvent} {last : StreamEvent}
    (hok : NoError answers)
    (heq : answers.flatMap Answer.streamed = init ++ [last])
    (hdone : last.type = .done) (hinit : NoDone init) : Ends answers := by
  obtain ⟨a, ha, hmem⟩ : ∃ a ∈ answers, last ∈ a.streamed := by
    refine List.mem_flatMap.mp ?_
    rw [heq]
    exact List.mem_append_right _ (List.mem_singleton_self _)
  have hcompletes : a.completes = true := by
    rw [a.completes_eq]
    exact List.any_eq_true.mpr ⟨last, hmem, decide_eq_true hdone⟩
  obtain ⟨event, hevent, hevent'⟩ := Answer.streamed_of_completes hcompletes
  obtain ⟨before, after, rfl⟩ := List.append_of_mem ha
  rw [List.flatMap_append, List.flatMap_cons, hevent,
    List.singleton_append] at heq
  -- a done event is the last one, so nothing is streamed behind it
  have hnil : after.flatMap Answer.streamed = [] := by
    rcases List.eq_nil_or_concat' (after.flatMap Answer.streamed) with
      hnil | ⟨more, x, hmore⟩
    · exact hnil
    · rw [hmore, ← List.cons_append, ← List.append_assoc] at heq
      obtain ⟨rfl, -⟩ := List.append_inj' heq rfl
      exact absurd hevent' (hinit event
        (List.mem_append_right _ (List.mem_cons_self ..)))
  rw [hnil] at heq
  obtain ⟨rfl, -⟩ := List.append_inj' heq rfl
  refine Or.inr ⟨before, a, after, rfl, hcompletes, noDone_iff.mp hinit,
    fun b hb => ?_⟩
  exact hok b (List.mem_append_right _ (List.mem_cons_of_mem _ hb))
    (List.flatMap_eq_nil_iff.mp hnil b hb)

/-- The Codex provider ends a request once if and only if its process does
not complete the turn, or does so once and is silent then. -/
theorem endsOnce_iff {res : Provided State}
    (h : Told answers events res) (hend : ∀ p, res ≠ .more p) :
    EndsOnce events res ↔ Ends answers := by
  cases res with
  | more p => exact absurd rfl (hend p)
  | panicked value => exact absurd h id
  | returned err =>
    cases err with
    | some err =>
      obtain ⟨rfl, before, a, rfl, hnil, hloud⟩ := h
      show NoDone _ ↔ _
      rw [noDone_iff]
      refine ⟨Or.inl, ?_⟩
      rintro (hno | ⟨init, b, rest, heq, hb, -, hrest⟩)
      · exact hno
      · -- the error came behind the turn
        rcases List.eq_nil_or_concat' rest with rfl | ⟨more, x, rfl⟩
        · obtain ⟨-, hab⟩ := List.append_inj' heq rfl
          obtain rfl := List.head_eq_of_cons_eq hab
          obtain ⟨event, hevent, -⟩ := Answer.streamed_of_completes hb
          rw [hnil] at hevent
          cases hevent
        · rw [← List.cons_append, ← List.append_assoc] at heq
          obtain ⟨-, hax⟩ := List.append_inj' heq rfl
          obtain rfl := List.head_eq_of_cons_eq hax
          rw [hrest a (List.mem_append_right _
            (List.mem_singleton_self _))] at hloud
          cases hloud
    | none =>
      obtain ⟨rfl, hok⟩ := h
      cases hsent : sent answers with
      | false =>
        have hno : ∀ a ∈ answers, a.completes = false := by
          intro a ha
          by_contra hcompletes
          exact List.any_eq_false.mp hsent a ha
            (Bool.not_eq_false _ ▸ hcompletes)
        refine ⟨fun _ => Or.inl hno, fun _ => ?_⟩
        exact ⟨_, _, rfl, rfl, noDone_iff.mpr hno⟩
      | true =>
        rw [show ensureDone true = [] from rfl, List.append_nil]
        constructor
        · rintro ⟨init, last, heq, hdone, hinit⟩
          exact ends_of_last hok heq hdone hinit
        · rintro (hno | ⟨before, a, after, rfl, ha, hbefore, hafter⟩)
          · obtain ⟨a, ha, hcompletes⟩ := List.any_eq_true.mp hsent
            rw [hno a ha] at hcompletes
            cases hcompletes
          · exact last_of_ends ha hbefore hafter

end Codex

-- ======== both of them

variable {Q B O' : Type*}

def firstAnswers (answers : List (EitherAnswer A B)) : List A :=
  answers.filterMap fun
    | .first a => some a
    | _ => none

theorem firstAnswers_concat (answers : List (EitherAnswer A B))
    (a : EitherAnswer A B) :
    firstAnswers (answers ++ [a])
      = firstAnswers answers ++ firstAnswers [a] :=
  List.filterMap_append

/-- A run of one of two providers. -/
theorem streams_either {p : Provider P A G O} {q : Provider Q B G O'}
    {answers : List (EitherAnswer A B)} {res : Provided (Either P Q)}
    (h : Streams (p.either q) req answers events res) :
    (firstAnswers answers = [] ∧ events = []
        ∧ res = .more (.undecided req))
      ∨ (∃ res', Streams p req (firstAnswers answers) events res'
        ∧ res = res'.map .first)
      ∨ firstAnswers answers = []
        ∧ ∃ answers' res', Streams q req answers' events res'
          ∧ res = res'.map .second := by
  induction h with
  | begin => exact Or.inl ⟨rfl, rfl, rfl⟩
  | @step answers events state a tools e _ hstep ih =>
    rw [firstAnswers_concat]
    rcases ih with ⟨hnone, rfl, hres⟩ | ⟨res', hfirst, hres⟩
      | ⟨hnone, answers', res', hsecond, hres⟩
    · obtain rfl := Provided.more.inj hres
      cases a with
      | choose first =>
        obtain rfl := Option.some.inj hstep
        cases first with
        | true =>
          refine Or.inr (Or.inl ⟨.more (p.begin req), ?_, rfl⟩)
          rw [hnone]
          exact .begin
        | false =>
          refine Or.inr (Or.inr
            ⟨?_, [], .more (q.begin req), .begin, rfl⟩)
          rw [hnone]
          rfl
      | first a | second b => cases hstep
    · cases res' with
      | more p' =>
        obtain rfl := Provided.more.inj hres
        cases a with
        | first a =>
          obtain ⟨e', he', rfl⟩ := Option.map_eq_some_iff.mp hstep
          exact Or.inr (Or.inl ⟨_, .step hfirst he', rfl⟩)
        | choose first | second b => cases hstep
      | returned err | panicked value => cases hres
    · cases res' with
      | more q' =>
        obtain rfl := Provided.more.inj hres
        cases a with
        | second b =>
          obtain ⟨e', he', rfl⟩ := Option.map_eq_some_iff.mp hstep
          refine Or.inr (Or.inr ⟨?_, _, _, .step hsecond he', rfl⟩)
          rw [hnone]
          rfl
        | choose first | first a => cases hstep
      | returned err | panicked value => cases hres

/-- Whether a provider ends its request once does not depend on its
state. -/
theorem endsOnce_map {state : P → Q} {res : Provided P} :
    EndsOnce events (res.map state) ↔ EndsOnce events res := by
  cases res with
  | returned err => cases err <;> exact Iff.rfl
  | more p => exact Iff.rfl
  | panicked value => exact Iff.rfl

abbrev bothStep (cfg : Config) (client : Bool) :=
  Goroutine.step (exec ((Codex.provider cfg).either
    (Anthropic.provider cfg client))) framesOf

/-- A request that has finished has one event that is done, behind all
others of its generation, if and only if its answers are none of a Codex
process that says that it is done and goes on. -/
theorem one_end_iff {cfg : Config} {client : Bool} {tools : List Text}
    {acts : List (Act Call (Env (EitherAnswer Codex.Answer
      Anthropic.Answer)))}
    {s : Sys (World (List Text)) (Frame (Either Codex.State
      Anthropic.State))}
    {out : List (Nat × Out (Codex.Launch ⊕ Anthropic.Out))} {i : Nat}
    {sid gen : Nat} {history : List Message}
    (hrun : Machine.run (bothStep cfg client) (initial tools) acts
      = some (s, out))
    (hreq : (i, .requested sid gen history) ∈ out)
    (hend : s.goroutines[i]? = some []) :
    OneEnd (eventsOf sid gen (out.map Prod.snd))
      ↔ Codex.Ends (firstAnswers (providerAnswers (answersOf i acts))) := by
  rw [eventsOf_request hrun hreq]
  obtain ⟨hown, -⟩ := Goroutine.run_own_empty (J := Own _) Own.call
    Own.exec hrun
  obtain ⟨req, events, res, hstream, hreturned, hiff⟩ :=
    (hown i [] hend).oneEnd_iff (Goroutine.mem_outputOf.mpr hreq)
  rw [hiff]
  rcases streams_either hstream with ⟨-, -, hres⟩ | ⟨res', hcodex, hres⟩
    | ⟨hnone, answers', res', hanthropic, hres⟩
  · exact absurd hres (hreturned _)
  · rw [hres, endsOnce_map]
    refine Codex.endsOnce_iff (Codex.told_of_streams hcodex)
      fun p hmore => ?_
    rw [hres, hmore] at hreturned
    exact hreturned _ rfl
  · rw [hres, endsOnce_map, hnone]
    exact iff_of_true (anthropic_endsOnce hanthropic)
      (Or.inl fun _ hmem => absurd hmem List.not_mem_nil)

def turnCompleted : Text :=
  Text.ofString "\x7b\"type\":\"turn.completed\"\x7d"

/-- A request to the Codex provider, whose process completes its turn and
exits so. -/
def completed (exit : Option Text) :
    List (Act Call (Env (EitherAnswer Codex.Answer Anthropic.Answer))) :=
  [.call (.startSession 0), .run 0 .tick,
    .call (.sendMessage { sessionID := 0 }), .run 1 (.context true),
    .run 1 .tick,
    .run 1 (.provider (.choose true) none none),
    .run 1 (.provider (.first (.started true)) none none),
    .run 1 (.provider (.first (.line turnCompleted)) none none),
    .run 1 (.provider (.first (.eof none none)) none none),
    .run 1 (.provider (.first (.exit exit none)) none none)]

/-- With an exit without an error. -/
theorem one_end_iff_completed :
    ∃ (s : Sys (World (List Text)) (Frame (Either Codex.State
        Anthropic.State))) (out : _),
      Machine.run (bothStep defaultConfig true) (initial [])
          (completed none ++ [.run 1 .tick]) = some (s, out)
        ∧ (1, .requested 0 1 []) ∈ out ∧ s.goroutines[1]? = some []
        ∧ OneEnd (eventsOf 0 1 (out.map Prod.snd)) := by
  have hrun : ∃ (s : Sys (World (List Text)) (Frame (Either Codex.State
        Anthropic.State))) (out : _),
      Machine.run (bothStep defaultConfig true) (initial [])
          (completed none ++ [.run 1 .tick]) = some (s, out)
        ∧ (1, .requested 0 1 []) ∈ out ∧ s.goroutines[1]? = some [] :=
    ⟨_, _, rfl, .head _, rfl⟩
  obtain ⟨s, out, hrun, hreq, hend⟩ := hrun
  refine ⟨s, out, hrun, hreq, hend, ?_⟩
  refine (one_end_iff hrun hreq hend).mpr (Or.inr
    ⟨[.started true], .line turnCompleted, [.eof none none, .exit none none],
      rfl, rfl, ?_, ?_⟩)
  · intro b hb
    obtain rfl := List.mem_singleton.mp hb
    rfl
  · intro b hb
    rcases List.mem_cons.mp hb with rfl | hb
    · rfl
    · obtain rfl := List.mem_singleton.mp hb
      rfl

/-- With an error, which is told behind the end. -/
theorem error_behind_end :
    ¬ ∀ (cfg : Config) (client : Bool) (tools : List Text)
        (acts : List (Act Call (Env (EitherAnswer Codex.Answer
          Anthropic.Answer))))
        (s : Sys (World (List Text)) (Frame (Either Codex.State
          Anthropic.State)))
        (out : List (Nat × Out (Codex.Launch ⊕ Anthropic.Out))) (i : Nat)
        (sid gen : Nat) (history : List Message),
      Machine.run (bothStep cfg client) (initial tools) acts
          = some (s, out) →
        (i, .requested sid gen history) ∈ out →
          s.goroutines[i]? = some [] →
            OneEnd (eventsOf sid gen (out.map Prod.snd)) := by
  intro h
  have hrun : ∃ (s : Sys (World (List Text)) (Frame (Either Codex.State
        Anthropic.State))) (out : _) (event last : AIResponseEvent),
      Machine.run (bothStep defaultConfig true) (initial [])
          (completed (some []) ++ [.run 1 .tick]) = some (s, out)
        ∧ (1, .requested 0 1 []) ∈ out ∧ s.goroutines[1]? = some []
        ∧ eventsOf 0 1 (out.map Prod.snd) = [event, last]
        ∧ last.done = false := ⟨_, _, _, _, rfl, .head _, rfl, rfl, rfl⟩
  obtain ⟨s, out, event, last, hrun, hreq, hend, hevents, hlast⟩ := hrun
  obtain ⟨before, last', heq, hdone, -⟩ :=
    h _ _ _ _ s out 1 0 1 [] hrun hreq hend
  have happend : [event] ++ [last] = before ++ [last'] :=
    hevents.symm.trans heq
  obtain ⟨-, hsame⟩ := List.append_inj' happend rfl
  obtain rfl := List.head_eq_of_cons_eq hsame
  rw [hlast] at hdone
  cases hdone

-- ======== the events of a request

end Ai
