/-
How a watch loop spaces its calls to the client.

# The argument

A loop whose context stays live goes round and round: one call of
`WatchResource`, whatever comes of it (`Outcome`), and back to the head.
One turn is described by two functions of the failure count, the count
behind it and the timers it waits for (`attempt_run`); a sequence of
turns is the fold of the one and the concatenation of the other.

An open that fails and a stream that closes both wait before they go
round. A stream that delivers an ERROR event does not: it is back at the
head with the count at one, which the event itself had set to zero. So
the calls are paced if and only if no stream delivers one.
-/
import Kubikles.Watch.Loop

namespace WatchLoop

open Machine
open WatcherManager (Launch)

variable {α : Type}

-- ======== outcomes

/-- What comes of one call of `WatchResource`: an error, or a stream that
delivers these events and closes behind them after so many nanoseconds,
unless the loop has stopped it at an ERROR. -/
inductive Outcome (α : Type) where
  | openError (error : String)
  | stream (events : List (WatchEvent α)) (openDuration : Nat)
deriving DecidableEq

def Outcome.deliversError : Outcome α → Prop
  | .openError _ => False
  | .stream events _ => ∃ event ∈ events, event.type = .error

/-- No resource event is delivered: the open fails, the stream closes
immediately, or all it delivers is one ERROR. -/
def Outcome.barren : Outcome α → Prop
  | .openError _ => True
  | .stream [] openDuration => openDuration < 5 * second
  | .stream [event] _ => event.type = .error
  | .stream _ _ => False

def streamActs (openDuration : Nat) :
    List (WatchEvent α) → List (LoopAct α)
  | [] => [.channelClosed openDuration, .timerElapsed]
  | event :: rest =>
    [.receive event, .touchVersion, .finishEvent]
      ++ if event.type = .error then []
        else streamActs openDuration rest

/-- One turn of the loop, from the head to the head. -/
def Outcome.acts : Outcome α → List (LoopAct α)
  | .openError error =>
    [.checkContext, .readVersion, .openWatch (some error), .timerElapsed]
  | .stream events openDuration =>
    [.checkContext, .readVersion, .openWatch none]
      ++ streamActs openDuration events

/-- The turns `i` to `i + n`. -/
def attempts (outcomes : ℕ → Outcome α) (i n : Nat) : List (LoopAct α) :=
  (List.range' i n).flatMap fun j => (outcomes j).acts

/-- A loop by itself, its context never cancelled. -/
def solo (launch : Launch) :
    Machine.Step (String × Loop α) (LoopAct α) (LoopOut α) :=
  fun act (resourceVersion, l) =>
    (watchLoop launch false resourceVersion act l).map
      fun (resourceVersion, l, out) => ((resourceVersion, l), out)

def sleeps (out : List (LoopOut α)) : List Nat :=
  out.filterMap fun
    | .sleep delay => some delay
    | _ => none

-- ======== the statement

/-- Between two consecutive calls there is a wait of `baseDelay`. -/
def Apart (out : List (LoopOut α)) : Prop :=
  ∀ pre mid post rv rv',
    out = pre ++ .open rv :: (mid ++ .open rv' :: post) →
      opens mid = [] → ∃ delay ∈ sleeps mid, baseDelay ≤ delay

/-- Every run of attempts keeps its calls apart, and over attempts in a
row that deliver no resource event each wait is as long as so many
failures ask for. The run does not get stuck. -/
structure Paced (launch : Launch) (resourceVersion : String)
    (attached : Bool) (outcomes : ℕ → Outcome α) : Prop where
  apart : ∀ n, ∃ s out,
    run (solo launch) (resourceVersion, ⟨.starting, false, 0⟩)
        (.start true attached :: attempts outcomes 0 n) = some (s, out)
      ∧ Apart out
  backedOff : ∀ i n, (∀ j < n, (outcomes (i + j)).barren) →
    ∃ s out s' out',
      run (solo launch) (resourceVersion, ⟨.starting, false, 0⟩)
          (.start true attached :: attempts outcomes 0 i) = some (s, out)
        ∧ run (solo launch) s (attempts outcomes i n) = some (s', out')
        ∧ ∀ k < n, ∃ delay, (sleeps out')[k]? = some delay
            ∧ min maxDelay (baseDelay * 2 ^ min (k + 1) 7) ≤ delay

-- ======== one turn

def streamFailures (receivedAny : Bool) (openDuration failures : Nat) :
    List (WatchEvent α) → Nat
  | [] =>
    if receivedAny = false ∧ openDuration < 5 * second then failures + 1
    else 0
  | event :: rest =>
    if event.type = .error then 1
    else streamFailures true openDuration 0 rest

def streamSleeps (receivedAny : Bool) (openDuration failures : Nat) :
    List (WatchEvent α) → List Nat
  | [] =>
    if receivedAny = false ∧ openDuration < 5 * second then
      [backoff (failures + 1)]
    else [baseDelay]
  | event :: rest =>
    if event.type = .error then []
    else streamSleeps true openDuration 0 rest

def Outcome.failures (failures : Nat) : Outcome α → Nat
  | .openError _ => failures + 1
  | .stream events openDuration =>
    streamFailures false openDuration failures events

def Outcome.sleeps (failures : Nat) : Outcome α → List Nat
  | .openError _ => [backoff (failures + 1)]
  | .stream events openDuration =>
    streamSleeps false openDuration failures events

variable {launch : Launch} {attached : Bool}

theorem close_run (rv : String) (receivedAny : Bool)
    (openDuration failures : Nat) :
    ∃ out,
      run (solo (α := α) launch)
          (rv, ⟨.streaming receivedAny, attached, failures⟩)
          [.channelClosed openDuration, .timerElapsed]
        = some ((rv, ⟨.head, attached,
            streamFailures (α := α) receivedAny openDuration failures []⟩),
            out)
      ∧ opens out = []
      ∧ sleeps out
          = streamSleeps (α := α) receivedAny openDuration failures [] := by
  by_cases h : receivedAny = false ∧ openDuration < 5 * second <;>
    simp [run, solo, watchLoop, Loop.channelClosed, h, streamFailures,
      streamSleeps, opens, sleeps]

theorem event_run {event : WatchEvent α} (h : event.type ≠ .error)
    (rv : String) (receivedAny : Bool) (failures : Nat) :
    ∃ out,
      run (solo launch) (rv, ⟨.streaming receivedAny, attached, failures⟩)
          [.receive event, .touchVersion, .finishEvent]
        = some ((event.touch attached rv, ⟨.streaming true, attached, 0⟩),
            out)
      ∧ opens out = [] ∧ sleeps out = [] := by
  cases hevent : event.resourceEvent launch <;>
    simp [run, solo, watchLoop, Loop.finishEvent, h, hevent, opens, sleeps]

theorem error_run {event : WatchEvent α} (h : event.type = .error)
    (rv : String) (receivedAny : Bool) (failures : Nat) :
    run (solo launch) (rv, ⟨.streaming receivedAny, attached, failures⟩)
        [.receive event, .touchVersion, .finishEvent]
      = some ((event.touch attached rv, ⟨.head, attached, 1⟩), []) := by
  simp [run, solo, watchLoop, Loop.finishEvent, h]

theorem opens_append (out out' : List (LoopOut α)) :
    opens (out ++ out') = opens out ++ opens out' :=
  List.filterMap_append ..

theorem sleeps_append (out out' : List (LoopOut α)) :
    sleeps (out ++ out') = sleeps out ++ sleeps out' :=
  List.filterMap_append ..

theorem stream_run (openDuration : Nat) (events : List (WatchEvent α))
    (rv : String) (receivedAny : Bool) (failures : Nat) :
    ∃ rv' out,
      run (solo launch) (rv, ⟨.streaming receivedAny, attached, failures⟩)
          (streamActs openDuration events)
        = some ((rv', ⟨.head, attached,
            streamFailures receivedAny openDuration failures events⟩), out)
      ∧ opens out = []
      ∧ sleeps out
          = streamSleeps receivedAny openDuration failures events := by
  induction events generalizing rv receivedAny failures with
  | nil => exact ⟨rv, close_run rv receivedAny openDuration failures⟩
  | cons event rest ih =>
    by_cases h : event.type = .error
    · refine ⟨event.touch attached rv, [], ?_, rfl, ?_⟩
      · rw [streamActs, if_pos h, List.append_nil, error_run h]
        simp only [streamFailures, if_pos h]
      · simp only [streamSleeps, if_pos h]
        rfl
    · obtain ⟨o₁, hrun₁, hopens₁, hsleeps₁⟩ :=
        event_run h rv
          receivedAny failures
      obtain ⟨rv', o₂, hrun₂, hopens₂, hsleeps₂⟩ :=
        ih (event.touch attached rv) true 0
      refine ⟨rv', o₁ ++ o₂, ?_, ?_, ?_⟩
      · rw [streamActs, if_neg h, run_append_iff]
        simp only [streamFailures, if_neg h]
        exact ⟨_, o₁, o₂, hrun₁, hrun₂, rfl⟩
      · rw [opens_append, hopens₁, hopens₂, List.append_nil]
      · rw [sleeps_append, hsleeps₁, hsleeps₂, List.nil_append]
        simp only [streamSleeps, if_neg h]

/-- One turn: a call of the client, and behind it the timers of the
turn. -/
theorem attempt_run (launch : Launch) (attached : Bool) (o : Outcome α)
    (rv : String) (failures : Nat) :
    ∃ rv' opened rest,
      run (solo launch) (rv, ⟨.head, attached, failures⟩) o.acts
        = some ((rv', ⟨.head, attached, o.failures failures⟩),
            .open opened :: rest)
      ∧ opens rest = [] ∧ sleeps rest = o.sleeps failures := by
  cases o with
  | openError error =>
    simp [Outcome.acts, run, solo, watchLoop, Loop.openFailed,
      Outcome.failures, Outcome.sleeps, opens, sleeps]
  | stream events openDuration =>
    obtain ⟨rv', out, hrun, hopens, hsleeps⟩ :=
      stream_run openDuration events rv false failures
    refine ⟨rv', if attached then rv else "",
      .watcherStatus "connected" :: out, ?_, hopens, hsleeps⟩
    rw [Outcome.acts, run_append_iff]
    exact ⟨_, _, out, rfl, hrun, rfl⟩

-- ======== many turns

variable {outcomes : ℕ → Outcome α}

theorem attempts_succ (outcomes : ℕ → Outcome α) (i n : Nat) :
    attempts outcomes i (n + 1)
      = (outcomes i).acts ++ attempts outcomes (i + 1) n := by
  unfold attempts
  rw [List.range'_succ, List.flatMap_cons]

theorem attempts_add_one (outcomes : ℕ → Outcome α) (n : Nat) :
    attempts outcomes 0 (n + 1)
      = attempts outcomes 0 n ++ (outcomes n).acts := by
  unfold attempts
  rw [List.range'_concat, List.flatMap_append]
  simp

theorem attempts_run (launch : Launch) (attached : Bool)
    (outcomes : ℕ → Outcome α) (i n : Nat) (rv : String) (failures : Nat) :
    ∃ rv' failures' out,
      run (solo launch) (rv, ⟨.head, attached, failures⟩)
          (attempts outcomes i n)
        = some ((rv', ⟨.head, attached, failures'⟩), out) := by
  induction n generalizing i rv failures with
  | zero => exact ⟨rv, failures, [], rfl⟩
  | succ n ih =>
    obtain ⟨rv₁, opened, rest, hfirst, -, -⟩ :=
      attempt_run launch attached (outcomes i) rv failures
    obtain ⟨rv₂, failures', out, hothers⟩ :=
      ih (i + 1) rv₁ ((outcomes i).failures failures)
    refine ⟨rv₂, failures', .open opened :: rest ++ out, ?_⟩
    rw [attempts_succ, run_append_iff]
    exact ⟨_, _, out, hfirst, hothers, rfl⟩

theorem Apart.cons {opened : String} {rest out : List (LoopOut α)}
    (hopens : opens rest = [])
    (hsleeps : ∃ delay ∈ sleeps rest, baseDelay ≤ delay)
    (hout : Apart out) : Apart (.open opened :: (rest ++ out)) := by
  -- a call behind `rest` is a call of `out`
  have hsplit : ∀ {pre post : List (LoopOut α)} {rv},
      rest ++ out = pre ++ .open rv :: post →
        ∃ pre', pre = rest ++ pre' ∧ out = pre' ++ .open rv :: post := by
    intro pre post rv h
    rcases List.append_eq_append_iff.mp h with ⟨a, ha, hb⟩ | ⟨a, ha, hb⟩
    · exact ⟨a, ha, hb⟩
    · cases a with
      | nil => exact ⟨[], by simpa using ha.symm, by simpa using hb.symm⟩
      | cons x a =>
        rw [List.cons_append] at hb
        injection hb with hx _
        rw [ha, ← hx, opens_append] at hopens
        simp [opens] at hopens
  intro pre mid post rv rv' heq hmid
  cases pre with
  | nil =>
    rw [List.nil_append] at heq
    injection heq with _ heq
    obtain ⟨pre', rfl, -⟩ := hsplit heq
    obtain ⟨delay, hdelay, hle⟩ := hsleeps
    refine ⟨delay, ?_, hle⟩
    rw [sleeps_append]
    exact List.mem_append_left _ hdelay
  | cons x pre =>
    rw [List.cons_append] at heq
    injection heq with _ heq
    obtain ⟨pre', rfl, hout'⟩ := hsplit heq
    exact hout pre' mid post rv rv' hout' hmid

theorem backoff_eq (failures : Nat) :
    backoff failures = min maxDelay (baseDelay * 2 ^ min failures 7) := by
  unfold backoff
  simp only
  split <;> omega

theorem backoff_mono {f f' : Nat} (h : f ≤ f') :
    backoff f ≤ backoff f' := by
  rw [backoff_eq, backoff_eq]
  have hpow : 2 ^ min f 7 ≤ 2 ^ min f' 7 :=
    Nat.pow_le_pow_right (by omega) (by omega)
  have := Nat.mul_le_mul_left baseDelay hpow
  omega

theorem baseDelay_le_backoff (failures : Nat) :
    baseDelay ≤ backoff failures :=
  calc baseDelay
    _ ≤ backoff 0 := by decide
    _ ≤ backoff failures := backoff_mono (Nat.zero_le _)

theorem streamSleeps_of_quiet {events : List (WatchEvent α)}
    (h : ¬ ∃ event ∈ events, event.type = .error) (receivedAny : Bool)
    (openDuration failures : Nat) :
    ∃ delay ∈ streamSleeps receivedAny openDuration failures events,
      baseDelay ≤ delay := by
  induction events generalizing receivedAny failures with
  | nil =>
    unfold streamSleeps
    split
    · exact ⟨_, List.mem_singleton_self _, baseDelay_le_backoff _⟩
    · exact ⟨_, List.mem_singleton_self _, Nat.le_refl _⟩
  | cons event rest ih =>
    have hevent : event.type ≠ .error := fun heq =>
      h ⟨event, List.mem_cons_self .., heq⟩
    rw [streamSleeps, if_neg hevent]
    exact ih (fun ⟨e, he, heq⟩ => h ⟨e, List.mem_cons_of_mem _ he, heq⟩) _ _

theorem streamSleeps_of_error {events : List (WatchEvent α)}
    (h : ∃ event ∈ events, event.type = .error) (receivedAny : Bool)
    (openDuration failures : Nat) :
    streamSleeps receivedAny openDuration failures events = [] := by
  induction events generalizing receivedAny failures with
  | nil =>
    obtain ⟨event, hmem, -⟩ := h
    cases hmem
  | cons event rest ih =>
    unfold streamSleeps
    split
    · rfl
    next hevent =>
      obtain ⟨e, hmem, heq⟩ := h
      rcases List.mem_cons.mp hmem with rfl | hmem
      · exact absurd heq hevent
      · exact ih ⟨e, hmem, heq⟩ _ _

theorem Outcome.sleeps_of_quiet {o : Outcome α} (h : ¬ o.deliversError)
    (failures : Nat) : ∃ delay ∈ o.sleeps failures, baseDelay ≤ delay := by
  cases o with
  | openError error =>
    exact ⟨_, List.mem_singleton_self _, baseDelay_le_backoff _⟩
  | stream events openDuration => exact streamSleeps_of_quiet h _ _ _

theorem Outcome.sleeps_of_error {o : Outcome α} (h : o.deliversError)
    (failures : Nat) : o.sleeps failures = [] := by
  cases o with
  | openError error => cases h
  | stream events openDuration => exact streamSleeps_of_error h _ _ _

/-- A turn that delivers no event, and no ERROR either, is one failure
more and waits for as long as that asks for. -/
theorem Outcome.barren_turn {o : Outcome α} (hbarren : o.barren)
    (hquiet : ¬ o.deliversError) (failures : Nat) :
    o.failures failures = failures + 1
      ∧ o.sleeps failures = [backoff (failures + 1)] := by
  unfold Outcome.barren at hbarren
  split at hbarren
  next => exact ⟨rfl, rfl⟩
  next openDuration =>
    exact ⟨if_pos ⟨rfl, hbarren⟩, if_pos ⟨rfl, hbarren⟩⟩
  next event _ =>
    exact absurd ⟨event, List.mem_singleton_self _, hbarren⟩ hquiet
  next => cases hbarren

theorem attempts_apart (hquiet : ∀ n, ¬ (outcomes n).deliversError)
    (i n : Nat) (rv : String) (failures : Nat) :
    ∃ s out,
      run (solo launch) (rv, ⟨.head, attached, failures⟩)
          (attempts outcomes i n) = some (s, out)
        ∧ Apart out := by
  induction n generalizing i rv failures with
  | zero =>
    refine ⟨_, [], rfl, ?_⟩
    intro pre mid post rv rv' heq _
    simp at heq
  | succ n ih =>
    obtain ⟨rv₁, opened, rest, hfirst, hopens, hsleeps⟩ :=
      attempt_run launch attached (outcomes i) rv failures
    obtain ⟨s, out, hothers, hapart⟩ :=
      ih (i + 1) rv₁ ((outcomes i).failures failures)
    refine ⟨s, .open opened :: (rest ++ out), ?_, ?_⟩
    · rw [attempts_succ, run_append_iff]
      exact ⟨_, _, out, hfirst, hothers, rfl⟩
    · refine Apart.cons hopens ?_ hapart
      rw [hsleeps]
      exact Outcome.sleeps_of_quiet (hquiet i) failures

/-- Over turns that deliver no event, each wait is that of one failure
more. -/
theorem attempts_backedOff (hquiet : ∀ n, ¬ (outcomes n).deliversError)
    (i n : Nat) (hbarren : ∀ j < n, (outcomes (i + j)).barren)
    (rv : String) (failures : Nat) :
    ∃ s out,
      run (solo launch) (rv, ⟨.head, attached, failures⟩)
          (attempts outcomes i n) = some (s, out)
        ∧ sleeps out
          = (List.range n).map fun k => backoff (failures + (k + 1)) := by
  induction n generalizing i rv failures with
  | zero => exact ⟨_, [], rfl, rfl⟩
  | succ n ih =>
    obtain ⟨rv₁, opened, rest, hfirst, -, hsleeps⟩ :=
      attempt_run launch attached (outcomes i) rv failures
    have hbarren₀ : (outcomes i).barren := hbarren 0 (Nat.succ_pos n)
    obtain ⟨hfailures, hwait⟩ :=
      Outcome.barren_turn hbarren₀ (hquiet i) failures
    have hbarren' : ∀ j < n, (outcomes (i + 1 + j)).barren := by
      intro j hj
      rw [Nat.add_assoc, Nat.add_comm 1 j]
      exact hbarren (j + 1) (by omega)
    obtain ⟨s, out, hothers, hout⟩ :=
      ih (i + 1) hbarren' rv₁ ((outcomes i).failures failures)
    refine ⟨s, .open opened :: rest ++ out, ?_, ?_⟩
    · rw [attempts_succ, run_append_iff]
      exact ⟨_, _, out, hfirst, hothers, rfl⟩
    · rw [sleeps_append, hout, hfailures, List.range_succ_eq_map,
        List.map_cons, List.map_map]
      have hhead : sleeps (.open opened :: rest) = [backoff (failures + 1)] :=
        hsleeps.trans hwait
      rw [hhead]
      refine congrArg (backoff (failures + 1) :: ·) ?_
      refine List.map_congr_left fun k _ => ?_
      show backoff (failures + 1 + (k + 1)) = backoff (failures + (k + 1 + 1))
      congr 1
      omega

-- ======== the results

theorem start_run_iff {rv : String} {acts : List (LoopAct α)}
    {s : String × Loop α} {out : List (LoopOut α)} :
    run (solo launch) (rv, ⟨.starting, false, 0⟩)
        (.start true attached :: acts) = some (s, out)
      ↔ run (solo launch) (rv, ⟨.head, attached, 0⟩) acts
          = some (s, out) := by
  rw [run_cons_iff]
  constructor
  · rintro ⟨s₁, o₁, o₂, hstart, hacts, rfl⟩
    cases hstart
    exact hacts
  · exact fun h => ⟨_, [], out, rfl, h, rfl⟩

/-- A stream that delivers an ERROR is followed by the next call at
once. -/
theorem not_apart_of_error {n : Nat} (h : (outcomes n).deliversError)
    {rv : String} {s : String × Loop α} {out : List (LoopOut α)}
    (hrun : run (solo launch) (rv, ⟨.head, attached, 0⟩)
      (attempts outcomes 0 (n + 2)) = some (s, out)) : ¬ Apart out := by
  intro hapart
  rw [attempts_add_one, attempts_add_one, List.append_assoc,
    run_append_iff] at hrun
  obtain ⟨s₁, o₁, o₂, hbefore, hlast, rfl⟩ := hrun
  obtain ⟨rv₁, failures, o₁', hbefore'⟩ :=
    attempts_run launch attached outcomes 0 n rv 0
  rw [hbefore, Option.some.injEq, Prod.mk.injEq] at hbefore'
  rw [hbefore'.1] at hlast
  obtain ⟨rv₂, opened, rest, hturn, hopens, hsleeps⟩ :=
    attempt_run launch attached (outcomes n) rv₁ failures
  obtain ⟨rv₃, opened', rest', hturn', -, -⟩ :=
    attempt_run launch attached (outcomes (n + 1)) rv₂
      ((outcomes n).failures failures)
  have hboth := run_append_iff.mpr ⟨_, _, _, hturn, hturn', rfl⟩
  rw [hlast, Option.some.injEq, Prod.mk.injEq] at hboth
  obtain ⟨delay, hdelay, -⟩ := hapart o₁ rest rest' opened opened'
    (by rw [hboth.2]; rfl) hopens
  rw [hsleeps, Outcome.sleeps_of_error h] at hdelay
  cases hdelay

/-- The calls of a loop are paced if and only if no stream delivers an
ERROR event. -/
theorem paced_iff (launch : Launch) (resourceVersion : String)
    (attached : Bool) (outcomes : ℕ → Outcome α) :
    Paced launch resourceVersion attached outcomes
      ↔ ∀ n, ¬ (outcomes n).deliversError := by
  constructor
  · intro h n herror
    obtain ⟨s, out, hrun, hapart⟩ := h.apart (n + 2)
    exact not_apart_of_error herror (start_run_iff.mp hrun) hapart
  · intro hquiet
    refine ⟨fun n => ?_, fun i n hbarren => ?_⟩
    · obtain ⟨s, out, hrun, hapart⟩ :=
        attempts_apart hquiet 0 n resourceVersion 0
      exact ⟨s, out, start_run_iff.mpr hrun, hapart⟩
    · obtain ⟨rv, failures, out, hrun⟩ :=
        attempts_run launch attached outcomes 0 i resourceVersion 0
      obtain ⟨s', out', hrun', hsleeps⟩ :=
        attempts_backedOff hquiet i n hbarren rv failures
      refine ⟨_, out, s', out', start_run_iff.mpr hrun, hrun', ?_⟩
      intro k hk
      refine ⟨backoff (failures + (k + 1)), ?_, ?_⟩
      · simp [hsleeps, hk]
      · rw [← backoff_eq]
        exact backoff_mono (Nat.le_add_left ..)

/-- The server has forgotten the version, and says so on every stream. -/
def expiredForever (_ : ℕ) : Outcome String :=
  .stream [{ type := .error, reason := some "Expired" }] 0

/-- The loop then calls it over and over, without a wait. -/
theorem error_storm : ¬ Paced (.watchResourceLoop "pods" "default") ""
    true expiredForever := by
  intro h
  obtain ⟨s, out, hrun, hapart⟩ := h.apart 2
  have herror : (expiredForever 0).deliversError :=
    ⟨_, List.mem_singleton_self _, rfl⟩
  exact not_apart_of_error herror (start_run_iff.mp hrun) hapart

end WatchLoop
