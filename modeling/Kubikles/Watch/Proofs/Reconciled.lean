/-
Which reconnects are followed by a reconciliation.

# The argument

Only its callback stops the timer for good, and the callback increments
the token (`armed_step`). So whatever was handled while the timer was
running, or started it, is followed by an increment once the timer has
come to rest. A connect starts the timer where the status that was handled
last for its resource type, of whatever watcher (`Tracks`), is
"reconnecting". Where another watcher of the type has got its "connected"
in between, the timer may have run out before the reconnect is handled,
and the reconnect is not seen.
-/
import Kubikles.Watch.Status

namespace WatcherStatus

open Machine (run)
open WatcherManager (Launch)

variable {α : Type}

def lastOf (s : State α) (w : Nat) : Option String :=
  (s.delivered.find? fun d => d.watcher = w).map (·.status)

def lastOfType (s : State α) (resourceType : String) : Option String :=
  (s.delivered.find? fun d => d.resourceType = resourceType).map (·.status)

/-- The next status of a watcher is the "connected" behind its
"reconnecting". -/
def Reconnects (s : State α) (w : Nat) (watcher : Watcher α) : Prop :=
  s.watchers[w]? = some watcher ∧ watcher.inFlight.head? = some "connected"
    ∧ lastOf s w = some "reconnecting"

/-- The status handled last for the watcher's resource type, by whichever
watcher, is "reconnecting"; or the timer is running. -/
def Seen (s : State α) (watcher : Watcher α) : Prop :=
  lastOfType s (WatchLoop.resourceType watcher.launch)
      = some "reconnecting"
    ∨ s.ui.timer = true

-- ======== one step

inductive Moves (s : State α) : Act α → State α → Prop
  | subscribed {launch : Launch} :
      Moves s (.subscribe launch)
        { s with watchers := s.watchers ++ [{ launch }] }
  | moved {w : Nat} {act : WatchLoop.Act α} {watcher : Watcher α}
      (h : s.watchers[w]? = some watcher) (loops : WatchLoop.Sys α)
      (emitted : List String) :
      Moves s (.watcher w act)
        { s with watchers := s.watchers.set w { watcher with
            loops
            inFlight := watcher.inFlight ++ emitted } }
  | delivered {w : Nat} {watcher : Watcher α} {status : String}
      {rest : List String} (h : s.watchers[w]? = some watcher)
      (hnext : watcher.inFlight = status :: rest) :
      Moves s (.deliver w) (s.deliver w watcher status rest)
  | fired (h : s.ui.timer = true) :
      Moves s .timerFires { s with ui := s.ui.timerFires }

theorem moves_of_step {a : Act α} {s s' : State α} {out : List Empty}
    (h : step a s = some (s', out)) : Moves s a s' := by
  cases a with
  | subscribe launch =>
    cases h
    exact .subscribed
  | watcher w act =>
    rw [step] at h
    split at h
    next watcher hw =>
      obtain ⟨next, -, heq⟩ := Option.map_eq_some_iff.mp h
      cases heq
      exact .moved hw next.1 _
    next => cases h
  | deliver w =>
    rw [step] at h
    split at h
    next watcher hw =>
      split at h
      next status rest hnext =>
        cases h
        exact .delivered hw hnext
      next => cases h
    next => cases h
  | timerFires =>
    rw [step] at h
    split at h
    next harmed =>
      cases h
      exact .fired harmed
    next => cases h

theorem handle_of_current (ui : Ui) (event : WatcherStatusEvent)
    (h : event.context = ui.currentContextRef) :
    (ui.handleWatcherStatus event).watcherPrevStatusRef
        = Assoc.put event.resourceType event.status ui.watcherPrevStatusRef
      ∧ (ui.handleWatcherStatus event).timer
        = (if ui.watcherPrevStatusRef.lookup event.resourceType
            = some "reconnecting" ∧ event.status = "connected" then true
          else ui.timer)
      ∧ (ui.handleWatcherStatus event).reconcileToken
        = ui.reconcileToken := by
  unfold Ui.handleWatcherStatus
  rw [if_neg fun hother => hother.2 h]
  exact ⟨rfl, rfl, rfl⟩

theorem deliver_ui (s : State α) (w : Nat) (watcher : Watcher α)
    (status : String) (rest : List String) :
    (s.deliver w watcher status rest).ui.reconcileToken
        = s.ui.reconcileToken
      ∧ (s.ui.timer = true →
        (s.deliver w watcher status rest).ui.timer = true) := by
  obtain ⟨-, htimer, htoken⟩ := handle_of_current s.ui
    (watcher.event s.ui.currentContextRef status) rfl
  refine ⟨htoken, fun harmed => ?_⟩
  show (s.ui.handleWatcherStatus _).timer = true
  rw [htimer]
  split
  · rfl
  · exact harmed

/-- The token never goes back, and a timer that is running goes on or has
incremented it. -/
theorem armed_step {a : Act α} {s s' : State α} {out : List Empty}
    (h : step a s = some (s', out)) :
    s.ui.reconcileToken ≤ s'.ui.reconcileToken
      ∧ (s.ui.timer = true → s'.ui.timer = true
        ∨ s.ui.reconcileToken < s'.ui.reconcileToken) := by
  cases moves_of_step h with
  | subscribed => exact ⟨Nat.le_refl _, .inl⟩
  | moved _ _ => exact ⟨Nat.le_refl _, .inl⟩
  | delivered _ _ =>
    obtain ⟨htoken, htimer⟩ := deliver_ui s _ _ _ _
    exact ⟨Nat.le_of_eq htoken.symm, fun h => .inl (htimer h)⟩
  | fired _ => exact ⟨Nat.le_succ _, fun _ => .inr (Nat.lt_succ_self _)⟩

theorem incremented_of_armed {s s' : State α} {acts : List (Act α)}
    {out : List Empty} (hrun : run step s acts = some (s', out))
    (harmed : s.ui.timer = true) (hrest : s'.ui.timer = false) :
    s.ui.reconcileToken < s'.ui.reconcileToken := by
  have h := Machine.run_invariant
    (I := fun t => s.ui.reconcileToken ≤ t.ui.reconcileToken
      ∧ (t.ui.timer = true ∨ s.ui.reconcileToken < t.ui.reconcileToken))
    (fun hi _ hstep => by
      obtain ⟨hle, hkeep⟩ := armed_step hstep
      obtain ⟨hle', htimer | hlt⟩ := hi
      · rcases hkeep htimer with htimer' | hlt
        · exact ⟨Nat.le_trans hle' hle, .inl htimer'⟩
        · exact ⟨Nat.le_trans hle' hle, .inr (Nat.lt_of_le_of_lt hle' hlt)⟩
      · exact ⟨Nat.le_trans hle' hle, .inr (Nat.lt_of_lt_of_le hlt hle)⟩)
    ⟨Nat.le_refl _, .inl harmed⟩ Machine.along_true hrun
  rcases h.2 with htimer | hlt
  · rw [hrest] at htimer
    cases htimer
  · exact hlt

-- ======== what is remembered

/-- What the UI remembers of a resource type is the status it handled
last. -/
def Tracks (s : State α) : Prop :=
  ∀ resourceType, s.ui.watcherPrevStatusRef.lookup resourceType
    = lastOfType s resourceType

theorem lastOfType_deliver {s : State α} {w : Nat} {watcher : Watcher α}
    {status : String} {rest : List String} (resourceType : String) :
    lastOfType (s.deliver w watcher status rest) resourceType
      = if resourceType = WatchLoop.resourceType watcher.launch
        then some status else lastOfType s resourceType := by
  unfold lastOfType State.deliver
  by_cases h : resourceType = WatchLoop.resourceType watcher.launch
  · rw [if_pos h, List.find?_cons_of_pos (by simpa using h.symm)]
    rfl
  · rw [if_neg h, List.find?_cons_of_neg (by simpa using Ne.symm h)]

theorem tracks_step {a : Act α} {s s' : State α} {out : List Empty}
    (hi : Tracks s) (hstep : step a s = some (s', out)) : Tracks s' := by
  cases moves_of_step hstep with
  | subscribed => exact hi
  | moved _ _ => exact hi
  | @delivered w watcher status rest _ _ =>
    intro resourceType
    obtain ⟨hprev, -, -⟩ := handle_of_current s.ui
      (watcher.event s.ui.currentContextRef status) rfl
    show (s.ui.handleWatcherStatus _).watcherPrevStatusRef.lookup _ = _
    rw [hprev, Assoc.lookup_put, lastOfType_deliver, hi]
    rfl
  | fired _ => exact hi

theorem tracks_run {context : String} {s : State α} {acts : List (Act α)}
    {out : List Empty}
    (hrun : run step { ui := { currentContextRef := context } } acts
      = some (s, out)) : Tracks s :=
  Machine.run_invariant (fun hi _ hstep => tracks_step hi hstep) (fun _ => rfl)
    Machine.along_true hrun

/-- A "connected" starts the timer, or finds it running, exactly where the
reconnect is seen. -/
theorem armed_iff_seen {s : State α} (h : Tracks s) (w : Nat)
    (watcher : Watcher α) (rest : List String) :
    (s.deliver w watcher "connected" rest).ui.timer = true
      ↔ Seen s watcher := by
  obtain ⟨-, htimer, -⟩ := handle_of_current s.ui
    (watcher.event s.ui.currentContextRef "connected") rfl
  show (s.ui.handleWatcherStatus _).timer = true ↔ _
  rw [htimer, h]
  unfold Seen
  by_cases hlast : lastOfType s (WatchLoop.resourceType watcher.launch)
      = some "reconnecting"
  · rw [if_pos ⟨hlast, rfl⟩]
    exact ⟨fun _ => .inl hlast, fun _ => rfl⟩
  · rw [if_neg fun hboth => hlast hboth.1]
    exact ⟨.inr, fun hor => hor.resolve_left hlast⟩

/-- In every run, a reconnect of a watcher is followed by an increment of
the token by the time the timer has come to rest, however the run goes on,
if and only if the status handled last for the watcher's resource type is
its "reconnecting" or another's, or the timer is running. -/
theorem reconnect_reconciled_iff (context : String) (acts : List (Act α))
    (s s₁ : State α) (out out₁ : List Empty) (w : Nat)
    (watcher : Watcher α)
    (hrun : run step { ui := { currentContextRef := context } } acts
      = some (s, out))
    (hreconnects : Reconnects s w watcher)
    (hdeliver : step (.deliver w) s = some (s₁, out₁)) :
    (∀ later s₂ out₂, run step s₁ later = some (s₂, out₂) →
        s₂.ui.timer = false →
        s.ui.reconcileToken < s₂.ui.reconcileToken)
      ↔ Seen s watcher := by
  obtain ⟨hw, hhead, -⟩ := hreconnects
  cases moves_of_step hdeliver with
  | @delivered _ watcher' status rest hw' hnext =>
    rw [hw] at hw'
    cases hw'
    rw [hnext] at hhead
    cases hhead
    rw [← armed_iff_seen (tracks_run hrun) w watcher rest]
    obtain ⟨htoken, -⟩ := deliver_ui s w watcher "connected" rest
    constructor
    · intro hall
      -- The run that stops here: no increment, so the timer is running.
      by_contra hrest
      have hlt := hall [] _ [] rfl (Bool.eq_false_iff.mpr hrest)
      omega
    · intro harmed later s₂ out₂ hlater hrest
      have hlt := incremented_of_armed hlater harmed hrest
      omega

/-- A watch is opened for the first time, ends after six seconds, is opened
again. -/
def opens : List (WatchLoop.LoopAct Unit) :=
  [.start true true, .checkContext, .readVersion, .openWatch none]

def closes : List (WatchLoop.LoopAct Unit) :=
  [.channelClosed (6 * WatchLoop.second)]

def reopens : List (WatchLoop.LoopAct Unit) :=
  [.timerElapsed, .checkContext, .readVersion, .openWatch none]

def byLoop (w : Nat) (acts : List (WatchLoop.LoopAct Unit)) :
    List (Act Unit) :=
  acts.map fun act => .watcher w (.loop 0 act)

def podWatcher (ns : String) (opened inFlight : List String) :
    Watcher Unit :=
  { launch := .watchResourceLoop "pods" ns
    loops := ⟨"", [⟨⟨.streaming false, true, 0⟩, false, [], opened⟩], .idle⟩
    inFlight }

/-- A watcher of pods that has lost its watch and has it back. -/
def backAgain : List (Act Unit) :=
  [.subscribe (.watchResourceLoop "pods" "a")] ++ byLoop 0 opens
    ++ [.deliver 0] ++ byLoop 0 closes ++ [.deliver 0] ++ byLoop 0 reopens

def back : State Unit :=
  { ui := { currentContextRef := "c"
            watcherPrevStatusRef := [("pods", "reconnecting")] }
    watchers := [podWatcher "a" ["", ""] ["connected"]]
    delivered := [⟨0, "pods", "reconnecting"⟩, ⟨0, "pods", "connected"⟩] }

theorem reconnect_reconciled_alone :
    step (.deliver 0) back = some (back.deliver 0
        (podWatcher "a" ["", ""] ["connected"]) "connected" [], []) ∧
      ∀ later s₂ out₂,
        run step (back.deliver 0 (podWatcher "a" ["", ""] ["connected"])
          "connected" []) later = some (s₂, out₂) →
        s₂.ui.timer = false → 0 < s₂.ui.reconcileToken := by
  refine ⟨rfl, ?_⟩
  apply (reconnect_reconciled_iff "c" backAgain back _ [] [] 0
    (podWatcher "a" ["", ""] ["connected"]) rfl ⟨rfl, rfl, rfl⟩ rfl).mpr
  exact .inl rfl

/-- The watchers of pods in two namespaces: the second connects while the
first is reconnecting, and the timer that this starts runs out before the
first is back. -/
def between : List (Act Unit) :=
  [.subscribe (.watchResourceLoop "pods" "a"),
      .subscribe (.watchResourceLoop "pods" "b")]
    ++ byLoop 0 opens ++ [.deliver 0] ++ byLoop 0 closes ++ [.deliver 0]
    ++ byLoop 1 opens ++ [.deliver 1, .timerFires] ++ byLoop 0 reopens

def passedOver : State Unit :=
  { ui := { currentContextRef := "c"
            watcherPrevStatusRef := [("pods", "connected")]
            reconcileToken := 1 }
    watchers := [podWatcher "a" ["", ""] ["connected"],
      podWatcher "b" [""] []]
    delivered := [⟨1, "pods", "connected"⟩, ⟨0, "pods", "reconnecting"⟩,
      ⟨0, "pods", "connected"⟩] }

/-- The first one's reconnect is handled, no timer is running, and the
token is where it was. -/
theorem between_goes_unseen :
    ¬ ∀ (acts : List (Act Unit)) s s₁ out out₁ w watcher,
      run step { ui := { currentContextRef := "c" } } acts = some (s, out) →
      Reconnects s w watcher → step (.deliver w) s = some (s₁, out₁) →
      ∀ later s₂ out₂, run step s₁ later = some (s₂, out₂) →
        s₂.ui.timer = false →
        s.ui.reconcileToken < s₂.ui.reconcileToken := by
  intro h
  have hlt := h between passedOver _ [] [] 0
    (podWatcher "a" ["", ""] ["connected"]) rfl ⟨rfl, rfl, rfl⟩ rfl
    [] _ [] rfl rfl
  exact absurd hlt (Nat.lt_irrefl 1)

end WatcherStatus
