/-
Subscribers and the loops that serve them.

# The argument

`RefCount` is meant to count the subscribers of a key, and where it does
(`Inv`) everything else follows: `cleanup` cancels a loop only at a count
of zero, and two watchers never share a loop, so cancelling one touches
no other.

A key says nothing about *which* watcher of that name a subscriber got.
`StopAll` drops the watchers but not the subscribers, and a subscriber
of a dropped watcher that unsubscribes later takes its count from
whatever watcher has the key by then. The invariant holds as long as no
such call finds a watcher (`Faithful`).

The second half is about `RestartAll`. It skips the watchers whose count
is zero, leaving them on the old connection, and `Subscribe` revives
such a watcher with its old loop for as long as its cleanup has not run.
Without such a revival (`Renewed`) every subscriber is on a loop that
`RestartAll` or something behind it started.
-/
import Kubikles.Watch.Manager

namespace WatcherManager

open Machine

-- ======== the statements

def live (key : String) (subscriptions : List Subscription) : Nat :=
  subscriptions.countP fun sub => sub.key = key ∧ sub.Live

/-- The context of a loop was not cancelled, and the loop is the
key's. -/
def Runs (loops : List WatchLoop) (ctx : Nat) (key : String) : Prop :=
  ∃ launch, loops[ctx]? = some ⟨launch, false⟩ ∧ launch.key = key

/-- The key is in the map, counts a subscriber, and has a loop. -/
def Served (s : Sys) (key : String) : Prop :=
  ∃ w, s.watchers.lookup key = some w ∧ 1 ≤ w.refCount
    ∧ Runs s.loops w.cancel key

/-- The 32-bit count of a watcher has room for one more subscriber. -/
def Room (s : Sys) (key : String) : Prop :=
  ∀ w ∈ s.watchers.lookup key, w.refCount < 2 ^ 31 - 1

instance (s : Sys) (key : String) : Decidable (Room s key) :=
  inferInstanceAs (Decidable (∀ w ∈ s.watchers.lookup key, _))

def Act.subscribes : Act → Option String
  | .subscribe resourceType ns => some (resourceKey resourceType ns)
  | .subscribeCRD group version resource ns =>
    some (crdKey group version resource ns)
  | _ => none

/-- The counts stay true: a subscriber from before a `StopAll`
unsubscribes while its key is not in the map, and no count
overflows. -/
def Faithful (s : Sys) (a : Act) : Prop :=
  (∀ key ∈ a.subscribes, Room s key)
  ∧ match a with
    | .unsubscribe i =>
      ∀ sub ∈ s.subscriptions[i]?, sub.stale → sub.key ∉ s.watchers
    | _ => True

instance (s : Sys) : ∀ a, Decidable (Faithful s a)
  | .unsubscribe i =>
    inferInstanceAs (Decidable (_ ∧ ∀ sub ∈ s.subscriptions[i]?,
      sub.stale → sub.key ∉ s.watchers))
  | .subscribe _ _ => inferInstanceAs (Decidable (_ ∧ True))
  | .subscribeCRD _ _ _ _ => inferInstanceAs (Decidable (_ ∧ True))
  | .timerFires _ => inferInstanceAs (Decidable (_ ∧ True))
  | .cleanup _ => inferInstanceAs (Decidable (_ ∧ True))
  | .stopAll _ => inferInstanceAs (Decidable (_ ∧ True))
  | .restartAll _ => inferInstanceAs (Decidable (_ ∧ True))

-- ======== counting

theorem addInt32_eq {n delta : Int} (hlo : -2 ^ 31 ≤ n + delta)
    (hhi : n + delta < 2 ^ 31) : addInt32 n delta = n + delta := by
  unfold addInt32
  apply Int.bmod_eq_of_le
  · omega
  · omega

theorem live_subscribe (key k : String) (subs : List Subscription) :
    live k (subs ++ [⟨key, false, false⟩])
      = live k subs + if key = k then 1 else 0 := by
  unfold live
  rw [List.countP_append, List.countP_singleton]
  by_cases h : key = k
  · simp [h, Subscription.Live]
  · simp [h]

/-- Unsubscribing takes one from the count of its own key, if it was in
the count at all. -/
theorem live_unsubscribe {subs : List Subscription} {i : Nat}
    {key : String} {stale : Bool}
    (h : subs[i]? = some ⟨key, stale, false⟩) (k : String) :
    live k subs = live k (subs.set i ⟨key, stale, true⟩)
      + if key = k ∧ stale = false then 1 else 0 := by
  obtain ⟨hi, hget⟩ := List.getElem?_eq_some_iff.mp h
  have hsplit : subs = subs.take i ++ ⟨key, stale, false⟩
      :: subs.drop (i + 1) := by
    rw [← hget, List.cons_getElem_drop_succ, List.take_append_drop]
  have hset : subs.set i ⟨key, stale, true⟩
      = subs.take i ++ ⟨key, stale, true⟩ :: subs.drop (i + 1) := by
    rw [List.set_eq_take_append_cons_drop, if_pos hi]
  have hlive : live k subs = live k (subs.take i ++ ⟨key, stale, false⟩
      :: subs.drop (i + 1)) := congrArg (live k) hsplit
  rw [hlive, hset]
  unfold live
  rw [List.countP_append, List.countP_append, List.countP_cons,
    List.countP_cons]
  by_cases hk : key = k ∧ stale = false
  · rw [if_pos hk]
    simp [hk.1, hk.2, Subscription.Live]
    omega
  · rw [if_neg hk]
    simp only [Subscription.Live]
    simp [hk]

theorem live_stopAll (k : String) (subs : List Subscription) :
    live k (subs.map ({ · with stale := true })) = 0 := by
  unfold live
  rw [List.countP_eq_zero]
  intro sub hsub
  obtain ⟨sub', -, rfl⟩ := List.mem_map.mp hsub
  simp [Subscription.Live]

-- ======== loops

theorem Runs.cancelLoop {loops : List WatchLoop} {ctx ctx' : Nat}
    {key : String} (h : Runs loops ctx key) (hne : ctx' ≠ ctx) :
    Runs (cancelLoop ctx' loops) ctx key := by
  obtain ⟨launch, hget, hkey⟩ := h
  refine ⟨launch, ?_, hkey⟩
  unfold WatcherManager.cancelLoop
  rw [List.getElem?_modify, hget]
  simp [hne]

theorem Runs.append {loops : List WatchLoop} {ctx : Nat} {key : String}
    (h : Runs loops ctx key) (l : WatchLoop) :
    Runs (loops ++ [l]) ctx key := by
  obtain ⟨launch, hget, hkey⟩ := h
  obtain ⟨hlt, -⟩ := List.getElem?_eq_some_iff.mp hget
  exact ⟨launch, by rw [List.getElem?_append_left hlt, hget], hkey⟩

theorem Runs.lt {loops : List WatchLoop} {ctx : Nat} {key : String}
    (h : Runs loops ctx key) : ctx < loops.length := by
  obtain ⟨launch, hget, -⟩ := h
  exact (List.getElem?_eq_some_iff.mp hget).1

theorem runs_append (loops : List WatchLoop) (launch : Launch) :
    Runs (loops ++ [⟨launch, false⟩]) loops.length launch.key :=
  ⟨launch, by simp, rfl⟩

theorem cancelLoop_length (ctx : Nat) (loops : List WatchLoop) :
    (cancelLoop ctx loops).length = loops.length :=
  List.length_modify ..

-- ======== the invariant

/-- The watchers count their subscribers and each has a loop of its
own. -/
structure Inv (s : Sys) : Prop where
  counted : ∀ {key w}, s.watchers.lookup key = some w →
    w.refCount = live key s.subscriptions
      ∧ live key s.subscriptions < 2 ^ 31
  absent : ∀ {key}, s.watchers.lookup key = none →
    live key s.subscriptions = 0
  running : ∀ {key w}, s.watchers.lookup key = some w →
    Runs s.loops w.cancel key ∧ w.launch.key = key
  apart : ∀ {key key' w w'}, s.watchers.lookup key = some w →
    s.watchers.lookup key' = some w' → w.cancel = w'.cancel → key = key'

theorem inv_init : Inv Sys.init where
  counted h := by simp [Sys.init] at h
  absent _ := rfl
  running h := by simp [Sys.init] at h
  apart h := by simp [Sys.init] at h

theorem Inv.served {s : Sys} (hi : Inv s) {sub : Subscription}
    (hsub : sub ∈ s.subscriptions) (hlive : sub.Live) :
    Served s sub.key := by
  have hpos : 0 < live sub.key s.subscriptions := by
    unfold live
    rw [List.countP_pos_iff]
    exact ⟨sub, hsub, by simp [hlive]⟩
  cases hl : s.watchers.lookup sub.key with
  | none =>
    have := hi.absent hl
    omega
  | some w =>
    obtain ⟨hcount, -⟩ := hi.counted hl
    exact ⟨w, hl, by omega, (hi.running hl).1⟩

/-- A watcher may change all but its loop, if its count stays true. -/
theorem Inv.recount {s s' : Sys} (hi : Inv s) {key : String}
    {w w' : ResourceWatcher} (hl : s.watchers.lookup key = some w)
    (hwatchers : s'.watchers = s.watchers.insert key w')
    (hloops : s'.loops = s.loops) (hcancel : w'.cancel = w.cancel)
    (hlaunch : w'.launch = w.launch)
    (hcount : w'.refCount = live key s'.subscriptions
      ∧ live key s'.subscriptions < 2 ^ 31)
    (hother : ∀ k, k ≠ key →
      live k s'.subscriptions = live k s.subscriptions) : Inv s' := by
  have hlookup : ∀ k, s'.watchers.lookup k
      = if k = key then some w' else s.watchers.lookup k := by
    intro k
    rw [hwatchers, FinMap.lookup_insert]
  -- A lookup in `s'` is one in `s` with the same loop.
  have hback : ∀ {k v}, s'.watchers.lookup k = some v →
      ∃ v₀, s.watchers.lookup k = some v₀ ∧ v.cancel = v₀.cancel
        ∧ v.launch = v₀.launch := by
    intro k v hv
    rw [hlookup] at hv
    split at hv
    next hk =>
      rw [hk, ← Option.some.inj hv]
      exact ⟨w, hl, hcancel, hlaunch⟩
    next => exact ⟨v, hv, rfl, rfl⟩
  constructor
  · intro k v hv
    rw [hlookup] at hv
    split at hv
    next hk =>
      rw [hk, ← Option.some.inj hv]
      exact hcount
    next hk =>
      rw [hother k hk]
      exact hi.counted hv
  · intro k hk
    rw [hlookup] at hk
    split at hk
    next => cases hk
    next hne =>
      rw [hother k hne]
      exact hi.absent hk
  · intro k v hv
    obtain ⟨v₀, hv₀, hc, hla⟩ := hback hv
    rw [hloops, hc, hla]
    exact hi.running hv₀
  · intro k k' v v' hv hv' heq
    obtain ⟨v₀, hv₀, hc, -⟩ := hback hv
    obtain ⟨v₀', hv₀', hc', -⟩ := hback hv'
    exact hi.apart hv₀ hv₀' (by rw [← hc, ← hc', heq])

theorem Inv.congr {s s' : Sys} (hi : Inv s)
    (hwatchers : s'.watchers = s.watchers) (hloops : s'.loops = s.loops)
    (hlive : ∀ k, live k s'.subscriptions = live k s.subscriptions) :
    Inv s' := by
  constructor
  · intro k w hw
    rw [hlive]
    exact hi.counted (hwatchers ▸ hw)
  · intro k hk
    rw [hlive]
    exact hi.absent (hwatchers ▸ hk)
  · intro k w hw
    rw [hloops]
    exact hi.running (hwatchers ▸ hw)
  · intro k k' w w' hw hw'
    exact hi.apart (hwatchers ▸ hw) (hwatchers ▸ hw')

-- ======== the operations

/-- A subscriber more and a watcher that counts it, for a key that was
not in the map, keep the counts true. -/
theorem Inv.fileNew {s : Sys} (hi : Inv s) {w : ResourceWatcher}
    {launch : Launch} (hl : s.watchers.lookup launch.key = none)
    (hone : w.refCount = 1) (hcancel : w.cancel = s.loops.length)
    (hlaunch : w.launch = launch) :
    Inv { s with
      watchers := s.watchers.insert launch.key w
      loops := s.loops ++ [⟨launch, false⟩]
      subscriptions := s.subscriptions ++ [⟨launch.key, false, false⟩] } := by
  have hlookup : ∀ k, (s.watchers.insert launch.key w).lookup k
      = if k = launch.key then some w else s.watchers.lookup k :=
    fun k => FinMap.lookup_insert ..
  constructor
  · intro k v hv
    rw [hlookup] at hv
    rw [live_subscribe]
    split at hv
    next hk =>
      rw [hk, ← Option.some.inj hv, hone, hi.absent hl, if_pos rfl]
      omega
    next hk =>
      rw [if_neg fun h => hk h.symm, Nat.add_zero]
      exact hi.counted hv
  · intro k hk
    rw [hlookup] at hk
    split at hk
    next => cases hk
    next hne =>
      rw [live_subscribe, if_neg fun h => hne h.symm, Nat.add_zero]
      exact hi.absent hk
  · intro k v hv
    rw [hlookup] at hv
    split at hv
    next hk =>
      rw [hk, ← Option.some.inj hv, hcancel, hlaunch]
      exact ⟨runs_append s.loops launch, rfl⟩
    next =>
      obtain ⟨hruns, hla⟩ := hi.running hv
      exact ⟨hruns.append _, hla⟩
  · intro k k' v v' hv hv' heq
    rw [hlookup] at hv hv'
    split at hv <;> split at hv'
    next hk hk' => rw [hk, hk']
    next =>
      -- An old loop is not the one just started.
      have hlt := (hi.running hv').1.lt
      rw [← Option.some.inj hv, hcancel] at heq
      omega
    next =>
      have hlt := (hi.running hv).1.lt
      rw [← Option.some.inj hv', hcancel] at heq
      omega
    next => exact hi.apart hv hv' heq

theorem Inv.subscribeKey {s : Sys} (hi : Inv s) {key : String}
    {watcher : Nat → ResourceWatcher} {launch : Launch}
    (hroom : Room s key) (hkey : launch.key = key)
    (hnew : ∀ ctx, (watcher ctx).refCount = 1 ∧ (watcher ctx).cancel = ctx
      ∧ (watcher ctx).launch = launch) :
    Inv (s.subscribeKey key watcher launch).1 := by
  unfold Sys.subscribeKey
  dsimp only
  split
  next w hl =>
    obtain ⟨hcount, hbound⟩ := hi.counted hl
    have hlt := hroom w hl
    have hlive := live_subscribe key key s.subscriptions
    rw [if_pos rfl] at hlive
    have hplus : addInt32 w.refCount 1
        = live key (s.subscriptions ++ [⟨key, false, false⟩]) := by
      rw [addInt32_eq (by omega) (by omega)]
      omega
    have hroom' : live key (s.subscriptions ++ [⟨key, false, false⟩])
        < 2 ^ 31 := by omega
    have hother : ∀ k, k ≠ key →
        live k (s.subscriptions ++ [⟨key, false, false⟩])
          = live k s.subscriptions := by
      intro k hk
      rw [live_subscribe, if_neg fun h => hk h.symm, Nat.add_zero]
    exact hi.recount hl rfl rfl rfl rfl ⟨hplus, hroom'⟩ hother
  next hl =>
    obtain ⟨hone, hcancel, hlaunch⟩ := hnew s.loops.length
    subst hkey
    exact hi.fileNew hl hone hcancel hlaunch

/-- `Unsubscribe` keeps the counts true, if it does not take from the
count of a watcher its caller never subscribed to. -/
theorem Inv.unsubscribe {s : Sys} (hi : Inv s) {i : Nat} {key : String}
    {stale : Bool} (hsub : s.subscriptions[i]? = some ⟨key, stale, false⟩)
    (hok : stale → key ∉ s.watchers) :
    Inv ({ s with subscriptions :=
      s.subscriptions.set i ⟨key, stale, true⟩ }.unsubscribe key) := by
  have hlive := live_unsubscribe hsub
  unfold Sys.unsubscribe
  dsimp only
  split
  next hl =>
    refine hi.congr rfl rfl fun k => ?_
    show live k (s.subscriptions.set i _) = _
    have hk := hlive k
    split at hk
    next h =>
      -- A key that is not in the map has no live subscriber to lose.
      have := hi.absent hl
      rw [h.1] at this
      omega
    next => omega
  next w hl =>
    have hfresh : stale = false := by
      cases stale with
      | false => rfl
      | true =>
        refine absurd ?_ (hok rfl)
        rw [← Finmap.lookup_isSome, hl]
        rfl
    obtain ⟨hcount, hbound⟩ := hi.counted hl
    have hkey := hlive key
    rw [if_pos ⟨rfl, hfresh⟩] at hkey
    have hminus : addInt32 w.refCount (-1)
        = live key (s.subscriptions.set i ⟨key, stale, true⟩) := by
      rw [addInt32_eq (by omega) (by omega)]
      omega
    have hother : ∀ k, k ≠ key →
        live k (s.subscriptions.set i ⟨key, stale, true⟩)
          = live k s.subscriptions := by
      intro k hk
      have hne := hlive k
      rw [if_neg fun h => hk h.1.symm] at hne
      omega
    have hroom : live key (s.subscriptions.set i ⟨key, stale, true⟩)
        < 2 ^ 31 := by omega
    split
    · exact hi.recount hl rfl rfl rfl rfl ⟨hminus, hroom⟩ hother
    · exact hi.recount hl rfl rfl rfl rfl ⟨hminus, hroom⟩ hother

/-- `cleanup` removes a watcher only at a count of zero. -/
theorem Inv.cleanup {s : Sys} (hi : Inv s) (key : String) :
    Inv (s.cleanup key) := by
  unfold Sys.cleanup
  split
  next => exact hi
  next w hl =>
    split
    next => exact hi
    next hzero =>
      have hlookup : ∀ k, (s.watchers.erase key).lookup k
          = if k = key then none else s.watchers.lookup k :=
        fun k => FinMap.lookup_erase ..
      constructor
      · intro k v hv
        rw [hlookup] at hv
        split at hv
        next => cases hv
        next => exact hi.counted hv
      · intro k hk
        rw [hlookup] at hk
        split at hk
        next hkey =>
          obtain ⟨hcount, -⟩ := hi.counted hl
          rw [hkey]
          show live key s.subscriptions = 0
          omega
        next => exact hi.absent hk
      · intro k v hv
        rw [hlookup] at hv
        split at hv
        next => cases hv
        next hne =>
          obtain ⟨hruns, hla⟩ := hi.running hv
          refine ⟨hruns.cancelLoop fun heq => hne ?_, hla⟩
          exact hi.apart hv hl heq.symm
      · intro k k' v v' hv hv' heq
        rw [hlookup] at hv hv'
        split at hv <;> split at hv'
        next => cases hv
        next => cases hv
        next => cases hv'
        next => exact hi.apart hv hv' heq

theorem inv_stopAll (order : List String) (s : Sys) :
    Inv (s.stopAll order) where
  counted h := by simp [Sys.stopAll] at h
  absent _ := live_stopAll ..
  running h := by simp [Sys.stopAll] at h
  apart h := by simp [Sys.stopAll] at h

/-- Restarting one watcher cancels its loop and gives it another. -/
theorem Inv.restartWatcher {s : Sys × List Launch} (hi : Inv s.1)
    (key : String) : Inv (Sys.restartWatcher s key).1 := by
  unfold Sys.restartWatcher
  split
  next => exact hi
  next w hl =>
    split
    next => exact hi
    next =>
      obtain ⟨-, hlaunch⟩ := hi.running hl
      have hcount := hi.counted hl
      have hlookup : ∀ k, (s.1.watchers.insert key { w with
          resourceVersion := "", cancel := s.1.loops.length }).lookup k
            = if k = key then some { w with
                resourceVersion := "", cancel := s.1.loops.length }
              else s.1.watchers.lookup k := fun k => FinMap.lookup_insert ..
      constructor
      · intro k v hv
        rw [hlookup] at hv
        split at hv
        next hk =>
          rw [hk, ← Option.some.inj hv]
          exact hcount
        next => exact hi.counted hv
      · intro k hk
        rw [hlookup] at hk
        split at hk
        next => cases hk
        next => exact hi.absent hk
      · intro k v hv
        rw [hlookup] at hv
        split at hv
        next hk =>
          have hnew := runs_append (cancelLoop w.cancel s.1.loops) w.launch
          rw [cancelLoop_length, hlaunch] at hnew
          rw [hk, ← Option.some.inj hv]
          exact ⟨hnew, hlaunch⟩
        next hne =>
          obtain ⟨hruns, hla⟩ := hi.running hv
          refine ⟨(hruns.cancelLoop fun heq => hne ?_).append _, hla⟩
          exact hi.apart hv hl heq.symm
      · intro k k' v v' hv hv' heq
        rw [hlookup] at hv hv'
        split at hv <;> split at hv'
        next hk hk' => rw [hk, hk']
        next =>
          have hlt := (hi.running hv').1.lt
          rw [← Option.some.inj hv] at heq
          have : s.1.loops.length = v'.cancel := heq
          omega
        next =>
          have hlt := (hi.running hv).1.lt
          rw [← Option.some.inj hv'] at heq
          have : v.cancel = s.1.loops.length := heq
          omega
        next => exact hi.apart hv hv' heq

theorem Inv.restartAll {s : Sys} (hi : Inv s) (order : List String) :
    Inv (s.restartAll order).1 := by
  have hfold : ∀ (order : List String) (s : Sys × List Launch), Inv s.1 →
      Inv (order.foldl Sys.restartWatcher s).1 := by
    intro order
    induction order with
    | nil => exact fun _ h => h
    | cons key order ih => exact fun s h => ih _ (h.restartWatcher key)
  exact hfold order _ (hi.congr rfl rfl fun _ => rfl)

/-- Every step with true counts keeps them true. -/
theorem step_inv {a : Act} {s s' : Sys} {o : List Launch} (hi : Inv s)
    (hok : Faithful s a) (h : step a s = some (s', o)) : Inv s' := by
  obtain ⟨hroom, hstale⟩ := hok
  cases a with
  | subscribe resourceType ns =>
    rw [step, Option.some.injEq] at h
    rw [show s' = (s.subscribe resourceType ns).1 from
      (congrArg Prod.fst h).symm]
    exact hi.subscribeKey (hroom _ rfl) rfl fun _ => ⟨rfl, rfl, rfl⟩
  | subscribeCRD group version resource ns =>
    rw [step, Option.some.injEq] at h
    rw [show s' = (s.subscribeCRD group version resource ns).1 from
      (congrArg Prod.fst h).symm]
    exact hi.subscribeKey (hroom _ rfl) rfl fun _ => ⟨rfl, rfl, rfl⟩
  | unsubscribe i =>
    simp only [step] at h
    split at h
    next key stale hsub =>
      injection h with h
      injection h with h
      rw [← h]
      exact hi.unsubscribe hsub fun ht => hstale _ hsub ht
    next => cases h
  | timerFires i =>
    simp only [step, Option.map_eq_some_iff, Prod.mk.injEq] at h
    obtain ⟨ts, -, rfl, -⟩ := h
    exact hi.congr rfl rfl fun _ => rfl
  | cleanup i =>
    simp only [step, Option.map_eq_some_iff, Prod.mk.injEq] at h
    obtain ⟨⟨key, ts⟩, -, rfl, -⟩ := h
    have hi' : Inv { s with timers := ts } :=
      hi.congr rfl rfl fun _ => rfl
    exact hi'.cleanup key
  | stopAll order =>
    simp only [step] at h
    split at h
    next =>
      injection h with h
      injection h with h
      rw [← h]
      exact inv_stopAll order s
    next => cases h
  | restartAll order =>
    simp only [step] at h
    split at h
    next =>
      injection h with h
      rw [show s' = (s.restartAll order).1 from (congrArg Prod.fst h).symm]
      exact hi.restartAll order
    next => cases h

-- ======== a subscriber is served

/-- In every run with true counts, a live subscriber finds its key in
the map, counted, and its loop running. -/
theorem subscribed_served {acts : List Act}
    (hok : Along step Faithful Sys.init acts) {s' : Sys}
    {out : List Launch} (hrun : run step Sys.init acts = some (s', out))
    {sub : Subscription} (hsub : sub ∈ s'.subscriptions)
    (hlive : sub.Live) : Served s' sub.key :=
  (run_invariant step_inv inv_init hok hrun).served hsub hlive

/-- A subscriber from before a `StopAll` that unsubscribes at once takes
nothing from the one that comes after it. -/
theorem subscribed_served_after_stopAll :
    let acts : List Act :=
      [.subscribe "pods" "default", .stopAll ["pods:default"],
        .unsubscribe 0, .subscribe "pods" "default"]
    ∃ s' out, run step Sys.init acts = some (s', out)
      ∧ Served s' "pods:default" := by
  intro acts
  have hrun : run step Sys.init acts = some (_, _) := rfl
  exact ⟨_, _, hrun, subscribed_served (by decide) hrun
    (show ⟨"pods:default", false, false⟩ ∈ _ by decide) (by decide)⟩

/-- One that unsubscribes behind the second `Subscribe` gets the new
watcher cleaned up under its subscriber. -/
theorem stale_unsubscribe_cancels :
    let acts : List Act :=
      [.subscribe "pods" "default", .stopAll ["pods:default"],
        .subscribe "pods" "default", .unsubscribe 0, .timerFires 0,
        .cleanup 0]
    ∃ s' out, run step Sys.init acts = some (s', out)
      ∧ s'.subscriptions[1]? = some ⟨"pods:default", false, false⟩
      ∧ s'.watchers.lookup "pods:default" = none
      ∧ s'.loops[1]?
          = some ⟨.watchResourceLoop "pods" "default", true⟩ :=
  ⟨_, _, rfl, by decide, by decide, by decide⟩

-- ======== restarts

/-- Counts do not overflow, and a watcher without subscribers is not
revived on a loop from before the last `RestartAll`. -/
def Renewed (s : Sys) (a : Act) : Prop :=
  ∀ key ∈ a.subscribes, Room s key
    ∧ ∀ w ∈ s.watchers.lookup key, w.refCount ≤ 0 → s.mark ≤ w.cancel

instance (s : Sys) (a : Act) : Decidable (Renewed s a) :=
  inferInstanceAs (Decidable (∀ key ∈ a.subscribes, _
    ∧ ∀ w ∈ s.watchers.lookup key, w.refCount ≤ 0 → s.mark ≤ w.cancel))

/-- A watcher of the key that counts a subscriber is on the `n`-th loop
or a later one. -/
def OnLoop (n : Nat) (s : Sys) (key : String) : Prop :=
  ∀ w, s.watchers.lookup key = some w → 0 < w.refCount → n ≤ w.cancel

/-- What holds between restarts, without a `StopAll`. -/
structure Fresh (n : Nat) (s : Sys) : Prop where
  unstopped : ∀ sub ∈ s.subscriptions, sub.stale = false
  renewed : ∀ key, OnLoop s.mark s key
  before : s.mark ≤ s.loops.length
  since : n ≤ s.mark

/-- Without a `StopAll` no subscriber is stale, so no count goes
wrong. -/
theorem Fresh.faithful {n : Nat} {s : Sys} (hf : Fresh n s) {a : Act}
    (hok : Renewed s a) : Faithful s a := by
  refine ⟨fun key hkey => (hok key hkey).1, ?_⟩
  split
  next i =>
    intro sub hsub hstale
    rw [hf.unstopped sub (List.mem_of_getElem? hsub)] at hstale
    cases hstale
  next => trivial

/-- Subscribing puts the key on a loop from behind the mark. -/
theorem Fresh.subscribeKey {n : Nat} {s : Sys} (hf : Fresh n s)
    {key : String} {watcher : Nat → ResourceWatcher} {launch : Launch}
    (hok : Room s key
      ∧ ∀ w ∈ s.watchers.lookup key, w.refCount ≤ 0 → s.mark ≤ w.cancel)
    (hnew : ∀ ctx, (watcher ctx).cancel = ctx) :
    Fresh n (s.subscribeKey key watcher launch).1 := by
  have hunstopped : ∀ sub ∈ s.subscriptions ++ [⟨key, false, false⟩],
      sub.stale = false := by
    intro sub hsub
    rcases List.mem_append.mp hsub with hold | hlast
    · exact hf.unstopped sub hold
    · rw [List.mem_singleton.mp hlast]
  unfold Sys.subscribeKey
  dsimp only
  split
  next w hl =>
    refine ⟨hunstopped, fun k v hv hpos => ?_, hf.before, hf.since⟩
    rw [FinMap.lookup_insert] at hv
    split at hv
    next =>
      rw [← Option.some.inj hv]
      show s.mark ≤ w.cancel
      by_cases hidle : w.refCount ≤ 0
      · exact hok.2 w hl hidle
      · exact hf.renewed key w hl (by omega)
    next => exact hf.renewed k v hv hpos
  next hl =>
    refine ⟨hunstopped, fun k v hv hpos => ?_, ?_, hf.since⟩
    · rw [FinMap.lookup_insert] at hv
      split at hv
      next =>
        rw [← Option.some.inj hv, hnew]
        exact hf.before
      next => exact hf.renewed k v hv hpos
    · have := hf.before
      show s.mark ≤ (s.loops ++ [_]).length
      rw [List.length_append]
      omega

/-- Unsubscribing leaves the loops alone. -/
theorem Fresh.unsubscribe {n : Nat} {s : Sys} (hi : Inv s)
    (hf : Fresh n s) {i : Nat} {key : String} {stale : Bool}
    (hsub : s.subscriptions[i]? = some ⟨key, stale, false⟩) :
    Fresh n ({ s with subscriptions :=
      s.subscriptions.set i ⟨key, stale, true⟩ }.unsubscribe key) := by
  have hstale : stale = false :=
    hf.unstopped _ (List.mem_of_getElem? hsub)
  have hunstopped : ∀ sub ∈ s.subscriptions.set i ⟨key, stale, true⟩,
      sub.stale = false := by
    intro sub hmem
    rcases List.mem_or_eq_of_mem_set hmem with hold | hset
    · exact hf.unstopped sub hold
    · rw [hset, hstale]
  -- A count that is positive behind `Unsubscribe` was so before.
  have honLoop : ∀ (w w' : ResourceWatcher),
      s.watchers.lookup key = some w → w'.cancel = w.cancel →
      ∀ k, OnLoop s.mark { s with
        watchers := s.watchers.insert key w' } k := by
    intro w w' hl hcancel k v hv hpos
    rw [FinMap.lookup_insert] at hv
    split at hv
    next =>
      rw [← Option.some.inj hv, hcancel]
      refine hf.renewed key w hl ?_
      obtain ⟨hcount, -⟩ := hi.counted hl
      have hlive := live_unsubscribe hsub key
      rw [if_pos ⟨rfl, hstale⟩] at hlive
      omega
    next => exact hf.renewed k v hv hpos
  unfold Sys.unsubscribe
  dsimp only
  split
  next => exact ⟨hunstopped, hf.renewed, hf.before, hf.since⟩
  next w hl =>
    split
    next => exact ⟨hunstopped, honLoop w _ hl rfl, hf.before, hf.since⟩
    next => exact ⟨hunstopped, honLoop w _ hl rfl, hf.before, hf.since⟩

theorem Fresh.cleanup {n : Nat} {s : Sys} (hf : Fresh n s)
    (key : String) : Fresh n (s.cleanup key) := by
  unfold Sys.cleanup
  split
  next => exact hf
  next w hl =>
    split
    next => exact hf
    next =>
      refine ⟨hf.unstopped, fun k v hv hpos => ?_, ?_, hf.since⟩
      · rw [FinMap.lookup_erase] at hv
        split at hv
        next => cases hv
        next => exact hf.renewed k v hv hpos
      · show s.mark ≤ (cancelLoop w.cancel s.loops).length
        rw [cancelLoop_length]
        exact hf.before

/-- Restarting one watcher puts its key on a new loop and leaves the
other keys alone. -/
theorem restartWatcher_spec (s : Sys × List Launch) (key : String) :
    (Sys.restartWatcher s key).1.subscriptions = s.1.subscriptions
    ∧ (Sys.restartWatcher s key).1.mark = s.1.mark
    ∧ s.1.loops.length ≤ (Sys.restartWatcher s key).1.loops.length
    ∧ ∀ n, n ≤ s.1.loops.length →
        ∀ k, k = key ∨ OnLoop n s.1 k →
          OnLoop n (Sys.restartWatcher s key).1 k := by
  unfold Sys.restartWatcher
  split
  next hl =>
    refine ⟨rfl, rfl, le_refl _, fun n hn k hk w hw => ?_⟩
    rcases hk with rfl | hk
    · rw [hl] at hw
      cases hw
    · exact hk w hw
  next w hl =>
    split
    next hidle =>
      refine ⟨rfl, rfl, le_refl _, fun n hn k hk v hv hpos => ?_⟩
      rcases hk with rfl | hk
      · rw [hl] at hv
        rw [← Option.some.inj hv] at hpos
        omega
      · exact hk v hv hpos
    next =>
      refine ⟨rfl, rfl, ?_, fun n hn k hk v hv hpos => ?_⟩
      · show _ ≤ (cancelLoop w.cancel s.1.loops ++ [_]).length
        rw [List.length_append, cancelLoop_length]
        omega
      · rw [FinMap.lookup_insert] at hv
        split at hv
        next =>
          rw [← Option.some.inj hv]
          exact hn
        next hne =>
          rcases hk with hk | hk
          · exact absurd hk hne
          · exact hk v hv hpos

/-- `RestartAll` puts every key that counts a subscriber on a new
loop. -/
theorem restartAll_spec {s : Sys} {order : List String}
    (horder : FinMap.Enumerates order s.watchers) :
    (s.restartAll order).1.subscriptions = s.subscriptions
    ∧ (s.restartAll order).1.mark = s.loops.length
    ∧ s.loops.length ≤ (s.restartAll order).1.loops.length
    ∧ ∀ k, OnLoop s.loops.length (s.restartAll order).1 k := by
  have hfold : ∀ (order : List String) (t : Sys × List Launch),
      (order.foldl Sys.restartWatcher t).1.subscriptions
          = t.1.subscriptions
      ∧ (order.foldl Sys.restartWatcher t).1.mark = t.1.mark
      ∧ t.1.loops.length
          ≤ (order.foldl Sys.restartWatcher t).1.loops.length
      ∧ ∀ n, n ≤ t.1.loops.length → ∀ k, k ∈ order ∨ OnLoop n t.1 k →
          OnLoop n (order.foldl Sys.restartWatcher t).1 k := by
    intro order
    induction order with
    | nil =>
      refine fun t => ⟨rfl, rfl, le_refl _, fun n hn k hk => ?_⟩
      rcases hk with hk | hk
      · cases hk
      · exact hk
    | cons key order ih =>
      intro t
      obtain ⟨hsubs, hmark, hlen, hon⟩ := restartWatcher_spec t key
      obtain ⟨hsubs', hmark', hlen', hon'⟩ :=
        ih (Sys.restartWatcher t key)
      refine ⟨hsubs'.trans hsubs, hmark'.trans hmark, hlen.trans hlen',
        fun n hn k hk => hon' n (hn.trans hlen) k ?_⟩
      rcases hk with hk | hk
      · rcases List.mem_cons.mp hk with rfl | hk
        · exact Or.inr (hon n hn k (Or.inl rfl))
        · exact Or.inl hk
      · exact Or.inr (hon n hn k (Or.inr hk))
  obtain ⟨hsubs, hmark, hlen, hon⟩ :=
    hfold order ({ s with mark := s.loops.length }, [])
  refine ⟨hsubs, hmark, hlen, fun k => hon _ (le_refl _) k ?_⟩
  by_cases hk : k ∈ order
  · exact Or.inl hk
  · refine Or.inr fun w hw => absurd ?_ hk
    rw [horder.mem_iff, ← Finmap.lookup_isSome]
    exact Option.isSome_iff_exists.mpr ⟨w, hw⟩

theorem Fresh.restartAll {n : Nat} {s : Sys} (hf : Fresh n s)
    {order : List String} (horder : FinMap.Enumerates order s.watchers) :
    Fresh s.loops.length (s.restartAll order).1 := by
  obtain ⟨hsubs, hmark, hlen, hon⟩ := restartAll_spec horder
  refine ⟨?_, ?_, ?_, ?_⟩
  · rw [hsubs]
    exact hf.unstopped
  · rw [hmark]
    exact hon
  · rw [hmark]
    exact hlen
  · rw [hmark]

/-- The guard of a run that stays clear of `StopAll`. -/
def Restarts (s : Sys) (a : Act) : Prop :=
  Renewed s a ∧ ∀ order, a ≠ .stopAll order

/-- Every such step keeps the subscribers on loops from behind the last
`RestartAll`. -/
theorem step_fresh {n : Nat} {a : Act} {s s' : Sys} {o : List Launch}
    (hi : Inv s) (hf : Fresh n s) (hok : Restarts s a)
    (h : step a s = some (s', o)) : Fresh n s' := by
  obtain ⟨hrenewed, hstop⟩ := hok
  cases a with
  | subscribe resourceType ns =>
    rw [step, Option.some.injEq] at h
    rw [show s' = (s.subscribe resourceType ns).1 from
      (congrArg Prod.fst h).symm]
    exact hf.subscribeKey (hrenewed _ rfl) fun _ => rfl
  | subscribeCRD group version resource ns =>
    rw [step, Option.some.injEq] at h
    rw [show s' = (s.subscribeCRD group version resource ns).1 from
      (congrArg Prod.fst h).symm]
    exact hf.subscribeKey (hrenewed _ rfl) fun _ => rfl
  | unsubscribe i =>
    simp only [step] at h
    split at h
    next key stale hsub =>
      injection h with h
      injection h with h
      rw [← h]
      exact hf.unsubscribe hi hsub
    next => cases h
  | timerFires i =>
    simp only [step, Option.map_eq_some_iff, Prod.mk.injEq] at h
    obtain ⟨ts, -, rfl, -⟩ := h
    exact ⟨hf.unstopped, hf.renewed, hf.before, hf.since⟩
  | cleanup i =>
    simp only [step, Option.map_eq_some_iff, Prod.mk.injEq] at h
    obtain ⟨⟨key, ts⟩, -, rfl, -⟩ := h
    have hf' : Fresh n { s with timers := ts } :=
      ⟨hf.unstopped, hf.renewed, hf.before, hf.since⟩
    exact hf'.cleanup key
  | stopAll order => exact absurd rfl (hstop order)
  | restartAll order =>
    simp only [step] at h
    split at h
    next horder =>
      injection h with h
      rw [show s' = (s.restartAll order).1 from (congrArg Prod.fst h).symm]
      have hf' := hf.restartAll horder
      exact ⟨hf'.unstopped, hf'.renewed, hf'.before,
        (hf.since.trans hf.before).trans hf'.since⟩
    next => cases h

theorem run_fresh {n : Nat} {acts : List Act} {s s' : Sys}
    {out : List Launch} (hi : Inv s) (hf : Fresh n s)
    (hok : Along step Restarts s acts)
    (hrun : run step s acts = some (s', out)) : Inv s' ∧ Fresh n s' := by
  refine run_invariant (I := fun s => Inv s ∧ Fresh n s) ?_ ⟨hi, hf⟩ hok
    hrun
  rintro a s s' o ⟨hi, hf⟩ hok h
  exact ⟨step_inv hi (hf.faithful hok.1) h, step_fresh hi hf hok h⟩

theorem fresh_init : Fresh 0 Sys.init where
  unstopped _ h := by cases h
  renewed key w hw := by simp [Sys.init] at hw
  before := le_refl 0
  since := le_refl 0

/-- In a run without `StopAll` that revives no watcher from before a
`RestartAll`, every live subscriber is served by a loop that this
`RestartAll` or something behind it started. -/
theorem restarted_loops {pre post : List Act} {order : List String}
    (hok : Along step Renewed Sys.init (pre ++ .restartAll order :: post))
    (hstop : ∀ order', .stopAll order' ∉ pre ++ .restartAll order :: post)
    {s₁ s' : Sys} {o₁ out : List Launch}
    (hpre : run step Sys.init pre = some (s₁, o₁))
    (hrun : run step Sys.init (pre ++ .restartAll order :: post)
      = some (s', out))
    {sub : Subscription} (hsub : sub ∈ s'.subscriptions)
    (hlive : sub.Live) :
    ∃ w, s'.watchers.lookup sub.key = some w
      ∧ s₁.loops.length ≤ w.cancel ∧ Runs s'.loops w.cancel sub.key := by
  have hguard : Along step Restarts Sys.init
      (pre ++ .restartAll order :: post) :=
    hok.and (along_of_forall fun a ha order' h => hstop order' (h ▸ ha))
  obtain ⟨hguard₁, hguard₂⟩ := hguard.append hpre
  obtain ⟨hi₁, hf₁⟩ := run_fresh inv_init fresh_init hguard₁ hpre
  obtain ⟨s₁', o₁', o₂, hpre', hrest, -⟩ := run_append_iff.mp hrun
  rw [hpre, Option.some.injEq, Prod.mk.injEq] at hpre'
  obtain ⟨rfl, rfl⟩ := hpre'
  obtain ⟨s₂, o₂', o₃, hstep, hpost, -⟩ := run_cons_iff.mp hrest
  obtain ⟨hok₂, hguard₃⟩ := hguard₂ s₂ o₂' hstep
  have hi₂ := step_inv hi₁ (hf₁.faithful hok₂.1) hstep
  have hf₂ : Fresh s₁.loops.length s₂ := by
    simp only [step] at hstep
    split at hstep
    next horder =>
      injection hstep with hstep
      rw [show s₂ = (s₁.restartAll order).1 from
        (congrArg Prod.fst hstep).symm]
      exact hf₁.restartAll horder
    next => cases hstep
  obtain ⟨hi', hf'⟩ := run_fresh hi₂ hf₂ hguard₃ hpost
  obtain ⟨w, hl, hpos, hruns⟩ := hi'.served hsub hlive
  exact ⟨w, hl, hf'.since.trans (hf'.renewed _ w hl (by omega)), hruns⟩

/-- A subscriber that is there during the restart, and one that comes
behind it. -/
theorem restarted_loops_subscribed :
    let pre : List Act := [.subscribe "pods" "default"]
    let post : List Act := [.subscribe "pods" "default", .unsubscribe 0]
    let acts := pre ++ .restartAll ["pods:default"] :: post
    ∃ s₁ o₁ s' out, run step Sys.init pre = some (s₁, o₁)
      ∧ run step Sys.init acts = some (s', out)
      ∧ ∃ w, s'.watchers.lookup "pods:default" = some w
        ∧ s₁.loops.length ≤ w.cancel
        ∧ Runs s'.loops w.cancel "pods:default" := by
  intro pre post acts
  have hpre : run step Sys.init pre = some (_, _) := rfl
  have hrun : run step Sys.init acts = some (_, _) := rfl
  exact ⟨_, _, _, _, hpre, hrun, restarted_loops (by decide)
    (by simp [pre, post]) hpre hrun
    (show ⟨"pods:default", false, false⟩ ∈ _ by decide) (by decide)⟩

/-- A watcher without subscribers is skipped by `RestartAll`, and then
revived on the old loop. -/
theorem restart_misses_idle :
    let pre : List Act := [.subscribe "pods" "default", .unsubscribe 0]
    let acts := pre ++ .restartAll ["pods:default"]
      :: [.subscribe "pods" "default"]
    ∃ s₁ o₁ s' out w, run step Sys.init pre = some (s₁, o₁)
      ∧ run step Sys.init acts = some (s', out)
      ∧ s'.subscriptions[1]? = some ⟨"pods:default", false, false⟩
      ∧ s'.watchers.lookup "pods:default" = some w
      ∧ w.cancel < s₁.loops.length :=
  ⟨_, _, _, _, _, rfl, rfl, by decide, rfl, by decide⟩

end WatcherManager
