/-
Notices about pods (`usePodNotifications` in
frontend/src/hooks/usePodNotifications.tsx).

# The hook

The effect runs on each list of pods. It compares the list with the one
before it: a pod with more restarts gives a notice, a pod that is gone is
recorded under the key of its owner, and a pod that comes takes the record
of its owner, if that is not too old. An empty list makes the hook forget
the pods, but not the records. Notices are on, and no pod is filtered out;
how a batch sounds is left out.

# The clock

`Date.now()` is a reading of a clock that does not go back. The readings
are numbered, so that a run has any clock it likes.

# What is added

What `PodSnapshot`, `DeletionEntry` and `Notice` say beyond the source (the
pod, where it was seen last and by which reading it was found gone) and the
history are there for the statement: no operation reads them.
-/
import Kubikles.Lib.Keyed
import Kubikles.Lib.Machine
import Kubikles.Sidebar.Layout
import Mathlib.Algebra.GroupWithZero.Nat
import Mathlib.Data.List.Induction
import Mathlib.Data.Int.ConditionallyCompleteOrder
import Mathlib.Order.ConditionallyCompleteLattice.Basic

namespace PodNotifications

/-- `K8sOwnerReference`. -/
structure OwnerReference where
  kind : String
  name : String
deriving DecidableEq

/-- `K8sContainerStatus`; a count that is absent is 0. -/
structure ContainerStatus where
  name : String
  restartCount : Nat := 0
deriving DecidableEq

/-- `K8sPod`; a text that is absent is empty. -/
structure Pod where
  uid : String
  name : String
  ns : String := ""
  ownerReferences : List OwnerReference := []
  containerStatuses : List ContainerStatus := []
deriving DecidableEq

def getOwnerKey (pod : Pod) : Option String :=
  match pod.ownerReferences with
  | [] => none
  | owner :: _ => some (owner.kind ++ "/" ++ owner.name)

def getTotalRestarts (pod : Pod) : Nat :=
  (pod.containerStatuses.map (·.restartCount)).sum

def redeployWindowMs : Int := 30000

-- ======== snapshots

/-- `PodSnapshot`, with the pod itself. -/
structure PodSnapshot where
  total : Nat
  containerStatuses : List ContainerStatus
  name : String
  ns : String
  ownerKey : Option String
  pod : Pod
deriving DecidableEq

def snapshotOf (pod : Pod) : PodSnapshot :=
  { total := getTotalRestarts pod
    containerStatuses := pod.containerStatuses
    name := if pod.name = "" then "unknown" else pod.name
    ns := pod.ns
    ownerKey := getOwnerKey pod
    pod := pod }

/-- A `Map` by uid, in the order of its entries. -/
abbrev Snapshots := List (String × PodSnapshot)

def Snapshots.get (m : Snapshots) (uid : String) : Option PodSnapshot :=
  (Keyed.find Prod.fst m uid).map Prod.snd

def Snapshots.set (m : Snapshots) (uid : String) (p : PodSnapshot) :
    Snapshots :=
  if (m.get uid).isSome then
    m.map fun e => if e.1 = uid then (uid, p) else e
  else m ++ [(uid, p)]

def tracked (pods : List Pod) : List Pod := pods.filter (·.uid ≠ "")

def uids (pods : List Pod) : List String := (tracked pods).map (·.uid)

def snapshot (pods : List Pod) : Snapshots :=
  (tracked pods).foldl (fun m pod => m.set pod.uid (snapshotOf pod)) []

-- ======== notices

/-- `DeletionEntry`, with the pod, the place of the list that it was seen
in last and the reading by which it was found gone. -/
structure DeletionEntry where
  podName : String
  ns : String
  timestamp : Int
  pod : Pod
  seenAt : Nat
  reading : Nat
deriving DecidableEq

/-- A notice, with the place of the list of pods that it is about, the uid
of the pod, and, of a redeploy, the reading that let it pass and the record
it took. -/
inductive Notice where
  | restart (place : Nat) (uid message : String)
  | redeploy (place : Nat) (pod : Pod) (reading : Nat)
      (deletion : DeletionEntry) (message : String)
deriving DecidableEq

/-- What a container had before, or nothing where the object has something
that is not a count under the name. -/
def oldCount (old : List ContainerStatus) (name : String) : Option Nat :=
  if name = "__proto__" then none
  else
    match (old.filter (·.name = name)).getLast? with
    | some cs => some cs.restartCount
    | none =>
      if Sidebar.inheritedNames.contains name then none else some 0

def restarted (old : List ContainerStatus) (cs : ContainerStatus) : Bool :=
  (oldCount old cs.name).any (· < cs.restartCount)

def containerInfo (old curr : PodSnapshot) : String :=
  let found := curr.containerStatuses.filter
    (restarted old.containerStatuses)
  if 0 < found.length then
    ", ".intercalate (found.map fun c =>
      c.name ++ " (" ++ toString c.restartCount ++ ")")
  else "total: " ++ toString curr.total

def restartMessage (old curr : PodSnapshot) : String :=
  curr.name ++ " in " ++ curr.ns ++ " restarted — "
    ++ containerInfo old curr

def ownerKind (ownerKey : String) : String :=
  String.ofList (ownerKey.toList.takeWhile (· ≠ '/'))

def ownerName (ownerKey : String) : String :=
  String.ofList ((ownerKey.toList.dropWhile (· ≠ '/')).drop 1)

def redeployMessage (name podName ownerKey : String) : String :=
  name ++ " replaced " ++ podName ++ " (" ++ ownerKind ownerKey ++ ": "
    ++ ownerName ownerKey ++ ")"

-- ======== loops

/-- A list of pods that the hook was given, with the numbers of the
readings before it and after it. -/
structure Fed where
  pods : List Pod
  before : Nat
  after : Nat
deriving DecidableEq

/-- The records: a `Map` by the key of the owner. -/
abbrev Deletions := String → Option DeletionEntry

def restartOf (place : Nat) (prev : Snapshots)
    (e : String × PodSnapshot) : Option Notice :=
  match prev.get e.1 with
  | none => none
  | some old =>
    if old.total < e.2.total then
      some (.restart place e.1 (restartMessage old e.2))
    else none

def restarts (place : Nat) (prev current : Snapshots) : List Notice :=
  current.filterMap (restartOf place prev)

section Loops

variable (clock : Nat → Int)

def deletionOf (seenAt reading : Nat) (old : PodSnapshot) :
    DeletionEntry :=
  { podName := old.name
    ns := old.ns
    timestamp := clock reading
    pod := old.pod
    seenAt := seenAt
    reading := reading }

/-- A pod that was there is recorded if it is gone. -/
def recordDeletion (seenAt : Nat) (current : Snapshots)
    (acc : Deletions × Nat) (e : String × PodSnapshot) :
    Deletions × Nat :=
  if (current.get e.1).isSome then acc
  else
    match e.2.ownerKey with
    | none => acc
    | some key =>
      (fun k => if k = key then some (deletionOf clock seenAt acc.2 e.2)
        else acc.1 k, acc.2 + 1)

/-- A pod that is there takes a record if it is new. -/
def detectRedeploy (place : Nat) (prev : Snapshots)
    (acc : Deletions × Nat × List Notice) (e : String × PodSnapshot) :
    Deletions × Nat × List Notice :=
  if (prev.get e.1).isSome then acc
  else
    match e.2.ownerKey with
    | none => acc
    | some key =>
      match acc.1 key with
      | none => acc
      | some deletion =>
        if clock acc.2.1 - deletion.timestamp < redeployWindowMs then
          (fun k => if k = key then none else acc.1 k,
            acc.2.1 + 1,
            acc.2.2 ++ [.redeploy place e.2.pod acc.2.1 deletion
              (redeployMessage e.2.name deletion.podName key)])
        else (acc.1, acc.2.1 + 1, acc.2.2)

/-- Records that are stale are dropped. -/
def clean (now : Int) (m : Deletions) : Deletions := fun key =>
  (m key).filter fun entry => now - entry.timestamp ≤ redeployWindowMs * 2

end Loops

-- ======== the hook

structure State where
  prevPods : Option Snapshots
  recentDeletions : Deletions
  /-- How many readings there were. -/
  reads : Nat
  fed : List Fed
  /-- The pods that redeploys named as gone. -/
  named : List String

/-- Before the first list. -/
def start : State :=
  { prevPods := none
    recentDeletions := fun _ => none
    reads := 0
    fed := []
    named := [] }

def Notice.gone : Notice → Option String
  | .restart .. => none
  | .redeploy _ _ _ deletion _ => some deletion.pod.uid

def effect (clock : Nat → Int) (pods : List Pod) (s : State) :
    State × List Notice :=
  let place := s.fed.length
  if pods = [] then
    ({ s with
        prevPods := s.prevPods.map fun _ => []
        fed := s.fed ++ [⟨pods, s.reads, s.reads⟩] }, [])
  else
    let current := snapshot pods
    match s.prevPods with
    | none =>
      ({ s with
          prevPods := some current
          fed := s.fed ++ [⟨pods, s.reads, s.reads⟩] }, [])
    | some prev =>
      let recorded := prev.foldl
        (recordDeletion clock (place - 1) current)
        (s.recentDeletions, s.reads)
      let detected := current.foldl (detectRedeploy clock place prev)
        (recorded.1, recorded.2, [])
      ({ prevPods := some current
         recentDeletions := clean (clock detected.2.1) detected.1
         reads := detected.2.1 + 1
         fed := s.fed ++ [⟨pods, s.reads, detected.2.1 + 1⟩]
         named := s.named ++ detected.2.2.filterMap Notice.gone },
        restarts place prev current ++ detected.2.2)

def hook (clock : Nat → Int) : Machine.Step State (List Pod) Notice :=
  fun pods s =>
    if (uids pods).Nodup then some (effect clock pods s) else none

-- ======== the statement

def Appeared (fed : List Fed) (place : Nat) (p : Pod) (reading : Nat) :
    Prop :=
  ∃ i f g, place = i + 1 ∧ fed[i]? = some f ∧ fed[i + 1]? = some g
    ∧ p ∈ tracked g.pods ∧ p.uid ∉ uids f.pods
    ∧ g.before ≤ reading ∧ reading < g.after

/-- A pod was in the list at this place and not in the next one, which is
when a reading was made. -/
def Disappeared (fed : List Fed) (seenAt : Nat) (d : Pod) (reading : Nat) :
    Prop :=
  ∃ f g, fed[seenAt]? = some f ∧ fed[seenAt + 1]? = some g
    ∧ d ∈ tracked f.pods ∧ d.uid ∉ uids g.pods
    ∧ g.before ≤ reading ∧ reading < g.after

/-- Two pods have an owner of the same kind and name. -/
def SameOwner (p d : Pod) : Prop :=
  ∃ o o', p.ownerReferences.head? = some o
    ∧ d.ownerReferences.head? = some o'
    ∧ o.kind = o'.kind ∧ o.name = o'.name

def Unseen (fed : List Fed) (seenAt : Nat) (p : Pod) : Prop :=
  ∀ j ≤ seenAt, ∀ f, fed[j]? = some f → p.uid ∉ uids f.pods

/-- A redeploy tells the truth. -/
structure Truthful (clock : Nat → Int) (fed : List Fed) (place : Nat)
    (p : Pod) (reading : Nat) (deletion : DeletionEntry)
    (message : String) : Prop where
  appeared : Appeared fed place p reading
  disappeared : Disappeared fed deletion.seenAt deletion.pod
    deletion.reading
  order : deletion.reading ≤ reading
  recent : clock reading - clock deletion.reading < redeployWindowMs
  owner : SameOwner p deletion.pod
  ns : p.ns = deletion.pod.ns
  unseen : Unseen fed deletion.seenAt p
  text : ∃ key, getOwnerKey p = some key ∧ message
    = redeployMessage (snapshotOf p).name (snapshotOf deletion.pod).name key

/-- The redeploys tell the truth, and no two of them name one pod as
gone. -/
structure RedeploysRight (clock : Nat → Int) (fed : List Fed)
    (out : List Notice) : Prop where
  truthful : ∀ place p reading deletion message,
    .redeploy place p reading deletion message ∈ out →
      Truthful clock fed place p reading deletion message
  once : (out.filterMap Notice.gone).Nodup

/-- A pod is in both lists, with more restarts in the second. -/
def RestartedIn (before now : List Pod) (uid : String) : Prop :=
  ∃ q ∈ tracked before, ∃ p ∈ tracked now,
    q.uid = uid ∧ p.uid = uid ∧ getTotalRestarts q < getTotalRestarts p

instance (before now : List Pod) (uid : String) :
    Decidable (RestartedIn before now uid) := by
  unfold RestartedIn
  infer_instance

/-- A notice is about a restart of this pod in the list at this place. -/
def Notice.isRestart (place : Nat) (uid : String) : Notice → Bool
  | .restart place' uid' _ => place' = place && uid' = uid
  | .redeploy .. => false

/-- Of two lists in a row that have pods, the second has one restart for
each pod that restarted and none for another. -/
def RestartsRight (fed : List Fed) (out : List Notice) : Prop :=
  ∀ i f g, fed[i]? = some f → fed[i + 1]? = some g →
    f.pods ≠ [] → g.pods ≠ [] → ∀ uid,
      out.countP (Notice.isRestart (i + 1) uid)
        = if RestartedIn f.pods g.pods uid then 1 else 0

-- ======== the condition

def newcomer (prev pods : List Pod) (key : String) : Option Pod :=
  (tracked pods).find? fun p =>
    !(uids prev).contains p.uid && getOwnerKey p = some key

def leaver (prev pods : List Pod) (key : String) : Option Pod :=
  ((tracked prev).filter fun d =>
    !(uids pods).contains d.uid && getOwnerKey d = some key).getLast?

def State.last (s : State) : List Pod :=
  (s.fed.getLast?.map (·.pods)).getD []

/-- A pod comes under the key of one that goes, or of one that is recorded
and was not too old at the first reading. -/
def Meets (clock : Nat → Int) (s : State) (pods : List Pod) (key : String)
    (p d : Pod) (seenAt : Nat) : Prop :=
  newcomer s.last pods key = some p ∧
    match leaver s.last pods key with
    | some q => d = q ∧ seenAt = s.fed.length - 1
    | none => ∃ e, s.recentDeletions key = some e
        ∧ clock s.reads - e.timestamp < redeployWindowMs
        ∧ d = e.pod ∧ seenAt = e.seenAt

/-- The pods that meet under a key are of one owner and namespace, the one
that comes was not there before the other one went, and the one that went
was not named before and has not gone under another key as well. -/
structure Careful (clock : Nat → Int) (s : State) (pods : List Pod) :
    Prop where
  owner : ∀ key p d seenAt, Meets clock s pods key p d seenAt →
    SameOwner p d
  ns : ∀ key p d seenAt, Meets clock s pods key p d seenAt → p.ns = d.ns
  unseen : ∀ key p d seenAt, Meets clock s pods key p d seenAt →
    Unseen s.fed seenAt p
  named : ∀ key p d seenAt, Meets clock s pods key p d seenAt →
    d.uid ∉ s.named
  apart : ∀ key key' p p' d d' seenAt seenAt',
    Meets clock s pods key p d seenAt →
      Meets clock s pods key' p' d' seenAt' → d.uid = d'.uid → key = key'

-- ======== snapshots

def entryOf (p : Pod) : String × PodSnapshot := (p.uid, snapshotOf p)

theorem snapshot_eq {pods : List Pod} (h : (uids pods).Nodup) :
    snapshot pods = (tracked pods).map entryOf := by
  unfold snapshot
  unfold uids at h
  generalize tracked pods = l at h
  induction l using List.reverseRecOn with
  | nil => rfl
  | append_singleton l p ih =>
    rw [List.map_append, List.nodup_append] at h
    obtain ⟨hl, -, hp⟩ := h
    rw [List.foldl_append, ih hl, List.foldl_cons, List.foldl_nil,
      List.map_append]
    unfold Snapshots.set
    rw [if_neg]
    · rfl
    · have hnone : Keyed.find Prod.fst (l.map entryOf) p.uid = none := by
        rw [Keyed.find_eq_none_iff]
        intro e he
        obtain ⟨q, hq, rfl⟩ := List.mem_map.mp he
        exact hp _ (List.mem_map_of_mem hq) _ (List.mem_singleton.mpr rfl)
      simp [Snapshots.get, hnone]

theorem get_snapshot {pods : List Pod} (h : (uids pods).Nodup)
    (uid : String) :
    (snapshot pods).get uid
      = ((tracked pods).find? (·.uid = uid)).map snapshotOf := by
  rw [snapshot_eq h, Snapshots.get, Keyed.find_map, Option.map_map]
  rfl

theorem get_snapshot_isSome {pods : List Pod} (h : (uids pods).Nodup)
    (uid : String) :
    ((snapshot pods).get uid).isSome = (uids pods).contains uid := by
  rw [get_snapshot h, Option.isSome_map, Bool.eq_iff_iff,
    List.find?_isSome, List.contains_iff_mem, uids, List.mem_map]
  simp

-- ======== the loops

section Specs

variable {clock : Nat → Int}

def goes (pods : List Pod) (key : String) (d : Pod) : Bool :=
  !(uids pods).contains d.uid && getOwnerKey d = some key

def comes (prev : List Pod) (key : String) (p : Pod) : Bool :=
  !(uids prev).contains p.uid && getOwnerKey p = some key

theorem recordDeletion_cases {pods : List Pod} (h : (uids pods).Nodup)
    (clock : Nat → Int) (seenAt : Nat) (m : Deletions) (n : Nat)
    (d : Pod) :
    ((∀ key, goes pods key d = false)
        ∧ recordDeletion clock seenAt (snapshot pods) (m, n) (entryOf d)
          = (m, n))
      ∨ ∃ key, (∀ k, goes pods k d = decide (k = key))
        ∧ recordDeletion clock seenAt (snapshot pods) (m, n) (entryOf d)
          = (fun k => if k = key then
              some (deletionOf clock seenAt n (snapshotOf d)) else m k,
            n + 1) := by
  unfold recordDeletion goes
  rw [show (entryOf d).1 = d.uid from rfl, get_snapshot_isSome h]
  cases (uids pods).contains d.uid with
  | true => exact .inl ⟨fun _ => rfl, rfl⟩
  | false =>
    rw [show (entryOf d).2.ownerKey = getOwnerKey d from rfl]
    cases getOwnerKey d with
    | none => exact .inl ⟨fun _ => by simp, rfl⟩
    | some key => exact .inr ⟨key, fun k => by simp [eq_comm], rfl⟩

/-- What is recorded under a key, where this pod goes last: the pod, by some
reading of the loop, or what was. -/
def RecordedAs (clock : Nat → Int) (seenAt n n' : Nat)
    (before after : Option DeletionEntry) : Option Pod → Prop
  | none => after = before
  | some d => ∃ i, n ≤ i ∧ i < n'
      ∧ after = some (deletionOf clock seenAt i (snapshotOf d))

/-- Under each key the pod that goes last is recorded. -/
theorem recorded {pods : List Pod} (h : (uids pods).Nodup)
    (clock : Nat → Int) (seenAt : Nat) (m : Deletions) (n : Nat)
    (l : List Pod) :
    let r := (l.map entryOf).foldl
      (recordDeletion clock seenAt (snapshot pods)) (m, n)
    n ≤ r.2 ∧ ∀ key, RecordedAs clock seenAt n r.2 (m key) (r.1 key)
      (l.filter (goes pods key)).getLast? := by
  induction l using List.reverseRecOn with
  | nil => exact ⟨Nat.le_refl n, fun _ => rfl⟩
  | append_singleton l d ih =>
    rw [List.map_append, List.foldl_append]
    generalize (l.map entryOf).foldl
      (recordDeletion clock seenAt (snapshot pods)) (m, n) = r at ih
    obtain ⟨m', n'⟩ := r
    obtain ⟨hn, ih⟩ := ih
    simp only [List.map_cons, List.map_nil, List.foldl_cons,
      List.foldl_nil, List.filter_append, List.filter_singleton]
    rcases recordDeletion_cases h clock seenAt m' n' d with
      ⟨hgoes, heq⟩ | ⟨key, hgoes, heq⟩
    · rw [heq]
      refine ⟨hn, fun key => ?_⟩
      rw [hgoes key]
      simpa using ih key
    · rw [heq]
      refine ⟨Nat.le_succ_of_le hn, fun k => ?_⟩
      rw [hgoes k]
      by_cases hk : k = key
      · subst hk
        simp only [decide_true, cond_true, List.getLast?_concat,
          if_true]
        exact ⟨n', hn, Nat.lt_succ_self n', rfl⟩
      · have hold := ih k
        simp only [hk, decide_false, cond_false, if_false,
          List.append_nil]
        cases hlast : (l.filter (goes pods k)).getLast? with
        | none =>
          rw [hlast] at hold
          exact hold
        | some d' =>
          rw [hlast] at hold
          obtain ⟨i, hi, hlt, hi'⟩ := hold
          exact ⟨i, hi, Nat.lt_succ_of_lt hlt, hi'⟩

def Notice.key : Notice → Option String
  | .restart .. => none
  | .redeploy _ p _ _ _ => getOwnerKey p

/-- A redeploy of the loop: the first that comes under its key takes what
was recorded there, by a reading at which it is not too old. -/
def Takes (clock : Nat → Int) (place : Nat) (prev l : List Pod)
    (m : Deletions) (n n' : Nat) (c : Notice) : Prop :=
  ∃ key p e i, l.find? (comes prev key) = some p ∧ m key = some e
    ∧ n ≤ i ∧ i < n' ∧ clock i - e.timestamp < redeployWindowMs
    ∧ c = .redeploy place p i e
        (redeployMessage (snapshotOf p).name e.podName key)

/-- What the loop over the pods that are there comes to. -/
structure Detected (clock : Nat → Int) (place : Nat) (prev l : List Pod)
    (m : Deletions) (n : Nat) (r : Deletions × Nat × List Notice) :
    Prop where
  reads : n ≤ r.2.1
  left : ∀ key e, r.1 key = some e → m key = some e
    ∧ ((∃ p ∈ l, comes prev key p = true) →
        redeployWindowMs ≤ clock r.2.1 - e.timestamp)
  takes : ∀ c ∈ r.2.2, Takes clock place prev l m n r.2.1 c
  taken : ∀ c ∈ r.2.2, ∀ key, c.key = some key → r.1 key = none
  keys : (r.2.2.map Notice.key).Nodup

theorem detectRedeploy_cases {prev : List Pod} (h : (uids prev).Nodup)
    (clock : Nat → Int) (place : Nat)
    (r : Deletions × Nat × List Notice) (p : Pod) :
    ((∀ key, comes prev key p = true → r.1 key = none)
        ∧ detectRedeploy clock place (snapshot prev) r (entryOf p) = r)
      ∨ ∃ key e, (∀ k, comes prev k p = decide (k = key))
        ∧ r.1 key = some e
        ∧ detectRedeploy clock place (snapshot prev) r (entryOf p)
          = if clock r.2.1 - e.timestamp < redeployWindowMs then
              (fun k => if k = key then none else r.1 k, r.2.1 + 1,
                r.2.2 ++ [.redeploy place p r.2.1 e
                  (redeployMessage (snapshotOf p).name e.podName key)])
            else (r.1, r.2.1 + 1, r.2.2) := by
  unfold detectRedeploy comes
  rw [show (entryOf p).1 = p.uid from rfl, get_snapshot_isSome h]
  cases (uids prev).contains p.uid with
  | true => exact .inl ⟨fun _ hf => (by cases hf), rfl⟩
  | false =>
    rw [show (entryOf p).2.ownerKey = getOwnerKey p from rfl]
    cases hkey : getOwnerKey p with
    | none => exact .inl ⟨fun _ hf => (by simp at hf), rfl⟩
    | some key =>
      cases he : r.1 key with
      | none =>
        refine .inl ⟨fun k hk => ?_, by simp [he]⟩
        obtain rfl : key = k := by simpa using hk
        exact he
      | some e =>
        refine .inr ⟨key, e, fun k => by simp [eq_comm], he, ?_⟩
        simp [he, entryOf, snapshotOf]

theorem Takes.mono {place : Nat} {prev l : List Pod} {m : Deletions}
    {n n' n'' : Nat} {c : Notice} (h : Takes clock place prev l m n n' c)
    (hn : n' ≤ n'') (l' : List Pod) :
    Takes clock place prev (l ++ l') m n n'' c := by
  obtain ⟨key, p, e, i, hfind, he, hi, hlt, hrecent, rfl⟩ := h
  refine ⟨key, p, e, i, ?_, he, hi, Nat.lt_of_lt_of_le hlt hn, hrecent,
    rfl⟩
  rw [List.find?_append, hfind]
  rfl

/-- Only the first pod that comes under a key may take its record. -/
theorem detected {prev : List Pod} (h : (uids prev).Nodup)
    (hclock : Monotone clock) (place : Nat) (m : Deletions) (n : Nat)
    (l : List Pod) :
    Detected clock place prev l m n ((l.map entryOf).foldl
      (detectRedeploy clock place (snapshot prev)) (m, n, [])) := by
  induction l using List.reverseRecOn with
  | nil =>
    refine ⟨Nat.le_refl n, fun _ _ he => ⟨he, fun ⟨_, hp, _⟩ => ?_⟩,
      fun _ hc => ?_, fun _ hc => ?_, List.nodup_nil⟩
    · cases hp
    · cases hc
    · cases hc
  | append_singleton l p ih =>
    rw [List.map_append, List.foldl_append]
    generalize (l.map entryOf).foldl
      (detectRedeploy clock place (snapshot prev)) (m, n, []) = r at ih
    simp only [List.map_cons, List.map_nil, List.foldl_cons,
      List.foldl_nil]
    have hstep : clock r.2.1 ≤ clock (r.2.1 + 1) :=
      hclock (Nat.le_succ _)
    rcases detectRedeploy_cases h clock place r p with
      ⟨hcomes, heq⟩ | ⟨key, e, hcomes, he, heq⟩
    · rw [heq]
      refine ⟨ih.reads, fun k e he => ?_, fun c hc =>
        (ih.takes c hc).mono (Nat.le_refl _) [p], ih.taken, ih.keys⟩
      refine ⟨(ih.left k e he).1, fun ⟨q, hq, hk⟩ => ?_⟩
      rcases List.mem_append.mp hq with hq | hq
      · exact (ih.left k e he).2 ⟨q, hq, hk⟩
      · obtain rfl := List.mem_singleton.mp hq
        rw [hcomes k hk] at he
        cases he
    rw [heq]
    have hkey : getOwnerKey p = some key := by
      have hk := hcomes key
      simp only [comes, decide_true, Bool.and_eq_true,
        decide_eq_true_eq] at hk
      exact hk.2
    split
    case isTrue hrecent =>
      have hfirst : l.find? (comes prev key) = none := by
        rw [List.find?_eq_none]
        intro q hq hk
        have hold := (ih.left key e he).2 ⟨q, hq, hk⟩
        omega
      refine ⟨Nat.le_succ_of_le ih.reads, fun k e' he' => ?_,
        fun c hc => ?_, fun c hc k hk => ?_, ?_⟩
      · dsimp only at he' ⊢
        split at he'
        · cases he'
        next hne =>
          obtain ⟨hm, hold⟩ := ih.left k e' he'
          refine ⟨hm, fun ⟨q, hq, hk⟩ => ?_⟩
          rcases List.mem_append.mp hq with hq | hq
          · have := hold ⟨q, hq, hk⟩
            omega
          · obtain rfl := List.mem_singleton.mp hq
            rw [hcomes k] at hk
            exact absurd (of_decide_eq_true hk) hne
      · rcases List.mem_append.mp hc with hc | hc
        · exact (ih.takes c hc).mono (Nat.le_succ _) [p]
        · obtain rfl := List.mem_singleton.mp hc
          refine ⟨key, p, e, r.2.1, ?_, (ih.left key e he).1, ih.reads,
            Nat.lt_succ_self _, hrecent, rfl⟩
          rw [List.find?_append, hfirst]
          simp [hcomes]
      · dsimp only
        split
        · rfl
        next hne =>
          rcases List.mem_append.mp hc with hc | hc
          · exact ih.taken c hc k hk
          · obtain rfl := List.mem_singleton.mp hc
            have hk' : getOwnerKey p = some k := hk
            rw [hkey, Option.some.injEq] at hk'
            exact absurd hk'.symm hne
      · rw [List.map_append, List.nodup_append]
        refine ⟨ih.keys, List.nodup_singleton _, fun k hk k' hk' => ?_⟩
        obtain rfl : k' = getOwnerKey p := List.mem_singleton.mp hk'
        obtain ⟨c, hc, rfl⟩ := List.mem_map.mp hk
        intro hsame
        have hnone := ih.taken c hc key (hsame.trans hkey)
        rw [hnone] at he
        cases he
    case isFalse hold =>
      refine ⟨Nat.le_succ_of_le ih.reads, fun k e' he' => ?_,
        fun c hc => (ih.takes c hc).mono (Nat.le_succ _) [p], ih.taken,
        ih.keys⟩
      obtain ⟨hm, hold'⟩ := ih.left k e' he'
      refine ⟨hm, fun ⟨q, hq, hk⟩ => ?_⟩
      dsimp only
      rcases List.mem_append.mp hq with hq | hq
      · have := hold' ⟨q, hq, hk⟩
        omega
      · obtain rfl := List.mem_singleton.mp hq
        rw [hcomes k] at hk
        obtain rfl := of_decide_eq_true hk
        have he'' : r.1 k = some e' := he'
        rw [he, Option.some.injEq] at he''
        subst he''
        omega

-- ======== the records

/-- A record is of a pod that has gone, with its key. -/
structure Held (clock : Nat → Int) (fed : List Fed) (n : Nat)
    (key : String) (e : DeletionEntry) : Prop where
  key : getOwnerKey e.pod = some key
  gone : Disappeared fed e.seenAt e.pod e.reading
  timestamp : e.timestamp = clock e.reading
  name : e.podName = (snapshotOf e.pod).name
  reading : e.reading < n

/-- What the hook holds is what it was given. -/
structure Inv (clock : Nat → Int) (s : State) : Prop where
  first : s.prevPods = none → ∀ f ∈ s.fed, f.pods = []
  last : ∀ m, s.prevPods = some m → s.fed ≠ [] ∧ m = snapshot s.last
  distinct : (uids s.last).Nodup
  held : ∀ key e, s.recentDeletions key = some e →
    Held clock s.fed s.reads key e

theorem start_inv : Inv clock start :=
  ⟨fun _ _ hf => (by cases hf), fun _ hm => (by cases hm), List.nodup_nil,
    fun _ _ he => (by cases he)⟩

theorem Disappeared.append {fed : List Fed} {seenAt reading : Nat} {d : Pod}
    (h : Disappeared fed seenAt d reading) (l : List Fed) :
    Disappeared (fed ++ l) seenAt d reading := by
  obtain ⟨f, g, hf, hg, hrest⟩ := h
  refine ⟨f, g, ?_, ?_, hrest⟩
  · rw [List.getElem?_append_left (List.getElem?_eq_some_iff.mp hf).1, hf]
  · rw [List.getElem?_append_left (List.getElem?_eq_some_iff.mp hg).1, hg]

theorem Disappeared.seenAt_lt {fed : List Fed} {seenAt reading : Nat}
    {d : Pod} (h : Disappeared fed seenAt d reading) :
    seenAt + 1 < fed.length := by
  obtain ⟨f, g, -, hg, -⟩ := h
  exact (List.getElem?_eq_some_iff.mp hg).1

theorem Held.mono {fed : List Fed} {n n' : Nat} {key : String}
    {e : DeletionEntry} (h : Held clock fed n key e) (l : List Fed)
    (hn : n ≤ n') : Held clock (fed ++ l) n' key e :=
  ⟨h.key, h.gone.append l, h.timestamp, h.name,
    Nat.lt_of_lt_of_le h.reading hn⟩

theorem last_eq {s : State} (h : s.fed ≠ []) :
    ∃ f, s.fed[s.fed.length - 1]? = some f ∧ s.last = f.pods := by
  refine ⟨s.fed.getLast h, ?_, ?_⟩
  · rw [← List.getLast?_eq_getElem?, List.getLast?_eq_some_getLast h]
  · rw [State.last, List.getLast?_eq_some_getLast h]
    rfl

theorem effect_compare {pods : List Pod} {s : State} {m : Snapshots}
    (hclock : Monotone clock) (h : Inv clock s)
    (hprev : s.prevPods = some m) (hne : pods ≠ [])
    (hpods : (uids pods).Nodup) :
    ∃ recorded : Deletions × Nat, ∃ r : Deletions × Nat × List Notice,
      s.reads ≤ recorded.2
        ∧ (∀ key, RecordedAs clock (s.fed.length - 1) s.reads recorded.2
            (s.recentDeletions key) (recorded.1 key)
            (leaver s.last pods key))
        ∧ Detected clock s.fed.length s.last (tracked pods) recorded.1
            recorded.2 r
        ∧ effect clock pods s =
          ({ prevPods := some (snapshot pods)
             recentDeletions := clean (clock r.2.1) r.1
             reads := r.2.1 + 1
             fed := s.fed ++ [⟨pods, s.reads, r.2.1 + 1⟩]
             named := s.named ++ r.2.2.filterMap Notice.gone },
            restarts s.fed.length (snapshot s.last) (snapshot pods)
              ++ r.2.2) := by
  obtain ⟨-, rfl⟩ := h.last m hprev
  have hrecorded := recorded hpods clock (s.fed.length - 1)
    s.recentDeletions s.reads (tracked s.last)
  rw [← snapshot_eq h.distinct] at hrecorded
  refine ⟨_, _, hrecorded.1, hrecorded.2, detected h.distinct hclock
    s.fed.length _ _ (tracked pods), ?_⟩
  rw [← snapshot_eq hpods, effect, if_neg hne, hprev]

theorem effect_quiet (clock : Nat → Int) {pods : List Pod} {s : State}
    (h : pods = [] ∨ s.prevPods = none) :
    ∃ prev, effect clock pods s =
        ({ s with
            prevPods := prev
            fed := s.fed ++ [⟨pods, s.reads, s.reads⟩] }, [])
      ∧ (prev = none → s.prevPods = none ∧ pods = [])
      ∧ ∀ m, prev = some m → m = snapshot pods := by
  unfold effect
  by_cases hpods : pods = []
  case pos =>
    subst hpods
    refine ⟨_, rfl, fun hnone => ⟨?_, rfl⟩, fun m hm => ?_⟩
    · simpa using hnone
    · obtain ⟨_, -, rfl⟩ := Option.map_eq_some_iff.mp hm
      rfl
  case neg =>
    rw [if_neg hpods, h.resolve_left hpods]
    exact ⟨_, rfl, fun hf => (by cases hf), fun m hm =>
      (Option.some.inj hm).symm⟩

theorem last_append {s s' : State} {pods : List Pod} {before after : Nat}
    (h : s'.fed = s.fed ++ [⟨pods, before, after⟩]) : s'.last = pods := by
  rw [State.last, h, List.getLast?_concat]
  rfl

/-- What is recorded under a key as the pods are compared is of a pod that
has gone. -/
theorem held_recorded {pods : List Pod} {s : State} {key : String}
    {before after : Nat} {new : Option DeletionEntry} {e : DeletionEntry}
    (h : Inv clock s) (hne : s.fed ≠ [])
    (hrec : RecordedAs clock (s.fed.length - 1) s.reads before
      (s.recentDeletions key) new (leaver s.last pods key))
    (he : new = some e) (hbefore : s.reads ≤ before)
    (hafter : before ≤ after) :
    Held clock (s.fed ++ [⟨pods, s.reads, after⟩]) before key e := by
  cases hleaver : leaver s.last pods key with
  | none =>
    rw [hleaver] at hrec
    exact (h.held key e (hrec.symm.trans he)).mono _ hbefore
  | some d =>
    rw [hleaver] at hrec
    obtain ⟨i, hi, hlt, hnew⟩ := hrec
    rw [hnew, Option.some.injEq] at he
    subst he
    obtain ⟨hd, hgoes⟩ := List.mem_filter.mp (List.mem_of_getLast? hleaver)
    simp only [Bool.and_eq_true, Bool.not_eq_true', decide_eq_true_eq]
      at hgoes
    obtain ⟨f, hf, hlast⟩ := last_eq hne
    have hlength := List.length_pos_iff.mpr hne
    refine ⟨hgoes.2, ⟨f, ⟨pods, s.reads, after⟩, ?_, ?_, ?_, ?_, hi, ?_⟩,
      rfl, rfl, hlt⟩
    · show (s.fed ++ _)[s.fed.length - 1]? = _
      rw [List.getElem?_append_left (by omega), hf]
    · show (s.fed ++ _)[s.fed.length - 1 + 1]? = _
      rw [Nat.sub_add_cancel hlength, List.getElem?_concat_length]
    · exact hlast ▸ hd
    · show d.uid ∉ uids pods
      intro hmem
      rw [List.contains_iff_mem.mpr hmem] at hgoes
      cases hgoes.1
    · exact Nat.lt_of_lt_of_le hlt hafter

theorem quiet_inv {pods : List Pod} {s : State} (h : Inv clock s)
    (hpods : (uids pods).Nodup) (hquiet : pods = [] ∨ s.prevPods = none) :
    Inv clock (effect clock pods s).1 := by
  obtain ⟨prev, heq, hnone, hsome⟩ := effect_quiet clock hquiet
  have hlast : (effect clock pods s).1.last = pods :=
    last_append (by rw [heq])
  rw [heq] at hlast ⊢
  refine ⟨fun hp f hf => ?_, fun m hm => ⟨by simp, ?_⟩, ?_, fun key e he =>
    (h.held key e he).mono _ (Nat.le_refl _)⟩
  · obtain ⟨hprev, hempty⟩ := hnone hp
    rcases List.mem_append.mp hf with hf | hf
    · exact h.first hprev f hf
    · obtain rfl := List.mem_singleton.mp hf
      exact hempty
  · rw [hlast]
    exact hsome m hm
  · rw [hlast]
    exact hpods

theorem effect_inv {pods : List Pod} {s : State} (hclock : Monotone clock)
    (h : Inv clock s) (hpods : (uids pods).Nodup) :
    Inv clock (effect clock pods s).1 := by
  by_cases hempty : pods = []
  case pos => exact quiet_inv h hpods (.inl hempty)
  cases hprev : s.prevPods with
  | none => exact quiet_inv h hpods (.inr hprev)
  | some m =>
    obtain ⟨recorded, r, hreads, hrec, hdet, heq⟩ :=
      effect_compare hclock h hprev hempty hpods
    have hlast : (effect clock pods s).1.last = pods :=
      last_append (by rw [heq])
    rw [heq] at hlast ⊢
    refine ⟨fun hf => (by cases hf), fun m' hm' => ⟨by simp, ?_⟩, ?_,
      fun key e he => ?_⟩
    · rw [hlast]
      exact (Option.some.inj hm').symm
    · rw [hlast]
      exact hpods
    · obtain ⟨he, -⟩ := Option.filter_eq_some_iff.mp he
      have hheld := held_recorded h (h.last m hprev).1 (hrec key)
        (hdet.left key e he).1 hreads
        (Nat.le_succ_of_le hdet.reads : recorded.2 ≤ r.2.1 + 1)
      refine ⟨hheld.key, hheld.gone, hheld.timestamp, hheld.name, ?_⟩
      exact Nat.lt_of_lt_of_le hheld.reading
        (Nat.le_succ_of_le hdet.reads)

-- ======== the restarts

theorem countP_only {α : Type*} {l : List α} {q : α → Bool}
    (h : l.Pairwise fun a b => q a = true → q b = false) :
    l.countP q = if ∃ a ∈ l, q a = true then 1 else 0 := by
  induction l with
  | nil => simp
  | cons a l ih =>
    obtain ⟨ha, hl⟩ := List.pairwise_cons.mp h
    rw [List.countP_cons, ih hl]
    cases hq : q a with
    | false => simp [hq]
    | true =>
      have hnone : ¬ ∃ b ∈ l, q b = true := by
        rintro ⟨b, hb, hqb⟩
        rw [ha b hb hq] at hqb
        cases hqb
      have hsome : ∃ b ∈ a :: l, q b = true :=
        ⟨a, List.mem_cons_self, hq⟩
      rw [if_neg hnone, if_pos hsome, if_pos rfl]

/-- The restarts are of the pods that restarted. -/
theorem restarts_count {prev pods : List Pod} (hprev : (uids prev).Nodup)
    (hpods : (uids pods).Nodup) (place : Nat) (uid : String) :
    (restarts place (snapshot prev) (snapshot pods)).countP
        (Notice.isRestart place uid)
      = if RestartedIn prev pods uid then 1 else 0 := by
  have hone : ∀ p : Pod,
      ((restartOf place (snapshot prev) (entryOf p)).map
          (Notice.isRestart place uid)).getD false = true
        ↔ p.uid = uid ∧ ∃ q ∈ tracked prev, q.uid = uid
          ∧ getTotalRestarts q < getTotalRestarts p := by
    intro p
    have hdistinct : Keyed.Distinct Pod.uid (tracked prev) := hprev
    have hfind : ∀ q, (tracked prev).find? (·.uid = p.uid) = some q
        ↔ q ∈ tracked prev ∧ q.uid = p.uid := fun _ =>
      hdistinct.find_iff
    unfold restartOf
    rw [show (entryOf p).1 = p.uid from rfl, get_snapshot hprev]
    cases hq : (tracked prev).find? (·.uid = p.uid) with
    | none =>
      refine iff_of_false (by simp) ?_
      rintro ⟨rfl, q, hmem, huid, -⟩
      rw [(hfind q).mpr ⟨hmem, huid⟩] at hq
      cases hq
    | some q =>
      obtain ⟨hmem, huid⟩ := (hfind q).mp hq
      show ((if getTotalRestarts q < getTotalRestarts p then _
        else none : Option Notice).map _).getD false = true ↔ _
      split
      case isTrue hlt =>
        show (place = place && p.uid = uid : Bool) = true ↔ _
        simp only [decide_true, Bool.true_and, decide_eq_true_eq]
        refine ⟨fun h => ⟨h, q, hmem, huid.trans h, hlt⟩, And.left⟩
      case isFalse hlt =>
        refine iff_of_false (by simp) ?_
        rintro ⟨rfl, q', hmem', huid', hlt'⟩
        rw [(hfind q').mpr ⟨hmem', huid'⟩, Option.some.injEq] at hq
        exact hlt (hq ▸ hlt')
  unfold restarts
  rw [snapshot_eq hpods, List.countP_filterMap, List.countP_map,
    countP_only]
  · refine if_congr ?_ rfl rfl
    constructor
    · rintro ⟨p, hp, h⟩
      obtain ⟨huid, q, hq, huid', hlt⟩ := (hone p).mp h
      exact ⟨q, hq, p, hp, huid', huid, hlt⟩
    · rintro ⟨q, hq, p, hp, huid', huid, hlt⟩
      exact ⟨p, hp, (hone p).mpr ⟨huid, q, hq, huid', hlt⟩⟩
  · refine (List.pairwise_map.mp hpods).imp fun {a b} hne ha => ?_
    have hb := mt (hone b).mp
    rw [Bool.not_eq_true] at hb
    refine hb fun ⟨huid, _⟩ => hne ?_
    rw [((hone a).mp ha).1, huid]

theorem Takes.not_restart {place n n' : Nat} {prev l : List Pod}
    {m : Deletions} {c : Notice} (h : Takes clock place prev l m n n' c)
    (place' : Nat) (uid : String) :
    Notice.isRestart place' uid c = false := by
  obtain ⟨_, _, _, _, _, _, _, _, _, rfl⟩ := h
  rfl

theorem restarts_place {place place' : Nat} {prev current : Snapshots}
    {uid : String} {c : Notice} (hc : c ∈ restarts place prev current)
    (hrestart : Notice.isRestart place' uid c = true) : place = place' := by
  obtain ⟨e, -, he⟩ := List.mem_filterMap.mp hc
  unfold restartOf at he
  split at he
  · cases he
  · split at he
    · obtain rfl := (Option.some.inj he).symm
      simp only [Notice.isRestart, Bool.and_eq_true,
        decide_eq_true_eq] at hrestart
      exact hrestart.1
    · cases he

/-- The restarts so far are right, and about the lists so far. -/
structure RestartsSoFar (clock : Nat → Int) (s : State)
    (out : List Notice) : Prop where
  inv : Inv clock s
  place : ∀ c ∈ out, ∀ place uid, Notice.isRestart place uid c = true →
    place < s.fed.length
  right : RestartsRight s.fed out

theorem countP_other {out : List Notice} {place : Nat} {uid : String}
    (h : ∀ c ∈ out, ¬ Notice.isRestart place uid c = true) :
    out.countP (Notice.isRestart place uid) = 0 :=
  List.countP_eq_zero.mpr h

/-- The next list has its restarts. -/
theorem RestartsSoFar.step {pods : List Pod} {s : State}
    {out : List Notice} (hclock : Monotone clock)
    (h : RestartsSoFar clock s out) (hpods : (uids pods).Nodup) :
    RestartsSoFar clock (effect clock pods s).1
      (out ++ (effect clock pods s).2) := by
  have hinv := effect_inv hclock h.inv hpods
  have hfed : ∃ after, (effect clock pods s).1.fed
      = s.fed ++ [⟨pods, s.reads, after⟩] := by
    by_cases hquiet : pods = [] ∨ s.prevPods = none
    · obtain ⟨_, heq, -⟩ := effect_quiet clock hquiet
      exact ⟨_, by rw [heq]⟩
    · rw [not_or] at hquiet
      obtain ⟨m, hm⟩ := Option.ne_none_iff_exists'.mp hquiet.2
      obtain ⟨_, _, -, -, -, heq⟩ :=
        effect_compare hclock h.inv hm hquiet.1 hpods
      exact ⟨_, by rw [heq]⟩
  obtain ⟨after, hfed⟩ := hfed
  -- what is new is about the new place, and right
  have hnew : (∀ c ∈ (effect clock pods s).2, ∀ place uid,
      Notice.isRestart place uid c = true → place = s.fed.length)
      ∧ ∀ f, s.fed[s.fed.length - 1]? = some f → f.pods ≠ [] →
          pods ≠ [] → ∀ uid, (effect clock pods s).2.countP
            (Notice.isRestart s.fed.length uid)
              = if RestartedIn f.pods pods uid then 1 else 0 := by
    by_cases hquiet : pods = [] ∨ s.prevPods = none
    · obtain ⟨_, heq, -⟩ := effect_quiet clock hquiet
      rw [heq]
      refine ⟨fun _ hc => (by cases hc), fun f hf hne hpne => ?_⟩
      have hprev := hquiet.resolve_left hpne
      exact absurd (h.inv.first hprev f (List.mem_of_getElem? hf)) hne
    · rw [not_or] at hquiet
      obtain ⟨m, hm⟩ := Option.ne_none_iff_exists'.mp hquiet.2
      obtain ⟨_, r, -, -, hdet, heq⟩ :=
        effect_compare hclock h.inv hm hquiet.1 hpods
      rw [heq]
      refine ⟨fun c hc place uid hplace => ?_, fun f hf _ _ uid => ?_⟩
      · rcases List.mem_append.mp hc with hc | hc
        · exact (restarts_place hc hplace).symm
        · rw [(hdet.takes c hc).not_restart] at hplace
          cases hplace
      · obtain ⟨f', hf', hlast⟩ := last_eq (h.inv.last m hm).1
        rw [hf, Option.some.injEq] at hf'
        rw [List.countP_append, restarts_count h.inv.distinct hpods,
          countP_other, hlast, hf', Nat.add_zero]
        intro c hc
        rw [(hdet.takes c hc).not_restart]
        exact Bool.false_ne_true
  refine ⟨hinv, fun c hc place uid hplace => ?_, ?_⟩
  · rw [hfed, List.length_append, List.length_singleton]
    rcases List.mem_append.mp hc with hc | hc
    · exact Nat.lt_succ_of_lt (h.place c hc place uid hplace)
    · have := hnew.1 c hc place uid hplace
      omega
  · intro i f g hf hg hfne hgne uid
    rw [hfed] at hf hg
    have hi := (List.getElem?_eq_some_iff.mp hg).1
    rw [List.length_append, List.length_singleton] at hi
    rw [List.getElem?_append_left (by omega)] at hf
    rw [List.countP_append]
    rcases Nat.lt_or_ge (i + 1) s.fed.length with hlt | hge
    · rw [List.getElem?_append_left hlt] at hg
      rw [h.right i f g hf hg hfne hgne uid,
        countP_other fun c hc hplace => by
          have := hnew.1 c hc (i + 1) uid hplace
          omega, Nat.add_zero]
    · have hi' : i + 1 = s.fed.length := by omega
      rw [hi', List.getElem?_concat_length, Option.some.injEq] at hg
      subst hg
      rw [hi', countP_other fun c hc hplace => by
          have := h.place c hc _ uid hplace
          omega, Nat.zero_add]
      refine hnew.2 f ?_ hfne hgne uid
      rw [← hf]
      congr 1
      omega

-- ======== the redeploys

/-- The redeploys so far are right, and those that they named are known. -/
structure RedeploysSoFar (clock : Nat → Int) (s : State)
    (out : List Notice) : Prop where
  inv : Inv clock s
  named : s.named = out.filterMap Notice.gone
  right : RedeploysRight clock s.fed out

theorem Truthful.append {fed : List Fed} {place reading : Nat} {p : Pod}
    {deletion : DeletionEntry} {message : String}
    (h : Truthful clock fed place p reading deletion message)
    (l : List Fed) :
    Truthful clock (fed ++ l) place p reading deletion message := by
  refine ⟨?_, h.disappeared.append l, h.order, h.recent, h.owner, h.ns,
    fun j hj f hf => ?_, h.text⟩
  · obtain ⟨i, f, g, hplace, hf, hg, hrest⟩ := h.appeared
    refine ⟨i, f, g, hplace, ?_, ?_, hrest⟩
    · rw [List.getElem?_append_left (List.getElem?_eq_some_iff.mp hf).1, hf]
    · rw [List.getElem?_append_left (List.getElem?_eq_some_iff.mp hg).1, hg]
  · have hlt := h.disappeared.seenAt_lt
    rw [List.getElem?_append_left (by omega)] at hf
    exact h.unseen j hj f hf

theorem meets_of_taken {pods : List Pod} {s : State} {key : String}
    {p : Pod} {e : DeletionEntry} {before i : Nat}
    {new : Option DeletionEntry} (hclock : Monotone clock)
    (hrec : RecordedAs clock (s.fed.length - 1) s.reads before
      (s.recentDeletions key) new (leaver s.last pods key))
    (hfind : (tracked pods).find? (comes s.last key) = some p)
    (he : new = some e) (hi : s.reads ≤ i)
    (hrecent : clock i - e.timestamp < redeployWindowMs) :
    Meets clock s pods key p e.pod e.seenAt := by
  refine ⟨hfind, ?_⟩
  cases hleaver : leaver s.last pods key with
  | none =>
    rw [hleaver] at hrec
    have hmono := hclock hi
    exact ⟨e, hrec.symm.trans he, by omega, rfl, rfl⟩
  | some d =>
    rw [hleaver] at hrec
    obtain ⟨j, -, -, hnew⟩ := hrec
    rw [hnew, Option.some.injEq] at he
    subst he
    exact ⟨rfl, rfl⟩

theorem appeared_of_comes {pods : List Pod} {s : State} {key : String}
    {p : Pod} {i after : Nat} (hne : s.fed ≠ [])
    (hfind : (tracked pods).find? (comes s.last key) = some p)
    (hi : s.reads ≤ i) (hafter : i < after) :
    Appeared (s.fed ++ [⟨pods, s.reads, after⟩]) s.fed.length p i := by
  have hcomes := List.find?_some hfind
  simp only [comes, Bool.and_eq_true, Bool.not_eq_true',
    decide_eq_true_eq] at hcomes
  obtain ⟨f, hf, hlast⟩ := last_eq hne
  have hlength := List.length_pos_iff.mpr hne
  refine ⟨s.fed.length - 1, f, ⟨pods, s.reads, after⟩,
    (Nat.sub_add_cancel hlength).symm, ?_, ?_,
    List.mem_of_find?_eq_some hfind, ?_, hi, hafter⟩
  · rw [List.getElem?_append_left (by omega), hf]
  · rw [Nat.sub_add_cancel hlength, List.getElem?_concat_length]
  · rw [← hlast]
    intro hmem
    rw [List.contains_iff_mem.mpr hmem] at hcomes
    cases hcomes.1

/-- A careful step keeps the redeploys right. -/
theorem RedeploysSoFar.step {pods : List Pod} {s : State}
    {out : List Notice} (hclock : Monotone clock)
    (h : RedeploysSoFar clock s out) (hcare : Careful clock s pods)
    (hpods : (uids pods).Nodup) :
    RedeploysSoFar clock (effect clock pods s).1
      (out ++ (effect clock pods s).2) := by
  have hinv := effect_inv hclock h.inv hpods
  by_cases hquiet : pods = [] ∨ s.prevPods = none
  case pos =>
    obtain ⟨_, heq, -⟩ := effect_quiet clock hquiet
    rw [heq] at hinv ⊢
    rw [List.append_nil]
    refine ⟨hinv, h.named, fun place p i e text hc => ?_, h.right.once⟩
    exact (h.right.truthful place p i e text hc).append _
  rw [not_or] at hquiet
  obtain ⟨m, hm⟩ := Option.ne_none_iff_exists'.mp hquiet.2
  obtain ⟨recorded, r, hreads, hrec, hdet, heq⟩ :=
    effect_compare hclock h.inv hm hquiet.1 hpods
  have hne := (h.inv.last m hm).1
  rw [heq] at hinv ⊢
  have hrestarts : (restarts s.fed.length (snapshot s.last)
      (snapshot pods)).filterMap Notice.gone = [] := by
    rw [List.filterMap_eq_nil_iff]
    intro c hc
    obtain ⟨e, -, he⟩ := List.mem_filterMap.mp hc
    unfold restartOf at he
    split at he
    · cases he
    · split at he
      · obtain rfl := (Option.some.inj he).symm
        rfl
      · cases he
  have hgone : (out ++ (restarts s.fed.length (snapshot s.last)
      (snapshot pods) ++ r.2.2)).filterMap Notice.gone
      = s.named ++ r.2.2.filterMap Notice.gone := by
    rw [List.filterMap_append, List.filterMap_append, hrestarts, h.named]
    rfl
  refine ⟨hinv, hgone.symm, fun place p i e text hc => ?_, ?_⟩
  · rcases List.mem_append.mp hc with hc | hc
    · exact (h.right.truthful place p i e text hc).append _
    rcases List.mem_append.mp hc with hc | hc
    · have hnone := List.filterMap_eq_nil_iff.mp hrestarts _ hc
      cases hnone
    -- a new redeploy: its pods meet under the key
    obtain ⟨key, p', e', i', hfind, he, hi, hlt, hrecent, hnotice⟩ :=
      hdet.takes _ hc
    cases hnotice
    have hmeets := meets_of_taken hclock (hrec key) hfind he
      (Nat.le_trans hreads hi) hrecent
    have hheld := held_recorded h.inv hne (hrec key) he hreads
      (Nat.le_succ_of_le hdet.reads : recorded.2 ≤ r.2.1 + 1)
    have hkey : getOwnerKey p = some key := by
      have hcomes := List.find?_some hfind
      simp only [comes, Bool.and_eq_true, decide_eq_true_eq] at hcomes
      exact hcomes.2
    refine ⟨appeared_of_comes hne hfind (Nat.le_trans hreads hi)
        (Nat.lt_succ_of_lt hlt), hheld.gone,
      Nat.le_of_lt (Nat.lt_of_lt_of_le hheld.reading hi),
      hheld.timestamp ▸ hrecent, hcare.owner _ _ _ _ hmeets,
      hcare.ns _ _ _ _ hmeets, fun j hj f hf => ?_,
      ⟨key, hkey, by rw [hheld.name]⟩⟩
    have hseen := hheld.gone.seenAt_lt
    rw [List.length_append, List.length_singleton] at hseen
    rw [List.getElem?_append_left (by omega)] at hf
    exact hcare.unseen _ _ _ _ hmeets j hj f hf
  · rw [hgone, List.nodup_append]
    refine ⟨h.named ▸ h.right.once, ?_, fun uid huid uid' huid' => ?_⟩
    · refine List.pairwise_filterMap.mpr ?_
      refine (List.pairwise_map.mp hdet.keys).imp_of_mem ?_
      intro c c' hc hc' hkeys uid huid uid' huid' hsame
      obtain ⟨key, p, e, i, hfind, he, hi, -, hrecent, rfl⟩ :=
        hdet.takes c hc
      obtain ⟨key', p', e', i', hfind', he', hi', -, hrecent', rfl⟩ :=
        hdet.takes c' hc'
      obtain rfl : e.pod.uid = uid := Option.some.inj huid
      obtain rfl : e'.pod.uid = uid' := Option.some.inj huid'
      have hapart := hcare.apart _ _ _ _ _ _ _ _
        (meets_of_taken hclock (hrec key) hfind he
          (Nat.le_trans hreads hi) hrecent)
        (meets_of_taken hclock (hrec key') hfind' he'
          (Nat.le_trans hreads hi') hrecent') hsame
      have hcomes := List.find?_some hfind
      have hcomes' := List.find?_some hfind'
      simp only [comes, Bool.and_eq_true, decide_eq_true_eq]
        at hcomes hcomes'
      apply hkeys
      show getOwnerKey p = getOwnerKey p'
      rw [hcomes.2, hcomes'.2, hapart]
    · rintro rfl
      obtain ⟨c, hc, hgone⟩ := List.mem_filterMap.mp huid'
      obtain ⟨key, p, e, i, hfind, he, hi, -, hrecent, rfl⟩ :=
        hdet.takes c hc
      obtain rfl : e.pod.uid = uid := Option.some.inj hgone
      exact hcare.named _ _ _ _ (meets_of_taken hclock (hrec key) hfind he
        (Nat.le_trans hreads hi) hrecent) huid

-- ======== runs

theorem hook_cases {pods : List Pod} {s s' : State} {o : List Notice}
    (h : hook clock pods s = some (s', o)) :
    (uids pods).Nodup ∧ s' = (effect clock pods s).1
      ∧ o = (effect clock pods s).2 := by
  unfold hook at h
  split at h
  case isTrue hpods =>
    rw [Option.some.injEq] at h
    exact ⟨hpods, by rw [h], by rw [h]⟩
  case isFalse => cases h

/-- The restarts of a run are right, and so are its redeploys where the
lists are careful. -/
theorem notices_right {clock : Nat → Int} (hclock : Monotone clock)
    {lists : List (List Pod)} {s : State} {out : List Notice}
    (hrun : Machine.run (hook clock) start lists = some (s, out)) :
    RestartsRight s.fed out
      ∧ (Machine.Along (hook clock) (Careful clock) start lists →
          RedeploysRight clock s.fed out) := by
  constructor
  · have hstart : RestartsSoFar clock start [] :=
      ⟨start_inv, fun _ hc => (by cases hc), fun i f g hf => by cases hf⟩
    have hstep : ∀ {pods s s' o before}, RestartsSoFar clock s before →
        True → hook clock pods s = some (s', o) →
        RestartsSoFar clock s' (before ++ o) := by
      intro pods s s' o before h _ hs
      obtain ⟨hpods, rfl, rfl⟩ := hook_cases hs
      exact h.step hclock hpods
    exact (Machine.run_history_nil hstep hstart Machine.along_true
      hrun).right
  · intro hcare
    have hstart : RedeploysSoFar clock start [] :=
      ⟨start_inv, rfl, fun _ _ _ _ _ hc => (by cases hc), List.nodup_nil⟩
    have hstep : ∀ {pods s s' o before}, RedeploysSoFar clock s before →
        Careful clock s pods → hook clock pods s = some (s', o) →
        RedeploysSoFar clock s' (before ++ o) := by
      intro pods s s' o before h hc hs
      obtain ⟨hpods, rfl, rfl⟩ := hook_cases hs
      exact h.step hclock hc hpods
    exact (Machine.run_history_nil hstep hstart hcare hrun).right

end Specs

/-- A pod of the replica set `web`. -/
def webPod (uid ns : String) : Pod :=
  { uid := uid, name := uid, ns := ns,
    ownerReferences := [⟨"ReplicaSet", "web"⟩] }

theorem webPod_meets {clock : Nat → Int} {s : State} {key : String}
    {p d : Pod} {seenAt : Nat} (hlast : s.last = [webPod "a" "shop"])
    (h : Meets clock s [webPod "b" "shop"] key p d seenAt) :
    key = "ReplicaSet/web" ∧ p = webPod "b" "shop"
      ∧ d = webPod "a" "shop" ∧ seenAt = s.fed.length - 1 := by
  obtain ⟨hp, hd⟩ := h
  rw [hlast] at hp hd
  have hmem := List.mem_of_find?_eq_some hp
  obtain rfl : p = webPod "b" "shop" :=
    List.mem_singleton.mp (List.mem_filter.mp hmem).1
  have hcomes := List.find?_some hp
  rw [Bool.and_eq_true, decide_eq_true_eq] at hcomes
  obtain rfl : "ReplicaSet/web" = key := Option.some.inj hcomes.2
  exact ⟨rfl, rfl, hd⟩

/-- A pod goes and another one of its owner comes. -/
theorem notices_right_web :
    ∃ s out, Machine.run (hook fun _ => 0) start
        [[webPod "a" "shop"], [webPod "b" "shop"]] = some (s, out)
      ∧ RestartsRight s.fed out
      ∧ RedeploysRight (fun _ => 0) s.fed out := by
  have hclock : Monotone fun _ : Nat => (0 : Int) := monotone_const
  have hrun : Machine.run (hook fun _ => 0) start
      [[webPod "a" "shop"], [webPod "b" "shop"]] = some (_, _) := rfl
  obtain ⟨hrestarts, hredeploys⟩ := notices_right hclock hrun
  refine ⟨_, _, hrun, hrestarts, hredeploys ?_⟩
  have hnone : ∀ pods key p d seenAt,
      ¬ Meets (fun _ => 0) start pods key p d seenAt := by
    rintro pods key p d seenAt ⟨-, e, he, -⟩
    cases he
  refine Machine.along_cons rfl
    ⟨fun _ _ _ _ h => absurd h (hnone _ _ _ _ _),
      fun _ _ _ _ h => absurd h (hnone _ _ _ _ _),
      fun _ _ _ _ h => absurd h (hnone _ _ _ _ _),
      fun _ _ _ _ h => absurd h (hnone _ _ _ _ _),
      fun _ _ _ _ _ _ _ _ h => absurd h (hnone _ _ _ _ _)⟩
    (Machine.along_cons rfl ⟨fun key p d at' h => ?_,
      fun key p d at' h => ?_, fun key p d at' h => ?_,
      fun key p d at' h => ?_, fun _ _ _ _ _ _ _ _ h h' _ => ?_⟩ trivial)
  · obtain ⟨-, rfl, rfl, -⟩ := webPod_meets rfl h
    exact ⟨_, _, rfl, rfl, rfl, rfl⟩
  · obtain ⟨-, rfl, rfl, -⟩ := webPod_meets rfl h
    rfl
  · obtain ⟨-, rfl, rfl, rfl⟩ := webPod_meets rfl h
    intro j hj f hf
    obtain rfl : j = 0 := Nat.le_zero.mp hj
    obtain rfl := (Option.some.inj hf).symm
    decide
  · intro hf
    cases hf
  · rw [(webPod_meets rfl h).1, (webPod_meets rfl h').1]

/-- A pod of another namespace is said to replace one that has gone. -/
theorem notices_across : ¬ ∀ (clock : Nat → Int), Monotone clock →
    ∀ lists s out, Machine.run (hook clock) start lists = some (s, out) →
      RestartsRight s.fed out ∧ RedeploysRight clock s.fed out := by
  intro h
  have hright := (h (fun _ => 0) monotone_const
    [[webPod "a" "shop"], [webPod "b" "test"]] _ _ rfl).2
  have hns := (hright.truthful _ _ _ _ _ List.mem_cons_self).ns
  revert hns
  decide

end PodNotifications
