/-
The list of several namespaces (`listNamespaceScope` of
frontend/src/utils/namespaceQuery.ts), and what `fetchData` of useResource.tsx
does with it.

# Workers

Up to four workers share the variables `next`, `failed` and `results`. Each
is an `async` function: it runs to its first `await` when it is made, and on
from there in a step of its own behind the reply to its call
(`Worker.replied`). What a call comes to, and when, is left open; it may
also fail at once. The function that `fetchData` lists with looks itself
whether the fetch was cancelled, and then has nothing (`Reply.cancelled`).

# The argument

A worker holds the index of its call until it has stored the reply, so every
index that was given out is held by a worker, or its reply is stored, or it
has failed and a worker has thrown (`Inv.covered`). A worker returns where
something has failed, where the list is no longer current, or where no index
is left (`Inv.returned`). So where all workers have returned and the list is
current still, every reply is stored.
-/
import Kubikles.Lib.Machine
import Kubikles.Lib.Place

namespace NamespaceQuery

open Machine (Step run Along)

-- ======== the model

def namespaceQueryConcurrency : Nat := 4

/-- What a call comes to. -/
inductive Reply (T E : Type) where
  | items (list : List T)
  /-- No items, as the fetch was cancelled before the call began. -/
  | cancelled
  | failed (error : E)
deriving DecidableEq

inductive Worker (T E : Type) where
  /-- At the condition of its loop. -/
  | ready
  | calling (index : Nat)
  /-- Its call is over, and the worker has still to go on. -/
  | replied (index : Nat) (reply : Reply T E)
  | returned
  | threw (error : E)
deriving DecidableEq

/-- What `fetchData` has come to. -/
inductive Fetch (T E : Type) where
  | waiting
  | stored (items : List T)
  | failed (error : E)
  /-- It was cancelled. -/
  | dropped
deriving DecidableEq

/-- The variables of `listNamespaceScope`, its workers, what their calls have
come to, and what comes of it all. -/
structure State (T E : Type) where
  next : Nat := 0
  failed : Bool := false
  results : List (Option (List T))
  workers : List (Worker T E) := []
  /-- What `isCurrent` returns. -/
  current : Bool := true
  replies : List (Option (Reply T E))
  settled : Option (Except E (List T)) := none
  fetch : Fetch T E := .waiting

inductive Action (T E : Type) where
  /-- The next worker is made. If it makes a call, this may fail at once. -/
  | spawn (atOnce : Option E)
  /-- A call is over. -/
  | reply (w : Nat) (reply : Reply T E)
  /-- A worker goes on behind its call. -/
  | resume (w : Nat) (atOnce : Option E)
  /-- `isCurrent` turns false. -/
  | cancel
  /-- `Promise.allSettled` is over. -/
  | settle
  /-- `fetchData` goes on. -/
  | fetch

variable {T E : Type}

def Worker.isSettled : Worker T E → Bool
  | .returned | .threw _ => true
  | _ => false

namespace State

def init (namespaces : List String) : State T E :=
  { results := List.replicate namespaces.length none
    replies := List.replicate namespaces.length none }

def setWorker (s : State T E) (w : Nat) (worker : Worker T E) :
    State T E :=
  { s with workers := s.workers.set w worker }

/-- The loop of a worker, from its condition to its next `await`. -/
def goOn (namespaces : List String) (atOnce : Option E) (w : Nat)
    (s : State T E) : State T E × List (Nat × String) :=
  if s.failed || !s.current then (s.setWorker w .returned, [])
  else
    match namespaces[s.next]? with
    | none => (s.setWorker w .returned, [])
    | some ns =>
      let index := s.next
      let s := { s with next := s.next + 1 }
      match atOnce with
      | none => (s.setWorker w (.calling index), [(index, ns)])
      | some error =>
        ({ s with
            failed := true
            replies := s.replies.set index (some (.failed error))
          }.setWorker w (.threw error), [(index, ns)])

/-- All workers were made and have come to their ends. -/
def allSettled (namespaces : List String) (s : State T E) : Bool :=
  s.workers.length = min namespaceQueryConcurrency namespaces.length
    && s.workers.all Worker.isSettled

/-- What `listNamespaceScope` throws or returns. -/
def verdict (truthy : T → Bool) (s : State T E) : Except E (List T) :=
  match s.workers.findSome? fun
      | .threw error => some error
      | _ => none with
  | some error => .error error
  | none => .ok ((s.results.flatMap fun list => list.getD []).filter truthy)

end State

/-- The transitions. A step that starts a call puts out which one. -/
def step (namespaces : List String) (truthy : T → Bool) :
    Step (State T E) (Action T E) (Nat × String)
  | .spawn atOnce, s =>
    if s.workers.length
        < min namespaceQueryConcurrency namespaces.length then
      some (State.goOn namespaces atOnce s.workers.length
        { s with workers := s.workers ++ [.ready] })
    else none
  | .reply w reply, s =>
    match s.workers[w]?, reply, s.current with
    | some (.calling _), .cancelled, true => none
    | some (.calling index), reply, _ =>
      some ({ s with replies := s.replies.set index (some reply)
        }.setWorker w (.replied index reply), [])
    | _, _, _ => none
  | .resume w atOnce, s =>
    match s.workers[w]? with
    | some (.replied index (.items list)) =>
      some (State.goOn namespaces atOnce w
        ({ s with results := s.results.set index (some list)
          }.setWorker w .ready))
    | some (.replied index .cancelled) =>
      some (State.goOn namespaces atOnce w
        ({ s with results := s.results.set index (some [])
          }.setWorker w .ready))
    | some (.replied _ (.failed error)) =>
      some ({ s with failed := true }.setWorker w (.threw error), [])
    | _ => none
  | .cancel, s => some ({ s with current := false }, [])
  | .settle, s =>
    if s.allSettled namespaces && s.settled.isNone then
      some ({ s with settled := some (s.verdict truthy) }, [])
    else none
  | .fetch, s =>
    match s.settled, s.fetch with
    | some result, .waiting =>
      if !s.current then some ({ s with fetch := .dropped }, [])
      else
        match result with
        | .ok items => some ({ s with fetch := .stored items }, [])
        | .error error => some ({ s with fetch := .failed error }, [])
    | _, _ => none

-- ======== the law

def Worker.isCalling : Worker T E → Bool
  | .calling _ => true
  | _ => false

/-- A list is what all namespaces have replied, in their order. -/
def Complete (truthy : T → Bool) (s : State T E) (list : List T) : Prop :=
  ∃ lists : List (List T),
    s.replies = lists.map (fun l => some (.items l))
      ∧ list = lists.flatten.filter truthy
      ∧ ((∀ l ∈ lists, ∀ x ∈ l, truthy x = true) → list = lists.flatten)

/-- What is asked of the list in a state, with the calls that were started
so far, and of the next step. -/
structure Lawful (namespaces : List String) (truthy : T → Bool)
    (s : State T E) (calls : List (Nat × String)) : Prop where
  inFlight : s.workers.countP Worker.isCalling ≤ namespaceQueryConcurrency
  once : (calls.map Prod.fst).Nodup
  named : ∀ c ∈ calls, namespaces[c.1]? = some c.2
  replies : s.replies.length = namespaces.length
  stops : s.failed = true → ∀ a s' calls',
    step namespaces truthy a s = some (s', calls') → calls' = []
  drained : s.settled.isSome → ∀ worker ∈ s.workers,
    worker.isCalling = false
  rejects : ∀ list, s.settled = some (.ok list) →
    ∀ error, some (.failed error) ∉ s.replies
  complete : ∀ list, s.settled = some (.ok list) → s.current = true →
    Complete truthy s list
  stored : ∀ list, s.fetch = .stored list → Complete truthy s list

-- ======== the invariant

variable {namespaces : List String} {truthy : T → Bool} {s s' : State T E}
variable {a : Action T E} {w : Nat} {worker worker' : Worker T E}
variable {atOnce : Option E} {o calls : List (Nat × String)}

def Worker.index : Worker T E → Option Nat
  | .calling index | .replied index _ => some index
  | _ => none

def Held (s : State T E) (i : Nat) : Prop :=
  ∃ (w : Nat) (worker : Worker T E),
    s.workers[w]? = some worker ∧ worker.index = some i

def Threw (s : State T E) : Prop :=
  ∃ (w : Nat) (error : E), s.workers[w]? = some (.threw error)

/-- The reply of an index is stored, or has made a worker throw. -/
inductive Done (s : State T E) (i : Nat) : Prop where
  | items (list : List T)
      (hreply : s.replies[i]? = some (some (.items list)))
      (hresult : s.results[i]? = some (some list))
  | cancelled (hreply : s.replies[i]? = some (some .cancelled))
      (hcurrent : s.current = false)
  | failed (error : E)
      (hreply : s.replies[i]? = some (some (.failed error)))
      (hthrew : Threw s)

/-- What is known of the variables and the workers. -/
structure Inv (namespaces : List String) (truthy : T → Bool)
    (s : State T E) : Prop where
  made : s.workers.length
    ≤ min namespaceQueryConcurrency namespaces.length
  results : s.results.length = namespaces.length
  replies : s.replies.length = namespaces.length
  next : s.next ≤ namespaces.length
  held : ∀ (w : Nat) (worker : Worker T E) (i : Nat),
    s.workers[w]? = some worker → worker.index = some i → i < s.next
  one : ∀ (w w' : Nat) (worker worker' : Worker T E) (i : Nat),
    s.workers[w]? = some worker → s.workers[w']? = some worker' →
      worker.index = some i → worker'.index = some i → w = w'
  replied : ∀ (w i : Nat) reply, s.workers[w]? = some (.replied i reply) →
    s.replies[i]? = some (some reply)
      ∧ (reply = .cancelled → s.current = false)
  covered : ∀ i, i < s.next → Held s i ∨ Done s i
  fresh : ∀ i, s.next ≤ i → ∀ reply, s.replies[i]? ≠ some (some reply)
  failed : s.failed = true → Threw s
  returned : ∀ w : Nat, s.workers[w]? = some .returned →
    s.failed = true ∨ s.current = false ∨ namespaces.length ≤ s.next
  settled : ∀ result, s.settled = some result →
    s.allSettled namespaces = true ∧ result = s.verdict truthy
  stored : ∀ list, s.fetch = .stored list → Complete truthy s list
  fetched : s.fetch ≠ .waiting → s.settled.isSome

theorem Inv.open (h : Inv namespaces truthy s)
    (hopen : s.allSettled namespaces = false) : s.settled = none := by
  cases hs : s.settled with
  | none => rfl
  | some result =>
    rw [(h.settled result hs).1] at hopen
    cases hopen

theorem not_allSettled (hw : s.workers[w]? = some worker)
    (hopen : worker.isSettled = false) :
    s.allSettled namespaces = false := by
  unfold State.allSettled
  rw [Bool.and_eq_false_iff]
  refine .inr (List.all_eq_false.mpr
    ⟨worker, List.mem_of_getElem? hw, ?_⟩)
  simp [hopen]

/-- What an index has come to, where the replies and results are the
same. -/
theorem Done.keep {i : Nat} {t : State T E} (h : Done s i)
    (hreplies : t.replies = s.replies) (hresults : t.results = s.results)
    (hcurrent : s.current = false → t.current = false)
    (hthrew : Threw s → Threw t) : Done t i := by
  cases h with
  | items list hr hl =>
    exact .items list (hreplies ▸ hr) (hresults ▸ hl)
  | cancelled hr hc => exact .cancelled (hreplies ▸ hr) (hcurrent hc)
  | failed error hr ht => exact .failed error (hreplies ▸ hr) (hthrew ht)

theorem Threw.set (h : Threw s) (hw : s.workers[w]? = some worker)
    (hopen : worker.isSettled = false) {t : State T E}
    (ht : t.workers = s.workers.set w worker') : Threw t := by
  obtain ⟨v, error, hv⟩ := h
  refine ⟨v, error, ?_⟩
  rw [ht, List.getElem?_set_ne, hv]
  rintro rfl
  obtain rfl := Option.some.inj (hw.symm.trans hv)
  cases hopen

/-- A worker goes on, from `worker` to `worker'`: what else may change with
it is what is told of its own index, and of one that is given out. -/
theorem Inv.move (worker' : Worker T E) (h : Inv namespaces truthy s)
    (hw : s.workers[w]? = some worker) (hopen : worker.isSettled = false)
    {t : State T E} (hworkers : t.workers = s.workers.set w worker')
    (hcurrent : t.current = s.current) (hsettled : t.settled = s.settled)
    (hfetch : t.fetch = s.fetch)
    (hresults : t.results.length = namespaces.length)
    (hreplies : t.replies.length = namespaces.length)
    (hnext : s.next ≤ t.next ∧ t.next ≤ namespaces.length)
    (hindex : ∀ i, worker'.index = some i →
      worker.index = some i ∨ s.next ≤ i ∧ i < t.next)
    (hkeep : ∀ i, i < s.next ∨ t.next ≤ i → worker.index ≠ some i →
      t.replies[i]? = s.replies[i]? ∧ t.results[i]? = s.results[i]?)
    (hreplied : ∀ i reply, worker' = .replied i reply →
      t.replies[i]? = some (some reply)
        ∧ (reply = .cancelled → s.current = false))
    (hcovered : ∀ i, i < t.next → worker.index = some i ∨ s.next ≤ i →
      worker'.index = some i ∨ Done t i)
    (hfailed : t.failed = true →
      s.failed = true ∨ ∃ error, worker' = .threw error)
    (hreturned : worker' = .returned →
      s.failed = true ∨ s.current = false ∨ namespaces.length ≤ s.next)
    (hgrown : s.failed = true → t.failed = true) :
    Inv namespaces truthy t := by
  have hself : t.workers[w]? = some worker' := by
    rw [hworkers]
    exact Place.set_self hw
  have hset : ∀ {v : Nat} {other : Worker T E},
      t.workers[v]? = some other →
        w = v ∧ other = worker' ∨ w ≠ v ∧ s.workers[v]? = some other :=
    fun hv => Place.set_cases (hworkers ▸ hv)
  have hnone : s.settled = none := h.open (not_allSettled hw hopen)
  -- the index of the worker that goes on, and the others
  have hown : ∀ {i}, worker'.index = some i → i < t.next := fun hi => by
    rcases hindex _ hi with hi | ⟨-, hi⟩
    · exact Nat.lt_of_lt_of_le (h.held _ _ _ hw hi) hnext.1
    · exact hi
  have halone : ∀ {v : Nat} {other : Worker T E} {i : Nat}, w ≠ v →
      s.workers[v]? = some other → other.index = some i →
        worker'.index ≠ some i := fun hne hv hi hi' => by
    rcases hindex _ hi' with hi'' | ⟨hge, -⟩
    · exact hne (h.one _ _ _ _ _ hw hv hi'' hi)
    · exact absurd (h.held _ _ _ hv hi) (Nat.not_lt.mpr hge)
  constructor
  case made =>
    rw [hworkers, List.length_set]
    exact h.made
  case results => exact hresults
  case replies => exact hreplies
  case next => exact hnext.2
  case held =>
    intro v other i hv hi
    rcases hset hv with ⟨rfl, rfl⟩ | ⟨-, hv⟩
    · exact hown hi
    · exact Nat.lt_of_lt_of_le (h.held _ _ _ hv hi) hnext.1
  case one =>
    intro v v' other other' i hv hv' hi hi'
    rcases hset hv with ⟨rfl, rfl⟩ | ⟨hne, hv⟩
    · rcases hset hv' with ⟨rfl, -⟩ | ⟨hne, hv'⟩
      · rfl
      · exact absurd hi (halone hne hv' hi')
    · rcases hset hv' with ⟨rfl, rfl⟩ | ⟨-, hv'⟩
      · exact absurd hi' (halone hne hv hi)
      · exact h.one _ _ _ _ _ hv hv' hi hi'
  case replied =>
    intro v i reply hv
    rw [hcurrent]
    rcases hset hv with ⟨rfl, heq⟩ | ⟨hne, hv⟩
    · exact hreplied i reply heq.symm
    · have hi : (Worker.replied i reply : Worker T E).index = some i := rfl
      rw [(hkeep i (.inl (h.held _ _ _ hv hi)) fun hi' =>
        hne (h.one _ _ _ _ _ hw hv hi' hi)).1]
      exact h.replied v i reply hv
  case covered =>
    intro i hi
    by_cases hmine : worker.index = some i ∨ s.next ≤ i
    · rcases hcovered i hi hmine with hheld | hdone
      · exact .inl ⟨w, worker', hself, hheld⟩
      · exact .inr hdone
    · have hlt : i < s.next :=
        Nat.not_le.mp fun hge => hmine (.inr hge)
      obtain ⟨hreply, hresult⟩ := hkeep i (.inl hlt) fun hi => hmine (.inl hi)
      rcases h.covered i hlt with ⟨v, other, hv, hother⟩ | hdone
      · have hne : w ≠ v := by
          rintro rfl
          obtain rfl := Option.some.inj (hw.symm.trans hv)
          exact hmine (.inl hother)
        refine .inl ⟨v, other, ?_, hother⟩
        rw [hworkers, List.getElem?_set_ne hne]
        exact hv
      · refine .inr ?_
        cases hdone with
        | items list hr hl =>
          exact .items list (hreply.trans hr) (hresult.trans hl)
        | cancelled hr hc =>
          exact .cancelled (hreply.trans hr) (hcurrent.trans hc)
        | failed error hr ht =>
          exact .failed error (hreply.trans hr) (ht.set hw hopen hworkers)
  case fresh =>
    intro i hi reply
    have hge := Nat.le_trans hnext.1 hi
    rw [(hkeep i (.inr hi) fun heq =>
      Nat.not_lt.mpr hge (h.held _ _ _ hw heq)).1]
    exact h.fresh i hge reply
  case failed =>
    intro hf
    rcases hfailed hf with hf | ⟨error, rfl⟩
    · exact (h.failed hf).set hw hopen hworkers
    · exact ⟨w, error, hself⟩
  case returned =>
    intro v hv
    have hmono : s.failed = true ∨ s.current = false
        ∨ namespaces.length ≤ s.next →
          t.failed = true ∨ t.current = false
            ∨ namespaces.length ≤ t.next := by
      rintro (hf | hc | hn)
      · exact .inl (hgrown hf)
      · exact .inr (.inl (hcurrent.trans hc))
      · exact .inr (.inr (Nat.le_trans hn hnext.1))
    rcases hset hv with ⟨rfl, heq⟩ | ⟨-, hv⟩
    · exact hmono (hreturned heq.symm)
    · exact hmono (h.returned v hv)
  case settled =>
    intro result hr
    rw [hsettled, hnone] at hr
    cases hr
  case stored =>
    intro list hl
    have hsome := h.fetched (by rw [← hfetch, hl]; nofun)
    rw [hnone] at hsome
    cases hsome
  case fetched =>
    intro hne
    have hsome := h.fetched (hfetch ▸ hne)
    rw [hnone] at hsome
    cases hsome

-- ======== the steps

/-- The calls so far: one for each index that was given out. -/
structure Calls (namespaces : List String) (s : State T E)
    (calls : List (Nat × String)) : Prop where
  indices : calls.map Prod.fst = List.range s.next
  named : ∀ c ∈ calls, namespaces[c.1]? = some c.2

theorem Inv.make (h : Inv namespaces truthy s)
    (hroom : s.workers.length
      < min namespaceQueryConcurrency namespaces.length) :
    Inv namespaces truthy { s with workers := s.workers ++ [.ready] } := by
  have hnone : s.settled = none := by
    refine h.open (Bool.and_eq_false_iff.mpr (.inl ?_))
    exact decide_eq_false (Nat.ne_of_lt hroom)
  have hthrew : Threw s →
      Threw { s with workers := s.workers ++ [.ready] } := by
    rintro ⟨w, error, hw⟩
    exact ⟨w, error, Place.append_of_some hw⟩
  have hold : ∀ {w : Nat} {worker : Worker T E} {i : Nat},
      (s.workers ++ [.ready])[w]? = some worker → worker.index = some i →
        s.workers[w]? = some worker := fun hw hi => by
    rcases Place.append_cases hw with hw | ⟨-, rfl⟩
    · exact hw
    · cases hi
  constructor
  case made =>
    show (s.workers ++ [Worker.ready]).length ≤ _
    rw [List.length_append]
    exact hroom
  case results => exact h.results
  case replies => exact h.replies
  case next => exact h.next
  case held =>
    intro w worker i hw hi
    exact h.held w worker i (hold hw hi) hi
  case one =>
    intro w w' worker worker' i hw hw' hi hi'
    exact h.one w w' worker worker' i (hold hw hi) (hold hw' hi') hi hi'
  case replied =>
    intro w i reply hw
    exact h.replied w i reply (hold hw rfl)
  case covered =>
    intro i hi
    rcases h.covered i hi with ⟨w, worker, hw, hindex⟩ | hdone
    · exact .inl ⟨w, worker, Place.append_of_some hw, hindex⟩
    · exact .inr (hdone.keep rfl rfl id hthrew)
  case fresh => exact h.fresh
  case failed => exact fun hf => hthrew (h.failed hf)
  case returned =>
    intro w hw
    rcases Place.append_cases hw with hw | ⟨-, heq⟩
    · exact h.returned w hw
    · cases heq
  case settled =>
    intro result hr
    cases hnone.symm.trans hr
  case stored => exact h.stored
  case fetched => exact h.fetched

/-- A worker at the condition of its loop goes on: it returns, or it starts
a call of the next index. -/
theorem Inv.goOn (atOnce : Option E) (h : Inv namespaces truthy s) (hcalls : Calls namespaces s
    calls) (hw : s.workers[w]? = some .ready) :
    Inv namespaces truthy (s.goOn namespaces atOnce w).1
      ∧ Calls namespaces (s.goOn namespaces atOnce w).1
        (calls ++ (s.goOn namespaces atOnce w).2) := by
  have hready : ∀ i, i < s.next → (Worker.ready : Worker T E).index
      = some i ∨ s.next ≤ i → False := fun i hi hor => by
    rcases hor with hor | hor
    · cases hor
    · exact absurd hi (Nat.not_lt.mpr hor)
  -- a worker that does not start a call returns
  have hreturn : s.failed = true ∨ s.current = false
        ∨ namespaces.length ≤ s.next →
      Inv namespaces truthy (s.setWorker w .returned)
        ∧ Calls namespaces (s.setWorker w .returned) (calls ++ []) := by
    intro hwhy
    rw [List.append_nil]
    refine ⟨h.move .returned hw rfl rfl rfl rfl rfl h.results
      h.replies ⟨Nat.le_refl _, h.next⟩ nofun (fun i _ _ => ⟨rfl, rfl⟩)
      nofun (fun i hi hor => (hready i hi hor).elim) .inl
      (fun _ => hwhy) id, hcalls.indices, hcalls.named⟩
  unfold State.goOn
  split
  next hstop =>
    refine hreturn ?_
    rcases Bool.or_eq_true_iff.mp hstop with hf | hc
    · exact .inl hf
    · exact .inr (.inl (by simpa using hc))
  next =>
    split
    next hnone =>
      exact hreturn (.inr (.inr (List.getElem?_eq_none_iff.mp hnone)))
    next ns hns =>
      have hlt : s.next < namespaces.length :=
        (List.getElem?_eq_some_iff.mp hns).1
      have hnamed : ∀ c ∈ calls ++ [(s.next, ns)],
          namespaces[c.1]? = some c.2 := by
        intro c hc
        rcases List.mem_append.mp hc with hc | hc
        · exact hcalls.named c hc
        · rw [List.mem_singleton.mp hc]
          exact hns
      have hindices : (calls ++ [(s.next, ns)]).map Prod.fst
          = List.range (s.next + 1) := by
        rw [List.map_append, hcalls.indices, List.range_succ]
        rfl
      have hnew : ∀ i, i < s.next + 1 →
          (Worker.ready : Worker T E).index = some i ∨ s.next ≤ i →
            i = s.next := fun i hi hor => by
        rcases hor with hor | hor
        · cases hor
        · omega
      cases atOnce with
      | none =>
        refine ⟨h.move (.calling s.next) hw rfl rfl rfl rfl rfl
          h.results h.replies ⟨Nat.le_succ _, hlt⟩ ?_
          (fun i _ _ => ⟨rfl, rfl⟩) nofun
          (fun i hi hor => .inl (congrArg some (hnew i hi hor).symm))
          .inl nofun id, hindices, hnamed⟩
        intro i hi
        obtain rfl := Option.some.inj hi
        exact .inr ⟨Nat.le_refl _, Nat.lt_succ_self _⟩
      | some error =>
        refine ⟨h.move (.threw error) hw rfl rfl rfl rfl rfl
          h.results (by
            show (s.replies.set _ _).length = _
            rw [List.length_set]
            exact h.replies) ⟨Nat.le_succ _, hlt⟩ nofun ?_ nofun ?_
          (fun _ => .inr ⟨error, rfl⟩) nofun (fun _ => rfl), hindices,
          hnamed⟩
        · intro i hi _
          exact ⟨List.getElem?_set_ne (by
            show s.next ≠ i
            rcases hi with hi | hi
            · omega
            · exact Nat.ne_of_lt hi), rfl⟩
        · intro i hi hor
          obtain rfl := hnew i hi hor
          refine .inr (.failed error ?_ ⟨w, error, Place.set_self hw⟩)
          exact List.getElem?_set_self (by rw [h.replies]; exact hlt)

theorem Inv.reply {index : Nat} {reply : Reply T E}
    (h : Inv namespaces truthy s)
    (hw : s.workers[w]? = some (.calling index))
    (hcurrent : reply = .cancelled → s.current = false) :
    Inv namespaces truthy
      ({ s with replies := s.replies.set index (some reply)
        }.setWorker w (.replied index reply)) := by
  have hlt : index < s.next := h.held _ _ _ hw rfl
  have hself : (s.replies.set index (some reply))[index]?
      = some (some reply) := by
    refine List.getElem?_set_self ?_
    rw [h.replies]
    exact Nat.lt_of_lt_of_le hlt h.next
  refine h.move (.replied index reply) hw rfl rfl rfl rfl rfl
    h.results (by
      show (s.replies.set _ _).length = _
      rw [List.length_set]
      exact h.replies) ⟨Nat.le_refl _, h.next⟩ (fun i hi => .inl hi) ?_ ?_
    ?_ .inl nofun id
  · intro i _ hne
    exact ⟨List.getElem?_set_ne fun heq => hne (congrArg some heq), rfl⟩
  · intro i r heq
    obtain ⟨rfl, rfl⟩ := Worker.replied.inj heq
    exact ⟨hself, hcurrent⟩
  · intro i hi hor
    rcases hor with hor | hor
    · exact .inl hor
    · exact absurd hi (Nat.not_lt.mpr hor)

theorem Inv.store {index : Nat} {reply : Reply T E} (list : List T)
    (h : Inv namespaces truthy s)
    (hw : s.workers[w]? = some (.replied index reply))
    (hreply : reply = .items list ∨ reply = .cancelled) :
    Inv namespaces truthy
      ({ s with results := s.results.set index (some list)
        }.setWorker w .ready) := by
  obtain ⟨hstored, hcancelled⟩ := h.replied _ _ _ hw
  have hlt : index < s.next := h.held _ _ _ hw rfl
  refine h.move .ready hw rfl rfl rfl rfl rfl (by
      show (s.results.set _ _).length = _
      rw [List.length_set]
      exact h.results) h.replies ⟨Nat.le_refl _, h.next⟩ nofun ?_ nofun ?_
    .inl nofun id
  · intro i _ hne
    exact ⟨rfl, List.getElem?_set_ne fun heq => hne (congrArg some heq)⟩
  · intro i hi hor
    rcases hor with hor | hor
    · obtain rfl := Option.some.inj hor
      rcases hreply with rfl | rfl
      · refine .inr (.items list hstored (List.getElem?_set_self ?_))
        rw [h.results]
        exact Nat.lt_of_lt_of_le hlt h.next
      · exact .inr (.cancelled hstored (hcancelled rfl))
    · exact absurd hi (Nat.not_lt.mpr hor)

theorem Inv.throw {index : Nat} {error : E} (h : Inv namespaces truthy s)
    (hw : s.workers[w]? = some (.replied index (.failed error))) :
    Inv namespaces truthy
      ({ s with failed := true }.setWorker w (.threw error)) := by
  refine h.move (.threw error) hw rfl rfl rfl rfl rfl h.results
    h.replies ⟨Nat.le_refl _, h.next⟩ nofun (fun i _ _ => ⟨rfl, rfl⟩) nofun
    ?_ (fun _ => .inr ⟨error, rfl⟩) nofun (fun _ => rfl)
  intro i hi hor
  rcases hor with hor | hor
  · obtain rfl := Option.some.inj hor
    exact .inr (.failed error (h.replied _ _ _ hw).1
      ⟨w, error, Place.set_self hw⟩)
  · exact absurd hi (Nat.not_lt.mpr hor)

theorem Inv.cancel (h : Inv namespaces truthy s) :
    Inv namespaces truthy { s with current := false } where
  made := h.made
  results := h.results
  replies := h.replies
  next := h.next
  held := h.held
  one := h.one
  replied := fun w i reply hw => ⟨(h.replied w i reply hw).1, fun _ => rfl⟩
  covered := by
    intro i hi
    rcases h.covered i hi with hheld | hdone
    · exact .inl hheld
    · exact .inr (hdone.keep rfl rfl (fun _ => rfl) id)
  fresh := h.fresh
  failed := h.failed
  returned := fun _ _ => .inr (.inl rfl)
  settled := h.settled
  stored := h.stored
  fetched := h.fetched

-- ======== the end

theorem not_held (hall : s.allSettled namespaces = true) (i : Nat) :
    ¬Held s i := by
  rintro ⟨w, worker, hw, hindex⟩
  have hsettled := List.all_eq_true.mp (Bool.and_eq_true_iff.mp hall).2
    worker (List.mem_of_getElem? hw)
  cases worker with
  | calling _ => cases hsettled
  | replied _ _ => cases hsettled
  | ready => cases hindex
  | returned => cases hindex
  | threw _ => cases hindex

/-- A list is returned only where no worker has thrown, and then it is what
was stored. -/
theorem verdict_ok {list : List T} (h : s.verdict truthy = .ok list) :
    ¬Threw s
      ∧ list = (s.results.flatMap fun l => l.getD []).filter truthy := by
  unfold State.verdict at h
  split at h
  · cases h
  next hnone =>
    refine ⟨?_, (Except.ok.inj h).symm⟩
    rintro ⟨w, error, hw⟩
    have := List.findSome?_eq_none_iff.mp hnone _ (List.mem_of_getElem? hw)
    cases this

theorem Inv.rejects (h : Inv namespaces truthy s)
    (hall : s.allSettled namespaces = true) (hthrew : ¬Threw s)
    (error : E) : some (.failed error) ∉ s.replies := by
  intro hmem
  obtain ⟨i, hi⟩ := List.getElem?_of_mem hmem
  by_cases hlt : i < s.next
  · rcases h.covered i hlt with hheld | hdone
    · exact not_held hall i hheld
    · cases hdone with
      | items list hr _ => cases hi.symm.trans hr
      | cancelled hr _ => cases hi.symm.trans hr
      | failed _ _ ht => exact hthrew ht
  · exact h.fresh i (Nat.not_lt.mp hlt) _ hi

theorem Inv.exhausted (h : Inv namespaces truthy s)
    (hall : s.allSettled namespaces = true) (hthrew : ¬Threw s)
    (hcurrent : s.current = true) : namespaces.length ≤ s.next := by
  obtain ⟨hlength, hsettled⟩ := Bool.and_eq_true_iff.mp hall
  have hlength := of_decide_eq_true hlength
  unfold namespaceQueryConcurrency at hlength
  cases hw : s.workers with
  | nil =>
    rw [hw, List.length_nil] at hlength
    omega
  | cons worker rest =>
    have hfirst : s.workers[0]? = some worker := by rw [hw]; rfl
    have hend := List.all_eq_true.mp hsettled worker
      (List.mem_of_getElem? hfirst)
    cases worker with
    | returned =>
      rcases h.returned 0 hfirst with hf | hc | hn
      · exact absurd (h.failed hf) hthrew
      · rw [hc] at hcurrent
        cases hcurrent
      · exact hn
    | threw error => exact absurd ⟨0, error, hfirst⟩ hthrew
    | ready => cases hend
    | calling _ => cases hend
    | replied _ _ => cases hend

theorem Inv.complete (h : Inv namespaces truthy s)
    (hall : s.allSettled namespaces = true) (hcurrent : s.current = true)
    {list : List T} (hlist : s.verdict truthy = .ok list) :
    Complete truthy s list := by
  obtain ⟨hthrew, rfl⟩ := verdict_ok hlist
  have hnext := h.exhausted hall hthrew hcurrent
  have hflat : (s.results.flatMap fun l => l.getD [])
      = (s.results.map fun l => l.getD []).flatten :=
    List.flatMap_def
  rw [hflat]
  refine ⟨s.results.map fun l => l.getD [], ?_, rfl, fun htrue => ?_⟩
  · refine List.ext_getElem? fun i => ?_
    rw [List.map_map, List.getElem?_map]
    by_cases hlt : i < namespaces.length
    · rcases h.covered i (Nat.lt_of_lt_of_le hlt hnext) with hheld | hdone
      · exact absurd hheld (not_held hall i)
      · cases hdone with
        | items l hr hl =>
          rw [hr, hl]
          rfl
        | cancelled _ hc =>
          rw [hc] at hcurrent
          cases hcurrent
        | failed _ _ ht => exact absurd ht hthrew
    · have hge := Nat.not_lt.mp hlt
      rw [List.getElem?_eq_none (h.replies ▸ hge),
        List.getElem?_eq_none (h.results ▸ hge)]
      rfl
  · refine List.filter_eq_self.mpr fun x hx => ?_
    obtain ⟨l, hl, hxl⟩ := List.mem_flatten.mp hx
    exact htrue l hl x hxl

/-- Every step keeps what is known, and puts out the call it starts. -/
theorem Inv.step (h : Inv namespaces truthy s)
    (hcalls : Calls namespaces s calls)
    (hstep : step namespaces truthy a s = some (s', o)) :
    Inv namespaces truthy s' ∧ Calls namespaces s' (calls ++ o) := by
  cases a with
  | spawn atOnce =>
    simp only [NamespaceQuery.step] at hstep
    split at hstep
    next hroom =>
      have hgo := (h.make hroom).goOn atOnce
        ⟨hcalls.indices, hcalls.named⟩
        (show (s.workers ++ [.ready])[s.workers.length]? = some .ready from
          List.getElem?_concat_length)
      rw [Option.some.inj hstep] at hgo
      exact hgo
    · cases hstep
  | reply w reply =>
    simp only [NamespaceQuery.step] at hstep
    split at hstep
    · cases hstep
    next _ _ index hw hcancelled =>
      obtain ⟨rfl, rfl⟩ := Prod.mk.inj (Option.some.inj hstep)
      rw [List.append_nil]
      refine ⟨h.reply hw fun hr => ?_, hcalls.indices, hcalls.named⟩
      cases hc : s.current with
      | false => rfl
      | true => exact (hcancelled hr hc).elim
    · cases hstep
  | resume w atOnce =>
    simp only [NamespaceQuery.step] at hstep
    split at hstep
    next index list hw =>
      have hgo := (h.store list hw (.inl rfl)).goOn
        atOnce ⟨hcalls.indices, hcalls.named⟩
        (Place.set_self hw)
      rw [Option.some.inj hstep] at hgo
      exact hgo
    next index hw =>
      have hgo := (h.store [] hw (.inr rfl)).goOn
        atOnce ⟨hcalls.indices, hcalls.named⟩
        (Place.set_self hw)
      rw [Option.some.inj hstep] at hgo
      exact hgo
    next hw =>
      obtain ⟨rfl, rfl⟩ := Prod.mk.inj (Option.some.inj hstep)
      rw [List.append_nil]
      exact ⟨h.throw hw, hcalls.indices, hcalls.named⟩
    · cases hstep
  | cancel =>
    obtain ⟨rfl, rfl⟩ := Prod.mk.inj (Option.some.inj hstep)
    rw [List.append_nil]
    exact ⟨h.cancel, hcalls.indices, hcalls.named⟩
  | settle =>
    simp only [NamespaceQuery.step] at hstep
    split at hstep
    next hand =>
      obtain ⟨rfl, rfl⟩ := Prod.mk.inj (Option.some.inj hstep)
      obtain ⟨hall, hnone⟩ := Bool.and_eq_true_iff.mp hand
      rw [List.append_nil]
      refine ⟨{ h with
        covered := ?_, settled := ?_, fetched := fun _ => rfl },
        hcalls.indices, hcalls.named⟩
      · intro i hi
        rcases h.covered i hi with hheld | hdone
        · exact .inl hheld
        · exact .inr (hdone.keep rfl rfl id id)
      · intro result hr
        exact ⟨hall, (Option.some.inj hr).symm⟩
    · cases hstep
  | fetch =>
    simp only [NamespaceQuery.step] at hstep
    -- what was known of the workers is known of them still
    have hkeep : ∀ fetch : Fetch T E, s.settled.isSome →
        (∀ list, fetch = .stored list → Complete truthy s list) →
          Inv namespaces truthy { s with fetch } := by
      intro fetch hsome hstored
      refine { h with
        covered := ?_, stored := hstored, fetched := fun _ => hsome }
      intro i hi
      rcases h.covered i hi with hheld | hdone
      · exact .inl hheld
      · exact .inr (hdone.keep rfl rfl id id)
    split at hstep
    next result hr hwaiting =>
      have hsome : s.settled.isSome := by rw [hr]; rfl
      split at hstep
      · obtain ⟨rfl, rfl⟩ := Prod.mk.inj (Option.some.inj hstep)
        rw [List.append_nil]
        exact ⟨hkeep _ hsome nofun, hcalls.indices, hcalls.named⟩
      next hcurrent =>
        obtain ⟨hall, hverdict⟩ := h.settled result hr
        split at hstep
        next items =>
          obtain ⟨rfl, rfl⟩ := Prod.mk.inj (Option.some.inj hstep)
          rw [List.append_nil]
          refine ⟨hkeep _ hsome fun list heq => ?_, hcalls.indices,
            hcalls.named⟩
          obtain rfl := Fetch.stored.inj heq
          exact h.complete hall (by simpa using hcurrent) hverdict.symm
        next error =>
          obtain ⟨rfl, rfl⟩ := Prod.mk.inj (Option.some.inj hstep)
          rw [List.append_nil]
          exact ⟨hkeep _ hsome nofun, hcalls.indices, hcalls.named⟩
    · cases hstep

/-- After a failure no call is started. -/
theorem stops (hfailed : s.failed = true)
    (hstep : step namespaces truthy a s = some (s', o)) : o = [] := by
  have hgo : ∀ {t : State T E} {w : Nat} {atOnce : Option E},
      t.failed = true → (t.goOn namespaces atOnce w).2 = [] := by
    intro t w atOnce ht
    unfold State.goOn
    rw [ht]
    rfl
  cases a with
  | spawn atOnce =>
    simp only [NamespaceQuery.step] at hstep
    split at hstep
    · rw [← (Prod.mk.inj (Option.some.inj hstep)).2]
      exact hgo hfailed
    · cases hstep
  | reply w reply =>
    simp only [NamespaceQuery.step] at hstep
    split at hstep
    · cases hstep
    · exact (Prod.mk.inj (Option.some.inj hstep)).2.symm
    · cases hstep
  | resume w atOnce =>
    simp only [NamespaceQuery.step] at hstep
    split at hstep
    · rw [← (Prod.mk.inj (Option.some.inj hstep)).2]
      exact hgo hfailed
    · rw [← (Prod.mk.inj (Option.some.inj hstep)).2]
      exact hgo hfailed
    · exact (Prod.mk.inj (Option.some.inj hstep)).2.symm
    · cases hstep
  | cancel => exact (Prod.mk.inj (Option.some.inj hstep)).2.symm
  | settle =>
    simp only [NamespaceQuery.step] at hstep
    split at hstep
    · exact (Prod.mk.inj (Option.some.inj hstep)).2.symm
    · cases hstep
  | fetch =>
    simp only [NamespaceQuery.step] at hstep
    split at hstep
    next result _ _ =>
      split at hstep
      · exact (Prod.mk.inj (Option.some.inj hstep)).2.symm
      · cases result with
        | ok items => exact (Prod.mk.inj (Option.some.inj hstep)).2.symm
        | error error =>
          exact (Prod.mk.inj (Option.some.inj hstep)).2.symm
    · cases hstep

theorem inv_init :
    Inv namespaces truthy (State.init (T := T) (E := E) namespaces) where
  made := Nat.zero_le _
  results := List.length_replicate
  replies := List.length_replicate
  next := Nat.zero_le _
  held := nofun
  one := nofun
  replied := nofun
  covered := nofun
  fresh := by
    intro i _ reply hi
    cases List.eq_of_mem_replicate (List.mem_of_getElem? hi)
  failed := nofun
  returned := nofun
  settled := nofun
  stored := nofun
  fetched := fun h => absurd rfl h

/-- In every run the list of several namespaces is all or nothing. -/
theorem namespaceScope_lawful {acts : List (Action T E)}
    (hrun : run (step namespaces truthy) (.init namespaces) acts
      = some (s, calls)) : Lawful namespaces truthy s calls := by
  obtain ⟨h, hcalls⟩ := Machine.run_history_nil
    (J := fun s calls => Inv namespaces truthy s ∧ Calls namespaces s calls)
    (fun ⟨hinv, hcalls⟩ _ hstep => hinv.step hcalls hstep)
    ⟨inv_init, rfl, nofun⟩ Machine.along_true hrun
  constructor
  case inFlight =>
    exact Nat.le_trans List.countP_le_length
      (Nat.le_trans h.made (Nat.min_le_left ..))
  case once => exact hcalls.indices ▸ List.nodup_range
  case named => exact hcalls.named
  case replies => exact h.replies
  case stops => exact fun hfailed a s' calls' hstep => stops hfailed hstep
  case drained =>
    intro hsome worker hw
    obtain ⟨result, hr⟩ := Option.isSome_iff_exists.mp hsome
    have hall := (h.settled result hr).1
    have hend := List.all_eq_true.mp (Bool.and_eq_true_iff.mp hall).2
      worker hw
    cases worker with
    | calling _ => cases hend
    | _ => rfl
  case rejects =>
    intro list hlist error
    obtain ⟨hall, hverdict⟩ := h.settled _ hlist
    exact h.rejects hall (verdict_ok hverdict.symm).1 error
  case complete =>
    intro list hlist hcurrent
    obtain ⟨hall, hverdict⟩ := h.settled _ hlist
    exact h.complete hall hcurrent hverdict.symm
  case stored => exact h.stored

/-- Two namespaces, of which the second replies first. -/
theorem namespaceScope_lawful_two :
    ∃ s calls,
      run (step (T := Nat) (E := String) ["a", "b"] (· != 0))
        (.init ["a", "b"]) [.spawn none, .spawn none, .reply 1 (.items [3]),
          .resume 1 none, .reply 0 (.items [1, 2]), .resume 0 none, .settle,
          .fetch] = some (s, calls)
      ∧ s.fetch = .stored [1, 2, 3]
      ∧ Lawful ["a", "b"] (· != 0) s calls :=
  ⟨_, _, rfl, rfl, namespaceScope_lawful (show run _ _ [.spawn none,
    .spawn none, .reply 1 (.items [3]), .resume 1 none,
    .reply 0 (.items [1, 2]), .resume 0 none, .settle, .fetch] = _
      from rfl)⟩

end NamespaceQuery
