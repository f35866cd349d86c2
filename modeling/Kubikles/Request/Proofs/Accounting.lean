/-
Request accounting: the counters, the map and the history agree.

# The argument

A request ends in one way only: its entry is found, and it is counted.
`CompleteRequest` and `CancelRequest` erase the entry then;
`StartRequest` overwrites it, which is as good as erasing it and filing
the new one. So there are two steps to look at, the end of a request
(`Accounted.settle`) and the filing of one (`Accounted.register`).

What ties them together is the sequence number. It grows with each
request filed, so a number belongs to one request, and the entry under
an ID bears the number of the latest start for that ID. A completion
that brings any other number finds no entry it may touch.
-/
import Kubikles.Request.Manager

namespace ListRequestManager

open Machine

-- ======== the invariant

/-- The counters, the map and the history agree. -/
structure Accounted (m : ListRequestManager)
    (history : List RequestOut) : Prop where
  /-- As many are pending as there are entries. -/
  pending_eq : m.pending = FinMap.size m.requests
  /-- Every request is pending, completed or canceled. -/
  total_eq : m.total = m.pending + m.completed + m.canceled
  /-- The two counters count the requests of the history that ended. -/
  counted_eq : m.completed + m.canceled
    = ((history.filterMap counted).length : Int)
  /-- No request ended twice. -/
  nodup : (history.filterMap counted).Nodup
  /-- A request that ended was started. -/
  counted_started : ∀ sequence ∈ history.filterMap counted,
    ∃ requestId, sequence ∈ history.filterMap (startedAs requestId)
  /-- Numbers were given out up to the sequence, each under one ID. -/
  started_le : ∀ requestId,
    ∀ sequence ∈ history.filterMap (startedAs requestId),
      sequence ≤ m.sequence
  /-- The entry under an ID is the latest request of that ID. -/
  latest : ∀ {requestId entry},
    m.requests.lookup requestId = some entry →
      latestStart requestId history = some entry.sequence
  /-- A request with an entry has not ended. -/
  unsettled : ∀ {requestId entry},
    m.requests.lookup requestId = some entry →
      entry.sequence ∉ history.filterMap counted
  /-- No two entries are of one request. -/
  distinct : ∀ {requestId requestId' entry entry'},
    m.requests.lookup requestId = some entry →
      m.requests.lookup requestId' = some entry' →
      entry.sequence = entry'.sequence → requestId = requestId'

variable {m m' : ListRequestManager} {history o : List RequestOut}
variable {requestId : String} {entry : RequestEntry}

theorem accounted_new : Accounted new [] where
  pending_eq := rfl
  total_eq := rfl
  counted_eq := rfl
  nodup := List.nodup_nil
  counted_started := fun _ h => nomatch h
  started_le := fun _ _ h => nomatch h
  latest := fun h => nomatch h
  unsettled := fun h => nomatch h
  distinct := fun h => nomatch h

-- ======== the two changes

theorem latestStart_append_of_none
    (h : o.filterMap (startedAs requestId) = []) :
    latestStart requestId (history ++ o) = latestStart requestId history := by
  unfold latestStart
  rw [List.filterMap_append, h, List.append_nil]

theorem Accounted.latest_le (hi : Accounted m history) {sequence : Int}
    (h : latestStart requestId history = some sequence) :
    sequence ≤ m.sequence :=
  hi.started_le requestId sequence (List.mem_of_getLast? h)

theorem Accounted.quiet (hi : Accounted m history) (enabled : Bool)
    (hcounted : o.filterMap counted = [])
    (hstarted : ∀ id, o.filterMap (startedAs id) = []) :
    Accounted { m with cancellationEnabled := enabled } (history ++ o) := by
  have hfilter : (history ++ o).filterMap counted
      = history.filterMap counted := by
    rw [List.filterMap_append, hcounted, List.append_nil]
  have hstart : ∀ id, (history ++ o).filterMap (startedAs id)
      = history.filterMap (startedAs id) := by
    intro id
    rw [List.filterMap_append, hstarted id, List.append_nil]
  refine ⟨hi.pending_eq, hi.total_eq, ?_, ?_, ?_, ?_, ?_, ?_, hi.distinct⟩
  · rw [hfilter]
    exact hi.counted_eq
  · rw [hfilter]
    exact hi.nodup
  · simp only [hfilter, hstart]
    exact hi.counted_started
  · simp only [hstart]
    exact hi.started_le
  · intro id e h
    rw [latestStart_append_of_none (hstarted id)]
    exact hi.latest h
  · intro id e h
    rw [hfilter]
    exact hi.unsettled h

/-- The entry of a request is erased and the request counted. -/
theorem Accounted.settle (hi : Accounted m history)
    (hlookup : m.requests.lookup requestId = some entry)
    (hrequests : m'.requests = m.requests.erase requestId)
    (hsequence : m'.sequence = m.sequence) (htotal : m'.total = m.total)
    (hpending : m'.pending = m.pending - 1)
    (hcount : m'.completed + m'.canceled = m.completed + m.canceled + 1)
    (hcounted : o.filterMap counted = [entry.sequence])
    (hstarted : ∀ id, o.filterMap (startedAs id) = []) :
    Accounted m' (history ++ o) := by
  have hmem : ∀ {id e}, m'.requests.lookup id = some e →
      id ≠ requestId ∧ m.requests.lookup id = some e := by
    intro id e h
    rw [hrequests, FinMap.lookup_erase] at h
    split at h
    next => cases h
    next hne => exact ⟨hne, h⟩
  have hfilter : (history ++ o).filterMap counted
      = history.filterMap counted ++ [entry.sequence] := by
    rw [List.filterMap_append, hcounted]
  have hstart : ∀ id, (history ++ o).filterMap (startedAs id)
      = history.filterMap (startedAs id) := by
    intro id
    rw [List.filterMap_append, hstarted id, List.append_nil]
  have hopen := hi.unsettled hlookup
  refine ⟨?_, ?_, ?_, ?_, ?_, ?_, ?_, ?_, ?_⟩
  · have hsize := FinMap.size_erase hlookup
    have := hi.pending_eq
    rw [hrequests, hpending]
    omega
  · have := hi.total_eq
    omega
  · have := hi.counted_eq
    rw [hfilter, List.length_append, List.length_singleton]
    omega
  · rw [hfilter]
    refine List.nodup_append.mpr ⟨hi.nodup, List.nodup_singleton _, ?_⟩
    intro a ha b hb heq
    rw [List.mem_singleton] at hb
    exact hopen (hb ▸ heq ▸ ha)
  · intro sequence h
    rw [hfilter, List.mem_append, List.mem_singleton] at h
    rcases h with h | rfl
    · obtain ⟨id, hid⟩ := hi.counted_started sequence h
      exact ⟨id, hstart id ▸ hid⟩
    · refine ⟨requestId, ?_⟩
      rw [hstart]
      exact List.mem_of_getLast? (hi.latest hlookup)
  · intro id sequence h
    rw [hsequence]
    exact hi.started_le id sequence (hstart id ▸ h)
  · intro id e h
    rw [latestStart_append_of_none (hstarted id)]
    exact hi.latest (hmem h).2
  · intro id e h
    rw [hfilter, List.mem_append, List.mem_singleton]
    rintro (hin | heq)
    · exact hi.unsettled (hmem h).2 hin
    · exact (hmem h).1 (hi.distinct (hmem h).2 hlookup heq)
  · intro id id' e e' h h' heq
    exact hi.distinct (hmem h).2 (hmem h').2 heq

/-- A request is filed under an ID that has no entry. -/
theorem Accounted.register (requestId : String) (hi : Accounted m history)
    (hlookup : m.requests.lookup requestId = none) :
    Accounted (m.register requestId).1
      (history ++ (m.register requestId).2) := by
  have hmem : ∀ {id e},
      (m.register requestId).1.requests.lookup id = some e →
        (id = requestId ∧ e.sequence = m.sequence + 1)
          ∨ (id ≠ requestId ∧ m.requests.lookup id = some e) := by
    intro id e h
    unfold ListRequestManager.register at h
    rw [FinMap.lookup_insert] at h
    split at h
    next heq =>
      injection h with h
      exact .inl ⟨heq, h ▸ rfl⟩
    next hne => exact .inr ⟨hne, h⟩
  have hold : ∀ {id e}, m.requests.lookup id = some e →
      e.sequence < m.sequence + 1 := fun h =>
    Int.lt_add_one_of_le (hi.latest_le (hi.latest h))
  have hfilter : (history ++ (m.register requestId).2).filterMap counted
      = history.filterMap counted := by
    rw [List.filterMap_append]
    exact List.append_nil _
  have hstart : ∀ id,
      (history ++ (m.register requestId).2).filterMap (startedAs id)
        = history.filterMap (startedAs id)
          ++ if requestId = id then [m.sequence + 1] else [] := by
    intro id
    rw [List.filterMap_append]
    by_cases h : requestId = id <;>
      simp [ListRequestManager.register, startedAs, h]
  refine ⟨?_, ?_, ?_, ?_, ?_, ?_, ?_, ?_, ?_⟩
  · have := hi.pending_eq
    show m.pending + 1 = (FinMap.size (m.requests.insert requestId _) : Int)
    rw [FinMap.size_insert _ hlookup]
    omega
  · have := hi.total_eq
    show m.total + 1 = m.pending + 1 + m.completed + m.canceled
    omega
  · rw [hfilter]
    exact hi.counted_eq
  · rw [hfilter]
    exact hi.nodup
  · intro sequence h
    rw [hfilter] at h
    obtain ⟨id, hid⟩ := hi.counted_started sequence h
    refine ⟨id, ?_⟩
    rw [hstart]
    exact List.mem_append_left _ hid
  · intro id sequence h
    show sequence ≤ m.sequence + 1
    rw [hstart, List.mem_append] at h
    rcases h with h | h
    · have := hi.started_le id sequence h
      omega
    · split at h
      · rw [List.mem_singleton] at h
        omega
      · cases h
  · intro id e h
    unfold latestStart
    rw [hstart]
    rcases hmem h with ⟨rfl, hseq⟩ | ⟨hne, hlook⟩
    · rw [if_pos rfl, List.getLast?_concat, hseq]
    · rw [if_neg (Ne.symm hne), List.append_nil]
      exact hi.latest hlook
  · intro id e h
    rw [hfilter]
    intro hin
    rcases hmem h with ⟨rfl, hseq⟩ | ⟨hne, hlook⟩
    · obtain ⟨id', hid'⟩ := hi.counted_started _ hin
      have := hi.started_le id' _ hid'
      omega
    · exact hi.unsettled hlook hin
  · intro id id' e e' h h' heq
    rcases hmem h with ⟨rfl, hseq⟩ | ⟨hne, hlook⟩ <;>
      rcases hmem h' with ⟨rfl, hseq'⟩ | ⟨hne', hlook'⟩
    · rfl
    · have := hold hlook'
      omega
    · have := hold hlook
      omega
    · exact hi.distinct hlook hlook' heq

-- ======== one step

theorem cancelEntry_quiet (m : ListRequestManager) (entry : RequestEntry) :
    (m.cancelEntry entry).filterMap counted = []
      ∧ ∀ id, (m.cancelEntry entry).filterMap (startedAs id) = [] := by
  unfold cancelEntry
  split
  · exact ⟨rfl, fun _ => rfl⟩
  · exact ⟨rfl, fun _ => rfl⟩

theorem startRequest_accounted (hi : Accounted m history)
    (requestId : String) :
    Accounted (m.startRequest requestId).1
      (history ++ (m.startRequest requestId).2) := by
  cases hlookup : m.requests.lookup requestId with
  | none =>
    have h := hi.register requestId hlookup
    simpa only [startRequest, supersede, hlookup, List.nil_append] using h
  | some entry =>
    -- the entry is overwritten; as if it had been erased first
    have hquiet := m.cancelEntry_quiet entry
    have hended : Accounted
        { m with canceled := m.canceled + 1
                 pending := m.pending - 1
                 requests := m.requests.erase requestId }
        (history ++ (m.cancelEntry entry ++ [.canceled entry.sequence])) :=
      hi.settle hlookup rfl rfl rfl rfl (Int.add_assoc ..).symm
      (by rw [List.filterMap_append, hquiet.1]; rfl)
      (fun id => by rw [List.filterMap_append, hquiet.2 id]; rfl)
    have h := hended.register requestId (Finmap.lookup_erase _ _)
    simp only [register, FinMap.insert_erase] at h
    simpa only [startRequest, supersede, hlookup, register,
      List.append_assoc] using h

theorem completeRequest_accounted (hi : Accounted m history)
    (requestId : String) (sequence : Int) :
    Accounted (m.completeRequest requestId sequence).1
      (history ++ (m.completeRequest requestId sequence).2) := by
  unfold completeRequest
  cases hlookup : m.requests.lookup requestId with
  | none => simpa only [List.append_nil] using hi
  | some entry =>
    by_cases hseq : entry.sequence = sequence
    · simp only [if_pos hseq]
      exact hi.settle hlookup rfl rfl rfl rfl
        (Int.add_right_comm ..) rfl (fun _ => rfl)
    · simpa only [if_neg hseq, List.append_nil] using hi

theorem cancelRequest_accounted (hi : Accounted m history)
    (requestId : String) :
    Accounted (m.cancelRequest requestId).1
      (history ++ (m.cancelRequest requestId).2) := by
  unfold cancelRequest
  cases hlookup : m.requests.lookup requestId with
  | none => exact hi.quiet m.cancellationEnabled rfl (fun _ => rfl)
  | some entry =>
    have hquiet := m.cancelEntry_quiet entry
    exact hi.settle hlookup rfl rfl rfl rfl
      (Int.add_assoc ..).symm
      (by rw [List.filterMap_append, hquiet.1]; rfl)
      (fun id => by rw [List.filterMap_append, hquiet.2 id]; rfl)

theorem step_accounted {a : RequestAct} (hi : Accounted m history)
    (h : step a m = some (m', o)) : Accounted m' (history ++ o) := by
  cases a with
  | startRequest requestId =>
    cases h
    exact startRequest_accounted hi requestId
  | completeRequest requestId sequence =>
    have hmethod := completeRequest_accounted hi requestId sequence
    rw [Option.some.inj h] at hmethod
    exact hmethod
  | cancelRequest requestId =>
    have hmethod := cancelRequest_accounted hi requestId
    rw [Option.some.inj h] at hmethod
    exact hmethod
  | setCancellationEnabled enabled =>
    cases h
    exact hi.quiet enabled rfl (fun _ => rfl)

-- ======== the results

theorem run_accounted {acts : List RequestAct}
    (hrun : run step new acts = some (m, history)) :
    Accounted m history :=
  run_history_nil (J := Accounted)
    (fun hi _ h => step_accounted hi h) accounted_new along_true hrun

/-- A completion with another number than that of the latest start under
its ID does nothing at all. -/
theorem Accounted.completeRequest_stale (hi : Accounted m history)
    {sequence : Int}
    (hstale : latestStart requestId history ≠ some sequence) :
    m.completeRequest requestId sequence = (m, []) := by
  unfold completeRequest
  cases hlookup : m.requests.lookup requestId with
  | none => rfl
  | some entry =>
    have hne : entry.sequence ≠ sequence := by
      intro heq
      apply hstale
      rw [hi.latest hlookup, heq]
    simp only [if_neg hne]

/-- In every state the calls lead to, every request is pending,
completed or canceled, and the entries are the pending ones; the
requests counted so far are distinct and were all started; and a
completion whose number is not that of the latest start under its ID
leaves every entry and every counter as it is. -/
theorem requests_accounted {acts : List RequestAct}
    (hrun : run step new acts = some (m, history)) :
    m.total = m.pending + m.completed + m.canceled
      ∧ m.pending = FinMap.size m.requests ∧ 0 ≤ m.pending
      ∧ m.completed + m.canceled
          = ((history.filterMap counted).length : Int)
      ∧ (history.filterMap counted).Nodup
      ∧ (∀ sequence ∈ history.filterMap counted,
          ∃ requestId, sequence ∈ history.filterMap (startedAs requestId))
      ∧ ∀ requestId sequence,
          latestStart requestId history ≠ some sequence →
            m.completeRequest requestId sequence = (m, []) := by
  have hi := run_accounted hrun
  refine ⟨hi.total_eq, hi.pending_eq, ?_, hi.counted_eq, hi.nodup,
    hi.counted_started, fun _ _ => hi.completeRequest_stale⟩
  have := hi.pending_eq
  omega

def startTwice : List RequestAct :=
  [.startRequest "pods", .startRequest "pods"]

/-- The first request is canceled by the second, and its completion comes
too late to do anything. -/
theorem startTwice_accounted :
    ∃ m history, run step new startTwice = some (m, history)
      ∧ (m.total, m.pending, m.canceled) = (2, 1, 1)
      ∧ latestStart "pods" history = some 2
      ∧ m.completeRequest "pods" 1 = (m, []) := by
  have hrun : run step new startTwice = some (_, _) := rfl
  exact ⟨_, _, hrun, rfl, by decide,
    (requests_accounted hrun).2.2.2.2.2.2 _ _ (by decide)⟩

end ListRequestManager
