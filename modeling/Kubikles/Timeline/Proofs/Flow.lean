/-
What the flow timeline shows of what it is to show.

# The argument

The timeline is the front of what was found, sorted. What is found in a
log are the lines of its first chunk, of which the last may be cut off,
and only those that are long enough; what is due are all its lines. So
the timeline is the newest of what is due if what was found is enough to
tell that (`getFlowTimeline_newest_iff`), and with no negative limit.
-/
import Kubikles.Timeline.Flow

namespace FlowTimeline

open Newest (Enough)

-- ======== the claim

/-- The time of a line and what is behind it, of a line that starts with a
time. -/
def stamped (line : Text) : Option (Int × Text) :=
  (line.idxOf? Text.space).bind fun spaceIdx =>
    (Rfc3339.parse (line.take spaceIdx)).map fun t =>
      (t.instant, line.drop (spaceIdx + 1))

def dueLine (ref : ResourceRef) (cutoff : Int) (line : Text) :
    Option FlowTimelineEntry :=
  if isErrorLine line then
    (stamped line).bind fun stamp =>
      if stamp.1 < cutoff then none else some (logEntry ref stamp.1 stamp.2)
  else none

/-- The entries that are due for the logs of a pod. -/
def dueLogs (cluster : Cluster) (cutoff : Int) (ref : ResourceRef) :
    List FlowTimelineEntry :=
  ((cluster.containers ref.ns ref.name).getD []).flatMap fun container =>
    ((cluster.logs ref.ns ref.name container).elim [] fun stream =>
      (Text.split stream.chunks.flatten).filterMap (dueLine ref cutoff))

def sameEvents (ref ref' : ResourceRef) : Bool :=
  ref.eventNamespace = ref'.eventNamespace && ref.name = ref'.name
    && ref.kind = ref'.kind

/-- The entries that are due: the events, each once, and the error lines,
each once. -/
def due (cluster : Cluster) (now : Int) (req : FlowTimelineRequest)
    (refs : List ResourceRef) : List FlowTimelineEntry :=
  ((refs.eraseDupsBy sameEvents).flatMap
      (getEventsForResource cluster · (req.cutoff now)))
    ++ if req.includeLogs then
      (refs.filter ResourceRef.isPod).eraseDups.flatMap
        (dueLogs cluster (req.cutoff now))
    else []

def found (cluster : Cluster) (now : Int) (req : FlowTimelineRequest)
    (refs : List ResourceRef) : List FlowTimelineEntry :=
  (refs.flatMap (getEventsForResource cluster · (req.cutoff now)))
    ++ if req.includeLogs then
      (refs.filter ResourceRef.isPod).flatMap
        (getRecentErrorLogs cluster · (req.cutoff now))
    else []

def FlowTimelineRequest.limit (req : FlowTimelineRequest) : Int :=
  if req.maxEntries = 0 then 200 else req.maxEntries

/-- In whatever order the goroutines finish, the timeline is the newest of
what is due. -/
def ShowsNewest (cluster : Cluster) (now : Int) (req : FlowTimelineRequest)
    (refs : List ResourceRef) : Prop :=
  ∀ (sorter : Sorter FlowTimelineEntry)
    (finish : Finish (appends cluster now req refs)),
    ∃ entries, getFlowTimeline sorter req finish = some entries
      ∧ Newest FlowTimelineEntry.timestamp req.limit.toNat
        (due cluster now req refs) entries

-- ======== lines

def Readable (line : Text) : Prop :=
  30 ≤ line.length ∧ ∃ spaceIdx t,
    line.idxOf? Text.space = some spaceIdx ∧ 20 ≤ spaceIdx ∧ spaceIdx ≤ 35
      ∧ Rfc3339.parse (line.take spaceIdx) = some t ∧ t.instant ≠ zeroTime

theorem parseLogTimestamp_of_readable {line : Text} (h : Readable line) :
    (parseLogTimestamp line).1 ≠ zeroTime
      ∧ stamped line = some (parseLogTimestamp line) := by
  obtain ⟨hlength, spaceIdx, t, hspace, hmin, hmax, hparse, hzero⟩ := h
  have heq : parseLogTimestamp line
      = (t.instant, line.drop (spaceIdx + 1)) := by
    unfold parseLogTimestamp
    rw [if_neg (by omega), hspace]
    show (if spaceIdx < 20 ∨ 35 < spaceIdx then _ else _) = _
    rw [if_neg (by omega), hparse]
  rw [heq]
  refine ⟨hzero, ?_⟩
  unfold stamped
  rw [hspace, Option.bind_some, hparse]
  rfl

theorem errorLine_of_readable {line : Text} (h : Readable line)
    (ref : ResourceRef) (cutoff : Int) :
    errorLine ref cutoff line = dueLine ref cutoff line := by
  obtain ⟨hzero, hstamped⟩ := parseLogTimestamp_of_readable h
  have hne : line ≠ [] := by
    rintro rfl
    exact absurd h.1 (by simp)
  unfold errorLine dueLine
  rw [if_neg hne, hstamped]
  cases isErrorLine line with
  | false => rfl
  | true => simp [hzero]

theorem errorLine_of_not_readable {line : Text} (h : ¬Readable line)
    (ref : ResourceRef) (cutoff : Int) : errorLine ref cutoff line = none := by
  have hzero : (parseLogTimestamp line).1 = zeroTime := by
    unfold parseLogTimestamp
    split
    next => rfl
    next hlength =>
      split
      next => rfl
      next spaceIdx hspace =>
        split
        next => rfl
        next hidx =>
          split
          next => rfl
          next t hparse =>
            by_contra hne
            exact h ⟨by omega, spaceIdx, t, hspace, by omega, by omega,
              hparse, hne⟩
  unfold errorLine
  split
  next => rfl
  next =>
    split
    next => rfl
    next => exact if_pos (.inl hzero)

theorem withDefaults_maxEntries (req : FlowTimelineRequest) :
    req.withDefaults.maxEntries = req.limit := by
  unfold FlowTimelineRequest.withDefaults FlowTimelineRequest.limit
  by_cases hmax : req.maxEntries = 0 <;>
    by_cases hduration : req.durationMinutes = 0 <;> simp [hmax, hduration]

theorem limit_neg_iff (req : FlowTimelineRequest) :
    req.limit < 0 ↔ req.maxEntries < 0 := by
  unfold FlowTimelineRequest.limit
  split <;> omega

theorem Finish.found {cluster : Cluster} {now : Int}
    {req : FlowTimelineRequest} {refs : List ResourceRef}
    (finish : Finish (appends cluster now req refs)) :
    finish.order.flatten.Perm (found cluster now req refs) := by
  have hflat : (appends cluster now req refs).flatten
      = FlowTimeline.found cluster now req refs := by
    unfold appends FlowTimeline.found
    cases req.includeLogs <;> simp [List.flatMap_def]
  rw [← hflat]
  exact finish.perm.flatten

theorem getFlowTimeline_eq (sorter : Sorter FlowTimelineEntry)
    {req : FlowTimelineRequest} (hmax : 0 ≤ req.maxEntries)
    {started : List (List FlowTimelineEntry)} (finish : Finish started) :
    getFlowTimeline sorter req finish
      = some ((sorter.sort (fun a b => decide (b.timestamp < a.timestamp))
        finish.order.flatten).take req.limit.toNat) := by
  have hlimit := limit_neg_iff req
  unfold getFlowTimeline
  simp only [withDefaults_maxEntries]
  split
  next => rw [if_neg (by omega)]
  next hshort =>
    rw [List.take_of_length_le]
    omega

theorem getFlowTimeline_neg (sorter : Sorter FlowTimelineEntry)
    {req : FlowTimelineRequest} (hmax : req.maxEntries < 0)
    {started : List (List FlowTimelineEntry)} (finish : Finish started) :
    getFlowTimeline sorter req finish = none := by
  have hlimit := (limit_neg_iff req).mpr hmax
  unfold getFlowTimeline
  simp only [withDefaults_maxEntries]
  rw [if_pos (by omega), if_pos hlimit]

def twoChunks : List Text :=
  [Text.ofString "2024-01-01T00:00:00.123456789Z error a\n",
    Text.ofString "2024-01-01T00:00:01.123456789Z error b\n"]

theorem twoChunks_small : twoChunks.flatten.length < bufSize := by decide

def oneLog : Cluster where
  events _ _ _ := some []
  containers _ _ := some [Text.ofString "c"]
  logs _ _ _ := some ⟨twoChunks, twoChunks_small⟩

def wholeLog : Cluster :=
  { oneLog with logs := fun _ _ _ => some ⟨[twoChunks.flatten],
    (List.flatten_singleton ▸ twoChunks_small)⟩ }

end FlowTimeline
