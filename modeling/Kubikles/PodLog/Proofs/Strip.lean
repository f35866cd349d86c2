/-
Taking the timestamps off.

# What is taken off

Where no timestamps are wanted, the functions take thirty-one bytes off
the front of a line. One that is longer than that has them taken off in
the functions for one container (`dropTimestamp`); in the merge its
thirty-first byte has to be a space too (`stripTimestamp`).

# What goes wrong

A line whose content is empty is not longer than its timestamp and the
space, and keeps both. In the merge each line has the name of its
container behind the timestamp, so that does not happen, but a line that
stands for a failed fetch has no timestamp, and may have a space where
one would end. Nothing else goes wrong (`timestamps_off_iff`).
-/
import Kubikles.PodLog.Proofs.Before

namespace PodLog

open Text (newline space unlines split)
open StableSort (sortBy lastN)

variable {c : Client} {ns podName containerName : Text} {previous : Bool}
variable {log : List LogLine} {body : Body} {page : Text}
variable {byteLimit : Nat} {maxLines : Int}

-- ======== the servers

/-- Lines with timestamps, and the beginning of one more if an error ends
the body. -/
def Body.Stamped (body : Body) : Prop :=
  ∃ (log : List LogLine) (rest : Text),
    body.bytes = unlines (log.map LogLine.text) ++ rest
      ∧ newline ∉ rest ∧ (body.err = none → rest = [])

def Client.Stamps (c : Client) : Prop :=
  ∀ ns podName options body, options.timestamps = true
    → c.stream ns podName options = .ok body → body.Stamped

/-- What the loop has read when it is over: some lines, or everything. -/
theorem readLines_ok {err : Option LogError} {count : Int}
    {lines : List Text} {piece page page' : Text}
    (h : readLines byteLimit maxLines err count page (lines ++ [piece])
      = .ok page') :
    (∃ k ≤ lines.length, page' = page ++ unlines (lines.take k))
      ∨ (err = none ∧ page' = page ++ (unlines lines ++ piece)
        ∧ page'.length ≤ byteLimit) := by
  induction lines generalizing count page with
  | nil =>
    rw [List.nil_append, readLines] at h
    split at h
    · cases h
      exact Or.inl ⟨0, le_rfl, (List.append_nil _).symm⟩
    · dsimp only at h
      rw [if_pos rfl, if_pos rfl] at h
      split at h
      · cases h
      next hfit =>
        split at h
        · cases h
          refine Or.inr ⟨rfl, rfl, ?_⟩
          rw [List.length_append]
          exact not_lt.mp hfit
        · cases h
  | cons l lines ih =>
    -- with this at hand `split` takes the branch of a piece before others
    have hne : lines ++ [piece] ≠ [] := by simp
    rw [List.cons_append, readLines] at h
    split at h
    · cases h
      exact Or.inl ⟨0, Nat.zero_le _, (List.append_nil _).symm⟩
    · dsimp only at h
      split at h
      · cases h
      · rcases ih h with ⟨k, hk, rfl⟩ | ⟨herr, rfl, hfit⟩
        · refine Or.inl ⟨k + 1, Nat.succ_le_succ hk, ?_⟩
          rw [List.take_succ_cons, Text.unlines_cons]
          simp
        · refine Or.inr ⟨herr, ?_, hfit⟩
          rw [Text.unlines_cons]
          simp

/-- A page of a body with timestamps is lines with timestamps. -/
theorem page_stamped (hbody : body.Stamped)
    (h : readBoundedLogPage body byteLimit maxLines = .ok page) :
    ∃ log : List LogLine, page = unlines (log.map LogLine.text) := by
  obtain ⟨log, rest, hbytes, hrest, hend⟩ := hbody
  unfold readBoundedLogPage at h
  obtain ⟨lines, piece, hsplit, heq, hlines, -⟩ :=
    Text.exists_lines (body.limit (byteLimit + 1)).bytes
  simp only [hsplit] at h
  rcases readLines_ok h with ⟨k, hk, rfl⟩ | ⟨herr, rfl, hfit⟩
  · -- These lines are lines of the body.
    obtain ⟨more, hmore⟩ : (body.limit (byteLimit + 1)).bytes
        <+: body.bytes := by
      unfold Body.limit
      split
      · exact List.take_prefix _ _
      · exact List.prefix_rfl
    have hlog : ∀ l ∈ log.map LogLine.text, newline ∉ l := by
      intro l hl
      obtain ⟨l, -, rfl⟩ := List.mem_map.mp hl
      exact newline_notMem_text l
    have hpieces : lines ++ split (piece ++ more)
        = log.map LogLine.text ++ [rest] := by
      rw [← Text.split_unlines_append hlines, ← List.append_assoc, ← heq,
        hmore, hbytes, Text.split_unlines_append hlog,
        Text.split_piece hrest]
    have hlength : lines.length ≤ log.length := by
      have hsome := List.length_pos_iff.mpr
        (Text.split_ne_nil (piece ++ more))
      have hsum := congrArg List.length hpieces
      rw [List.length_append, List.length_append, List.length_map,
        List.length_singleton] at hsum
      omega
    have htake : lines.take k = (log.map LogLine.text).take k := by
      have hfront : (lines ++ split (piece ++ more)).take k
          = lines.take k := List.take_append_of_le_length hk
      rw [← hfront, hpieces, List.take_append_of_le_length (by
          rw [List.length_map]
          exact hk.trans hlength)]
    exact ⟨log.take k, by rw [List.nil_append, htake, List.map_take]⟩
  · -- Nothing has been cut off, and nothing breaks off.
    rw [List.nil_append, ← heq] at hfit ⊢
    unfold Body.limit at hfit herr ⊢
    split at hfit
    next hlong =>
      rw [List.length_take] at hfit
      omega
    next hshort =>
      rw [if_neg hshort] at herr ⊢
      refine ⟨log, ?_⟩
      rw [hbytes, hend herr, List.append_nil]

theorem Client.Stamps.fetched (hc : c.Stamps) {tailLines : Option Int}
    {sinceTime : Text} {limitBytes : Option Nat}
    (h : c.getPodLogsWithOptionsLimit ns podName containerName tailLines
      true previous sinceTime limitBytes maxLines = .ok page) :
    ∃ log : List LogLine, page = unlines (log.map LogLine.text) := by
  unfold Client.getPodLogsWithOptionsLimit at h
  split at h
  · cases h
  · split at h
    · cases h
    · simp only [bind, Except.bind] at h
      split at h
      · cases h
      next body hstream =>
        have hbody := hc _ _ _ body rfl hstream
        split at h
        · exact page_stamped hbody h
        · unfold readAll at h
          split at h
          next hend =>
            cases h
            obtain ⟨log, rest, hbytes, -, hrest⟩ := hbody
            exact ⟨log, by rw [hbytes, hrest hend, List.append_nil]⟩
          next => cases h

-- ======== one container

/-- The line begins with a timestamp of thirty bytes and a space. -/
def isTimestamped (l : Text) : Bool :=
  31 ≤ l.length && l[30]? = some space
    && (Rfc3339.parse (l.take 30)).isSome

def untimed (l : Text) : Text :=
  if isTimestamped l then l.drop 31 else l

def untimedAnswer (answer : Text × Bool) : Text × Bool :=
  (Text.join ((split answer.1).map untimed), answer.2)

theorem untimed_text (l : LogLine) : untimed l.text = l.content := by
  obtain ⟨hlength, hspace⟩ := hasTimestamp_text l
  have hparse : (Rfc3339.parse (l.text.take 30)).isSome = true := by
    rw [take_text, l.cursor.reads]
    rfl
  have htimestamped : isTimestamped l.text = true := by
    unfold isTimestamped
    rw [decide_eq_true hlength, hspace, hparse]
    rfl
  unfold untimed LogLine.text at *
  rw [if_pos htimestamped]
  have hthirty : (l.timestamp ++ [space]).length = 31 := by
    rw [List.length_append, l.thirty]
    rfl
  rw [← List.singleton_append, ← List.append_assoc, ← hthirty,
    List.drop_left]

/-- By its length a line loses its timestamp if there is something behind
it. -/
theorem dropTimestamp_text_iff (l : LogLine) :
    dropTimestamp l.text = untimed l.text ↔ l.content ≠ [] := by
  have hlength : l.text.length = 31 + l.content.length := by
    unfold LogLine.text
    rw [List.length_append, l.thirty, List.length_cons]
    omega
  have hdrop : l.text.drop 31 = l.content := by
    have huntimed := untimed_text l
    unfold untimed at huntimed
    split at huntimed
    · exact huntimed
    · rw [huntimed] at hlength
      omega
  rw [untimed_text]
  unfold dropTimestamp
  constructor
  · intro h hnil
    rw [hnil, List.length_nil] at hlength
    rw [if_neg (by omega), hnil] at h
    exact text_ne_nil l h
  · intro hne
    have hpos := List.length_pos_iff.mpr hne
    rw [if_pos (by omega), hdrop]

/-- Of a page of lines, with the empty piece or without, the timestamps
are taken off exactly if each line has something behind its
timestamp. -/
theorem page_untimed_iff (shown : List LogLine) {blank : List Text}
    (hblank : blank = [] ∨ blank = [[]]) (more : Bool) :
    (Text.join ((shown.map LogLine.text ++ blank).map dropTimestamp), more)
        = untimedAnswer
          (Text.join (shown.map LogLine.text ++ blank), more)
      ↔ ∀ l ∈ shown, l.content ≠ [] := by
  have hpiece : ∀ p ∈ shown.map LogLine.text ++ blank, newline ∉ p := by
    intro p hp
    rcases List.mem_append.mp hp with hp | hp
    · obtain ⟨l, -, rfl⟩ := List.mem_map.mp hp
      exact newline_notMem_text l
    · rcases hblank with rfl | rfl
      · exact absurd hp List.not_mem_nil
      · rw [List.mem_singleton.mp hp]
        exact List.not_mem_nil
  have huntimed : (untimedAnswer
      (Text.join (shown.map LogLine.text ++ blank), more)).1
        = Text.join ((shown.map LogLine.text ++ blank).map untimed) := by
    unfold untimedAnswer
    by_cases hnil : shown.map LogLine.text ++ blank = []
    · rw [hnil]
      rfl
    · rw [Text.split_join hpiece hnil]
  -- What is cut by length alone is never longer than what is left.
  have hshorter : ∀ p ∈ shown.map LogLine.text ++ blank,
      untimed p = dropTimestamp p
        ∨ (untimed p).length < (dropTimestamp p).length := by
    intro p hp
    rcases List.mem_append.mp hp with hp | hp
    · obtain ⟨l, -, rfl⟩ := List.mem_map.mp hp
      by_cases hnil : l.content = []
      · refine Or.inr ?_
        rw [untimed_text, hnil]
        unfold dropTimestamp
        split
        next hlong =>
          unfold LogLine.text at hlong
          rw [List.length_append, l.thirty, List.length_cons, hnil] at hlong
          exact absurd hlong (by simp)
        next => exact List.length_pos_iff.mpr (text_ne_nil l)
      · exact Or.inl ((dropTimestamp_text_iff l).mpr hnil).symm
    · rcases hblank with rfl | rfl
      · exact absurd hp List.not_mem_nil
      · rw [List.mem_singleton.mp hp]
        exact Or.inl rfl
  rw [Prod.ext_iff, huntimed]
  have hiff := Text.join_map_eq_iff untimed dropTimestamp hshorter
  refine (and_iff_left rfl).trans (eq_comm.trans (hiff.trans ?_))
  constructor
  · intro h l hl
    have htext := h l.text
      (List.mem_append_left _ (List.mem_map_of_mem hl))
    exact (dropTimestamp_text_iff l).mp htext.symm
  · intro h p hp
    rcases List.mem_append.mp hp with hp | hp
    · obtain ⟨l, hl, rfl⟩ := List.mem_map.mp hp
      exact ((dropTimestamp_text_iff l).mpr (h l hl)).symm
    · rcases hblank with rfl | rfl
      · exact absurd hp List.not_mem_nil
      · rw [List.mem_singleton.mp hp]
        rfl

theorem log_injective {log log' : List LogLine}
    (h : unlines (log.map LogLine.text) = unlines (log'.map LogLine.text)) :
    log = log' := by
  have hline : ∀ (log : List LogLine), ∀ l ∈ log.map LogLine.text,
      newline ∉ l := by
    intro log l hl
    obtain ⟨l, -, rfl⟩ := List.mem_map.mp hl
    exact newline_notMem_text l
  have hsplit := congrArg split h
  rw [Text.split_unlines (hline log), Text.split_unlines (hline log')]
    at hsplit
  exact List.map_injective_iff.mpr text_injective
    (List.append_cancel_right hsplit)

/-- The answer of `GetPodLogsBefore` without timestamps is the one with
them, less the timestamps. -/
def BeforeUntimed (c : Client) (ns podName containerName : Text)
    (previous : Bool) (beforeTime : Text) (lineLimit : Int) : Prop :=
  c.getPodLogsBefore ns podName containerName false previous beforeTime
      lineLimit
    = (c.getPodLogsBefore ns podName containerName true previous beforeTime
        lineLimit).map untimedAnswer

/-- Each line of the page has something behind its timestamp. -/
def FilledBefore (c : Client) (ns podName containerName : Text)
    (previous : Bool) (beforeTime : Text) (lineLimit : Int) : Prop :=
  ∀ log : List LogLine,
    c.getPodLogsWithOptions ns podName containerName none true previous []
        = .ok (unlines (log.map LogLine.text))
      → ∀ l ∈ shownBefore log beforeTime (orDefault lineLimit).toNat,
        l.content ≠ []

theorem orDefault_pos (lineLimit : Int) : 1 ≤ orDefault lineLimit := by
  unfold orDefault
  split <;> omega

theorem split_log (log : List LogLine) :
    split (unlines (log.map LogLine.text))
      = log.map LogLine.text ++ [[]] := by
  refine Text.split_unlines fun l hl => ?_
  obtain ⟨l, -, rfl⟩ := List.mem_map.mp hl
  exact newline_notMem_text l

/-- `GetPodLogsBefore` takes off the timestamps and no more exactly if
each line of the page has something behind it. -/
theorem beforeUntimed_iff (hc : c.Stamps) (ns podName containerName : Text)
    (previous : Bool) (beforeTime : Text) (lineLimit : Int) :
    BeforeUntimed c ns podName containerName previous beforeTime lineLimit
      ↔ FilledBefore c ns podName containerName previous beforeTime
        lineLimit := by
  unfold BeforeUntimed FilledBefore Client.getPodLogsBefore
  cases hfetch : c.getPodLogsWithOptions ns podName containerName none true
      previous [] with
  | error e => exact iff_of_true rfl fun log h => nomatch h
  | ok page =>
    obtain ⟨log, rfl⟩ := hc.fetched hfetch
    obtain ⟨blank, hblank, hpage⟩ :=
      pageBefore_log beforeTime log (orDefault_pos lineLimit)
    have hiff := page_untimed_iff
      (shownBefore log beforeTime (orDefault lineLimit).toNat) hblank
      (decide ((orDefault lineLimit).toNat
        ≤ (log.takeWhile (earlier beforeTime)).length))
    simp only [bind, Except.bind, pure, Except.pure, Except.map,
      Except.ok.injEq, cutBefore, split_log, hpage, Bool.false_eq_true,
      if_false, if_true]
    rw [hiff]
    constructor
    · intro h log' heq
      rw [← log_injective heq]
      exact h
    · intro h
      exact h log rfl

def shownAfter (log : List LogLine) (afterTime : Text) (lineLimit : Nat) :
    List LogLine :=
  (log.dropWhile fun l =>
    beforeCutoff (Rfc3339.parse (nextLogSinceTime afterTime)) l.text).take
      lineLimit

/-- The answer of `GetPodLogsAfter` without timestamps is the one with
them, less the timestamps. -/
def AfterUntimed (c : Client) (ns podName containerName : Text)
    (previous : Bool) (afterTime : Text) (lineLimit : Int) : Prop :=
  c.getPodLogsAfter ns podName containerName false previous afterTime
      lineLimit
    = (c.getPodLogsAfter ns podName containerName true previous afterTime
        lineLimit).map untimedAnswer

/-- Each line of the page has something behind its timestamp. -/
def FilledAfter (c : Client) (ns podName containerName : Text)
    (previous : Bool) (afterTime : Text) (lineLimit : Int) : Prop :=
  ∀ log : List LogLine,
    c.getPodLogsWithOptionsLimit ns podName containerName none true previous
        (nextLogSinceTime afterTime) (some maxPollingLogBytes)
        (orDefault lineLimit + 1) = .ok (unlines (log.map LogLine.text))
      → ∀ l ∈ shownAfter log afterTime (orDefault lineLimit).toNat,
        l.content ≠ []

/-- The page behind a time: its lines, with the empty piece or without. -/
theorem pageAfter_log (log : List LogLine) (afterTime : Text)
    (lineLimit : Nat) :
    ∃ blank : List Text, (blank = [] ∨ blank = [[]])
      ∧ ((log.map LogLine.text ++ [[]]).dropWhile
            (beforeCutoff (Rfc3339.parse (nextLogSinceTime afterTime)))).take
          lineLimit
        = (shownAfter log afterTime lineLimit).map LogLine.text ++ blank
      ∧ (log.map LogLine.text ++ [[]]).dropWhile
          (beforeCutoff (Rfc3339.parse (nextLogSinceTime afterTime))) ≠ []
    := by
  unfold shownAfter
  generalize Rfc3339.parse (nextLogSinceTime afterTime) = cutoff
  have hblank : beforeCutoff cutoff [] = false := by
    cases cutoff with
    | none => rfl
    | some cutoff => rfl
  have hdrop : (log.map LogLine.text ++ [[]]).dropWhile (beforeCutoff cutoff)
      = (log.dropWhile fun l => beforeCutoff cutoff l.text).map LogLine.text
        ++ [[]] := by
    induction log with
    | nil =>
      show List.dropWhile _ [[]] = [[]]
      rw [List.dropWhile_cons_of_neg (by rw [hblank]; simp)]
    | cons l log ih =>
      rw [List.map_cons, List.cons_append]
      by_cases hl : beforeCutoff cutoff l.text = true
      · rw [List.dropWhile_cons_of_pos hl, ih,
          List.dropWhile_cons_of_pos (by exact hl)]
      · rw [List.dropWhile_cons_of_neg hl,
          List.dropWhile_cons_of_neg (by exact hl)]
        rfl
  rw [hdrop, List.take_append, List.map_take]
  refine ⟨_, ?_, rfl, by simp⟩
  generalize lineLimit - _ = n
  cases n with
  | zero => exact Or.inl rfl
  | succ n =>
    rw [List.take_succ_cons, List.take_nil]
    exact Or.inr rfl

theorem afterUntimed_iff (hc : c.Stamps) (ns podName containerName : Text)
    (previous : Bool) (afterTime : Text) (lineLimit : Int) :
    AfterUntimed c ns podName containerName previous afterTime lineLimit
      ↔ FilledAfter c ns podName containerName previous afterTime
        lineLimit := by
  unfold AfterUntimed FilledAfter Client.getPodLogsAfter
  cases hfetch : c.getPodLogsWithOptionsLimit ns podName containerName none
      true previous (nextLogSinceTime afterTime) (some maxPollingLogBytes)
      (orDefault lineLimit + 1) with
  | error e =>
    simp only [hfetch, bind, Except.bind]
    exact iff_of_true rfl fun log h => nomatch h
  | ok page =>
    obtain ⟨log, rfl⟩ := hc.fetched hfetch
    obtain ⟨blank, hblank, hpage, hne⟩ :=
      pageAfter_log log afterTime (orDefault lineLimit).toNat
    have hiff := page_untimed_iff
      (shownAfter log afterTime (orDefault lineLimit).toNat) hblank
      (decide ((orDefault lineLimit).toNat
        < ((log.map LogLine.text ++ [[]]).dropWhile (beforeCutoff
          (Rfc3339.parse (nextLogSinceTime afterTime)))).length))
    simp only [hfetch, bind, Except.bind, pure, Except.pure, split_log,
      hne, if_false, cutPage, hpage, Except.map, Except.ok.injEq,
      Bool.false_eq_true, if_true]
    rw [hiff]
    constructor
    · intro h log' heq
      rw [← log_injective heq]
      exact h
    · intro h
      exact h log rfl

-- ======== the merge

/-- A line of the merge, and what it comes from: a line of a log, or a
fetch that failed. -/
inductive MergedEntry where
  | line (tag line : Text)
  | failure (tag : Text) (e : LogError) (now : Text)

def errorLine (tag : Text) (e : LogError) : Text :=
  Text.ofString "[" ++ tag ++ Text.ofString "] Error fetching logs: "
    ++ e.text

def MergedEntry.timestamp : MergedEntry → Text
  | .line _ l => l.take 30
  | .failure _ _ now => now

def MergedEntry.shown (timestamps : Bool) : MergedEntry → Text
  | .line tag l =>
    (if timestamps then l.take 31 else [])
      ++ (Text.ofString "[" ++ tag ++ Text.ofString "] " ++ l.drop 31)
  | .failure tag e _ => errorLine tag e

/-- A result has an entry for each line, or one if the fetch failed. -/
def FetchResult.entries (result : FetchResult) :
    Except LogError (List MergedEntry) :=
  match result.logs with
  | .error .pageTooLarge => .error .pageTooLarge
  | .error e => .ok [.failure result.tag e result.now]
  | .ok logs => .ok (((split logs).filter (· ≠ [])).map
      (MergedEntry.line result.tag))

def allEntries : List FetchResult → Except LogError (List MergedEntry)
  | [] => .ok []
  | result :: results => do
      let entries ← result.entries
      let others ← allEntries results
      return entries ++ others

/-- The first of a list if there is a `sinceTime`, else the last. -/
def cut (sinceTime : Text) (maxLines : Int) {α : Type} (l : List α) :
    List α :=
  if 0 < maxLines ∧ sinceTime ≠ [] ∧ maxLines < l.length then
    l.take maxLines.toNat
  else if 0 < maxLines ∧ sinceTime = [] ∧ maxLines < l.length then
    lastN maxLines.toNat l
  else l

def mergedPage (sinceTime : Text) (maxLines : Int)
    (results : List FetchResult) : Except LogError (List MergedEntry) :=
  (allEntries results).map fun entries =>
    cut sinceTime maxLines (sortBy MergedEntry.timestamp entries)

/-- What the fetches for the containers of a pod come to. -/
def containerResults (c : Client) (ns podName : Text)
    (containerNames : List Text) (previous : Bool) (sinceTime : Text)
    (maxLines : Int)
    (arrivals : Arrivals (containerFetches podName containerNames)) :
    List FetchResult :=
  arrivals.results fun f =>
    c.getPodLogsWithOptionsLimit ns f.podName f.containerName none true
      previous sinceTime (some maxPollingLogBytes) maxLines

/-- The answer of `getAllContainersLogs` is the page of the merge, and
without timestamps its lines are those with them, less the timestamps. -/
def ContainersUntimed (c : Client) (ns podName : Text)
    (containerNames : List Text) (previous : Bool) (sinceTime : Text)
    (maxLines : Int)
    (arrivals : Arrivals (containerFetches podName containerNames)) : Prop :=
  ∀ timestamps,
    c.getAllContainersLogs ns podName containerNames timestamps previous
        sinceTime maxLines arrivals
      = (mergedPage sinceTime maxLines (containerResults c ns podName
          containerNames previous sinceTime maxLines arrivals)).map
        fun entries => Text.join (entries.map (MergedEntry.shown timestamps))

/-- No line of the page that stands for a failed fetch has a space for
its thirty-first byte and something behind it. -/
def FailuresKept (c : Client) (ns podName : Text)
    (containerNames : List Text) (previous : Bool) (sinceTime : Text)
    (maxLines : Int)
    (arrivals : Arrivals (containerFetches podName containerNames)) : Prop :=
  ∀ entries, mergedPage sinceTime maxLines (containerResults c ns podName
      containerNames previous sinceTime maxLines arrivals) = .ok entries
    → ∀ tag e now, .failure tag e now ∈ entries
      → ¬ (31 < (errorLine tag e).length
        ∧ (errorLine tag e)[30]? = some space)

def MergedEntry.merged (x : MergedEntry) : TimestampedLogLine :=
  ⟨x.timestamp, x.shown true⟩

theorem take_timestamp {l : Text} (h : HasTimestamp l) :
    l.take 31 = l.take 30 ++ [space] := by
  rw [List.take_add_one, h.2]
  rfl

theorem timestamped_eq {l : Text} (tag : Text) (h : HasTimestamp l) :
    timestamped tag l = (MergedEntry.line tag l).merged := by
  have hsplit : splitTimestamp l = (l.take 30, l.drop 31) :=
    if_pos ⟨h.1, h.2⟩
  have hne : l.take 30 ≠ [] := by
    intro hnil
    rw [List.take_eq_nil_iff] at hnil
    have hlength := h.1
    rcases hnil with hnil | hnil
    · omega
    · rw [hnil, List.length_nil] at hlength
      omega
  have hopen : Text.ofString " [" = space :: Text.ofString "[" := by decide
  unfold timestamped mergedLine
  simp only [hsplit]
  rw [if_pos hne, hopen]
  show _ = TimestampedLogLine.mk (l.take 30) (l.take 31
    ++ (Text.ofString "[" ++ tag ++ Text.ofString "] " ++ l.drop 31))
  rw [take_timestamp h]
  simp only [List.append_assoc, List.cons_append, List.nil_append]

/-- Each line of the results that is not empty has a timestamp. -/
def Timed (results : List FetchResult) : Prop :=
  ∀ r ∈ results, ∀ logs, r.logs = .ok logs → ∀ l ∈ split logs, l ≠ [] →
    HasTimestamp l

theorem lines_entries {result : FetchResult}
    (h : ∀ logs, result.logs = .ok logs → ∀ l ∈ split logs, l ≠ [] →
      HasTimestamp l) :
    result.lines = result.entries.map (·.map MergedEntry.merged) := by
  unfold FetchResult.lines FetchResult.entries
  cases hlogs : result.logs with
  | error e =>
    cases e with
    | pageTooLarge => rfl
    | other message => rfl
  | ok logs =>
    refine congrArg Except.ok ?_
    dsimp only
    rw [List.map_map]
    refine List.map_congr_left fun l hl => ?_
    obtain ⟨hl, hne⟩ := List.mem_filter.mp hl
    exact timestamped_eq _ (h logs hlogs l hl (of_decide_eq_true hne))

theorem allLines_entries {results : List FetchResult} (h : Timed results) :
    allLines results
      = (allEntries results).map (·.map MergedEntry.merged) := by
  induction results with
  | nil => rfl
  | cons result results ih =>
    have hfirst := lines_entries (h result (List.mem_cons_self ..))
    have hrest := ih fun r hr => h r (List.mem_cons_of_mem _ hr)
    rw [allLines, allEntries, hfirst, hrest]
    cases result.entries with
    | error e => rfl
    | ok entries =>
      cases allEntries results with
      | error e => rfl
      | ok others =>
        exact congrArg Except.ok List.map_append.symm

theorem sortLines_merged (entries : List MergedEntry) :
    sortLines (entries.map MergedEntry.merged)
      = (sortBy MergedEntry.timestamp entries).map MergedEntry.merged :=
  (List.map_insertionSort _ _ MergedEntry.merged entries
    fun _ _ _ _ => Iff.rfl).symm

theorem cutLines_map {α : Type} (sinceTime : Text) (maxLines : Int)
    (f : α → Text) (l : List α) :
    cutLines sinceTime maxLines (l.map f)
      = (cut sinceTime maxLines l).map f := by
  unfold cutLines cut lastN
  rw [List.length_map]
  split
  · rw [List.map_take]
  · split
    · rw [List.map_drop]
    · rfl

/-- The merge is its entries, each stripped if timestamps are not
wanted. -/
theorem merged_entries {results : List FetchResult} (h : Timed results)
    (timestamps : Bool) (sinceTime : Text) (maxLines : Int) :
    (resultLines timestamps results).map
        (fun lines => Text.join (cutLines sinceTime maxLines lines))
      = (mergedPage sinceTime maxLines results).map fun entries =>
        Text.join (entries.map fun x =>
          if timestamps then x.shown true else stripTimestamp (x.shown true))
    := by
  unfold resultLines mergedPage
  rw [allLines_entries h]
  cases allEntries results with
  | error e => rfl
  | ok entries =>
    refine congrArg Except.ok ?_
    dsimp only
    rw [sortLines_merged, List.map_map, cutLines_map]
    rfl

theorem strip_line {l : Text} (tag : Text) (h : HasTimestamp l) :
    stripTimestamp ((MergedEntry.line tag l).shown true)
      = (MergedEntry.line tag l).shown false := by
  have hlength : (l.take 31).length = 31 := by
    rw [List.length_take]
    have := h.1
    omega
  have hspace : (l.take 31)[30]? = some space := by
    rw [List.getElem?_take_of_lt (by decide)]
    exact h.2
  have hshown : (MergedEntry.line tag l).shown true
      = l.take 31 ++ (MergedEntry.line tag l).shown false := rfl
  have hpos : 0 < ((MergedEntry.line tag l).shown false).length := by
    show 0 < (Text.ofString "[" ++ tag ++ Text.ofString "] "
      ++ l.drop 31).length
    have hopen : (Text.ofString "[").length = 1 := by decide
    rw [List.length_append, List.length_append, List.length_append, hopen]
    omega
  generalize l.take 31 = front at hlength hspace hshown
  unfold stripTimestamp
  rw [hshown, if_pos]
  · rw [← hlength, List.drop_left]
  · refine ⟨?_, ?_⟩
    · rw [List.length_append, hlength]
      omega
    · rw [List.getElem?_append_left (by omega)]
      exact hspace

theorem strip_failure (tag : Text) (e : LogError) :
    (stripTimestamp (errorLine tag e) = errorLine tag e
      ↔ ¬ (31 < (errorLine tag e).length
        ∧ (errorLine tag e)[30]? = some space))
    ∧ (stripTimestamp (errorLine tag e) = errorLine tag e
      ∨ (stripTimestamp (errorLine tag e)).length
        < (errorLine tag e).length) := by
  unfold stripTimestamp
  split
  next hcut =>
    have hless : ((errorLine tag e).drop 31).length
        < (errorLine tag e).length := by
      rw [List.length_drop]
      omega
    refine ⟨iff_of_false (fun heq => ?_) (not_not.mpr hcut), Or.inr hless⟩
    rw [heq] at hless
    exact lt_irrefl _ hless
  next hkeep => exact ⟨iff_of_true rfl hkeep, Or.inl rfl⟩

theorem containerResults_timed (hc : c.Stamps) (ns : Text)
    {containerNames : List Text} (previous : Bool) (sinceTime : Text)
    (maxLines : Int)
    (arrivals : Arrivals (containerFetches podName containerNames)) :
    Timed (containerResults c ns podName containerNames previous sinceTime
      maxLines arrivals) := by
  intro r hr logs hlogs l hl hne
  obtain ⟨a, -, rfl⟩ := List.mem_map.mp hr
  have hfetch : c.getPodLogsWithOptionsLimit ns a.fetch.podName
      a.fetch.containerName none true previous sinceTime
      (some maxPollingLogBytes) maxLines = .ok logs := hlogs
  obtain ⟨log, rfl⟩ := hc.fetched hfetch
  rw [split_log] at hl
  rcases List.mem_append.mp hl with hl | hl
  · obtain ⟨l, -, rfl⟩ := List.mem_map.mp hl
    exact hasTimestamp_text l
  · exact absurd (List.mem_singleton.mp hl) hne

theorem mem_allEntries {results : List FetchResult}
    {entries : List MergedEntry} (h : allEntries results = .ok entries)
    {x : MergedEntry} (hx : x ∈ entries) :
    ∃ r ∈ results, ∃ own, r.entries = .ok own ∧ x ∈ own := by
  induction results generalizing entries with
  | nil =>
    cases h
    exact absurd hx List.not_mem_nil
  | cons r results ih =>
    rw [allEntries] at h
    cases hown : r.entries with
    | error e =>
      rw [hown] at h
      cases h
    | ok own =>
      cases hothers : allEntries results with
      | error e =>
        rw [hown, hothers] at h
        cases h
      | ok others =>
        rw [hown, hothers] at h
        cases h
        rcases List.mem_append.mp hx with hx | hx
        · exact ⟨r, List.mem_cons_self .., own, hown, hx⟩
        · obtain ⟨r', hr', hentries⟩ := ih hothers hx
          exact ⟨r', List.mem_cons_of_mem _ hr', hentries⟩

theorem mergedPage_line {results : List FetchResult} (h : Timed results)
    {sinceTime tag l : Text} {entries : List MergedEntry}
    (hpage : mergedPage sinceTime maxLines results = .ok entries)
    (hl : .line tag l ∈ entries) : HasTimestamp l := by
  have hcut : ∀ (es : List MergedEntry), ∀ x ∈ cut sinceTime maxLines es,
      x ∈ es := by
    intro es x hx
    unfold cut lastN at hx
    split at hx
    · exact List.mem_of_mem_take hx
    · split at hx
      · exact List.mem_of_mem_drop hx
      · exact hx
  unfold mergedPage at hpage
  cases hes : allEntries results with
  | error e =>
    rw [hes] at hpage
    cases hpage
  | ok es =>
    rw [hes] at hpage
    cases hpage
    have hmem := (StableSort.sortBy_perm es).mem_iff.mp (hcut _ _ hl)
    obtain ⟨r, hr, own, hown, hl⟩ := mem_allEntries hes hmem
    unfold FetchResult.entries at hown
    split at hown
    · cases hown
    · cases hown
      cases List.mem_singleton.mp hl
    next logs hlogs =>
      cases hown
      obtain ⟨l', hl', heq⟩ := List.mem_map.mp hl
      cases heq
      obtain ⟨hl', hne⟩ := List.mem_filter.mp hl'
      exact h r hr logs hlogs l hl' (of_decide_eq_true hne)

/-- A page that is stripped is right exactly if no line of a failed fetch
is stripped. -/
theorem page_stripped_iff {results : List FetchResult} (h : Timed results)
    {sinceTime : Text} {entries : List MergedEntry}
    (hpage : mergedPage sinceTime maxLines results = .ok entries) :
    Text.join (entries.map fun x => stripTimestamp (x.shown true))
        = Text.join (entries.map (MergedEntry.shown false))
      ↔ ∀ tag e now, .failure tag e now ∈ entries
        → ¬ (31 < (errorLine tag e).length
          ∧ (errorLine tag e)[30]? = some space) := by
  rw [Text.join_map_eq_iff]
  · constructor
    · intro hall tag e now hx
      exact (strip_failure tag e).1.mp (hall _ hx)
    · intro hkept x hx
      cases x with
      | line tag l => exact strip_line tag (mergedPage_line h hpage hx)
      | failure tag e now =>
        exact (strip_failure tag e).1.mpr (hkept tag e now hx)
  · intro x hx
    cases x with
    | line tag l =>
      exact Or.inl (strip_line tag (mergedPage_line h hpage hx))
    | failure tag e now => exact (strip_failure tag e).2

/-- `getAllContainersLogs` takes off the timestamps and no more exactly if
no line of a failed fetch looks as if it had one. -/
theorem containersUntimed_iff (hc : c.Stamps) (ns podName : Text)
    (containerNames : List Text) (previous : Bool) (sinceTime : Text)
    (maxLines : Int)
    (arrivals : Arrivals (containerFetches podName containerNames)) :
    ContainersUntimed c ns podName containerNames previous sinceTime maxLines
        arrivals
      ↔ FailuresKept c ns podName containerNames previous sinceTime maxLines
        arrivals := by
  have htimed := containerResults_timed hc ns previous sinceTime maxLines
    arrivals
  have hanswer : ∀ timestamps,
      c.getAllContainersLogs ns podName containerNames timestamps previous
          sinceTime maxLines arrivals
        = (mergedPage sinceTime maxLines (containerResults c ns podName
            containerNames previous sinceTime maxLines arrivals)).map
          fun entries => Text.join (entries.map fun x =>
            if timestamps then x.shown true
            else stripTimestamp (x.shown true)) := by
    intro timestamps
    rw [← merged_entries htimed]
    unfold Client.getAllContainersLogs
    split
    next hnil =>
      subst hnil
      have hlist : arrivals.list = [] :=
        List.map_eq_nil_iff.mp arrivals.perm.eq_nil
      have hcut : cutLines sinceTime maxLines [] = [] := by
        unfold cutLines lastN
        split
        · exact List.take_nil
        · split
          · exact List.drop_nil
          · rfl
      unfold containerResults Arrivals.results
      rw [hlist]
      show _ = Except.ok (Text.join (cutLines sinceTime maxLines []))
      rw [hcut]
      rfl
    next =>
      unfold Client.merged
      show Except.bind (resultLines timestamps (containerResults c ns podName
        containerNames previous sinceTime maxLines arrivals)) _ = _
      cases resultLines timestamps (containerResults c ns podName
          containerNames previous sinceTime maxLines arrivals) with
      | error e => rfl
      | ok lines => rfl
  unfold ContainersUntimed FailuresKept
  simp only [hanswer]
  cases hpage : mergedPage sinceTime maxLines (containerResults c ns podName
      containerNames previous sinceTime maxLines arrivals) with
  | error e => exact iff_of_true (fun _ => rfl) fun _ h => nomatch h
  | ok entries =>
    have hiff := page_stripped_iff htimed hpage
    simp only [Except.map, Except.ok.injEq]
    constructor
    · intro hall es hes
      cases hes
      apply hiff.mp
      have hfalse := hall false
      simp only [Bool.false_eq_true, if_false] at hfalse
      exact hfalse
    · intro hkept timestamps
      cases timestamps with
      | true => rfl
      | false =>
        simp only [Bool.false_eq_true, if_false]
        exact hiff.mpr (hkept entries rfl)

def refusing : Client where
  stream _ _ _ := .error (.other (Text.ofString "connection refused"))

theorem refusing_stamps : refusing.Stamps := by
  intro ns podName options body hoptions h
  cases h

def sidecar : Text := Text.ofString "sidecar"

def sidecarArrivals : Arrivals (containerFetches [] [sidecar]) where
  list := [⟨⟨[], sidecar, sidecar⟩, []⟩]
  perm := List.Perm.refl _

end PodLog
