/-
What a page of a log holds.

# The argument

The loop of `readBoundedLogPage` takes the pieces of its source one by
one. As long as lines are left that fit, it only moves them to the page
(`readLines_append`); so a page of a body that is lines is the first of
these lines, as many as the caller wants, if they fit (`page_unlines`).
A body that is longer than the limit is cut behind all that fits, where
the loop does not come.

# Merges

A bounded merge against the merge of everything.

# The argument

A page of a log is its first lines or its last (`fetch_page`), a whole
log is all of them (`fetch_all`), and what becomes of a line depends on
the line alone. So the merge of pages sorts the ends of some lists where
the full merge sorts the lists. The lists are in order already, and the
library says the rest: nothing behind the first `n` of one of them can be
among the first `n` of the merge, and nothing before its last `n` among
the last.
-/
import Kubikles.PodLog.Merge

namespace PodLog

open Text (unlines split newline)

variable {byteLimit : Nat} {maxLines : Int} {err : Option LogError}

theorem readLines_append {lines rest : List Text} (hrest : rest ≠ [])
    (count : Int) (page : Text)
    (hwanted : maxLines ≤ 0 ∨ count + lines.length ≤ maxLines)
    (hfit : (page ++ unlines lines).length ≤ byteLimit) :
    readLines byteLimit maxLines err count page (lines ++ rest)
      = readLines byteLimit maxLines err (count + lines.length)
          (page ++ unlines lines) rest := by
  induction lines generalizing count page with
  | nil => simp
  | cons line lines ih =>
    have hne : lines ++ rest ≠ [] := List.append_ne_nil_of_right_ne_nil _ hrest
    have hpage : page ++ unlines (line :: lines)
        = page ++ (line ++ [newline]) ++ unlines lines := by
      simp [Text.unlines_cons]
    rw [hpage] at hfit ⊢
    have hfits : ¬ byteLimit < page.length + (line ++ [newline]).length := by
      rw [List.length_append] at hfit
      rw [← List.length_append]
      omega
    rw [List.length_cons] at hwanted
    rw [List.cons_append, readLines, if_neg (by push_cast at hwanted; omega)]
    simp only [if_neg hne, if_neg hfits]
    rw [ih (count + 1) _ (by push_cast at hwanted; omega) hfit,
      List.length_cons]
    congr 1
    push_cast
    omega

theorem readLines_enough {count : Int} (hpos : 0 < maxLines)
    (h : maxLines ≤ count) (page : Text) (pieces : List Text) :
    readLines byteLimit maxLines err count page pieces = .ok page := by
  cases pieces with
  | nil => rfl
  | cons piece rest => rw [readLines, if_pos (by omega)]

theorem readLines_end {count : Int} {page : Text}
    (h : maxLines ≤ 0 ∨ count < maxLines) (hfit : page.length ≤ byteLimit) :
    readLines byteLimit maxLines none count page [[]] = .ok page := by
  rw [readLines, if_neg (not_not.mpr h)]
  simp only [if_true, List.length_nil, Nat.add_zero, List.append_nil]
  rw [if_neg (Nat.not_lt.mpr hfit)]

/-- The page of a body that is lines: the first of them. -/
theorem page_unlines {lines : List Text} (hlines : ∀ l ∈ lines, newline ∉ l)
    (hpos : 0 < maxLines)
    (hfit : (unlines (lines.take maxLines.toNat)).length ≤ byteLimit) :
    readBoundedLogPage ⟨unlines lines, none⟩ byteLimit maxLines
      = .ok (unlines (lines.take maxLines.toNat)) := by
  have htake : ∀ l ∈ lines.take maxLines.toNat, newline ∉ l :=
    fun l hl => hlines l (List.mem_of_mem_take hl)
  have hsplit : unlines lines = unlines (lines.take maxLines.toNat)
      ++ unlines (lines.drop maxLines.toNat) := by
    rw [← Text.unlines_append, List.take_append_drop]
  -- the pieces of what the reader sees begin with the lines of the page
  obtain ⟨body, tail, hlimit, hpieces, hend⟩ :
      ∃ body tail, (Body.mk (unlines lines) none).limit (byteLimit + 1)
          = ⟨body, none⟩
        ∧ split body = lines.take maxLines.toNat ++ split tail
        ∧ (lines.length < maxLines.toNat → tail = []) := by
    unfold Body.limit
    simp only
    split
    next hlong =>
      refine ⟨_, (unlines (lines.drop maxLines.toNat)).take
        (byteLimit + 1 - (unlines (lines.take maxLines.toNat)).length),
        rfl, ?_, ?_⟩
      · rw [hsplit, List.take_append, List.take_of_length_le (by omega),
          Text.split_unlines_append htake]
      · intro hshort
        rw [List.take_of_length_le hshort.le] at hfit
        omega
    next =>
      refine ⟨_, unlines (lines.drop maxLines.toNat), rfl, ?_, ?_⟩
      · rw [hsplit, Text.split_unlines_append htake]
      · intro hshort
        rw [List.drop_eq_nil_of_le hshort.le]
        rfl
  unfold readBoundedLogPage
  rw [hlimit]
  simp only
  rw [hpieces, readLines_append (Text.split_ne_nil tail) 0 []
    (by rw [List.length_take]; omega) (by rwa [List.nil_append]),
    List.nil_append]
  rcases Nat.lt_or_ge lines.length maxLines.toNat with hshort | hlong
  · rw [hend hshort]
    exact readLines_end (by rw [List.length_take]; omega) hfit
  · exact readLines_enough hpos (by rw [List.length_take]; omega) _ _

end PodLog

namespace PodLog

open Text (unlines newline)
open StableSort (Ordered lastN)
open Rfc3339 (Time)

variable {c : Client} {ns : Text} {timestamps previous : Bool}
variable {sinceTime : Text} {maxLines : Int} {fetches : List Fetch}
variable {logs : Fetch → List Text}

-- ======== the assumption

/-- The line begins with a timestamp of thirty bytes and a space. -/
def HasTimestamp (l : Text) : Prop :=
  31 ≤ l.length ∧ l[30]? = some Text.space

/-- The `SinceTime` of a request. -/
def sinceOption (sinceTime : Text) : Option Time :=
  if sinceTime = [] then none else Rfc3339.parse sinceTime

/-- The end of a list that is asked for: the first if there is a
`sinceTime`, else the last. -/
def window (sinceTime : Text) (maxLines : Int) {α : Type}
    (l : List α) : List α :=
  if sinceTime = [] then lastN maxLines.toNat l
  else l.take maxLines.toNat

/-- Each log to fetch is lines that have timestamps, none before that of
the line above it, and the server sends it whole or, if it is told to,
its last lines. A page fits. -/
structure Family (c : Client) (ns : Text) (previous : Bool)
    (sinceTime : Text) (maxLines : Int) (fetches : List Fetch)
    (logs : Fetch → List Text) : Prop where
  cluster : c.debugCluster = false
  clientset : c.clientset = none
  stream : ∀ f ∈ fetches, c.stream ns f.podName
      { container := f.containerName, timestamps := true, previous
        sinceTime := sinceOption sinceTime }
    = .ok ⟨unlines (logs f), none⟩
  tail : sinceTime = [] → ∀ f ∈ fetches, c.stream ns f.podName
      { container := f.containerName, timestamps := true, previous
        sinceTime := sinceOption sinceTime, tailLines := some maxLines }
    = .ok ⟨unlines (lastN maxLines.toNat (logs f)), none⟩
  line : ∀ f ∈ fetches, ∀ l ∈ logs f, newline ∉ l
  timestamp : ∀ f ∈ fetches, ∀ l ∈ logs f, HasTimestamp l
  ordered : ∀ f ∈ fetches, Ordered (fun l : Text => l.take 30) (logs f)
  fits : ∀ f ∈ fetches,
    (unlines (window sinceTime maxLines (logs f))).length
      ≤ maxPollingLogBytes

-- ======== the fetches

theorem fetch_page (h : Family c ns previous sinceTime maxLines fetches logs)
    (hpos : 1 ≤ maxLines) {f : Fetch} (hf : f ∈ fetches) :
    c.getPodLogsWithOptionsLimit ns f.podName f.containerName none true
        previous sinceTime (some maxPollingLogBytes) maxLines
      = .ok (unlines (window sinceTime maxLines (logs f))) := by
  unfold Client.getPodLogsWithOptionsLimit
  rw [h.cluster, h.clientset]
  have hfits := h.fits f hf
  by_cases hsince : sinceTime = []
  · -- the server cuts the log, and the reader has nothing left to cut
    have hoptions : logOptions f.containerName none true previous sinceTime
        maxLines = { container := f.containerName, timestamps := true
                     previous, sinceTime := sinceOption sinceTime
                     tailLines := some maxLines } := by
      have : 0 < maxLines := by omega
      simp [logOptions, sinceOption, hsince, this]
    have htake : (lastN maxLines.toNat (logs f)).take maxLines.toNat
        = lastN maxLines.toNat (logs f) := by
      refine List.take_of_length_le ?_
      rw [lastN, List.length_drop]
      omega
    simp only [window, if_pos hsince] at hfits ⊢
    simp only [hoptions, h.tail hsince f hf, bind, Except.bind]
    conv_rhs => rw [← htake]
    refine page_unlines (fun l hl => ?_) (by omega) (by rwa [htake])
    exact h.line f hf l (List.mem_of_mem_drop hl)
  · have hoptions : logOptions f.containerName none true previous sinceTime
        maxLines = { container := f.containerName, timestamps := true
                     previous, sinceTime := sinceOption sinceTime } := by
      simp [logOptions, sinceOption, hsince]
    simp only [window, if_neg hsince] at hfits ⊢
    simp only [hoptions, h.stream f hf, bind, Except.bind]
    exact page_unlines (h.line f hf) (by omega) hfits

theorem fetch_all (h : Family c ns previous [] maxLines fetches logs)
    {f : Fetch} (hf : f ∈ fetches) :
    c.getPodLogsWithOptions ns f.podName f.containerName none true previous
        [] = .ok (unlines (logs f)) := by
  have hstream := h.stream f hf
  unfold Client.getPodLogsWithOptions Client.getPodLogsWithOptionsLimit
  rw [h.cluster, h.clientset]
  simp only [logOptions, lt_irrefl, false_and, and_false, if_false, if_true]
  simp only [sinceOption, if_true] at hstream
  simp only [hstream, bind, Except.bind]
  rfl

-- ======== the merge

def arrived (list : List Arrival) (logs : Fetch → List Text) :
    List (List TimestampedLogLine) :=
  list.map fun a => (logs a.fetch).map (timestamped a.fetch.tag)

theorem allLines_arrived (logs : Fetch → List Text) {list : List Arrival}
    (hline : ∀ a ∈ list, ∀ l ∈ logs a.fetch, newline ∉ l ∧ l ≠ []) :
    allLines (list.map fun a =>
        ⟨a.fetch.tag, .ok (unlines (logs a.fetch)), a.now⟩)
      = .ok (arrived list logs).flatten := by
  induction list with
  | nil => rfl
  | cons a list ih =>
    have ha := hline a (List.mem_cons_self ..)
    have hsplit : (Text.split (unlines (logs a.fetch))).filter (· ≠ [])
        = logs a.fetch := by
      rw [Text.split_unlines fun l hl => (ha l hl).1, List.filter_append]
      have hall : (logs a.fetch).filter (· ≠ []) = logs a.fetch :=
        List.filter_eq_self.mpr fun l hl => by simpa using (ha l hl).2
      rw [hall]
      simp
    rw [List.map_cons, allLines, FetchResult.lines]
    simp only [hsplit, ih fun b hb => hline b (List.mem_cons_of_mem _ hb)]
    rfl

theorem timestamped_timestamp {tag line : Text} (h : HasTimestamp line) :
    (timestamped tag line).timestamp = line.take 30 := by
  unfold timestamped splitTimestamp
  rw [if_pos ⟨h.1, h.2⟩]

theorem HasTimestamp.ne_nil {line : Text} (h : HasTimestamp line) :
    line ≠ [] := by
  rintro rfl
  exact absurd h.1 (by decide)

theorem window_map {α β : Type} (f : α → β) (l : List α) :
    window sinceTime maxLines (l.map f)
      = (window sinceTime maxLines l).map f := by
  unfold window lastN
  split
  · rw [List.length_map, List.map_drop]
  · rw [List.map_take]

theorem cutLines_eq (hpos : 1 ≤ maxLines) (lines : List Text) :
    cutLines sinceTime maxLines lines
      = window sinceTime maxLines lines := by
  unfold cutLines window
  by_cases hsince : sinceTime = []
  · rw [if_neg fun h => h.2.1 hsince, if_pos hsince]
    split
    · rfl
    next hshort =>
      have hle : ¬ maxLines < lines.length := fun h =>
        hshort ⟨by omega, hsince, h⟩
      have hnone : lines.length - maxLines.toNat = 0 := by omega
      rw [lastN, hnone]
      rfl
  · rw [if_neg hsince]
    split
    · rfl
    next hshort =>
      have hle : ¬ maxLines < lines.length := fun h =>
        hshort ⟨by omega, hsince, h⟩
      rw [if_neg fun h => hsince h.2.1]
      exact (List.take_of_length_le (by omega)).symm

/-- Sorting the ends of ordered lists gives the same end as sorting the
lists. -/
theorem window_sortLines {ls : List (List TimestampedLogLine)}
    (h : ∀ l ∈ ls, Ordered TimestampedLogLine.timestamp l) :
    window sinceTime maxLines (sortLines ls.flatten)
      = window sinceTime maxLines
          (sortLines (ls.map (window sinceTime maxLines)).flatten) := by
  unfold window sortLines
  split
  · exact StableSort.lastN_sortBy_flatten _ h
  · exact StableSort.take_sortBy_flatten _ h

theorem arrived_ordered {list : List Arrival}
    (htimestamp : ∀ a ∈ list, ∀ l ∈ logs a.fetch, HasTimestamp l)
    (hordered : ∀ a ∈ list,
      Ordered (fun l : Text => l.take 30) (logs a.fetch)) :
    ∀ l ∈ arrived list logs, Ordered TimestampedLogLine.timestamp l := by
  intro l hl
  obtain ⟨a, ha, rfl⟩ := List.mem_map.mp hl
  refine List.pairwise_map.mpr ?_
  refine List.Pairwise.imp_of_mem ?_ (hordered a ha)
  intro l l' hl hl' hle
  rw [timestamped_timestamp (htimestamp a ha l hl),
    timestamped_timestamp (htimestamp a ha l' hl')]
  exact hle

theorem resultLines_arrived (arrivals : Arrivals fetches)
    (hline : ∀ a ∈ arrivals.list, ∀ l ∈ logs a.fetch,
      newline ∉ l ∧ l ≠ []) :
    resultLines timestamps
        (arrivals.results fun f => .ok (unlines (logs f)))
      = .ok ((sortLines (arrived arrivals.list logs).flatten).map fun line =>
        if timestamps then line.content else stripTimestamp line.content) := by
  unfold resultLines Arrivals.results
  rw [allLines_arrived logs hline]
  rfl

/-- The merge of pages is the end of the merge of everything. -/
theorem merged_window (timestamps : Bool)
    (h : Family c ns previous sinceTime maxLines fetches logs)
    (hpos : 1 ≤ maxLines) (arrivals : Arrivals fetches) :
    ∃ merged,
      resultLines timestamps
          (arrivals.results fun f => .ok (unlines (logs f))) = .ok merged
        ∧ c.merged ns timestamps previous sinceTime maxLines arrivals
          = .ok (Text.join (window sinceTime maxLines merged)) := by
  have hmem : ∀ a ∈ arrivals.list, a.fetch ∈ fetches := fun a ha =>
    arrivals.perm.mem_iff.mp (List.mem_map_of_mem ha)
  have hline : ∀ a ∈ arrivals.list, ∀ l ∈ logs a.fetch,
      newline ∉ l ∧ l ≠ [] := fun a ha l hl =>
    ⟨h.line _ (hmem a ha) l hl, (h.timestamp _ (hmem a ha) l hl).ne_nil⟩
  have hwindow : ∀ f, ∀ l ∈ window sinceTime maxLines (logs f),
      l ∈ logs f := by
    intro f l hl
    unfold window at hl
    split at hl
    · exact List.mem_of_mem_drop hl
    · exact List.mem_of_mem_take hl
  have hpages := allLines_arrived
    (fun f => window sinceTime maxLines (logs f))
    (fun a ha l hl => hline a ha l (hwindow _ l hl))
  have hfetch : (arrivals.results fun f =>
        c.getPodLogsWithOptionsLimit ns f.podName f.containerName none true
          previous sinceTime (some maxPollingLogBytes) maxLines)
      = arrivals.list.map fun a => ⟨a.fetch.tag,
          .ok (unlines (window sinceTime maxLines (logs a.fetch))), a.now⟩ := by
    refine List.map_congr_left fun a ha => ?_
    show FetchResult.mk _ (c.getPodLogsWithOptionsLimit ..) _ = _
    rw [fetch_page h hpos (hmem a ha)]
  have hordered := arrived_ordered
    (fun a ha => h.timestamp _ (hmem a ha))
    (fun a ha => h.ordered _ (hmem a ha))
  have harrived : arrived arrivals.list
        (fun f => window sinceTime maxLines (logs f))
      = (arrived arrivals.list logs).map (window sinceTime maxLines) := by
    unfold arrived
    rw [List.map_map]
    refine List.map_congr_left fun a _ => ?_
    exact (window_map _ _).symm
  refine ⟨_, resultLines_arrived arrivals hline, ?_⟩
  unfold Client.merged
  rw [hfetch]
  unfold resultLines
  simp only [hpages, bind, Except.bind, pure, Except.pure]
  rw [cutLines_eq hpos, window_map, window_map, harrived,
    ← window_sortLines hordered]

-- ======== the results

/-- The full merge is `full`, and `bounded` is the end of it that is
asked for; where no time is given, `all` is the whole of it. -/
def CutsMerge (timestamps : Bool) (sinceTime : Text) (maxLines : Int)
    (logs : Fetch → List Text) {fetches : List Fetch}
    (arrivals : Arrivals fetches) (bounded all : Except LogError Text) :
    Prop :=
  ∃ merged,
    resultLines timestamps
        (arrivals.results fun f => .ok (unlines (logs f))) = .ok merged
      ∧ bounded = .ok (Text.join (window sinceTime maxLines merged))
      ∧ (sinceTime = [] → all = .ok (Text.join merged))

theorem merged_cutsMerge
    (h : Family c ns previous sinceTime maxLines fetches logs)
    (hpos : 1 ≤ maxLines) (arrivals : Arrivals fetches) :
    CutsMerge timestamps sinceTime maxLines logs arrivals
      (c.merged ns timestamps previous sinceTime maxLines arrivals)
      (c.mergedAll ns timestamps previous arrivals) := by
  obtain ⟨merged, hmerged, hbounded⟩ := merged_window timestamps h hpos arrivals
  refine ⟨merged, hmerged, hbounded, ?_⟩
  rintro rfl
  have hfetch : (arrivals.results fun f =>
        c.getPodLogsWithOptions ns f.podName f.containerName none true
          previous [])
      = arrivals.results fun f => .ok (unlines (logs f)) := by
    refine List.map_congr_left fun a ha => ?_
    show FetchResult.mk _ (c.getPodLogsWithOptions ..) _ = _
    rw [fetch_all h (arrivals.perm.mem_iff.mp (List.mem_map_of_mem ha))]
  unfold Client.mergedAll
  rw [hfetch, hmerged]
  rfl

theorem merged_nil (arrivals : Arrivals []) :
    c.merged ns timestamps previous sinceTime maxLines arrivals
      = .ok [] := by
  have hlist : arrivals.list = [] :=
    List.map_eq_nil_iff.mp arrivals.perm.eq_nil
  have hcut : cutLines sinceTime maxLines [] = [] := by
    unfold cutLines lastN
    split
    · exact List.take_nil
    · split
      · exact List.drop_nil
      · rfl
  unfold Client.merged Arrivals.results
  rw [hlist]
  show Except.ok (Text.join (cutLines sinceTime maxLines [])) = _
  rw [hcut]
  rfl

theorem mergedAll_nil (arrivals : Arrivals []) :
    c.mergedAll ns timestamps previous arrivals = .ok [] := by
  have hlist : arrivals.list = [] :=
    List.map_eq_nil_iff.mp arrivals.perm.eq_nil
  unfold Client.mergedAll Arrivals.results
  rw [hlist]
  rfl

section

variable {podName : Text} {containerNames : List Text}
variable {pods : List PodContainerPair} {allContainers : Bool}

theorem getAllContainersLogs_eq
    (arrivals : Arrivals (containerFetches podName containerNames)) :
    c.getAllContainersLogs ns podName containerNames timestamps previous
        sinceTime maxLines arrivals
      = c.merged ns timestamps previous sinceTime maxLines arrivals := by
  unfold Client.getAllContainersLogs
  split
  next hnil =>
    subst hnil
    exact (merged_nil arrivals).symm
  next => rfl

theorem getAllContainersLogsAll_eq
    (arrivals : Arrivals (containerFetches podName containerNames)) :
    c.getAllContainersLogsAll ns podName containerNames timestamps previous
        arrivals = c.mergedAll ns timestamps previous arrivals := by
  unfold Client.getAllContainersLogsAll
  split
  next hnil =>
    subst hnil
    exact (mergedAll_nil arrivals).symm
  next => rfl

theorem getAllPodsLogs_eq
    (arrivals : Arrivals (podFetches pods allContainers)) :
    c.getAllPodsLogs ns pods allContainers timestamps previous sinceTime
        maxLines arrivals
      = c.merged ns timestamps previous sinceTime maxLines arrivals := by
  unfold Client.getAllPodsLogs
  split
  next hnil =>
    subst hnil
    exact (merged_nil arrivals).symm
  next => rfl

theorem getAllPodsLogsAll_eq
    (arrivals : Arrivals (podFetches pods allContainers)) :
    c.getAllPodsLogsAll ns pods allContainers timestamps previous arrivals
      = c.mergedAll ns timestamps previous arrivals := by
  unfold Client.getAllPodsLogsAll
  split
  next hnil =>
    subst hnil
    exact (mergedAll_nil arrivals).symm
  next => rfl

end

def lineAt (second : String) (content : String) : Text :=
  Text.ofString ("2024-11-26T14:30:" ++ second ++ ".000000000Z " ++ content)

def twoLogs (f : Fetch) : List Text :=
  if f.containerName = Text.ofString "app" then
    [lineAt "01" "start", lineAt "03" "stop"]
  else [lineAt "02" "sync"]

/-- A server that has them, and cuts them if it is told to. -/
def twoContainers : Client where
  stream _ podName options :=
    let lines := twoLogs ⟨podName, options.container, options.container⟩
    .ok ⟨unlines (match options.tailLines with
      | none => lines
      | some n => lastN n.toNat lines), none⟩

def secondFirst : Arrivals (containerFetches []
    [Text.ofString "app", Text.ofString "proxy"]) where
  list := [⟨⟨[], Text.ofString "proxy", Text.ofString "proxy"⟩, []⟩,
    ⟨⟨[], Text.ofString "app", Text.ofString "app"⟩, []⟩]
  perm := .swap ..

end PodLog
