/-
Searching all repositories and searching each.

Both searches find a chart of an index in the same way, but the loop over
all repositories goes on with the name under which it found something.
Two sources of different repositories are told apart by the repository, so
the loop finds what the single searches find exactly if at every
repository the name it has come to finds what the one searched for does
(`searchChart_iff`).
-/
import Kubikles.Helm.Repos

namespace Helm

-- ======== tags

/-- A list that begins with the one element of a tag, or none, told apart
by it. -/
theorem perm_append_iff_of_tag {α κ : Type*} [DecidableEq κ]
    (tag : α → κ) {k : κ} {a b : Option α} {l l' : List α}
    (ha : ∀ x ∈ a, tag x = k) (hb : ∀ x ∈ b, tag x = k)
    (hl : ∀ x ∈ l, tag x ≠ k) (hl' : ∀ x ∈ l', tag x ≠ k) :
    (a.toList ++ l).Perm (b.toList ++ l') ↔ a = b ∧ l.Perm l' := by
  have htagged (o : Option α) (m : List α) (ho : ∀ x ∈ o, tag x = k)
      (hm : ∀ x ∈ m, tag x ≠ k) :
      (o.toList ++ m).filter (fun x => tag x = k) = o.toList := by
    have hnone : m.filter (fun x => tag x = k) = [] := by
      rw [List.filter_eq_nil_iff]
      intro x hx
      simpa using hm x hx
    rw [List.filter_append, hnone, List.append_nil]
    cases o with
    | none => rfl
    | some x => simp [ho x rfl]
  constructor
  · intro h
    have hfirst := h.filter fun x => tag x = k
    rw [htagged a l ha hl, htagged b l' hb hl'] at hfirst
    have heq : a = b := by
      cases a with
      | none =>
        cases b with
        | none => rfl
        | some y => simp at hfirst
      | some x =>
        cases b with
        | none => simp at hfirst
        | some y => simpa using hfirst
    subst heq
    exact ⟨rfl, (List.perm_append_left_iff _).mp h⟩
  · rintro ⟨rfl, h⟩
    exact h.append_left _

-- ======== one index

section Index

variable {str : Strings} {order order' : List Chart → List Chart}
  {index : IndexFile} {chartName : String}

theorem mem_of_findChart {chart : Chart}
    (horder : ∀ e ∈ order index.entries, e ∈ index.entries)
    (h : findChart str order index chartName = some chart) :
    chart ∈ index.entries := by
  unfold findChart at h
  split at h
  next versions hversions =>
    cases h
    obtain ⟨l, l', hl, -⟩ := List.lookup_eq_some_iff.mp hversions
    rw [hl]
    simp
  next => exact horder _ (List.mem_of_find?_eq_some h)

theorem IndexFile.eq_of_name {e e' : Chart} (he : e ∈ index.entries)
    (he' : e' ∈ index.entries) (h : e.1 = e'.1) : e = e' :=
  List.inj_on_of_nodup_map index.distinct he he' h

def OneMatch (str : Strings) (index : IndexFile) (chartName : String) :
    Prop :=
  ∀ e ∈ index.entries, ∀ e' ∈ index.entries,
    isMatch str e.1 chartName = true → isMatch str e'.1 chartName = true →
    e.1 = e'.1

/-- Where one chart matches at most, the order of the loop does not
matter. -/
theorem findChart_order (hone : OneMatch str index chartName)
    (h : (order index.entries).Perm index.entries)
    (h' : (order' index.entries).Perm index.entries) :
    findChart str order index chartName
      = findChart str order' index chartName := by
  unfold findChart
  split
  · rfl
  · cases hfind : (order index.entries).find? fun e =>
        isMatch str e.1 chartName with
    | none =>
      rw [eq_comm, List.find?_eq_none]
      rw [List.find?_eq_none] at hfind
      intro e he
      exact hfind e (h.symm.subset (h'.subset he))
    | some e =>
      have he := h.subset (List.mem_of_find?_eq_some hfind)
      have hmatch := List.find?_some hfind
      cases hfind' : (order' index.entries).find? fun e =>
          isMatch str e.1 chartName with
      | none =>
        rw [List.find?_eq_none] at hfind'
        exact absurd hmatch (hfind' e (h'.symm.subset he))
      | some e' =>
        have he' := h'.subset (List.mem_of_find?_eq_some hfind')
        have hmatch' := List.find?_some hfind'
        have hname := hone e he e' he' hmatch hmatch'
        rw [index.eq_of_name he he' hname]

end Index

-- ======== one repository

section Search

variable (str : Strings) (sorters : Sorters) (order : Order)
  (indexes : String → Except String IndexFile)

/-- The chart with versions that a search in a repository finds. -/
def findIn (r : Repository) (chartName : String) : Option Chart :=
  match indexes r.name with
  | .error _ => none
  | .ok index =>
    (findChart str (order.order r.name) index chartName).filter
      fun chart => !chart.2.isEmpty

/-- The name with which the loop goes on behind a repository: that of the
chart that matched, or the same. -/
def carried (r : Repository) (chartName : String) : String :=
  match indexes r.name with
  | .error _ => chartName
  | .ok index =>
    ((findChart str (order.order r.name) index chartName).map
      Prod.fst).getD chartName

/-- At every repository, the name that the loop has come to finds the
chart that the one searched for does. -/
def Steady (searched : String) : String → List Repository → Prop
  | _, [] => True
  | chartName, r :: rs =>
    findIn str order indexes r chartName
        = findIn str order indexes r searched ∧
      Steady searched (carried str order indexes r chartName) rs

variable {str sorters order indexes}

theorem mem_findIn {r : Repository} {chartName : String} {chart : Chart}
    (h : findIn str order indexes r chartName = some chart) :
    ∃ index, indexes r.name = .ok index ∧ chart ∈ index.entries := by
  unfold findIn at h
  cases hindex : indexes r.name with
  | error e =>
    rw [hindex] at h
    cases h
  | ok index =>
    rw [hindex] at h
    have hfound := (Option.filter_eq_some_iff.mp h).1
    exact ⟨index, rfl, mem_of_findChart
      (fun _ he => (order.perm r.name _).subset he) hfound⟩

/-- The sources of charts of one repository are told apart by their
charts. -/
theorem sourceOf_findIn_eq_iff {r : Repository}
    {priorities : List (String × Int)} {url chartName chartName' : String} :
    (findIn str order indexes r chartName).map
        (sourceOf sorters priorities r.name url)
      = (findIn str order indexes r chartName').map
        (sourceOf sorters priorities r.name url) ↔
    findIn str order indexes r chartName
      = findIn str order indexes r chartName' := by
  constructor
  · intro h
    cases hfound : findIn str order indexes r chartName with
    | none =>
      rw [hfound] at h
      exact (Option.map_eq_none_iff.mp h.symm).symm
    | some chart =>
      cases hfound' : findIn str order indexes r chartName' with
      | none =>
        rw [hfound, hfound'] at h
        cases h
      | some chart' =>
        rw [hfound, hfound'] at h
        have hname : chart.1 = chart'.1 :=
          congrArg ChartSource.chartName (Option.some.inj h)
        obtain ⟨index, hindex, hmem⟩ := mem_findIn hfound
        obtain ⟨index', hindex', hmem'⟩ := mem_findIn hfound'
        rw [hindex] at hindex'
        cases hindex'
        rw [index.eq_of_name hmem hmem' hname]
  · intro h
    rw [h]

theorem searchRepositories_cons (priorities : List (String × Int))
    (chartName : String) (r : Repository) (rs : List Repository) :
    (searchRepositories str sorters order indexes priorities chartName
        (r :: rs)).1
      = ((findIn str order indexes r chartName).map
          (sourceOf sorters priorities r.name r.url)).toList
        ++ (searchRepositories str sorters order indexes priorities
          (carried str order indexes r chartName) rs).1 := by
  rw [searchRepositories]
  unfold findIn carried
  cases indexes r.name with
  | error e => rfl
  | ok index =>
    dsimp only
    cases hfound : findChart str (order.order r.name) index
        chartName with
    | none => rfl
    | some chart =>
      show (if chart.2 = [] then _ else _ :
        List ChartSource × String).1 = _
      by_cases hversions : chart.2 = []
      · rw [if_pos hversions]
        simp [Option.filter, hversions]
      · rw [if_neg hversions]
        simp [Option.filter, hversions]

theorem repoName_of_mem {priorities : List (String × Int)}
    {chartName : String} {rs : List Repository} {source : ChartSource}
    (h : source ∈ (searchRepositories str sorters order indexes
      priorities chartName rs).1) :
    source.repoName ∈ rs.map Repository.name ∧ source.isOCI = false := by
  induction rs generalizing chartName with
  | nil => cases h
  | cons r rs ih =>
    rw [searchRepositories_cons] at h
    rcases List.mem_append.mp h with h | h
    · rw [Option.mem_toList, Option.map_eq_some_iff] at h
      obtain ⟨chart, -, rfl⟩ := h
      exact ⟨List.mem_cons_self, rfl⟩
    · exact ⟨List.mem_cons_of_mem _ (ih h).1, (ih h).2⟩

/-- The loop finds what a search for one name finds in each repository,
exactly where it is steady. -/
theorem searchRepositories_perm_iff (sorters : Sorters)
    (priorities : List (String × Int)) (searched : String)
    {chartName : String} {rs : List Repository}
    (hdistinct : (rs.map Repository.name).Nodup) :
    (searchRepositories str sorters order indexes priorities chartName
        rs).1.Perm
      (rs.filterMap fun r => (findIn str order indexes r searched).map
        (sourceOf sorters priorities r.name r.url)) ↔
      Steady str order indexes searched chartName rs := by
  induction rs generalizing chartName with
  | nil => exact iff_of_true (List.Perm.refl _) trivial
  | cons r rs ih =>
    obtain ⟨hr, hdistinct⟩ := List.nodup_cons.mp hdistinct
    have hexpected : ((r :: rs).filterMap fun r =>
        (findIn str order indexes r searched).map
          (sourceOf sorters priorities r.name r.url))
        = ((findIn str order indexes r searched).map
            (sourceOf sorters priorities r.name r.url)).toList
          ++ rs.filterMap fun r =>
            (findIn str order indexes r searched).map
              (sourceOf sorters priorities r.name r.url) := by
      rw [List.filterMap_cons]
      cases findIn str order indexes r searched with
      | none => rfl
      | some chart => rfl
    have htag (name : String) : ∀ x ∈ (findIn str order indexes r name).map
        (sourceOf sorters priorities r.name r.url),
        x.repoName = r.name := by
      intro x hx
      rw [Option.mem_def, Option.map_eq_some_iff] at hx
      obtain ⟨chart, -, rfl⟩ := hx
      rfl
    rw [searchRepositories_cons, hexpected,
      perm_append_iff_of_tag ChartSource.repoName (htag _) (htag _),
      sourceOf_findIn_eq_iff, ih hdistinct, Steady]
    · intro x hx heq
      rw [← heq] at hr
      exact hr (repoName_of_mem hx).1
    · intro x hx heq
      obtain ⟨r', hr', hx⟩ := List.mem_filterMap.mp hx
      rw [Option.map_eq_some_iff] at hx
      obtain ⟨chart, -, rfl⟩ := hx
      exact hr (List.mem_map.mpr ⟨r', hr', heq⟩)

end Search

-- ======== both searches

/-- The files, where those of the repositories and priorities are there. -/
def Files.having (files : Files) (f : RepoFile)
    (priorities : List (String × Int)) : Files :=
  { files with repoFile := .ok f, priorities := .ok priorities }

theorem RepoFile.find (f : RepoFile) {r : Repository}
    (hr : r ∈ f.repositories) :
    (f.repositories.find? fun r' => r'.name = r.name) = some r := by
  cases hfind : f.repositories.find? fun r' => r'.name = r.name with
  | none =>
    rw [List.find?_eq_none] at hfind
    exact absurd (decide_eq_true rfl) (hfind r hr)
  | some r' =>
    have hname := List.find?_some hfind
    have hmem := List.mem_of_find?_eq_some hfind
    rw [List.inj_on_of_nodup_map f.distinct hmem hr (by simpa using hname)]

section Both

variable (str : Strings) (sorters : Sorters) (order order' : Order)
  (files : Files) (f : RepoFile) (priorities : List (String × Int))

theorem searchChartInHTTPRepo_source {r : Repository}
    (hr : r ∈ f.repositories) (chartName : String) :
    (searchChartInHTTPRepo str sorters order
        (files.having f priorities) r.name chartName).source
      = (findIn str order files.index r chartName).map
        (sourceOf sorters priorities r.name r.url) := by
  unfold searchChartInHTTPRepo findIn Files.having
  cases files.index r.name with
  | error e => rfl
  | ok index =>
    dsimp only
    rw [f.find hr]
    cases hfound : findChart str (order.order r.name) index
        chartName with
    | none => rfl
    | some chart =>
      show (if chart.2 = [] then _ else _ : ChartSearchResult).source = _
      by_cases hversions : chart.2 = []
      · rw [if_pos hversions]
        simp [Option.filter, hversions]
      · rw [if_neg hversions]
        simp [Option.filter, hversions]

def Unambiguous (chartName : String) : Prop :=
  ∀ r ∈ f.repositories, ∀ index, files.index r.name = .ok index →
    OneMatch str index chartName

/-- The search finds the sources that the single searches find, up to the
order of equal priorities. -/
def FindsEach (chartName : String) : Prop :=
  ∃ sources,
    searchChart str sorters order (files.having f priorities) chartName
        = .ok sources ∧
      (sources.filter fun source => !source.isOCI).Perm
        (f.repositories.filterMap fun r => (searchChartInHTTPRepo str
          sorters order' (files.having f priorities) r.name
          chartName).source) ∧
      sources.Pairwise fun a b => a.priority ≤ b.priority

variable {str order order' files f}

theorem findIn_order {chartName : String}
    (hone : Unambiguous str files f chartName) {r : Repository}
    (hr : r ∈ f.repositories) :
    findIn str order files.index r chartName
      = findIn str order' files.index r chartName := by
  unfold findIn
  cases hindex : files.index r.name with
  | error e => rfl
  | ok index =>
    dsimp only
    rw [findChart_order (hone r hr index hindex) (order.perm r.name _)
      (order'.perm r.name _)]

/-- Searching all repositories finds what searching each does, for every
order of their charts, exactly if at every repository the name that the
loop has come to finds the chart that the one searched for does. -/
theorem searchChart_iff {chartName : String}
    (hone : Unambiguous str files f chartName) :
    FindsEach str sorters order order' files f priorities chartName ↔
      Steady str order files.index chartName chartName f.repositories := by
  have heach : (f.repositories.filterMap fun r => (searchChartInHTTPRepo
        str sorters order' (files.having f priorities) r.name
        chartName).source)
      = f.repositories.filterMap fun r =>
        (findIn str order files.index r chartName).map
          (sourceOf sorters priorities r.name r.url) := by
    refine List.filterMap_congr fun r hr => ?_
    rw [searchChartInHTTPRepo_source str sorters order' files f priorities
      hr, findIn_order hone hr]
  rw [← searchRepositories_perm_iff sorters priorities chartName
    f.distinct]
  unfold FindsEach
  rw [heach]
  -- The sources of repositories among those that are sorted.
  have hhttp (found : List ChartSource) (oci : List OCIChartSource)
      (hfound : ∀ source ∈ found, source.isOCI = false) :
      ((sorters.sources.sort
          (fun a b => decide (a.priority < b.priority))
          (found ++ oci.map ociSource)).filter
        fun source => !source.isOCI).Perm found := by
    refine ((sorters.sources.perm _ _).filter _).trans ?_
    rw [List.filter_append, List.filter_eq_self.mpr fun source hs => by
        simp [hfound source hs],
      List.filter_eq_nil_iff.mpr ?_, List.append_nil]
    intro source hs
    obtain ⟨o, -, rfl⟩ := List.mem_map.mp hs
    simp [ociSource]
  obtain ⟨oci, hoci⟩ : ∃ oci : List OCIChartSource, searchChart str sorters
      order (files.having f priorities) chartName
        = .ok (sorters.sources.sort
          (fun a b => decide (a.priority < b.priority))
          ((searchRepositories str sorters order files.index priorities
            chartName f.repositories).1 ++ oci.map ociSource)) := by
    unfold searchChart Files.having
    dsimp only
    split
    · exact ⟨[], rfl⟩
    · exact ⟨_, rfl⟩
  have hmine := hhttp (searchRepositories str sorters order files.index
    priorities chartName f.repositories).1 oci
    fun source hs => (repoName_of_mem hs).2
  rw [hoci]
  constructor
  · rintro ⟨sources, hsources, hperm, -⟩
    cases hsources
    exact hmine.symm.trans hperm
  · intro hperm
    exact ⟨_, rfl, hmine.trans hperm, sorters.sources.ordered_key _ _⟩

end Both

-- ======== a search

def ascii : Strings where
  equalFold a b := a.toList.map Char.toLower = b.toList.map Char.toLower
  toLower s := .ofList (s.toList.map Char.toLower)
  refl _ := decide_eq_true rfl

/-- A loop that meets the charts of an index as they are listed. -/
def asListed : Order := ⟨fun _ entries => entries, fun _ _ => .refl _⟩

def insertions : Sorters := ⟨.insertion _, .insertion _⟩

def IndexFile.single (e : Chart) : IndexFile :=
  ⟨[e], List.nodup_singleton _⟩

theorem mirrorFirst_distinct : ["mirror", "web"].Nodup := by decide

/-- A mirror has the chart under a path, the other repository as it is. -/
def mirrored : Files where
  repoFile := .error .notExist
  priorities := .ok []
  index name :=
    .ok (if name = "mirror" then
      .single ("bitnami/redis", [{ version := "1" }])
    else .single ("redis", [{ version := "2" }]))
  searchOCIChart _ := .ok []

def mirrorFirst : RepoFile where
  repositories := [⟨"mirror", "https://mirror"⟩, ⟨"web", "https://web"⟩]
  distinct := mirrorFirst_distinct

theorem mirrored_unambiguous (chartName : String) :
    Unambiguous ascii mirrored mirrorFirst chartName := by
  intro r _ index hindex e he e' he' _ _
  cases hindex
  by_cases hname : r.name = "mirror"
  · rw [if_pos hname] at he he'
    rw [List.mem_singleton.mp he, List.mem_singleton.mp he']
  · rw [if_neg hname] at he he'
    rw [List.mem_singleton.mp he, List.mem_singleton.mp he']

theorem searchChart_mirrored :
    FindsEach ascii insertions asListed asListed mirrored mirrorFirst []
        "redis" ↔
      Steady ascii asListed mirrored.index "redis" "redis"
        mirrorFirst.repositories :=
  searchChart_iff insertions [] (mirrored_unambiguous "redis")

/-- The chart is found under a path first, and not at all behind it. -/
theorem searchChart_misses_source :
    Unambiguous ascii mirrored mirrorFirst "redis" ∧
      ¬FindsEach ascii insertions asListed asListed mirrored mirrorFirst []
        "redis" := by
  refine ⟨mirrored_unambiguous "redis", ?_⟩
  rintro ⟨sources, hsources, hperm, -⟩
  have hlength := hperm.length_eq
  cases hsources
  revert hlength
  decide

end Helm
