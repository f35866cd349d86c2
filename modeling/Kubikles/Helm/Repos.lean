/-
The search for a chart in the configured repositories (`repo.go`).

# Files

A repository has a name, under which its index file is cached. The index
is a map from the names of charts to their versions; the order in which a
loop over it meets its charts is open.

# Searches

`searchChart` goes through all repositories and sorts what it finds;
`searchChartInHTTPRepo` looks into one. A chart is found under its name,
or else under one that differs in case or has more path in front
(`findChart`). The loop of `searchChart` goes on with the name under which
it found something.

# OCI registries

Removing an OCI registry (`oci.go`, with `DockerConfig` of `types.go`).

# The files

The Docker configuration is a JSON document, the priorities are a map. A
file that cannot be read, or is none, is not there here, and writing a
file goes through. A `helm logout` comes first; it is taken to change
nothing.

# What is written

The configuration is decoded into a struct, and the struct is encoded
where an entry was taken out of it. A map that is `nil` is not told from
an empty one: the configuration is encoded with entries only.
-/
import Kubikles.Lib.Sorter
import Kubikles.Lib.Unmarshal

namespace Helm

-- ======== charts

/-- A version of a chart in an index, as far as it is passed on; `created`
is a point in time. -/
structure ChartVersion where
  version : String := ""
  appVersion : String := ""
  description : String := ""
  created : Int := 0
  deprecated : Bool := false
  deriving DecidableEq

structure ChartSource where
  repoName : String
  repoURL : String
  priority : Int
  chartName : String
  versions : List ChartVersion
  isOCI : Bool := false
  ociRepository : String := ""
  deriving DecidableEq

/-- `ChartSearchResult`, but for the duration. -/
structure ChartSearchResult where
  source : Option ChartSource
  log : String

abbrev Chart := String × List ChartVersion

structure IndexFile where
  entries : List Chart
  distinct : (entries.map Prod.fst).Nodup

structure Repository where
  name : String
  url : String

/-- The repository file. A name that is there is not added again. -/
structure RepoFile where
  repositories : List Repository
  distinct : (repositories.map Repository.name).Nodup

/-- A file is not there, or cannot be loaded. -/
inductive LoadError where
  | notExist
  | other (message : String)

structure OCIChartSource where
  registryURL : String
  repository : String
  chartName : String
  versions : List String
  priority : Int

/-- What the searches read. -/
structure Files where
  repoFile : Except LoadError RepoFile
  /-- `loadRepoPriorities`. -/
  priorities : Except String (List (String × Int))
  index : String → Except String IndexFile
  /-- `SearchOCIChart`. -/
  searchOCIChart : String → Except String (List OCIChartSource)

/-- Functions of the library on texts. -/
structure Strings where
  equalFold : String → String → Bool
  toLower : String → String
  refl : ∀ s, equalFold s s = true

/-- The order in which a loop over the index of a repository meets its
charts. -/
structure Order where
  order : String → List Chart → List Chart
  perm : ∀ repo entries, (order repo entries).Perm entries

/-- How a search sorts. -/
structure Sorters where
  versions : Sorter ChartVersion
  sources : Sorter ChartSource

-- ======== one index

/-- The chart's name is the one searched for, but for case or a path. -/
def isMatch (str : Strings) (name chartName : String) : Bool :=
  str.equalFold name chartName
    || ("/" ++ str.toLower chartName).toList.isSuffixOf
      (str.toLower name).toList

/-- The chart that a search in an index finds. -/
def findChart (str : Strings) (order : List Chart → List Chart)
    (index : IndexFile) (chartName : String) : Option Chart :=
  match index.entries.lookup chartName with
  | some versions => some (chartName, versions)
  | none =>
    (order index.entries).find? fun e => isMatch str e.1 chartName

def sortVersions (sorters : Sorters) (versions : List ChartVersion) :
    List ChartVersion :=
  sorters.versions.sort (fun a b => decide (b.created < a.created)) versions

def priorityOf (priorities : List (String × Int)) (name : String) : Int :=
  (priorities.lookup name).getD 100

/-- The source that a repository is of a chart. -/
def sourceOf (sorters : Sorters) (priorities : List (String × Int))
    (repoName repoURL : String) (chart : Chart) : ChartSource where
  repoName := repoName
  repoURL := repoURL
  priority := priorityOf priorities repoName
  chartName := chart.1
  versions := sortVersions sorters chart.2

-- ======== one repository

/-- `searchChartInHTTPRepo`. Errors of the other files are passed over. -/
def searchChartInHTTPRepo (str : Strings) (sorters : Sorters)
    (order : Order) (files : Files) (repoName chartName : String) :
    ChartSearchResult :=
  match files.index repoName with
  | .error e =>
    ⟨none, "[" ++ repoName ++ "] Failed to load index: " ++ e⟩
  | .ok index =>
    let chart := (findChart str (order.order repoName) index
      chartName).getD ("", [])
    if chart.2 = [] then
      ⟨none, "[" ++ repoName ++ "] Chart '" ++ chartName
        ++ "' not found in index (" ++ toString index.entries.length
        ++ " charts available)"⟩
    else
      let repoURL :=
        match files.repoFile with
        | .error _ => ""
        | .ok f =>
          ((f.repositories.find? fun r => r.name = repoName).map
            Repository.url).getD ""
      let priorities :=
        match files.priorities with
        | .error _ => []
        | .ok priorities => priorities
      let source :=
        sourceOf sorters priorities repoName repoURL chart
      ⟨some source, "[" ++ repoName ++ "] Found chart '" ++ chart.1
        ++ "' with " ++ toString source.versions.length ++ " versions"⟩

-- ======== all repositories

/-- The loop of `searchChart`: its sources, and the name that it ends
with. -/
def searchRepositories (str : Strings) (sorters : Sorters) (order : Order)
    (indexes : String → Except String IndexFile)
    (priorities : List (String × Int)) :
    String → List Repository → List ChartSource × String
  | chartName, [] => ([], chartName)
  | chartName, r :: rs =>
    match indexes r.name with
    | .error _ =>
      searchRepositories str sorters order indexes priorities chartName
        rs
    | .ok index =>
      -- A chart that matched gives its name to the rest of the loop.
      let chart := (findChart str (order.order r.name) index
        chartName).getD (chartName, [])
      let rest := searchRepositories str sorters order indexes
        priorities chart.1 rs
      if chart.2 = [] then rest
      else (sourceOf sorters priorities r.name r.url chart :: rest.1,
        rest.2)

def trimPrefix (s p : String) : String :=
  if p.toList.isPrefixOf s.toList then
    .ofList (s.toList.drop p.length)
  else s

def ociSource (oci : OCIChartSource) : ChartSource where
  repoName := "oci://"
    ++ trimPrefix (trimPrefix oci.registryURL "https://") "http://"
  repoURL := oci.registryURL
  priority := oci.priority
  chartName := oci.chartName
  versions := oci.versions.map fun v => { version := v }
  isOCI := true
  ociRepository := oci.repository

def searchChart (str : Strings) (sorters : Sorters) (order : Order)
    (files : Files) (chartName : String) :
    Except String (List ChartSource) :=
  match files.repoFile with
  | .error .notExist => .ok []
  | .error (.other e) => .error ("failed to load repository file: " ++ e)
  | .ok f =>
    match files.priorities with
    | .error e => .error ("failed to load priorities: " ++ e)
    | .ok priorities =>
      let found := searchRepositories str sorters order files.index
        priorities chartName f.repositories
      let ociSources :=
        match files.searchOCIChart found.2 with
        | .error _ => []
        | .ok ociSources => ociSources.map ociSource
      .ok (sorters.sources.sort
        (fun a b => decide (a.priority < b.priority))
        (found.1 ++ ociSources))

end Helm

namespace Helm

-- ======== configuration

structure DockerAuth where
  auth : String := ""
  username : String := ""
  password : String := ""
  identityToken : String := ""
  deriving DecidableEq

structure DockerConfig where
  auths : List (String × DockerAuth) := []
  credsStore : String := ""
  credHelpers : List (String × String) := []
  deriving DecidableEq

/-- A member of an entry is decoded. -/
def DockerAuth.field (key : String) (value : Doc) (a : DockerAuth) :
    Option DockerAuth :=
  if Doc.isField "auth" key then
    (Doc.decodeString a.auth value).map ({ a with auth := · })
  else if Doc.isField "username" key then
    (Doc.decodeString a.username value).map ({ a with username := · })
  else if Doc.isField "password" key then
    (Doc.decodeString a.password value).map ({ a with password := · })
  else if Doc.isField "identitytoken" key then
    (Doc.decodeString a.identityToken value).map
      ({ a with identityToken := · })
  else some a

def DockerAuth.unmarshal (d : Doc) : Option DockerAuth :=
  Doc.decodeStruct DockerAuth.field {} d

/-- A member of the configuration is decoded. -/
def DockerConfig.field (key : String) (value : Doc) (c : DockerConfig) :
    Option DockerConfig :=
  if Doc.isField "auths" key then
    (Doc.decodeMap DockerAuth.unmarshal c.auths value).map
      ({ c with auths := · })
  else if Doc.isField "credsStore" key then
    (Doc.decodeString c.credsStore value).map ({ c with credsStore := · })
  else if Doc.isField "credHelpers" key then
    (Doc.decodeMap (Doc.decodeString "") c.credHelpers value).map
      ({ c with credHelpers := · })
  else some c

/-- `json.Unmarshal`, of a configuration. -/
def DockerConfig.unmarshal (d : Doc) : Option DockerConfig :=
  Doc.decodeStruct DockerConfig.field {} d

/-- A member that is left out where it is empty. -/
def omitEmpty (name value : String) : List (String × Doc) :=
  if value = "" then [] else [(name, .str value)]

def DockerAuth.marshal (a : DockerAuth) : Doc :=
  .map ([("auth", .str a.auth)] ++ omitEmpty "username" a.username
    ++ omitEmpty "password" a.password
    ++ omitEmpty "identitytoken" a.identityToken)

/-- `json.MarshalIndent`, of a configuration. -/
def DockerConfig.marshal (c : DockerConfig) : Doc :=
  .map ([("auths", .map (c.auths.map fun e => (e.1, e.2.marshal)))]
    ++ omitEmpty "credsStore" c.credsStore
    ++ if c.credHelpers = [] then [] else
      [("credHelpers", .map (c.credHelpers.map fun e => (e.1, .str e.2)))])

-- ======== removing

/-- The URLs an entry may be under. -/
def variants (registry : String) : List String :=
  [registry, trimPrefix registry "https://", trimPrefix registry "http://"]

/-- A variant is deleted, if it is there, and `modified` is set. -/
def removeVariant {V : Type} (entries : List (String × V) × Bool)
    (variant : String) : List (String × V) × Bool :=
  if (entries.1.lookup variant).isSome then
    (Assoc.drop variant entries.1, true)
  else entries

/-- The loop over the variants: what is left, and `modified`. -/
def removeVariants {V : Type} (variants : List String)
    (entries : List (String × V)) : List (String × V) × Bool :=
  variants.foldl removeVariant (entries, false)

/-- What is done to the configuration. -/
def removeAuths (registry : String) (d : Doc) : Doc :=
  match DockerConfig.unmarshal d with
  | none => d
  | some config =>
    let (auths, modified) := removeVariants (variants registry) config.auths
    if modified then { config with auths := auths }.marshal else d

structure RegistryFiles where
  dockerConfig : Option Doc
  priorities : Option (List (String × Int))

def removeOCIRegistry (registry : String) (files : RegistryFiles) :
    RegistryFiles where
  dockerConfig := files.dockerConfig.map (removeAuths registry)
  priorities := files.priorities.map fun priorities =>
    (variants registry).foldl (fun p variant => Assoc.drop variant p)
      priorities

end Helm
