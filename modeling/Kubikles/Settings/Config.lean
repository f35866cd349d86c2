/-
Settings that are kept between starts (frontend/src/context/ConfigContext.tsx).

# Values

A setting is a JSON value, and so is a configuration. A number is its text,
as the language prints it. What a value has under a name is its own or is
built into the language; of the latter it is only known that there is
something (`Found.builtin`), which is no JSON value. `getDiff` and
`deepMerge` stop where the source goes on with a value that is none: where it
would look into what is built in, or gives an object another prototype.

# Storage

What is stored is kept as the value that its text is parsed to. The effect
that stores it runs after every change; where it throws, what was stored
stays. Validation only warns, and is left out, as are the three settings
that are sent to the backend.
-/
import Kubikles.Lib.JsString
import Kubikles.Lib.Machine
import Kubikles.Lib.StableSort
import Kubikles.Lib.Unmarshal
import Kubikles.Lib.View
import Kubikles.Sidebar.Layout

namespace Settings

-- ======== defaults

def defaultConfig : List (String × Doc) :=
  [("logs", .map
      [("lineWrap", .bool true),
        ("showTimestamps", .bool false),
        ("position", .str "end"),
        ("search", .map
          [("debounceMs", .num "200"),
            ("searchOnEnter", .bool true),
            ("useRegex", .bool false),
            ("filterOnly", .bool true),
            ("contextLinesBefore", .num "1"),
            ("contextLinesAfter", .num "5")])]),
    ("ai", .map
      [("model", .str "sonnet"),
        ("panelWidth", .num "384"),
        ("allowedTools", .arr
          [.str "get_pod_logs", .str "get_resource_yaml",
            .str "list_resources", .str "get_events",
            .str "describe_resource", .str "list_crds",
            .str "list_custom_resources",
            .str "get_custom_resource_yaml"])]),
    ("ui", .map
      [("searchDebounceMs", .num "150"),
        ("copyFeedbackMs", .num "2000"),
        ("scrollZoomEnabled", .bool false),
        ("showTabIcons", .bool true),
        ("largeDatasetThreshold", .num "5000")]),
    ("kubernetes", .map
      [("apiTimeoutMs", .num "60000"),
        ("metricsPollIntervalMs", .num "30000"),
        ("connectionTestTimeoutSeconds", .num "5"),
        ("nodeDebugImage", .str "alpine:latest")]),
    ("metrics", .map [("preferredSource", .str "auto")]),
    ("performance", .map
      [("pollIntervalMs", .num "1500"),
        ("eventCoalescerMs", .num "16"),
        ("enableRequestCancellation", .bool true),
        ("forceHttp1", .bool false),
        ("clientPoolSize", .num "0")]),
    ("debug", .map
      [("showDebugIcon", .bool false),
        ("showLogSourceMarkers", .bool false)])]

/-- The paths of the settings of `AppConfig`, split at their dots, and that
of the list of commands that the panel of the assistant keeps. -/
def settingPaths : List (List String) :=
  [["logs", "lineWrap"], ["logs", "showTimestamps"], ["logs", "position"],
    ["logs", "search", "debounceMs"], ["logs", "search", "searchOnEnter"],
    ["logs", "search", "useRegex"], ["logs", "search", "filterOnly"],
    ["logs", "search", "contextLinesBefore"],
    ["logs", "search", "contextLinesAfter"],
    ["ai", "model"], ["ai", "panelWidth"], ["ai", "allowedTools"],
    ["ai", "commandAllowlist"],
    ["ui", "searchDebounceMs"], ["ui", "copyFeedbackMs"],
    ["ui", "scrollZoomEnabled"], ["ui", "showTabIcons"],
    ["ui", "largeDatasetThreshold"], ["ui", "sidebar", "layout"],
    ["ui", "sidebar", "excludedItems"],
    ["kubernetes", "apiTimeoutMs"], ["kubernetes", "metricsPollIntervalMs"],
    ["kubernetes", "connectionTestTimeoutSeconds"],
    ["kubernetes", "nodeDebugImage"],
    ["kubernetes", "extraKubeconfigPaths"],
    ["metrics", "preferredSource"],
    ["performance", "pollIntervalMs"], ["performance", "eventCoalescerMs"],
    ["performance", "enableRequestCancellation"],
    ["performance", "forceHttp1"], ["performance", "clientPoolSize"],
    ["debug", "showDebugIcon"], ["debug", "showLogSourceMarkers"]]

-- ======== values

def truthy : Doc → Bool
  | .null => false
  | .bool value => value
  | .num literal => literal ≠ "0"
  | .str value => value ≠ ""
  | .arr _ => true
  | .map _ => true

/-- The elements of a string or a list; of a string they are its
characters. -/
def elements : Doc → List Doc
  | .str value => value.toList.map fun c => .str (String.singleton c)
  | .arr items => items
  | _ => []

/-- `{ ...value }`: the members of an object, and the elements of a string
or a list under their indices. -/
def spread : Doc → List (String × Doc)
  | .map members => members
  | value => (elements value).zipIdx.map fun (d, i) => (toString i, d)

/-- A value is a string or a list, which have a length. -/
def hasLength : Doc → Bool
  | .str _ | .arr _ => true
  | _ => false

def own (value : Doc) (name : String) : Option Doc :=
  if hasLength value && name = "length" then
    some (.num (toString (elements value).length))
  else (spread value).lookup name

/-- What there is under a name. -/
inductive Found where
  | missing
  | value (d : Doc)
  | builtin

section Language

-- the names of what is built into values other than objects, besides those
-- that objects have as well
variable (methods : Doc → List String)

/-- There is something built in under a name. -/
def inherits (value : Doc) (name : String) : Bool :=
  Sidebar.inheritedNames.contains name ||
    match value with
    | .map _ => false
    | value => (methods value).contains name

/-- `value[name]`. -/
def prop (value : Doc) (name : String) : Found :=
  match own value name with
  | some d => .value d
  | none => if inherits methods value name then .builtin else .missing

end Language

/-- `found || {}`. -/
def orEmpty : Found → Option Doc
  | .missing => some (.map [])
  | .value d => some (if truthy d then d else .map [])
  | .builtin => none

/-- `[...(found || [])]`, if it can be iterated. -/
def orNoElements : Found → Option (List Doc)
  | .missing => some []
  | .value d =>
    if truthy d then
      if hasLength d then some (elements d) else none
    else some []
  | .builtin => none

-- ======== texts

mutual

/-- Two values have one JSON text. -/
def sameText : Doc → Doc → Bool
  | .null, .null => true
  | .bool a, .bool b => a = b
  | .num a, .num b => a = b
  | .str a, .str b => a = b
  | .arr as, .arr bs => sameTexts as bs
  | .map as, .map bs => sameMembers as bs
  | _, _ => false

def sameTexts : List Doc → List Doc → Bool
  | [], [] => true
  | a :: as, b :: bs => sameText a b && sameTexts as bs
  | _, _ => false

/-- So do the members of two objects. -/
def sameMembers : List (String × Doc) → List (String × Doc) → Bool
  | [], [] => true
  | (k, a) :: as, (k', b) :: bs =>
    k = k' && sameText a b && sameMembers as bs
  | _, _ => false

end

mutual

/-- `String(value)`. -/
def asString : Doc → String
  | .null => "null"
  | .bool value => if value then "true" else "false"
  | .num literal => literal
  | .str value => value
  | .arr items => ",".intercalate (asStrings items)
  | .map _ => "[object Object]"

/-- The parts of the text of a list, in which `null` has none. -/
def asStrings : List Doc → List String
  | [] => []
  | .null :: items => "" :: asStrings items
  | item :: items => asString item :: asStrings items

end

/-- The code units that `sort` compares. -/
def sortKey (value : Doc) : List Nat :=
  (JsString.ofString (asString value)).map UInt16.toNat

/-- `sort`. -/
def sorted (items : List Doc) : List Doc := StableSort.sortBy sortKey items

/-- `currentVal.length > 0 && typeof currentVal[0] === 'object'`. -/
def hasObjects : List Doc → Bool
  | .null :: _ | .arr _ :: _ | .map _ :: _ => true
  | _ => false

-- ======== diff and merge

section Language

variable (methods : Doc → List String)

/-- A list that is compared in order is that of the defaults. -/
def sameAsDefault (items : List Doc) : Found → Bool
  | .missing => sameText (.arr items) (.arr [])
  | .value d => sameText (.arr items) (if truthy d then d else .arr [])
  | .builtin => false

/-- `currentVal === defaultVal`. -/
def isDefault (value : Doc) : Found → Bool
  | .value d => sameText value d
  | _ => false

mutual

/-- What `getDiff` keeps of a value, if anything. -/
def diffValue (found : Found) : Doc → Option (Option Doc)
  | .map members => do
      let defaults ← orEmpty found
      let nestedDiff ← getDiff defaults members
      return if 0 < nestedDiff.length then some (.map nestedDiff) else none
  | .arr items =>
    if hasObjects items then
      some (if sameAsDefault items found then none
        else some (.arr items))
    else do
      let defaults ← orNoElements found
      return if sameTexts (sorted items) (sorted defaults) then none
        else some (.arr items)
  | value => some (if isDefault value found then none else some value)

def getDiff (defaults : Doc) :
    List (String × Doc) → Option (List (String × Doc))
  | [] => some []
  | (key, currentVal) :: current => do
      let kept ← diffValue (prop methods defaults key) currentVal
      let diff ← getDiff defaults current
      return match kept with
        | none => diff
        | some value =>
          if key = "__proto__" then diff else (key, value) :: diff

end

end Language

mutual

/-- What a key has after `deepMerge`, where it had this. -/
def mergeValue (before : Option Doc) : Doc → Option Doc
  | .map source =>
    (mergeMembers ((before.map spread).getD []) source).map Doc.map
  | value => some value

/-- `deepMerge`, into a copy of the target. -/
def mergeMembers (result : List (String × Doc)) :
    List (String × Doc) → Option (List (String × Doc))
  | [] => some result
  | (key, value) :: source =>
    if key = "__proto__" then none
    else do
      let merged ← mergeValue (result.lookup key) value
      mergeMembers (Assoc.put key merged result) source

end

def migrateConfig (config : List (String × Doc)) :
    Option (List (String × Doc)) :=
  match (config.lookup "metrics").bind (own · "pollIntervalMs") with
  | none => some config
  | some interval =>
    let migrated := Assoc.drop "metrics" config
    match (config.lookup "kubernetes").filter truthy with
    | none =>
      some (Assoc.put "kubernetes"
        (.map [("metricsPollIntervalMs", interval)]) migrated)
    | some (.map members) =>
      if (members.lookup "metricsPollIntervalMs").isSome then
        some migrated
      else
        some (Assoc.put "kubernetes"
          (.map (members ++ [("metricsPollIntervalMs", interval)]))
          migrated)
    | some (.arr _) => some migrated
    | some _ => none

/-- `setByPath`. A path that leads into a value that is no object throws, or
is lost on a list. -/
def setByPath (value : Doc) :
    List (String × Doc) → List String → Option (List (String × Doc))
  | _, [] => none
  | obj, [part] => some (Assoc.put part value obj)
  | obj, part :: path =>
    match (obj.lookup part).filter truthy with
    | none =>
      (setByPath value [] path).map fun inner =>
        Assoc.put part (.map inner) obj
    | some (.map members) =>
      (setByPath value members path).map fun inner =>
        Assoc.put part (.map inner) obj
    | some _ => none

-- ======== the store

section Language

variable (methods : Doc → List String)

/-- The configuration, and what is in the storage. -/
structure State where
  config : List (String × Doc)
  stored : Option (List (String × Doc))

/-- The effect that stores the configuration. -/
def persist (config : List (String × Doc))
    (stored : Option (List (String × Doc))) :
    Option (List (String × Doc)) :=
  match getDiff methods (.map defaultConfig) config with
  | none => stored
  | some diff => if 0 < diff.length then some diff else none

/-- What the storage is loaded to. -/
def load (stored : Option (List (String × Doc))) : List (String × Doc) :=
  match stored with
  | none => defaultConfig
  | some saved =>
    ((migrateConfig saved).bind (mergeMembers defaultConfig)).getD
      defaultConfig

/-- What may be called: with a setting and a JSON value, or an object. -/
inductive Act where
  | setConfig (path : List String) (value : Doc) (distinct : value.Distinct)
  | updateConfig (newConfig : Doc.Object)
  | resetConfig

/-- The configuration after a call. -/
def Act.next (config : List (String × Doc)) :
    Act → Option (List (String × Doc))
  | .setConfig path value _ =>
    if settingPaths.contains path then setByPath value config path
    else none
  | .updateConfig newConfig => mergeMembers defaultConfig newConfig.members
  | .resetConfig => some defaultConfig

/-- A call, and the effect after it. -/
def settings : Machine.Step State Act Empty := fun a s =>
  (a.next s.config).map fun config =>
    (⟨config, persist methods config s.stored⟩, [])

/-- Before the first call, with nothing stored. -/
def start : State := { config := defaultConfig, stored := none }

-- ======== the statement

/-- The diff holds no setting whose value is the default: what it holds at a
place, if it is no object, is not what the defaults hold there. -/
def NoDefault (diff : List (String × Doc)) : Prop :=
  ∀ (path : List String) value default, (Doc.map diff).at? (path.map .key) = some value →
    (∀ members, value ≠ .map members) →
    (Doc.map defaultConfig).at? (path.map .key) = some default →
      ¬ value.Equal default

/-- The settings survive a restart, and no default is stored. -/
structure Right (s : State) : Prop where
  reloaded : (Doc.map (load s.stored)).Equal (.map s.config)
  minimal : ∃ diff, getDiff methods (.map defaultConfig) s.config
    = some diff ∧ NoDefault diff

-- ======== the condition

/-- What is under a path, objects that are missing being empty ones. -/
def foundAt (found : Found) : List String → Found
  | [] => found
  | name :: path =>
    foundAt (((orEmpty found).map (prop methods · name)).getD .builtin)
      path

/-- A list is told from the defaults, or is the default: it begins with an
object, or its sorted copy is not that of the default, or it is the
default. -/
def ListFits (found : Found) (items : List Doc) : Prop :=
  hasObjects items = true ∨ ∃ defaults, orNoElements found = some defaults
    ∧ (sameTexts (sorted items) (sorted defaults) = true →
        found = .value (.arr items))

def Bare (d : Doc) : Prop := ∀ name, own d name = none

/-- A value that is given under a default fits it. Where the default is an
object, an object is given, and its members fit. Elsewhere a list is told
from the default, and an object is given only where the default has no
members, has one, and has members that fit. -/
inductive Fits : Found → Doc → Prop
  | plain {found : Found} {value : Doc}
      (hfound : ∀ defaults, found ≠ .value (.map defaults))
      (harr : ∀ items, value ≠ .arr items)
      (hmap : ∀ members, value ≠ .map members) : Fits found value
  | list {found : Found} {items : List Doc}
      (hfound : ∀ defaults, found ≠ .value (.map defaults))
      (hitems : ListFits found items) : Fits found (.arr items)
  | part {defaults members : List (String × Doc)}
      (hnames : ∀ name, (members.lookup name).isSome → name ≠ "__proto__")
      (hmembers : ∀ name value, members.lookup name = some value →
        Fits (prop methods (.map defaults) name) value) :
      Fits (.value (.map defaults)) (.map members)
  | object {found : Found} {defaults : Doc} {members : List (String × Doc)}
      (hfound : ∀ defaults, found ≠ .value (.map defaults))
      (hdefaults : orEmpty found = some defaults) (hbare : Bare defaults)
      (hne : members ≠ [])
      (hnames : ∀ name, (members.lookup name).isSome → name ≠ "__proto__")
      (hmembers : ∀ name value, members.lookup name = some value →
        Fits (prop methods defaults name) value) :
      Fits found (.map members)

/-- A call that brings only what survives: the value of a setting fits its
default, and so does a whole configuration, which does not hold the old
interval of the metrics. -/
def Careful (_ : State) : Act → Prop
  | .setConfig path value _ =>
    Fits methods (foundAt methods (.value (.map defaultConfig)) path) value
  | .updateConfig newConfig =>
    Fits methods (.value (.map defaultConfig)) (.map newConfig.members)
      ∧ (Doc.map newConfig.members).at?
          [.key "metrics", .key "pollIntervalMs"] = none
  | .resetConfig => True

end Language

end Settings
