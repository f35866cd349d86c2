/-
The comparison of two resources (pkg/k8s/diff.go).

# Texts and documents

A resource is fetched as YAML, and what is compared are the maps that the
text is read as. Reading and writing YAML is a library's (`Yaml`). What it
reads has no key twice in a map, and its numbers are floating point. Such
a number is held as it is displayed, which tells two of them apart, and
any other by its digits. The members of a map are listed in the order in
which a loop over it comes upon them; another reading may list them in
another.

# Left out

The client behind a fetch, and the unified diff, which is another
library's and goes to the display.
-/
import Kubikles.Lib.View

namespace Diff

-- ======== documents

/-- A text of a number begins with a digit or a minus sign. -/
def numeral (literal : String) : Bool :=
  match literal.toList with
  | c :: _ => c.isDigit || c = '-'
  | [] => false

/-- A value as it is read: no key is there twice, and a number is one. -/
def tidy : Doc → Prop
  | .num literal => numeral literal = true
  | .map members => (members.map Prod.fst).Nodup
  | _ => True

def Decoded (d : Doc) : Prop := ∀ place v, d.at? place = some v → tidy v

theorem Decoded.child {d e : Doc} {step : Doc.Step} (h : Decoded d)
    (he : d.child step = some e) : Decoded e := by
  intro place v hv
  refine h (step :: place) v ?_
  rw [Doc.at?, he]
  exact hv

theorem Decoded.at? {d e : Doc} {place : Doc.Place} (h : Decoded d)
    (he : d.at? place = some e) : Decoded e := by
  intro place' v hv
  refine h (place ++ place') v ?_
  rw [Doc.at?_append, he]
  exact hv

theorem Decoded.tidy {d : Doc} (h : Decoded d) : tidy d := h [] d rfl

/-- A value is as it is read if it is tidy and all that is a step down is
so. -/
theorem decoded_of_child {d : Doc} (htidy : tidy d)
    (h : ∀ step e, d.child step = some e → Decoded e) : Decoded d := by
  intro place v hv
  cases place with
  | nil =>
    cases hv
    exact htidy
  | cons step place =>
    rw [Doc.at?] at hv
    cases hchild : d.child step with
    | none =>
      rw [hchild] at hv
      cases hv
    | some e =>
      rw [hchild] at hv
      exact h step e hchild place v hv

theorem decoded_str (s : String) : Decoded (.str s) :=
  decoded_of_child trivial fun _ _ h => by cases h

theorem decoded_map {members : List (String × Doc)}
    (hkeys : (members.map Prod.fst).Nodup)
    (h : ∀ e ∈ members, Decoded e.2) : Decoded (.map members) := by
  refine decoded_of_child hkeys fun step e he => ?_
  cases step with
  | key k => exact h (k, e) (Assoc.mem_of_lookup he)
  | index i => cases he

/-- `sigs.k8s.io/yaml`, for `map[string]interface{}`; an empty document is
a null map. -/
structure Yaml where
  unmarshal : String → Option Doc
  marshal : Doc → Option String
  /-- What is read of a number that is written. -/
  number : String → String
  decoded : ∀ {text d}, unmarshal text = some d → Decoded d

-- ======== the fields

structure DiffRequest where
  sourceContext : String
  sourceNamespace : String
  sourceKind : String
  sourceName : String
  targetContext : String
  targetNamespace : String
  targetKind : String
  targetName : String
  ignoreFields : List String := []

structure DiffChange where
  type : String
  path : String
  old : String := ""
  new : String := ""
deriving DecidableEq

structure DiffResult where
  sourceYaml : String
  targetYaml : String
  hasChanges : Bool
  changeCount : Nat
  sourceExists : Bool
  targetExists : Bool
  changes : List DiffChange

def defaultIgnoreFields : List String :=
  ["metadata.resourceVersion",
    "metadata.uid",
    "metadata.generation",
    "metadata.creationTimestamp",
    "metadata.managedFields",
    "metadata.selfLink",
    "metadata.annotations.kubectl.kubernetes.io/last-applied-configuration",
    "status"]

/-- `strings.Split(field, ".")`. -/
def splitField (field : String) : List String :=
  (field.toList.splitOn '.').map String.ofList

def removeNestedField : List String → Doc → Doc
  | [], d => d
  | [key], .map members => .map (Assoc.drop key members)
  | key :: path, .map members =>
    match members.lookup key with
    | some (.map child) =>
      .map (Assoc.put key (removeNestedField path (.map child)) members)
    | _ => .map members
  | _, d => d

def normalizeYAMLForDiff (yaml : Yaml) (yamlStr : String)
    (ignoreFields : List String) : String :=
  if yamlStr = "" then ""
  else
    match yaml.unmarshal yamlStr with
    | none => yamlStr
    | some obj =>
      match yaml.marshal (ignoreFields.foldl
          (fun obj field => removeNestedField (splitField field) obj)
          obj) with
      | none => yamlStr
      | some result => result

-- ======== the changes

def formatValue : Doc → String
  | .null => "<nil>"
  | .str s => s
  | .arr items => "[" ++ toString items.length ++ " items]"
  | .map members => "\x7b" ++ toString members.length ++ " keys\x7d"
  | .bool b => toString b
  | .num literal => literal

/-- `currentPath` of a key. -/
def keyPath (path key : String) : String :=
  if path ≠ "" then path ++ "." ++ key else key

def elemPath (path : String) (i : Nat) : String :=
  path ++ "[" ++ toString i ++ "]"

def addedKeys (source target : List (String × Doc)) (path : String) :
    List DiffChange :=
  target.flatMap fun (key, targetVal) =>
    match source.lookup key with
    | some _ => []
    | none =>
      [{ type := "added", path := keyPath path key
         new := formatValue targetVal }]

def addedItems (target : List Doc) (path : String) (i : Nat) :
    List DiffChange :=
  match target with
  | [] => []
  | v :: rest =>
    { type := "added", path := elemPath path i, new := formatValue v }
      :: addedItems rest path (i + 1)

mutual

def compareValues : Doc → Doc → String → List DiffChange
  | .map source, .map target, path =>
    compareKeys source target path ++ addedKeys source target path
  | .arr source, .arr target, path => compareArrays source target path 0
  | sourceVal, targetVal, path =>
    if formatValue sourceVal ≠ formatValue targetVal then
      [{ type := "changed", path, old := formatValue sourceVal
         new := formatValue targetVal }]
    else []

/-- The loop over the source's keys. -/
def compareKeys : List (String × Doc) → List (String × Doc) → String →
    List DiffChange
  | [], _, _ => []
  | (key, sourceVal) :: source, target, path =>
    (match target.lookup key with
      | none =>
        [{ type := "removed", path := keyPath path key
           old := formatValue sourceVal }]
      | some targetVal =>
        compareValues sourceVal targetVal (keyPath path key))
    ++ compareKeys source target path

/-- `compareArrays`, from the item `i` on. -/
def compareArrays : List Doc → List Doc → String → Nat → List DiffChange
  | [], target, path, i => addedItems target path i
  | sourceVal :: source, target, path, i =>
    (match target.head? with
      | none =>
        [{ type := "removed", path := elemPath path i
           old := formatValue sourceVal }]
      | some targetVal =>
        compareValues sourceVal targetVal (elemPath path i))
    ++ compareArrays source target.tail path (i + 1)

end

/-- The members of what is read as a map; a null map has none. -/
def members : Doc → List (String × Doc)
  | .map members => members
  | _ => []

def compareObjectsRecursive (source target : List (String × Doc))
    (path : String) : List DiffChange :=
  compareKeys source target path ++ addedKeys source target path

def computeStructuredChanges (yaml : Yaml) (source target : String) :
    List DiffChange :=
  match yaml.unmarshal source with
  | none => []
  | some sourceObj =>
    match yaml.unmarshal target with
    | none => []
    | some targetObj =>
      compareObjectsRecursive (members sourceObj) (members targetObj) ""

-- ======== the resources

/-- `strings.Contains`. -/
def contains (s part : String) : Bool :=
  s.toList.tails.any fun rest => part.toList.isPrefixOf rest

/-- A resource that is fetched: its text, and whether it exists. Of an
error only whether it says that there is none matters. -/
def fetched (label : String) : Except String String →
    Except String (String × Bool)
  | .ok yamlStr => .ok (yamlStr, true)
  | .error e =>
    if contains e "not found" then .ok ("", false)
    else .error ("failed to fetch " ++ label ++ ": " ++ e)

def diffResources (yaml : Yaml)
    (fetchResourceYAMLForDiff :
      (context kind ns name : String) → Except String String)
    (req : DiffRequest) : Except String DiffResult := do
  let ignoreFields :=
    if req.ignoreFields.length = 0 then defaultIgnoreFields
    else req.ignoreFields
  let (sourceYAML, sourceExists) ← fetched "source"
    (fetchResourceYAMLForDiff req.sourceContext req.sourceKind
      req.sourceNamespace req.sourceName)
  let (targetYAML, targetExists) ← fetched "target"
    (fetchResourceYAMLForDiff req.targetContext req.targetKind
      req.targetNamespace req.targetName)
  let sourceNorm := normalizeYAMLForDiff yaml sourceYAML ignoreFields
  let targetNorm := normalizeYAMLForDiff yaml targetYAML ignoreFields
  let hasChanges := decide (sourceNorm ≠ targetNorm)
  let changes :=
    if hasChanges then computeStructuredChanges yaml sourceNorm targetNorm
    else []
  return {
    sourceYaml := sourceNorm
    targetYaml := targetNorm
    hasChanges
    changeCount := changes.length
    sourceExists
    targetExists
    changes }

end Diff
