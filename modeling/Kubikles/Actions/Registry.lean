/-
The registry of operator actions (resourceactions/registry.go, types.go).

A provider offers actions for a kind of resource, resolves the targets of
one (`Provider.prepare`) and says what is to be done to each of them
(`Provider.mutation`, where it is a `Mutator`). `Registry.execute` takes a
plan that comes from the UI: it resolves the targets again, compares them
with those of the plan, and then reads, changes and reports one target
after the other.
-/
import Kubikles.Actions.Cluster

namespace Actions

-- ======== types

structure ResourceRef where
  context : String
  group : String
  version : String
  resource : String
  ns : String
  name : String
  uid : String
deriving DecidableEq

/-- The `GVR` of a reference, with its namespace and name. -/
def ResourceRef.key (ref : ResourceRef) : Key where
  group := ref.group
  version := ref.version
  resource := ref.resource
  ns := ref.ns
  name := ref.name

structure Mode where
  id : String
  label : String := ""
  selectTargets : Bool := false
deriving DecidableEq

structure Action where
  id : String
  label : String := ""
  description : String := ""
  modes : List Mode
deriving DecidableEq

structure Target where
  ref : ResourceRef
  kind : String := ""
  pending : Bool := false
deriving DecidableEq

structure Plan where
  requestID : String := ""
  fingerprint : String := ""
  source : ResourceRef
  actionID : String
  mode : String
  summary : String := ""
  targets : List Target := []
  /-- A map; the UI sends none. -/
  annotations : List (String × String) := []
deriving DecidableEq

inductive Status where
  | failed
  | pending
  | requested
deriving DecidableEq

structure Result where
  message : String := ""
  target : Target
  status : Status
  error : Option String := none
deriving DecidableEq

/-- An object to be created. -/
structure Creation where
  group : String
  version : String
  resource : String
  object : Doc

structure Mutation where
  create : Option Creation := none
  subresource : String := ""
  operations : List Doc.Operation := []
  pending : Bool := false

structure Provider where
  actions : (group resource : String) → List Action
  prepare : ResourceRef → (id mode : String) →
    Reading (Except String Plan)
  /-- `Mutation`, of a `Mutator`, at a time. -/
  mutation : Option ((now : String) → Plan → Target → Doc →
    Except String Mutation) := none

structure Registry where
  providers : List Provider

-- ======== annotations

def annotationPath (key : String) : String :=
  "/metadata/annotations/" ++ Doc.escape key

def stringMapDoc (strings : List (String × String)) : Doc :=
  .map (strings.map fun (key, value) => (key, .str value))

/-- What becomes of a target without a `Mutator`: the plan's annotations
are set on it. -/
def annotate (plan : Plan) (target : Target) (obj : Doc) :
    Except String Mutation :=
  if plan.annotations.length = 0 then .error "action has no mutation"
  else if plan.annotations.all (fun (key, value) =>
      entry (getAnnotations obj) key = value) || target.pending then
    .ok { pending := true }
  else
    .ok {
      operations :=
        (if getAnnotations obj = none then
          [{ op := "add", path := "/metadata/annotations",
             value := .map [] }]
        else [])
        ++ plan.annotations.map fun (key, value) =>
          { op := "add", path := annotationPath key, value := .str value } }

namespace Registry

-- ======== prepare

def actions (r : Registry) (group resource : String) : List Action :=
  r.providers.flatMap fun p => p.actions group resource

def findAction (r : Registry) (ref : ResourceRef) (id : String) :
    Option (Provider × Action) :=
  r.providers.findSome? fun p =>
    ((p.actions ref.group ref.resource).find? (·.id = id)).map
      fun action => (p, action)

def prepare (env : Env) (r : Registry) (ref : ResourceRef)
    (id mode : String) (w : World) : Except String Plan × World :=
  if ref.context = "" || ref.name = "" || ref.uid = ""
      || ref.version = "" then
    (.error "resource context, name, UID and version are required", w)
  else
    match r.findAction ref id with
    | none => (.error s!"unsupported resource action {id.quote}", w)
    | some (p, action) =>
      if action.modes.any (·.id = mode) then
        let answer := (p.prepare ref id mode).run env w
        match answer.1 with
        | .ok plan =>
          (.ok { plan with requestID := env.newUuid answer.2.calls },
            answer.2)
        | .error e => (.error e, answer.2)
      else (.error s!"unsupported action scope {mode.quote}", w)

-- ======== mutation

def mutation (r : Registry) (now : String) (plan : Plan) (target : Target)
    (obj : Doc) : Except String Mutation :=
  match r.providers.findSome? fun p =>
      if (p.actions plan.source.group plan.source.resource).any
          (·.id = plan.actionID) then p.mutation
      else none with
  | some custom => custom now plan target obj
  | none => annotate plan target obj

end Registry

-- ======== execute

/-- The annotations that a created object is known by. -/
def mergeRequestAnnotations (existing : List (String × String))
    (requestID uid : String) : List (String × String) :=
  Assoc.put "kubikles.io/action-source-uid" uid
    (Assoc.put "kubikles.io/action-request" requestID existing)

/-- `SetAnnotations`, of an object that has a map for its metadata. -/
def setAnnotations (obj : Doc) (annotations : List (String × String)) :
    Doc :=
  (Doc.add (stringMapDoc annotations) ["metadata", "annotations"]
    (some obj)).getD obj

/-- An object with the annotations that it is known by. -/
def Creation.marked (creation : Creation) (requestID uid : String) :
    Creation :=
  { creation with
    object := setAnnotations creation.object
      (mergeRequestAnnotations ((getAnnotations creation.object).getD [])
        requestID uid) }

/-- Where an object is created. -/
def Creation.key (creation : Creation) : Key where
  group := creation.group
  version := creation.version
  resource := creation.resource
  ns := getNamespace creation.object
  name := getName creation.object

def createdMessage (object : Doc) : String :=
  getKind object ++ " " ++ getNamespace object ++ "/" ++ getName object

def failure (target : Target) (error : String) : Result :=
  { target, status := .failed, error }

/-- An object is there already: it is the one that was asked for, if it is
marked as that. -/
def executeExisting (env : Env) (requestID : String) (target : Target)
    (key : Key) (w : World) : Result × World :=
  let answer := get env key w
  match answer.1 with
  | .ok existing =>
    if entry (getAnnotations existing) "kubikles.io/action-request"
          = requestID
        ∧ entry (getAnnotations existing) "kubikles.io/action-source-uid"
          = target.ref.uid then
      ({ target, status := .pending, message := createdMessage existing },
        answer.2)
    else (failure target ApiError.alreadyExists.text, answer.2)
  | .error _ => (failure target ApiError.alreadyExists.text, answer.2)

/-- An object is created for a target, or found where it was. -/
def executeCreate (env : Env) (requestID : String) (target : Target)
    (creation : Creation) (w : World) : Result × World :=
  let creation := creation.marked requestID target.ref.uid
  let answer := create env creation.key creation.object w
  match answer.1 with
  | .ok created =>
    ({ target, status := .requested, message := createdMessage created },
      answer.2)
  | .error .alreadyExists =>
    executeExisting env requestID target creation.key answer.2
  | .error (.failed message) => (failure target message, answer.2)

/-- The operations in front of those of a mutation. -/
def guards (target : Target) (obj : Doc) : List Doc.Operation :=
  [{ op := "test", path := "/metadata/uid", value := .str target.ref.uid },
   { op := "test", path := "/metadata/resourceVersion",
     value := .str (getResourceVersion obj) }]

/-- An object is patched, if it is still as it was read. -/
def executePatch (env : Env) (target : Target) (obj : Doc)
    (mutation : Mutation) (w : World) : Result × World :=
  let answer := patch env target.ref.key
    (guards target obj ++ mutation.operations) mutation.subresource w
  match answer.1 with
  | .ok () => ({ target, status := .requested }, answer.2)
  | .error e => (failure target e.text, answer.2)

def executeMutation (env : Env) (requestID : String) (target : Target)
    (obj : Doc) (mutation : Mutation) (w : World) : Result × World :=
  if mutation.pending then ({ target, status := .pending }, w)
  else
    match mutation.create with
    | some creation => executeCreate env requestID target creation w
    | none => executePatch env target obj mutation w

/-- One turn of the loop over the targets. -/
def executeTarget (env : Env) (r : Registry) (fresh : Plan)
    (target : Target) (w : World) : Result × World :=
  let answer := get env target.ref.key w
  match answer.1 with
  | .error e => (failure target e.text, answer.2)
  | .ok obj =>
    if getUID obj ≠ target.ref.uid then
      (failure target "resource was replaced; review the action again",
        answer.2)
    else if getDeletionTimestamp obj ≠ none then
      (failure target "resource is being deleted", answer.2)
    else
      match r.mutation (env.now answer.2.calls) fresh target obj with
      | .error e => (failure target e, answer.2)
      | .ok mutation =>
        executeMutation env fresh.requestID target obj mutation answer.2

def executeTargets (env : Env) (r : Registry) (fresh : Plan) :
    List Target → World → List Result × World
  | [], w => ([], w)
  | target :: targets, w =>
    let turn := executeTarget env r fresh target w
    let rest := executeTargets env r fresh targets turn.2
    (turn.1 :: rest.1, rest.2)

/-- The targets that were resolved, by their UIDs. -/
def allowed (fresh : Plan) : List (String × Target) :=
  fresh.targets.foldl (fun m t => Assoc.put t.ref.uid t m) []

/-- The targets that are executed: what was resolved for each of those
submitted, if it is what was submitted. -/
def resolved (allowed : List (String × Target)) (seen : List String) :
    List Target → Option (List Target)
  | [] => some []
  | t :: targets =>
    match allowed.lookup t.ref.uid with
    | none => none
    | some actual =>
      if seen.contains t.ref.uid || actual.ref ≠ t.ref then none
      else
        (resolved allowed (t.ref.uid :: seen) targets).map
          fun rest => actual :: rest

namespace Registry

/-- Whether targets may be selected: the last of the modes counts. -/
def selectable (r : Registry) (submitted : Plan) : Bool :=
  (r.actions submitted.source.group submitted.source.resource).foldl
    (fun selectable a =>
      if a.id = submitted.actionID then
        a.modes.foldl (fun selectable m =>
          if m.id = submitted.mode then m.selectTargets else selectable)
          selectable
      else selectable) false

def execute (env : Env) (r : Registry) (submitted : Plan) (w : World) :
    Except String (List Result) × World :=
  if env.isUuid submitted.requestID = false then
    (.error "invalid action request ID; refresh the preview", w)
  else
    let answer :=
      r.prepare env submitted.source submitted.actionID submitted.mode w
    match answer.1 with
    | .error e => (.error e, answer.2)
    | .ok fresh =>
      if fresh.fingerprint ≠ submitted.fingerprint then
        (.error
          "resource configuration changed; review the action again",
          answer.2)
      else if submitted.targets.length = 0 then
        (.error "select at least one target", answer.2)
      else if !r.selectable submitted
          && submitted.targets.length ≠ fresh.targets.length then
        (.error "affected resources changed; review the action again",
          answer.2)
      else
        match resolved (allowed fresh) [] submitted.targets with
        | none =>
          (.error "affected resources changed; review the action again",
            answer.2)
        | some targets =>
          let done := executeTargets env r
            { fresh with requestID := submitted.requestID } targets
            answer.2
          (.ok done.1, done.2)

end Registry

end Actions
