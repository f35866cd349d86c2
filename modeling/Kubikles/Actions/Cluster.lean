/-
The API that operator actions are run against, with its other clients.

# The server

An object is stored with the revision of its last change, which it is read
with as its `metadata.resourceVersion`. Every change has a revision of its
own: the server writes no two of them alike (`Env.stamp`). A JSON patch is
applied to the object as it is when the server handles it, whole or not at
all.

# The calls

Other clients change what they like before each call (`Env.changes`), and a
call may be refused, or done with its answer lost (`Env.fate`). Calls are
counted in the order they are made; the writes that took effect are kept
(`World.writes`).

What a provider does to resolve its targets is a tree of reads (`Reading`):
there is no call in it that writes.
-/
import Kubikles.Lib.Doc

namespace Actions

-- ======== objects

/-- Where an object is served: the resource, and the object's name. -/
structure Key where
  group : String
  version : String
  resource : String
  ns : String
  name : String
deriving DecidableEq

def getUID (obj : Doc) : String := obj.nestedString ["metadata", "uid"]

def getResourceVersion (obj : Doc) : String :=
  obj.nestedString ["metadata", "resourceVersion"]

/-- `GetDeletionTimestamp`; what the server writes there is a time. -/
def getDeletionTimestamp (obj : Doc) : Option String :=
  let timestamp := obj.nestedString ["metadata", "deletionTimestamp"]
  if timestamp = "" then none else some timestamp

def getAnnotations (obj : Doc) : Option (List (String × String)) :=
  obj.nestedStringMap ["metadata", "annotations"]

def getLabels (obj : Doc) : Option (List (String × String)) :=
  obj.nestedStringMap ["metadata", "labels"]

def getName (obj : Doc) : String := obj.nestedString ["metadata", "name"]

def getNamespace (obj : Doc) : String :=
  obj.nestedString ["metadata", "namespace"]

def getKind (obj : Doc) : String := obj.nestedString ["kind"]

/-- An entry of a map of strings, empty where it is missing. -/
def entry (strings : Option (List (String × String))) (key : String) :
    String :=
  ((strings.getD []).lookup key).getD ""

-- ======== cluster

/-- An object in the store. -/
structure Entry where
  value : Doc
  /-- The revision of its last change. -/
  modRevision : Nat

/-- The store: no object is newer than the store. -/
structure Cluster where
  objects : List (Key × Entry)
  revision : Nat
  bounded : ∀ e ∈ objects, e.2.modRevision ≤ revision

namespace Cluster

def find? (c : Cluster) (key : Key) : Option Entry := c.objects.lookup key

theorem bounded_put {objects : List (Key × Entry)} {revision : Nat}
    (h : ∀ e ∈ objects, e.2.modRevision ≤ revision) (key : Key)
    (value : Doc) :
    ∀ e ∈ Assoc.put key ⟨value, revision + 1⟩ objects,
      e.2.modRevision ≤ revision + 1 := by
  induction objects with
  | nil =>
    intro e he
    obtain rfl := List.mem_singleton.mp he
    exact Nat.le_refl _
  | cons head objects ih =>
    have ih' := ih fun e he => h e (List.mem_cons_of_mem _ he)
    intro e he
    unfold Assoc.put at he
    split at he
    · rcases List.mem_cons.mp he with rfl | he
      · exact Nat.le_refl _
      · exact Nat.le_succ_of_le (h e (List.mem_cons_of_mem _ he))
    · rcases List.mem_cons.mp he with rfl | he
      · exact Nat.le_succ_of_le (h _ List.mem_cons_self)
      · exact ih' e he

theorem bounded_drop {objects : List (Key × Entry)} {revision : Nat}
    (h : ∀ e ∈ objects, e.2.modRevision ≤ revision) (key : Key) :
    ∀ e ∈ Assoc.drop key objects, e.2.modRevision ≤ revision + 1 :=
  fun e he => Nat.le_succ_of_le (h e (List.mem_of_mem_filter he))

def put (c : Cluster) (key : Key) (value : Doc) : Cluster where
  objects := Assoc.put key ⟨value, c.revision + 1⟩ c.objects
  revision := c.revision + 1
  bounded := bounded_put c.bounded key value

def drop (c : Cluster) (key : Key) : Cluster where
  objects := Assoc.drop key c.objects
  revision := c.revision + 1
  bounded := bounded_drop c.bounded key

end Cluster

/-- A change of another client: to mark an object for deletion is to write
it. -/
inductive Change where
  | put (key : Key) (value : Doc)
  | drop (key : Key)

def Cluster.change (c : Cluster) : Change → Cluster
  | .put key value => c.put key value
  | .drop key => c.drop key

-- ======== calls

inductive ApiError where
  | alreadyExists
  | failed (message : String)
deriving DecidableEq

def ApiError.text : ApiError → String
  | .alreadyExists => "already exists"
  | .failed message => message

/-- What becomes of a call. -/
inductive Fate where
  | answered
  /-- It fails before it takes effect. -/
  | refused (message : String)
  /-- It is done, and its answer does not come. -/
  | lost (message : String)
deriving DecidableEq

/-- What is around the program: the server, its other clients, the network,
the clock. What changes from call to call is by the number of the call. -/
structure Env where
  /-- The resource version of a revision. -/
  stamp : Nat → String
  stamp_injective : Function.Injective stamp
  stamp_ne_empty : ∀ revision, stamp revision ≠ ""
  changes : Nat → List Change := fun _ => []
  fate : Nat → Fate := fun _ => .answered
  /-- `time.Now`, in RFC 3339. -/
  now : Nat → String
  /-- Where the next loop over a map begins. -/
  order : Nat → Nat := fun _ => 0
  /-- `uuid.Parse` succeeds. -/
  isUuid : String → Bool
  /-- `uuid.NewString`. -/
  newUuid : Nat → String
  newUuid_isUuid : ∀ n, isUuid (newUuid n) = true

inductive Write where
  | patched (key : Key) (before after : Doc)
  | created (key : Key) (object : Doc)

/-- The cluster, and what was done. -/
structure World where
  cluster : Cluster
  calls : Nat := 0
  /-- How many loops over maps there were. -/
  loops : Nat := 0
  writes : List Write := []

def Entry.view (env : Env) (e : Entry) : Doc :=
  (Doc.add (.str (env.stamp e.modRevision)) ["metadata", "resourceVersion"]
    (some e.value)).getD e.value

/-- A call arrives: what other clients did is done before. -/
def World.arrive (env : Env) (w : World) : World :=
  { w with
    cluster := (env.changes w.calls).foldl Cluster.change w.cluster
    calls := w.calls + 1 }

def notFound : ApiError := .failed "not found"

def Cluster.read (env : Env) (key : Key) (c : Cluster) :
    Except ApiError Doc :=
  match c.find? key with
  | some e => .ok (e.view env)
  | none => .error notFound

def get (env : Env) (key : Key) (w : World) : Except ApiError Doc × World :=
  let w' := w.arrive env
  match env.fate w.calls with
  | .answered => (w'.cluster.read env key, w')
  | .refused message | .lost message => (.error (.failed message), w')

/-- `ListOptions`, of a resource in a namespace, in all of them where it is
empty. -/
structure Query where
  group : String
  version : String
  resource : String
  ns : String
  labelSelector : List (String × String) := []
  /-- At most so many, 0 for all. -/
  limit : Nat := 0
  /-- The continuation token, of which 0 is the empty one. -/
  start : Nat := 0

def Query.items (env : Env) (q : Query) (c : Cluster) : List Doc :=
  (c.objects.filter fun (key, e) =>
    key.group = q.group && key.version = q.version
      && key.resource = q.resource && (q.ns = "" || key.ns = q.ns)
      && q.labelSelector.all fun (label, value) =>
        ((getLabels (e.view env)).getD []).lookup label = some value).map
    fun (_, e) => e.view env

structure Page where
  items : List Doc
  /-- `GetContinue`. -/
  next : Nat

def Query.page (q : Query) (items : List Doc) : Page :=
  let rest := items.drop q.start
  if q.limit ≠ 0 ∧ q.limit < rest.length then
    { items := rest.take q.limit, next := q.start + q.limit }
  else { items := rest, next := 0 }

def list (env : Env) (q : Query) (w : World) :
    Except ApiError Page × World :=
  let w' := w.arrive env
  match env.fate w.calls with
  | .answered => (.ok (q.page (q.items env w'.cluster)), w')
  | .refused message | .lost message => (.error (.failed message), w')

def World.write (w : World) (key : Key) (value : Doc) (write : Write) :
    World :=
  { w with
    cluster := w.cluster.put key value
    writes := w.writes ++ [write] }

def World.handleCreate (env : Env) (key : Key) (object : Doc) (w : World) :
    Except ApiError Doc × World :=
  match w.cluster.find? key with
  | some _ => (.error .alreadyExists, w)
  | none =>
    (.ok (Entry.view env ⟨object, w.cluster.revision + 1⟩),
      w.write key object (.created key object))

def create (env : Env) (key : Key) (object : Doc) (w : World) :
    Except ApiError Doc × World :=
  let w' := w.arrive env
  match env.fate w.calls with
  | .answered => w'.handleCreate env key object
  | .refused message => (.error (.failed message), w')
  | .lost message =>
    (.error (.failed message), (w'.handleCreate env key object).2)

/-- Of a patch of a subresource, its own member is taken. -/
def patchedPart (subresource : String) (before after : Doc) : Option Doc :=
  if subresource = "" then some after
  else
    match after.nested? [subresource] with
    | some part => Doc.add part [subresource] (some before)
    | none => some ((Doc.remove [subresource] before).getD before)

/-- What the server does to patch an object. -/
def World.handlePatch (env : Env) (key : Key) (ops : List Doc.Operation)
    (subresource : String) (w : World) : Except ApiError Unit × World :=
  match w.cluster.find? key with
  | none => (.error notFound, w)
  | some e =>
    match (Doc.patch ops (e.view env)).bind
        (patchedPart subresource (e.view env)) with
    | none => (.error (.failed "the server rejected the patch"), w)
    | some after =>
      (.ok (), w.write key after (.patched key (e.view env) after))

/-- `Patch`, of type `JSONPatchType`. -/
def patch (env : Env) (key : Key) (ops : List Doc.Operation)
    (subresource : String) (w : World) : Except ApiError Unit × World :=
  let w' := w.arrive env
  match env.fate w.calls with
  | .answered => w'.handlePatch env key ops subresource
  | .refused message => (.error (.failed message), w')
  | .lost message =>
    (.error (.failed message),
      (w'.handlePatch env key ops subresource).2)

-- ======== reading

/-- What is read to come to a result. -/
inductive Reading (α : Type) where
  | done (result : α)
  | get (key : Key) (next : Except ApiError Doc → Reading α)
  | list (q : Query) (next : Except ApiError Page → Reading α)
  /-- Where a loop over a map begins. -/
  | order (next : Nat → Reading α)

/-- Read, one call after the other. -/
def Reading.run {α : Type} (env : Env) : Reading α → World → α × World
  | .done a, w => (a, w)
  | .get key next, w =>
    let (answer, w) := Actions.get env key w
    (next answer).run env w
  | .list q next, w =>
    let (answer, w) := Actions.list env q w
    (next answer).run env w
  | .order next, w =>
    (next (env.order w.loops)).run env { w with loops := w.loops + 1 }

end Actions
