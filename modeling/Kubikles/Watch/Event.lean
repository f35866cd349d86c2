/-
Watch events and the key they are coalesced under (app_watchers.go,
eventcoalescer.go).

A resource travels as an unstructured JSON object. The model keeps the
metadata the code reads and leaves the rest of the object opaque: `α`
is whatever else a resource holds, and everything below is generic in
it. A metadata field is `none` where the object has no such field or
one that is not a string, which is how both the type assertions in Go
and the optional chaining in TypeScript treat it.
-/

/-- The type of a watch event. `other` stands for every string the
code does not name. -/
inductive EventType where
  | added
  | modified
  | deleted
  | bookmark
  | error
  | other (type : String)
deriving DecidableEq, Repr

/-- The metadata fields the code reads. -/
structure ObjectMeta where
  name : Option String := none
  ns : Option String := none
  uid : Option String := none
  resourceVersion : Option String := none
  deletionTimestamp : Option String := none
deriving DecidableEq, Repr

/-- An unstructured resource: its metadata, if it has any, and the rest
of the object. -/
structure Resource (α : Type) where
  metadata : Option ObjectMeta
  body : α
deriving DecidableEq, Repr

/-- `ResourceEvent`, the generic event emitted for any resource
change. -/
structure ResourceEvent (α : Type) where
  type : EventType
  resourceType : String
  ns : String
  resource : Resource α
deriving DecidableEq, Repr

variable {α : Type}

/-- `eventKey`: events with the same key are deduplicated. A resource
without metadata or without a name counts as having the empty one. -/
def eventKey (event : ResourceEvent α) : String :=
  let name := (event.resource.metadata.bind (·.name)).getD ""
  event.resourceType ++ ":" ++ event.ns ++ ":" ++ name
