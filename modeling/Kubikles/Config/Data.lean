/-
The data of Secrets and ConfigMaps, read and saved as lists of entries
(pkg/k8s/configmaps.go).

# What is read and what is saved

`getSecretData` and `getConfigMapData` list an object's keys in the
order in which Go ranges over the maps, which is any. The editor hands
over a list of its own, and `updateSecretData` and `updateConfigMapData`
make the whole of the object's data out of that. Bytes are lists of
bytes; a Go string that comes from JSON is a text.

# The API server

The server keeps one object and the resourceVersion it was last written
with. Every write that changes something has a new one, and an Update
that does not carry the present one is refused. What other clients do
between the Get and the Update of one call is an argument of the call,
and so is whether one of its two requests fails for a reason of its own.
-/
import Kubikles.Lib.Base64
import Kubikles.Lib.FinMap
import Kubikles.Lib.Text

namespace ConfigData

-- ======== an entry

structure DataEntry where
  key : String
  value : String
  base64Value : String
  isBinary : Bool
  source : String
  encoding : String
deriving DecidableEq, Repr

/-- `DataEntrySourceData`. -/
def sourceData : String := "data"

/-- `DataEntrySourceBinaryData`. -/
def sourceBinaryData : String := "binaryData"

/-- `DataEntryEncodingText`. -/
def encodingText : String := "text"

/-- `DataEntryEncodingBase64`. -/
def encodingBase64 : String := "base64"

/-- What goes wrong with an update. `failed` stands for a request that
the server does not serve. -/
inductive UpdateError where
  | failed
  | notFound
  | conflict
  | invalidBase64 (key : String)
deriving DecidableEq, Repr

/-- `string(data)` where `utf8.Valid(data)`. -/
def textOf (data : Text) : Option String :=
  String.fromUTF8? ⟨data.toArray⟩

def dataEntryFromBytes (key : String) (data : Text) (source : String) :
    DataEntry :=
  match textOf data with
  | some text =>
    { key := key, value := text
      base64Value := Base64.encodeToString data
      isBinary := false, source := source, encoding := encodingText }
  | none =>
    { key := key, value := ""
      base64Value := Base64.encodeToString data
      isBinary := true, source := source, encoding := encodingBase64 }

def bytesFromDataEntry (entry : DataEntry) : Except UpdateError Text :=
  if entry.encoding = encodingBase64 ∨ entry.isBinary then
    match Base64.decodeString entry.base64Value with
    | none => .error (.invalidBase64 entry.key)
    | some decoded => .ok decoded
  else .ok (Text.ofString entry.value)

-- ======== the objects

/-- A Secret: its data. No key is empty. -/
structure Secret where
  data : FinMap String Text
  named : data.lookup "" = none

structure ConfigMap where
  data : FinMap String String
  binaryData : FinMap String Text
  named : data.lookup "" = none ∧ binaryData.lookup "" = none

def Secret.empty : Secret := ⟨∅, Finmap.lookup_empty _⟩

/-- `secret.Data[key] = value`. -/
def Secret.set (s : Secret) (key : String) (value : Text)
    (h : key ≠ "") : Secret where
  data := s.data.insert key value
  named := by
    rw [FinMap.lookup_insert, if_neg h.symm]
    exact s.named

def ConfigMap.empty : ConfigMap :=
  ⟨∅, ∅, Finmap.lookup_empty _, Finmap.lookup_empty _⟩

/-- `cm.Data[key] = value`. -/
def ConfigMap.setData (cm : ConfigMap) (key value : String)
    (h : key ≠ "") : ConfigMap where
  data := cm.data.insert key value
  binaryData := cm.binaryData
  named := by
    rw [FinMap.lookup_insert, if_neg h.symm]
    exact cm.named

/-- `cm.BinaryData[key] = value`. -/
def ConfigMap.setBinaryData (cm : ConfigMap) (key : String) (value : Text)
    (h : key ≠ "") : ConfigMap where
  data := cm.data
  binaryData := cm.binaryData.insert key value
  named := by
    rw [FinMap.lookup_insert, if_neg h.symm]
    exact cm.named

-- ======== reading

def listed {V : Type} (order : List String) (map : FinMap String V)
    (entry : String → V → DataEntry) : List DataEntry :=
  order.filterMap fun key => (map.lookup key).map (entry key)

/-- `GetSecretData`, of the object its Get returns. -/
def getSecretData (order : List String) (secret : Secret) :
    List DataEntry :=
  listed order secret.data fun k v => dataEntryFromBytes k v sourceData

def textEntry (key value : String) : DataEntry where
  key := key
  value := value
  base64Value := Base64.encodeToString (Text.ofString value)
  isBinary := false
  source := sourceData
  encoding := encodingText

/-- `GetConfigMapData`, of the object its Get returns. -/
def getConfigMapData (order binaryOrder : List String) (cm : ConfigMap) :
    List DataEntry :=
  listed order cm.data textEntry
    ++ listed binaryOrder cm.binaryData
      fun k v => dataEntryFromBytes k v sourceBinaryData

-- ======== saving

/-- The body of the loop in `UpdateSecretData`. -/
def addToSecret (secret : Secret) (entry : DataEntry) :
    Except UpdateError Secret :=
  if h : entry.key = "" then .ok secret
  else
    match bytesFromDataEntry entry with
    | .error err => .error err
    | .ok value => .ok (secret.set entry.key value h)

/-- The body of the loop in `UpdateConfigMapData`. -/
def addToConfigMap (cm : ConfigMap) (entry : DataEntry) :
    Except UpdateError ConfigMap :=
  if h : entry.key = "" then .ok cm
  else if entry.source = sourceBinaryData ∨ entry.isBinary
      ∨ entry.encoding = encodingBase64 then
    match bytesFromDataEntry entry with
    | .error err => .error err
    | .ok decoded => .ok (cm.setBinaryData entry.key decoded h)
  else .ok (cm.setData entry.key entry.value h)

-- ======== the server

/-- An object of the server. -/
structure Stored (D : Type) where
  resourceVersion : Nat
  object : D

/-- What the server keeps under one name, and the last resourceVersion
it gave out. -/
structure Server (D : Type) where
  stored : Option (Stored D)
  version : Nat
  given : ∀ o, stored = some o → o.resourceVersion ≤ version

/-- What another client does to the object. -/
inductive Write (D : Type) where
  | put (object : D)
  | delete

variable {D : Type}

namespace Server

def put (object : D) (s : Server D) : Server D where
  stored := some ⟨s.version + 1, object⟩
  version := s.version + 1
  given o h := by
    rw [← Option.some.inj h]

def delete (s : Server D) : Server D where
  stored := none
  version := s.version + 1
  given o h := by cases h

def write (s : Server D) : Write D → Server D
  | .put object => s.put object
  | .delete => s.delete

def writes (s : Server D) (ws : List (Write D)) : Server D :=
  ws.foldl write s

/-- `Update`: the object sent carries the resourceVersion it was read
with. -/
def update (sent : Stored D) (s : Server D) :
    Except UpdateError (Server D) :=
  match s.stored with
  | none => .error .notFound
  | some current =>
    if current.resourceVersion ≠ sent.resourceVersion then
      .error .conflict
    else .ok (s.put sent.object)

end Server

/-- Which request of an update fails for a reason of its own. -/
structure Calls where
  getFails : Bool := false
  updateFails : Bool := false
deriving DecidableEq, Repr

/-- What `UpdateSecretData` and `UpdateConfigMapData` have in common. The
object's data is built from nothing but the entries. -/
def updateData (add : D → DataEntry → Except UpdateError D) (empty : D)
    (calls : Calls) (data : List DataEntry) (between : List (Write D))
    (s : Server D) : Except UpdateError (Server D) :=
  if calls.getFails then .error .failed
  else
    match s.stored with
    | none => .error .notFound
    | some got =>
      match data.foldlM add empty with
      | .error err => .error err
      | .ok object =>
        if calls.updateFails then .error .failed
        else (s.writes between).update { got with object := object }

def updateSecretData (calls : Calls) (data : List DataEntry)
    (between : List (Write Secret)) (s : Server Secret) :
    Except UpdateError (Server Secret) :=
  updateData addToSecret Secret.empty calls data between s

def updateConfigMapData (calls : Calls) (data : List DataEntry)
    (between : List (Write ConfigMap)) (s : Server ConfigMap) :
    Except UpdateError (Server ConfigMap) :=
  updateData addToConfigMap ConfigMap.empty calls data between s

end ConfigData
