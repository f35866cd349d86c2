/-
What an edit of a Secret or a ConfigMap does to the keys the user left
alone.

# The argument

Saving rebuilds the data from the entries, and what comes out under a
key depends on the entries of that key alone (`Kind.value_foldlM`). The
entries of a key that was left alone are those that were read, and an
entry leads back to the value it was read from
(`bytesFromDataEntry_dataEntryFromBytes`), so such a key ends with the
value it had when it was read. That is the value the other clients left
if they left that one; the resourceVersion guards against the writes
between Get and Update and against no others.
-/
import Kubikles.Config.Data

namespace ConfigData

-- ======== one entry

theorem ofString_textOf {data : Text} {s : String}
    (h : textOf data = some s) : Text.ofString s = data := by
  unfold textOf String.fromUTF8? at h
  split at h
  next hvalid =>
    rw [← Option.some.inj h]
    rfl
  next => cases h

theorem bytesFromDataEntry_dataEntryFromBytes (key : String) (data : Text)
    (source : String) :
    bytesFromDataEntry (dataEntryFromBytes key data source) = .ok data := by
  unfold dataEntryFromBytes
  split
  next text htext =>
    show Except.ok (Text.ofString text) = _
    rw [ofString_textOf htext]
  next =>
    unfold bytesFromDataEntry
    rw [if_pos (Or.inl rfl)]
    simp only [Base64.decodeString_encodeToString]

@[simp] theorem dataEntryFromBytes_key (key : String) (data : Text)
    (source : String) : (dataEntryFromBytes key data source).key = key := by
  unfold dataEntryFromBytes
  split
  · rfl
  · rfl

@[simp] theorem dataEntryFromBytes_source (key : String) (data : Text)
    (source : String) :
    (dataEntryFromBytes key data source).source = source := by
  unfold dataEntryFromBytes
  split
  · rfl
  · rfl

def ofKey (key : String) (entries : List DataEntry) : List DataEntry :=
  entries.filter fun e => e.key = key

theorem ofKey_cons (key : String) (e : DataEntry) (es : List DataEntry) :
    ofKey key (e :: es)
      = if e.key = key then e :: ofKey key es else ofKey key es := by
  by_cases h : e.key = key
  · simp [ofKey, h]
  · simp [ofKey, h]

theorem ofKey_append (key : String) (es es' : List DataEntry) :
    ofKey key (es ++ es') = ofKey key es ++ ofKey key es' :=
  List.filter_append ..

theorem ofKey_listed {V : Type} {entry : String → V → DataEntry}
    (hentry : ∀ k v, (entry k v).key = k) {order : List String}
    (hnodup : order.Nodup) (map : FinMap String V) (key : String) :
    ofKey key (listed order map entry)
      = if key ∈ order then ((map.lookup key).map (entry key)).toList
        else [] := by
  induction order with
  | nil => rfl
  | cons k order ih =>
    obtain ⟨hk, hnodup⟩ := List.nodup_cons.mp hnodup
    have hcons : listed (k :: order) map entry
        = ((map.lookup k).map (entry k)).toList
          ++ listed order map entry := by
      unfold listed
      rw [List.filterMap_cons]
      cases map.lookup k with
      | none => rfl
      | some v => rfl
    rw [hcons, ofKey_append, ih hnodup]
    by_cases hkey : k = key
    · subst hkey
      rw [if_pos (List.mem_cons_self ..), if_neg hk, List.append_nil]
      cases map.lookup k with
      | none => rfl
      | some v => simp [ofKey, hentry]
    · have hnone : ofKey key ((map.lookup k).map (entry k)).toList
          = [] := by
        cases map.lookup k with
        | none => rfl
        | some v => simp [ofKey, hentry, hkey]
      have hmem : key ∈ k :: order ↔ key ∈ order := by
        rw [List.mem_cons]
        exact or_iff_right fun h => hkey h.symm
      rw [hnone, List.nil_append]
      simp only [hmem]

theorem ofKey_listed_all {V : Type} {entry : String → V → DataEntry}
    (hentry : ∀ k v, (entry k v).key = k) {order : List String}
    {map : FinMap String V} (horder : FinMap.Enumerates order map)
    (key : String) :
    ofKey key (listed order map entry)
      = ((map.lookup key).map (entry key)).toList := by
  rw [ofKey_listed hentry horder.1]
  split
  next => rfl
  next hout =>
    rw [horder.mem_iff, ← Finmap.lookup_eq_none] at hout
    rw [hout]
    rfl

-- ======== a kind

def Invalid (entry : DataEntry) : Prop :=
  entry.key ≠ ""
    ∧ (entry.encoding = encodingBase64 ∨ entry.isBinary = true)
    ∧ Base64.decodeString entry.base64Value = none

instance invalidDecidable (entry : DataEntry) :
    Decidable (Invalid entry) := inferInstanceAs (Decidable (_ ∧ _))

/-- A kind of object whose data is edited: how it is read and rebuilt,
what it has under a key, and what an entry makes of that. -/
structure Kind (D V : Type) where
  add : D → DataEntry → Except UpdateError D
  empty : D
  value : D → String → V
  step : V → DataEntry → V
  Reads : D → List DataEntry → Prop
  add_value : ∀ {d d' e}, add d e = .ok d' → ∀ {key}, key ≠ "" →
    value d' key = if e.key = key then step (value d key) e
      else value d key
  add_fails : ∀ {d e}, (∃ err, add d e = .error err) ↔ Invalid e
  value_unnamed : ∀ d, value d "" = value empty ""
  reads_value : ∀ {d entries}, Reads d entries → ∀ {key}, key ≠ "" →
    (ofKey key entries).foldl step (value empty key) = value d key

namespace Kind

variable {D V : Type} {kind : Kind D V}

theorem value_foldlM {entries : List DataEntry} {d d' : D}
    (h : entries.foldlM kind.add d = .ok d') {key : String}
    (hkey : key ≠ "") :
    kind.value d' key
      = (ofKey key entries).foldl kind.step (kind.value d key) := by
  induction entries generalizing d with
  | nil =>
    cases h
    rfl
  | cons e entries ih =>
    rw [List.foldlM_cons] at h
    cases ha : kind.add d e with
    | error err =>
      rw [ha] at h
      cases h
    | ok d₁ =>
      rw [ha] at h
      rw [ih h, kind.add_value ha hkey, ofKey_cons]
      split
      · rfl
      · rfl

theorem foldlM_fails {entries : List DataEntry} {d : D} :
    (∃ err, entries.foldlM kind.add d = .error err)
      ↔ ∃ e ∈ entries, Invalid e := by
  induction entries generalizing d with
  | nil =>
    constructor
    · intro ⟨err, h⟩
      cases h
    · intro ⟨e, he, _⟩
      cases he
  | cons e entries ih =>
    rw [List.foldlM_cons, List.exists_mem_cons_iff]
    cases ha : kind.add d e with
    | error err =>
      exact ⟨fun _ => Or.inl (kind.add_fails.mp ⟨err, ha⟩),
        fun _ => ⟨err, rfl⟩⟩
    | ok d₁ =>
      have hvalid : ¬ Invalid e := by
        intro hinv
        obtain ⟨err, herr⟩ := kind.add_fails.mpr hinv
        rw [ha] at herr
        cases herr
      rw [or_iff_right hvalid, ← ih (d := d₁)]
      rfl

end Kind

/-- The user neither added, changed nor removed the key: its entries are
those that were read. -/
def Untouched (read saved : List DataEntry) (key : String) : Prop :=
  ofKey key saved = ofKey key read

theorem Kind.rebuilt {D V : Type} {kind : Kind D V} {d d' : D}
    {read saved : List DataEntry} (hread : kind.Reads d read)
    (h : saved.foldlM kind.add kind.empty = .ok d') {key : String}
    (huntouched : Untouched read saved key) :
    kind.value d' key = kind.value d key := by
  by_cases hkey : key = ""
  · rw [hkey, kind.value_unnamed d', kind.value_unnamed d]
  · rw [kind.value_foldlM h hkey, huntouched, kind.reads_value hread hkey]

-- ======== the two kinds

theorem addToSecret_ok {secret secret' : Secret} {e : DataEntry}
    (h : addToSecret secret e = .ok secret') :
    e.key = "" ∧ secret' = secret
      ∨ ∃ value, ∃ hkey : e.key ≠ "", bytesFromDataEntry e = .ok value
        ∧ secret' = secret.set e.key value hkey := by
  unfold addToSecret at h
  split at h
  next hkey =>
    cases h
    exact Or.inl ⟨hkey, rfl⟩
  next hkey =>
    split at h
    next => cases h
    next value hvalue =>
      cases h
      exact Or.inr ⟨value, hkey, hvalue, rfl⟩

/-- The bytes of an entry are missing where it is base64 that does not
decode. -/
theorem bytesFromDataEntry_error {e : DataEntry} :
    (∃ err, bytesFromDataEntry e = .error err)
      ↔ (e.encoding = encodingBase64 ∨ e.isBinary = true)
        ∧ Base64.decodeString e.base64Value = none := by
  unfold bytesFromDataEntry
  split
  next hbinary =>
    cases hdec : Base64.decodeString e.base64Value with
    | none => simp [hbinary]
    | some decoded => simp
  next htext => simp [htext]

theorem addToSecret_error {secret : Secret} {e : DataEntry} :
    (∃ err, addToSecret secret e = .error err) ↔ Invalid e := by
  unfold addToSecret Invalid
  split
  next hkey => simp [hkey]
  next hkey =>
    rw [← bytesFromDataEntry_error]
    cases bytesFromDataEntry e with
    | error err => simp [hkey]
    | ok value => simp

def Secret.value (s : Secret) (key : String) : Option Text :=
  s.data.lookup key

def secretKind : Kind Secret (Option Text) where
  add := addToSecret
  empty := Secret.empty
  value := Secret.value
  step _ e := (bytesFromDataEntry e).toOption
  Reads s entries := ∃ order, FinMap.Enumerates order s.data
    ∧ entries = getSecretData order s
  add_value {s s' e} h {key} hkey := by
    rcases addToSecret_ok h with ⟨hempty, rfl⟩ | ⟨value, hname, hv, rfl⟩
    · have hne : e.key ≠ key := fun heq => hkey (heq.symm.trans hempty)
      rw [if_neg hne]
    · show (s.data.insert e.key value).lookup key = _
      rw [FinMap.lookup_insert, hv]
      by_cases heq : e.key = key
      · rw [if_pos heq, if_pos heq.symm]
        rfl
      · rw [if_neg heq, if_neg fun h => heq h.symm]
        rfl
  add_fails := addToSecret_error
  value_unnamed s := s.named.trans Secret.empty.named.symm
  reads_value {s entries} h {key} hkey := by
    obtain ⟨order, horder, rfl⟩ := h
    rw [getSecretData, ofKey_listed_all (by simp) horder]
    show _ = s.data.lookup key
    cases s.data.lookup key with
    | none => exact Finmap.lookup_empty key
    | some v =>
      simp [bytesFromDataEntry_dataEntryFromBytes, Except.toOption]

def Binary (e : DataEntry) : Prop :=
  e.source = sourceBinaryData ∨ e.isBinary = true
    ∨ e.encoding = encodingBase64

instance binaryDecidable (e : DataEntry) : Decidable (Binary e) :=
  inferInstanceAs (Decidable (_ ∨ _))

@[simp] theorem textEntry_key (key value : String) :
    (textEntry key value).key = key := rfl

@[simp] theorem textEntry_value (key value : String) :
    (textEntry key value).value = value := rfl

@[simp] theorem textEntry_not_binary (key value : String) :
    ¬ Binary (textEntry key value) := by
  have hsource : sourceData ≠ sourceBinaryData := by decide
  have hencoding : encodingText ≠ encodingBase64 := by decide
  intro h
  rcases h with h | h | h
  · exact hsource h
  · cases h
  · exact hencoding h

theorem addToConfigMap_ok {cm cm' : ConfigMap} {e : DataEntry}
    (h : addToConfigMap cm e = .ok cm') :
    e.key = "" ∧ cm' = cm
      ∨ (Binary e ∧ ∃ decoded, ∃ hkey : e.key ≠ "",
        bytesFromDataEntry e = .ok decoded
          ∧ cm' = cm.setBinaryData e.key decoded hkey)
      ∨ ¬ Binary e ∧ ∃ hkey : e.key ≠ "",
        cm' = cm.setData e.key e.value hkey := by
  unfold addToConfigMap at h
  split at h
  next hkey =>
    cases h
    exact Or.inl ⟨hkey, rfl⟩
  next hkey =>
    split at h
    next hbinary =>
      split at h
      next => cases h
      next decoded hdec =>
        cases h
        exact Or.inr (Or.inl ⟨hbinary, decoded, hkey, hdec, rfl⟩)
    next htext =>
      cases h
      exact Or.inr (Or.inr ⟨htext, hkey, rfl⟩)

theorem addToConfigMap_error {cm : ConfigMap} {e : DataEntry} :
    (∃ err, addToConfigMap cm e = .error err) ↔ Invalid e := by
  unfold addToConfigMap Invalid
  split
  next hkey => simp [hkey]
  next hkey =>
    rw [← bytesFromDataEntry_error]
    split
    next hbinary =>
      cases bytesFromDataEntry e with
      | error err => simp [hkey]
      | ok value => simp
    next htext =>
      have hnone : ¬ ∃ err, bytesFromDataEntry e = .error err := by
        rw [bytesFromDataEntry_error]
        intro ⟨hor, _⟩
        exact htext (Or.inr hor.symm)
      simp [hnone]

def ConfigMap.value (cm : ConfigMap) (key : String) :
    Option String × Option Text :=
  (cm.data.lookup key, cm.binaryData.lookup key)

def configMapKind : Kind ConfigMap (Option String × Option Text) where
  add := addToConfigMap
  empty := ConfigMap.empty
  value := ConfigMap.value
  step v e :=
    if Binary e then (v.1, (bytesFromDataEntry e).toOption)
    else (some e.value, v.2)
  Reads cm entries := ∃ order binaryOrder,
    FinMap.Enumerates order cm.data
      ∧ FinMap.Enumerates binaryOrder cm.binaryData
      ∧ entries = getConfigMapData order binaryOrder cm
  add_value {cm cm' e} h {key} hkey := by
    rcases addToConfigMap_ok h with ⟨hempty, rfl⟩
      | ⟨hbinary, decoded, hname, hdec, rfl⟩ | ⟨htext, hname, rfl⟩
    · have hne : e.key ≠ key := fun heq => hkey (heq.symm.trans hempty)
      rw [if_neg hne]
    · show (cm.data.lookup key,
        (cm.binaryData.insert e.key decoded).lookup key) = _
      rw [FinMap.lookup_insert, if_pos hbinary, hdec]
      by_cases heq : e.key = key
      · rw [if_pos heq, if_pos heq.symm]
        rfl
      · rw [if_neg heq, if_neg fun h => heq h.symm]
        rfl
    · show ((cm.data.insert e.key e.value).lookup key,
        cm.binaryData.lookup key) = _
      rw [FinMap.lookup_insert, if_neg htext]
      by_cases heq : e.key = key
      · rw [if_pos heq, if_pos heq.symm]
        rfl
      · rw [if_neg heq, if_neg fun h => heq h.symm]
        rfl
  add_fails := addToConfigMap_error
  value_unnamed cm := by
    show (_, _) = (_, _)
    rw [cm.named.1, cm.named.2]
    rfl
  reads_value {cm entries} h {key} hkey := by
    obtain ⟨order, binaryOrder, horder, hbinary, rfl⟩ := h
    rw [getConfigMapData, ofKey_append,
      ofKey_listed_all (by simp) horder,
      ofKey_listed_all (by simp) hbinary, List.foldl_append]
    have hempty : ConfigMap.empty.value key = (none, none) := rfl
    rw [hempty]
    show _ = (cm.data.lookup key, cm.binaryData.lookup key)
    have hb : ∀ v : Text,
        Binary (dataEntryFromBytes key v sourceBinaryData) :=
      fun v => Or.inl (dataEntryFromBytes_source ..)
    cases cm.data.lookup key with
    | none =>
      cases cm.binaryData.lookup key with
      | none => rfl
      | some v =>
        simp [hb, bytesFromDataEntry_dataEntryFromBytes,
          Except.toOption]
    | some text =>
      cases cm.binaryData.lookup key with
      | none => simp
      | some v =>
        simp [hb, bytesFromDataEntry_dataEntryFromBytes,
          Except.toOption]

-- ======== the server

section Server

variable {D : Type}

theorem version_lt_write (s : Server D) (w : Write D) :
    s.version < (s.write w).version := by
  cases w with
  | put object => exact Nat.lt_succ_self _
  | delete => exact Nat.lt_succ_self _

theorem writes_concat (s : Server D) (ws : List (Write D)) (w : Write D) :
    s.writes (ws ++ [w]) = (s.writes ws).write w :=
  List.foldl_concat ..

theorem version_le_writes (s : Server D) (ws : List (Write D)) :
    s.version ≤ (s.writes ws).version := by
  induction ws using List.reverseRecOn with
  | nil => exact Nat.le_refl _
  | append_singleton ws w ih =>
    rw [writes_concat]
    exact Nat.le_trans ih (Nat.le_of_lt (version_lt_write ..))

theorem writes_new {s : Server D} {ws : List (Write D)} (hws : ws ≠ [])
    {o : Stored D} (ho : (s.writes ws).stored = some o) :
    s.version < o.resourceVersion := by
  rcases ws.eq_nil_or_concat' with rfl | ⟨ws, w, rfl⟩
  · exact absurd rfl hws
  · rw [writes_concat] at ho
    cases w with
    | put object =>
      rw [← Option.some.inj ho]
      exact Nat.lt_succ_of_le (version_le_writes s ws)
    | delete => cases ho

/-- An Update goes through exactly where nothing was written since the
Get. -/
theorem update_writes {s : Server D} {got : Stored D}
    (hgot : s.stored = some got) (object : D) (ws : List (Write D))
    (s' : Server D) :
    (s.writes ws).update { got with object := object } = .ok s'
      ↔ ws = [] ∧ s' = s.put object := by
  constructor
  · intro h
    unfold Server.update at h
    split at h
    next => cases h
    next current hcurrent =>
      split at h
      next => cases h
      next hsame =>
        have hws : ws = [] := by
          by_contra hne
          have hlt := writes_new hne hcurrent
          have hle := s.given got hgot
          exact hsame (fun heq => by dsimp only at heq; omega)
        subst hws
        cases h
        exact ⟨rfl, rfl⟩
  · intro ⟨hws, hs'⟩
    subst hws hs'
    show s.update _ = _
    unfold Server.update
    rw [hgot]
    exact if_neg (by simp)

end Server

-- ======== the result

section Result

variable {D V : Type}

def Server.value (value : D → String → V) (s : Server D) (key : String) :
    Option V :=
  s.stored.map fun o => value o.object key

/-- The update failed, or every key that was left alone has the value
the other clients left. -/
def LosesNothing (value : D → String → V) (read saved : List DataEntry)
    (theirs : Server D) (result : Except UpdateError (Server D)) : Prop :=
  ∀ s', result = .ok s' → ∀ key, Untouched read saved key →
    s'.value value key = theirs.value value key

/-- What keeps an edit from losing anything: the update fails, for a
request fails, the object is gone, an entry is no base64 or another
client writes between Get and Update; or what was left alone is at the
Get as it was when it was read. -/
def Safe (value : D → String → V) (calls : Calls)
    (read saved : List DataEntry) (atRead atGet : Server D)
    (between : List (Write D)) : Prop :=
  calls.getFails = true ∨ calls.updateFails = true ∨ atGet.stored = none
    ∨ (∃ e ∈ saved, Invalid e) ∨ between ≠ []
    ∨ ∀ key, Untouched read saved key →
      atGet.value value key = atRead.value value key

theorem updateData_ok {kind : Kind D V} {calls : Calls}
    {saved : List DataEntry} {between : List (Write D)} {s s' : Server D} :
    updateData kind.add kind.empty calls saved between s = .ok s'
      ↔ calls.getFails = false ∧ calls.updateFails = false
        ∧ s.stored ≠ none ∧ between = []
        ∧ ∃ object, saved.foldlM kind.add kind.empty = .ok object
          ∧ s' = s.put object := by
  unfold updateData
  cases calls.getFails with
  | true => simp
  | false =>
    rw [if_neg (by simp)]
    cases hgot : s.stored with
    | none => simp
    | some got =>
      cases hbuild : saved.foldlM kind.add kind.empty with
      | error err => simp
      | ok object =>
        cases calls.updateFails with
        | true => simp
        | false =>
          simp only [Bool.false_eq_true, if_false]
          rw [update_writes hgot]
          simp

/-- An edit loses nothing exactly where it is safe. -/
theorem losesNothing_iff (kind : Kind D V) {calls : Calls}
    {read saved : List DataEntry} {before between : List (Write D)}
    {s : Server D} {got : Stored D} (hgot : s.stored = some got)
    (hread : kind.Reads got.object read) :
    LosesNothing kind.value read saved ((s.writes before).writes between)
        (updateData kind.add kind.empty calls saved between
          (s.writes before))
      ↔ Safe kind.value calls read saved s (s.writes before) between := by
  have hwas : ∀ key, s.value kind.value key
      = some (kind.value got.object key) := by
    intro key
    rw [Server.value, hgot]
    rfl
  constructor
  · intro h
    -- Where nothing makes the update fail, it goes through.
    by_contra hunsafe
    simp only [Safe, not_or, not_exists, not_and, ne_eq,
      Bool.not_eq_true] at hunsafe
    obtain ⟨hget, hup, hthere, hvalid, hquiet, hmoved⟩ := hunsafe
    rw [Classical.not_not] at hquiet
    obtain ⟨object, hbuild⟩ : ∃ object,
        saved.foldlM kind.add kind.empty = .ok object := by
      cases hbuild : saved.foldlM kind.add kind.empty with
      | ok object => exact ⟨object, rfl⟩
      | error err =>
        obtain ⟨e, he, hinv⟩ := Kind.foldlM_fails.mp ⟨err, hbuild⟩
        exact absurd hinv (hvalid e he)
    refine hmoved fun key huntouched => ?_
    have hnow := h _ (updateData_ok.mpr
      ⟨hget, hup, hthere, hquiet, object, hbuild, rfl⟩) key huntouched
    rw [hquiet] at hnow
    rw [hwas, ← Kind.rebuilt hread hbuild huntouched]
    exact hnow.symm
  · intro h s' hok key huntouched
    obtain ⟨hget, hup, hthere, hquiet, object, hbuild, rfl⟩ :=
      updateData_ok.mp hok
    subst hquiet
    rcases h with h | h | h | ⟨e, he, hinv⟩ | h | h
    · rw [hget] at h
      cases h
    · rw [hup] at h
      cases h
    · exact absurd h hthere
    · obtain ⟨err, herr⟩ := Kind.foldlM_fails.mpr ⟨e, he, hinv⟩
      rw [hbuild] at herr
      cases herr
    · exact absurd rfl h
    · show _ = (s.writes before).value kind.value key
      rw [h key huntouched, hwas, ← Kind.rebuilt hread hbuild huntouched]
      rfl

end Result

def fresh : Server Secret :=
  ⟨some ⟨1, Secret.empty⟩, 1, fun o h => by rw [← Option.some.inj h]⟩

def added : DataEntry := textEntry "a" "1"

def freshConfigMap : Server ConfigMap :=
  ⟨some ⟨1, ConfigMap.empty⟩, 1, fun o h => by rw [← Option.some.inj h]⟩

def theirs : Write Secret :=
  .put (Secret.empty.set "b" [50] (by decide))

end ConfigData
