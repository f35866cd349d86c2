/-
The data of a Secret or a ConfigMap survives an edit byte for byte.

A map lists each of its keys once, so an entry list that was read has one
entry of a key at most; reordering it changes none of the lists of a key,
and what is rebuilt is what was read (`Kind.rebuilt`). Where one entry is
replaced, the lists of the other keys are the same still, and that of its
own key is the new entry alone (`Kind.value_edited`).
-/
import Kubikles.Config.Proofs.Data

namespace ConfigData

-- ======== one entry each

def OneEach (entries : List DataEntry) : Prop :=
  ∀ key, (ofKey key entries).length ≤ 1

theorem eq_of_perm_of_length_le_one {es es' : List DataEntry}
    (h : es.Perm es') (hlength : es'.length ≤ 1) : es = es' := by
  cases es' with
  | nil => exact h.eq_nil
  | cons e es' =>
    cases es' with
    | nil => exact h.eq_singleton
    | cons e' es' =>
      simp only [List.length_cons] at hlength
      omega

theorem untouched_of_perm {read saved : List DataEntry}
    (hone : OneEach read) (h : saved.Perm read) (key : String) :
    Untouched read saved key :=
  eq_of_perm_of_length_le_one (h.filter _) (hone key)

theorem length_ofKey_listed {V : Type} {entry : String → V → DataEntry}
    (hentry : ∀ k v, (entry k v).key = k) {order : List String}
    {map : FinMap String V} (horder : FinMap.Enumerates order map)
    (key : String) :
    (ofKey key (listed order map entry)).length
      = if (map.lookup key).isSome then 1 else 0 := by
  rw [ofKey_listed_all hentry horder]
  cases map.lookup key with
  | none => rfl
  | some v => rfl

theorem oneEach_secret {secret : Secret} {order : List String}
    (horder : FinMap.Enumerates order secret.data) :
    OneEach (getSecretData order secret) := by
  intro key
  rw [getSecretData, length_ofKey_listed (by simp) horder]
  split
  · omega
  · omega

def ConfigMap.Disjoint (cm : ConfigMap) : Prop :=
  ∀ key, cm.data.lookup key = none ∨ cm.binaryData.lookup key = none

theorem oneEach_configMap {cm : ConfigMap} (hdisjoint : cm.Disjoint)
    {order binaryOrder : List String}
    (horder : FinMap.Enumerates order cm.data)
    (hbinary : FinMap.Enumerates binaryOrder cm.binaryData) :
    OneEach (getConfigMapData order binaryOrder cm) := by
  intro key
  rw [getConfigMapData, ofKey_append, List.length_append,
    length_ofKey_listed (by simp) horder,
    length_ofKey_listed (by simp) hbinary]
  rcases hdisjoint key with h | h
  · rw [h]
    simp only [Option.isSome_none, Bool.false_eq_true, if_false]
    split
    · omega
    · omega
  · rw [h]
    simp only [Option.isSome_none, Bool.false_eq_true, if_false]
    split
    · omega
    · omega

-- ======== what is read

theorem of_mem_listed {V : Type} {entry : String → V → DataEntry}
    {P : DataEntry → Prop} {order : List String} {map : FinMap String V}
    {e : DataEntry} (he : e ∈ listed order map entry)
    (h : ∀ k v, map.lookup k = some v → P (entry k v)) : P e := by
  unfold listed at he
  obtain ⟨k, -, hk⟩ := List.mem_filterMap.mp he
  cases hv : map.lookup k with
  | none =>
    rw [hv] at hk
    cases hk
  | some v =>
    rw [hv] at hk
    cases hk
    exact h k v hv

/-- An entry that was read has a name, and is text or base64 that
decodes. -/
structure Sound (e : DataEntry) : Prop where
  named : e.key ≠ ""
  decodes : ∃ data, bytesFromDataEntry e = .ok data
  text : e.encoding = encodingText → e.isBinary = false

theorem encodingText_ne : encodingText ≠ encodingBase64 := by decide

theorem sound_dataEntryFromBytes {key : String} (hkey : key ≠ "")
    (data : Text) (source : String) :
    Sound (dataEntryFromBytes key data source) where
  named := by
    rw [dataEntryFromBytes_key]
    exact hkey
  decodes := ⟨data, bytesFromDataEntry_dataEntryFromBytes key data source⟩
  text := by
    unfold dataEntryFromBytes
    split
    · exact fun _ => rfl
    · exact fun h => absurd h.symm encodingText_ne

theorem sound_textEntry {key : String} (hkey : key ≠ "")
    (value : String) : Sound (textEntry key value) where
  named := hkey
  decodes := by
    refine ⟨Text.ofString value, if_neg fun h => ?_⟩
    exact textEntry_not_binary key value (.inr h.symm)
  text _ := rfl

theorem Sound.valid {e : DataEntry} (h : Sound e) : ¬Invalid e := by
  intro hinvalid
  obtain ⟨err, herr⟩ := bytesFromDataEntry_error.mpr hinvalid.2
  obtain ⟨data, hdata⟩ := h.decodes
  rw [hdata] at herr
  cases herr

theorem sound_of_mem_secret {secret : Secret} {order : List String}
    {e : DataEntry} (he : e ∈ getSecretData order secret) : Sound e := by
  refine of_mem_listed he fun k v hv => ?_
  refine sound_dataEntryFromBytes (fun hk => ?_) v sourceData
  rw [hk, secret.named] at hv
  cases hv

theorem sound_of_mem_configMap {cm : ConfigMap}
    {order binaryOrder : List String} {e : DataEntry}
    (he : e ∈ getConfigMapData order binaryOrder cm) : Sound e := by
  rcases List.mem_append.mp he with he | he
  · refine of_mem_listed he fun k v hv => ?_
    refine sound_textEntry (fun hk => ?_) v
    rw [hk, cm.named.1] at hv
    cases hv
  · refine of_mem_listed he fun k v hv => ?_
    refine sound_dataEntryFromBytes (fun hk => ?_) v sourceBinaryData
    rw [hk, cm.named.2] at hv
    cases hv

-- ======== an edit

/-- An entry with another text, whatever its base64 says then. -/
def DataEntry.withText (e : DataEntry) (text base64 : String) :
    DataEntry :=
  { e with value := text, base64Value := base64 }

theorem bytesFromDataEntry_withText {e : DataEntry} (hsound : Sound e)
    (htext : e.encoding = encodingText) (text base64 : String) :
    bytesFromDataEntry (e.withText text base64)
      = .ok (Text.ofString text) := by
  refine if_neg fun h => ?_
  rcases h with h | h
  · exact encodingText_ne (htext.symm.trans h)
  · have hbinary := hsound.text htext
    change e.isBinary = true at h
    rw [hbinary] at h
    cases h

section Edit

variable {D V : Type} {kind : Kind D V}

theorem Kind.builds (kind : Kind D V) {entries : List DataEntry}
    (h : ∀ e ∈ entries, ¬Invalid e) :
    ∃ d, entries.foldlM kind.add kind.empty = .ok d := by
  cases hbuild : entries.foldlM kind.add kind.empty with
  | ok d => exact ⟨d, rfl⟩
  | error err =>
    obtain ⟨e, he, hinvalid⟩ := Kind.foldlM_fails.mp ⟨err, hbuild⟩
    exact absurd hinvalid (h e he)

/-- What is rebuilt where one entry has been replaced by another of its
key. -/
theorem Kind.value_edited {d d' : D} {read before after : List DataEntry}
    {e : DataEntry} (e' : DataEntry) (hread : kind.Reads d read) (hone : OneEach read)
    (hperm : (before ++ e :: after).Perm read) (hkey : e'.key = e.key)
    (h : (before ++ e' :: after).foldlM kind.add kind.empty = .ok d')
    {key : String} (hname : key ≠ "") :
    kind.value d' key =
      if key = e.key then kind.step (kind.value kind.empty key) e'
      else kind.value d key := by
  have hsame := untouched_of_perm hone hperm key
  unfold Untouched at hsame
  rw [ofKey_append, ofKey_cons] at hsame
  rw [Kind.value_foldlM h hname, ofKey_append, ofKey_cons, hkey]
  by_cases heq : e.key = key
  · rw [if_pos heq] at hsame ⊢
    rw [if_pos heq.symm]
    -- The entry was the only one of its key.
    have hlength := hone key
    rw [← hsame] at hlength
    simp only [List.length_append, List.length_cons] at hlength
    rw [List.length_eq_zero_iff.mp (show (ofKey key before).length = 0 by
        omega),
      List.length_eq_zero_iff.mp (show (ofKey key after).length = 0 by
        omega)]
    rfl
  · rw [if_neg heq] at hsame ⊢
    rw [if_neg fun h => heq h.symm, hsame]
    exact kind.reads_value hread hname

end Edit

-- ======== what is written

/-- An update with these entries, if it goes through, stores the object;
it goes through unless a request fails, the object is gone or another
client writes between Get and Update. -/
def Stores {D : Type} (update : Calls → List DataEntry → List (Write D) →
      Server D → Except UpdateError (Server D))
    (saved : List DataEntry) (object : D) : Prop :=
  ∀ calls between s s', update calls saved between s = .ok s' ↔
    calls.getFails = false ∧ calls.updateFails = false ∧
      s.stored ≠ none ∧ between = [] ∧ s' = s.put object

/-- An update with these entries fails, and nothing is written. -/
def Refused {D : Type} (update : Calls → List DataEntry →
      List (Write D) → Server D → Except UpdateError (Server D))
    (saved : List DataEntry) : Prop :=
  ∀ calls between s, ∃ err, update calls saved between s = .error err

variable {D V : Type} {kind : Kind D V}

theorem stores_of_build (kind : Kind D V) {saved : List DataEntry} {object : D}
    (h : saved.foldlM kind.add kind.empty = .ok object) :
    Stores (updateData kind.add kind.empty) saved object := by
  intro calls between s s'
  rw [updateData_ok, h]
  constructor
  · rintro ⟨hget, hupdate, hstored, hbetween, _, hobject, hs'⟩
    cases hobject
    exact ⟨hget, hupdate, hstored, hbetween, hs'⟩
  · rintro ⟨hget, hupdate, hstored, hbetween, hs'⟩
    exact ⟨hget, hupdate, hstored, hbetween, object, rfl, hs'⟩

theorem refused_of_invalid (kind : Kind D V) {saved : List DataEntry}
    (h : ∃ e ∈ saved, Invalid e) :
    Refused (updateData kind.add kind.empty) saved := by
  intro calls between s
  cases hupdate : updateData kind.add kind.empty calls saved between s with
  | error err => exact ⟨err, rfl⟩
  | ok s' =>
    obtain ⟨-, -, -, -, object, hbuild, -⟩ := updateData_ok.mp hupdate
    obtain ⟨err, herr⟩ := Kind.foldlM_fails.mpr h
    rw [hbuild] at herr
    cases herr

/-- Entries that were read, in any order, are rebuilt to an object with
the values that were read. -/
theorem Kind.written_back (kind : Kind D V) {d : D} {read saved : List DataEntry}
    (hread : kind.Reads d read) (hone : OneEach read)
    (hsound : ∀ e ∈ read, Sound e) (hperm : saved.Perm read) :
    ∃ d', saved.foldlM kind.add kind.empty = .ok d' ∧
      ∀ key, kind.value d' key = kind.value d key := by
  obtain ⟨d', hbuild⟩ := kind.builds
    fun e he => (hsound e (hperm.subset he)).valid
  exact ⟨d', hbuild, fun key =>
    Kind.rebuilt hread hbuild (untouched_of_perm hone hperm key)⟩

theorem Kind.edited (kind : Kind D V) {d : D} {read before after : List DataEntry}
    {e : DataEntry} (hread : kind.Reads d read) (hone : OneEach read)
    (hsound : ∀ e ∈ read, Sound e)
    (hperm : (before ++ e :: after).Perm read)
    (htext : e.encoding = encodingText) (text base64 : String) :
    ∃ d', (before ++ e.withText text base64 :: after).foldlM kind.add
        kind.empty = .ok d' ∧
      ∀ key, key ≠ "" → kind.value d' key =
        if key = e.key then
          kind.step (kind.value kind.empty key) (e.withText text base64)
        else kind.value d key := by
  have hwas (e' : DataEntry) (he' : e' ∈ before ++ e :: after) : Sound e' :=
    hsound e' (hperm.subset he')
  have hvalid : ∀ e' ∈ before ++ e.withText text base64 :: after,
      ¬Invalid e' := by
    intro e' he'
    rcases List.mem_append.mp he' with he' | he'
    · exact (hwas e' (List.mem_append_left _ he')).valid
    · cases he' with
      | head =>
        intro hinvalid
        obtain ⟨err, herr⟩ := bytesFromDataEntry_error.mpr hinvalid.2
        rw [bytesFromDataEntry_withText (hwas e (by simp)) htext] at herr
        cases herr
      | tail _ he' =>
        exact (hwas e' (List.mem_append_right _
          (List.mem_cons_of_mem _ he'))).valid
  obtain ⟨d', hbuild⟩ := kind.builds hvalid
  exact ⟨d', hbuild, fun key hname =>
    Kind.value_edited (e.withText text base64) hread hone hperm rfl hbuild
      hname⟩

-- ======== Secrets

theorem Secret.ext_value {s s' : Secret}
    (h : ∀ key, s.value key = s'.value key) : s = s' := by
  obtain ⟨data, named⟩ := s
  obtain ⟨data', named'⟩ := s'
  obtain rfl : data = data' := Finmap.ext_lookup h
  rfl

structure SecretSurvives (secret : Secret) : Prop where
  /-- The entries that were read store what was read. -/
  written_back : ∀ order saved, FinMap.Enumerates order secret.data →
    saved.Perm (getSecretData order secret) →
    Stores updateSecretData saved secret
  /-- Another text of an entry is stored under its key. -/
  edited : ∀ order before e after text base64,
    FinMap.Enumerates order secret.data →
    (before ++ e :: after).Perm (getSecretData order secret) →
    e.encoding = encodingText →
    ∃ hkey : e.key ≠ "",
      Stores updateSecretData (before ++ e.withText text base64 :: after)
        (secret.set e.key (Text.ofString text) hkey)

theorem secretSurvives (secret : Secret) : SecretSurvives secret where
  written_back := by
    intro order saved horder hperm
    obtain ⟨secret', hbuild, hvalue⟩ := secretKind.written_back
      ⟨order, horder, rfl⟩ (oneEach_secret horder)
      (fun _ he => sound_of_mem_secret he) hperm
    rw [← Secret.ext_value hvalue]
    exact stores_of_build secretKind hbuild
  edited := by
    intro order before e after text base64 horder hperm htext
    have he : e ∈ getSecretData order secret :=
      hperm.subset (by simp)
    have hsound := sound_of_mem_secret he
    obtain ⟨secret', hbuild, hvalue⟩ := secretKind.edited
      ⟨order, horder, rfl⟩ (oneEach_secret horder)
      (fun _ he => sound_of_mem_secret he) hperm htext text base64
    refine ⟨hsound.named, ?_⟩
    have heq : secret' = secret.set e.key (Text.ofString text)
        hsound.named := by
      refine Secret.ext_value fun key => ?_
      by_cases hname : key = ""
      · subst hname
        exact secret'.named.trans (Secret.named _).symm
      · show _ = (secret.data.insert e.key (Text.ofString text)).lookup key
        rw [FinMap.lookup_insert]
        refine (hvalue key hname).trans ?_
        by_cases hkey : key = e.key
        · rw [if_pos hkey, if_pos hkey]
          show (bytesFromDataEntry _).toOption = _
          rw [bytesFromDataEntry_withText hsound htext]
          rfl
        · rw [if_neg hkey, if_neg hkey]
          rfl
    rw [← heq]
    exact stores_of_build secretKind hbuild

-- ======== ConfigMaps

theorem ConfigMap.ext_value {cm cm' : ConfigMap}
    (h : ∀ key, cm.value key = cm'.value key) : cm = cm' := by
  obtain ⟨data, binaryData, named⟩ := cm
  obtain ⟨data', binaryData', named'⟩ := cm'
  obtain rfl : data = data' :=
    Finmap.ext_lookup fun key => congrArg Prod.fst (h key)
  obtain rfl : binaryData = binaryData' :=
    Finmap.ext_lookup fun key => congrArg Prod.snd (h key)
  rfl

/-- A ConfigMap with another text under the key of an entry, in the map
that the entry was read from. -/
def ConfigMap.setText (cm : ConfigMap) (e : DataEntry) (text : String)
    (h : e.key ≠ "") : ConfigMap :=
  if e.source = sourceBinaryData then
    cm.setBinaryData e.key (Text.ofString text) h
  else cm.setData e.key text h

structure ConfigMapSurvives (cm : ConfigMap) : Prop where
  /-- The entries that were read store what was read. -/
  written_back : ∀ order binaryOrder saved,
    FinMap.Enumerates order cm.data →
    FinMap.Enumerates binaryOrder cm.binaryData →
    saved.Perm (getConfigMapData order binaryOrder cm) →
    Stores updateConfigMapData saved cm
  /-- Another text of an entry is stored under its key, where the entry
  was. -/
  edited : ∀ order binaryOrder before e after text base64,
    FinMap.Enumerates order cm.data →
    FinMap.Enumerates binaryOrder cm.binaryData →
    (before ++ e :: after).Perm (getConfigMapData order binaryOrder cm) →
    e.encoding = encodingText →
    ∃ hkey : e.key ≠ "",
      Stores updateConfigMapData
        (before ++ e.withText text base64 :: after)
        (cm.setText e text hkey)

/-- The map that the entry was not read from does not have its key. -/
def ConfigMap.Elsewhere (cm : ConfigMap) (e : DataEntry) : Prop :=
  if e.source = sourceBinaryData then cm.data.lookup e.key = none
  else cm.binaryData.lookup e.key = none

theorem section_of_mem {cm : ConfigMap} (hdisjoint : cm.Disjoint)
    {order binaryOrder : List String} {e : DataEntry}
    (he : e ∈ getConfigMapData order binaryOrder cm) :
    cm.Elsewhere e := by
  have hsource : sourceData ≠ sourceBinaryData := by decide
  rcases List.mem_append.mp he with he | he
  · refine of_mem_listed he fun k v hv => ?_
    rw [ConfigMap.Elsewhere, if_neg (show ¬(textEntry k v).source = _ from
      hsource)]
    rcases hdisjoint k with h | h
    · rw [hv] at h
      cases h
    · exact h
  · refine of_mem_listed he fun k v hv => ?_
    rw [ConfigMap.Elsewhere, dataEntryFromBytes_source, dataEntryFromBytes_key, if_pos rfl]
    rcases hdisjoint k with h | h
    · exact h
    · rw [hv] at h
      cases h

theorem configMapSurvives {cm : ConfigMap} (hdisjoint : cm.Disjoint) :
    ConfigMapSurvives cm where
  written_back := by
    intro order binaryOrder saved horder hbinary hperm
    obtain ⟨cm', hbuild, hvalue⟩ := configMapKind.written_back
      ⟨order, binaryOrder, horder, hbinary, rfl⟩
      (oneEach_configMap hdisjoint horder hbinary)
      (fun _ he => sound_of_mem_configMap he) hperm
    rw [← ConfigMap.ext_value hvalue]
    exact stores_of_build configMapKind hbuild
  edited := by
    intro order binaryOrder before e after text base64 horder hbinary hperm
      htext
    have he : e ∈ getConfigMapData order binaryOrder cm :=
      hperm.subset (by simp)
    have hsound := sound_of_mem_configMap he
    have hsection := section_of_mem hdisjoint he
    unfold ConfigMap.Elsewhere at hsection
    obtain ⟨cm', hbuild, hvalue⟩ := configMapKind.edited
      ⟨order, binaryOrder, horder, hbinary, rfl⟩
      (oneEach_configMap hdisjoint horder hbinary)
      (fun _ he => sound_of_mem_configMap he) hperm htext text base64
    refine ⟨hsound.named, ?_⟩
    have hbytes := bytesFromDataEntry_withText hsound htext text base64
    have hbinaryIff : Binary (e.withText text base64) ↔
        e.source = sourceBinaryData := by
      refine ⟨fun h => ?_, .inl⟩
      rcases h with h | h | h
      · exact h
      · have hfalse := hsound.text htext
        change e.isBinary = true at h
        rw [hfalse] at h
        cases h
      · exact absurd (htext.symm.trans h) encodingText_ne
    have heq : cm' = cm.setText e text hsound.named := by
      refine ConfigMap.ext_value fun key => ?_
      by_cases hname : key = ""
      · subst hname
        show (_, _) = (_, _)
        rw [cm'.named.1, cm'.named.2, (ConfigMap.named _).1,
          (ConfigMap.named _).2]
      · refine (hvalue key hname).trans ?_
        unfold ConfigMap.setText
        by_cases hsource : e.source = sourceBinaryData
        · rw [if_pos hsource] at hsection ⊢
          show _ = (cm.data.lookup key,
            (cm.binaryData.insert e.key (Text.ofString text)).lookup key)
          rw [FinMap.lookup_insert]
          by_cases hkey : key = e.key
          · rw [if_pos hkey, if_pos hkey, hkey, hsection]
            show (if Binary _ then _ else _) = _
            rw [if_pos (hbinaryIff.mpr hsource), hbytes]
            rfl
          · rw [if_neg hkey, if_neg hkey]
            rfl
        · rw [if_neg hsource] at hsection ⊢
          show _ = ((cm.data.insert e.key text).lookup key,
            cm.binaryData.lookup key)
          rw [FinMap.lookup_insert]
          by_cases hkey : key = e.key
          · rw [if_pos hkey, if_pos hkey, hkey, hsection]
            show (if Binary _ then _ else _) = _
            rw [if_neg fun h => hsource (hbinaryIff.mp h)]
            rfl
          · rw [if_neg hkey, if_neg hkey]
            rfl
    rw [← heq]
    exact stores_of_build configMapKind hbuild

/-- The data of every Secret and ConfigMap survives an edit byte for byte:
what was read stores the same maps, in any order; another text of one
entry changes its key alone; and an entry of invalid base64 keeps
everything from being written. -/
theorem data_survives_edit :
    (∀ secret, SecretSurvives secret) ∧
    (∀ cm : ConfigMap, cm.Disjoint → ConfigMapSurvives cm) ∧
    ∀ saved, (∃ e ∈ saved, Invalid e) →
      Refused updateSecretData saved ∧ Refused updateConfigMapData saved := by
  refine ⟨secretSurvives, fun cm => configMapSurvives, fun saved h => ?_⟩
  exact ⟨refused_of_invalid secretKind h,
    refused_of_invalid configMapKind h⟩

end ConfigData
