/-
What is left of a Docker configuration when a registry is removed.

# The argument

The configuration is written exactly if it can be decoded and one of the
entries that were decoded is to be removed (`written_iff`). It is then the
encoding of a struct, which has the members of the struct and no others,
its entries included (`plain_of_agree`); and where the document is spelled
as the struct is encoded, each of its members is decoded and encoded as it
was (`agree_of_plain`). Where nothing is written, what was to be removed
stays, so there must have been nothing (`agree_without_iff`).
-/
import Kubikles.Helm.Repos

namespace Helm

open Doc (isField IsString IsMap Agree)

-- ======== the claim

/-- What an `auths` member is to be: its entries but for those of the
registry. -/
def dropEntries (registry : String) : Doc → Doc
  | .map entries => .map (entries.filter (·.1 ∉ variants registry))
  | d => d

def withoutMember (registry name : String) (d : Doc) : Doc :=
  if name = "auths" then dropEntries registry d else d

def without (registry : String) (members : List (String × Doc)) :
    List (String × Doc) :=
  members.map fun e => (e.1, withoutMember registry e.1 e.2)

/-- The removal of a registry leaves the configuration without it, and is
no other change to it. -/
def RemovesOnly (registry : String) (file : Doc.Object)
    (files : RegistryFiles) : Prop :=
  ∃ d, (removeOCIRegistry registry
      { files with dockerConfig := some (.map file.members) }).dockerConfig
        = some d
    ∧ Agree (.map (without registry file.members)) d

-- ======== the condition

def Holds (registry : String) (members : List (String × Doc)) : Prop :=
  ∃ entries, ("auths", .map entries) ∈ members
    ∧ ∃ r ∈ variants registry, (entries.lookup r).isSome

def TypedAuth : Doc → Prop :=
  IsMap fun name d =>
    isField "auth" name ∨ isField "username" name
      ∨ isField "password" name ∨ isField "identitytoken" name →
    IsString d

def TypedMember (name : String) (d : Doc) : Prop :=
  if isField "auths" name then IsMap (fun _ => TypedAuth) d
  else if isField "credsStore" name then IsString d
  else if isField "credHelpers" name then IsMap (fun _ => IsString) d
  else True

/-- A member that is `auths`, but for case, has an entry under a URL, and
no such member behind it is `null`. -/
def HeldLast (r : String) : List (String × Doc) → Prop
  | [] => False
  | e :: members =>
    HeldLast r members
      ∨ isField "auths" e.1
        ∧ (∃ entries, e.2 = .map entries ∧ (entries.lookup r).isSome)
        ∧ ∀ e' ∈ members, isField "auths" e'.1 → e'.2 ≠ .null

/-- The members that are fields have their types, and `auths`, however
spelled, has an entry of the registry. -/
def Written (registry : String) (members : List (String × Doc)) : Prop :=
  (∀ e ∈ members, TypedMember e.1 e.2)
    ∧ ∃ r ∈ variants registry, HeldLast r members

def Stated (d : Doc) : Prop := ∃ s, d = .str s ∧ s ≠ ""

/-- An entry has an `auth`, and only members that the struct has. -/
def PlainAuth (d : Doc) : Prop :=
  ∃ fields, d = .map fields ∧ (∃ s, fields.lookup "auth" = some (.str s))
    ∧ ∀ e ∈ fields, e.1 = "auth"
      ∨ e.1 ∈ ["username", "password", "identitytoken"] ∧ Stated e.2

/-- A member is one that the struct has, and not left out. -/
def PlainMember (registry name : String) (d : Doc) : Prop :=
  (name = "auths" ∧ ∃ entries, d = .map entries
    ∧ ∀ e ∈ entries, e.1 ∉ variants registry → PlainAuth e.2)
  ∨ (name = "credsStore" ∧ Stated d)
  ∨ (name = "credHelpers" ∧ ∃ helpers, d = .map helpers
    ∧ helpers ≠ [] ∧ ∀ e ∈ helpers, ∃ s, e.2 = .str s)

def Plain (registry : String) (members : List (String × Doc)) : Prop :=
  ∀ e ∈ members, PlainMember registry e.1 e.2

-- ======== decoding

theorem isSome_auth_field (name : String) (d : Doc) (a : DockerAuth) :
    (DockerAuth.field name d a).isSome
      ↔ (isField "auth" name ∨ isField "username" name
          ∨ isField "password" name ∨ isField "identitytoken" name →
        IsString d) := by
  unfold DockerAuth.field
  split
  next hauth => simp [hauth, Doc.isSome_decodeString]
  next hauth =>
    split
    next huser => simp [huser, Doc.isSome_decodeString]
    next huser =>
      split
      next hpass => simp [hpass, Doc.isSome_decodeString]
      next hpass =>
        split
        next htoken => simp [htoken, Doc.isSome_decodeString]
        next htoken => simp [hauth, huser, hpass, htoken]

theorem isSome_auth (d : Doc) :
    (DockerAuth.unmarshal d).isSome ↔ TypedAuth d :=
  Doc.isSome_decodeStruct isSome_auth_field {} d

theorem isSome_config_field (name : String) (d : Doc) (c : DockerConfig) :
    (DockerConfig.field name d c).isSome ↔ TypedMember name d := by
  unfold DockerConfig.field TypedMember
  split
  next =>
    rw [Option.isSome_map]
    exact Doc.isSome_decodeMap isSome_auth c.auths d
  next =>
    split
    next =>
      rw [Option.isSome_map]
      exact Doc.isSome_decodeString c.credsStore d
    next =>
      split
      next =>
        rw [Option.isSome_map]
        exact Doc.isSome_decodeMap (Doc.isSome_decodeString "")
          c.credHelpers d
      next => simp

theorem isSome_config (members : List (String × Doc)) :
    (DockerConfig.unmarshal (.map members)).isSome
      ↔ ∀ e ∈ members, TypedMember e.1 e.2 :=
  Doc.isSome_foldlM
    (fun c e => isSome_config_field e.1 e.2 c) members {}

theorem not_isField {a b name : String} (ha : isField a name = true)
    (hne : Json.foldName (Text.ofString a)
      ≠ Json.foldName (Text.ofString b)) : isField b name = false := by
  cases hb : isField b name with
  | false => rfl
  | true => exact absurd (Doc.isField_unique ha hb) hne

/-- What decoding a member does to each field of an entry. -/
theorem auth_step {a a' : DockerAuth} {e : String × Doc}
    (h : DockerAuth.field e.1 e.2 a = some a') :
    (if isField "auth" e.1 then
        Doc.decodeString a.auth e.2 = some a'.auth
      else a'.auth = a.auth)
    ∧ (if isField "username" e.1 then
        Doc.decodeString a.username e.2 = some a'.username
      else a'.username = a.username)
    ∧ (if isField "password" e.1 then
        Doc.decodeString a.password e.2 = some a'.password
      else a'.password = a.password)
    ∧ (if isField "identitytoken" e.1 then
        Doc.decodeString a.identityToken e.2 = some a'.identityToken
      else a'.identityToken = a.identityToken) := by
  unfold DockerAuth.field at h
  split at h
  next hown =>
    obtain ⟨s, hs, rfl⟩ := Option.map_eq_some_iff.mp h
    simp [hown, hs, @not_isField _ "username" _ hown (by decide),
      @not_isField _ "password" _ hown (by decide),
      @not_isField _ "identitytoken" _ hown (by decide)]
  next hauth =>
    split at h
    next hown =>
      obtain ⟨s, hs, rfl⟩ := Option.map_eq_some_iff.mp h
      simp [hauth, hown, hs, @not_isField _ "password" _ hown (by decide),
        @not_isField _ "identitytoken" _ hown (by decide)]
    next husername =>
      split at h
      next hown =>
        obtain ⟨s, hs, rfl⟩ := Option.map_eq_some_iff.mp h
        simp [hauth, husername, hown, hs,
          @not_isField _ "identitytoken" _ hown (by decide)]
      next hpassword =>
        split at h
        next hown =>
          obtain ⟨s, hs, rfl⟩ := Option.map_eq_some_iff.mp h
          simp [hauth, husername, hpassword, hown, hs]
        next hown =>
          obtain rfl := Option.some.inj h
          simp [hauth, husername, hpassword, hown]

theorem config_step {c c' : DockerConfig} {e : String × Doc}
    (h : DockerConfig.field e.1 e.2 c = some c') :
    (if isField "auths" e.1 then
        Doc.decodeMap DockerAuth.unmarshal c.auths e.2 = some c'.auths
      else c'.auths = c.auths)
    ∧ (if isField "credsStore" e.1 then
        Doc.decodeString c.credsStore e.2 = some c'.credsStore
      else c'.credsStore = c.credsStore)
    ∧ (if isField "credHelpers" e.1 then
        Doc.decodeMap (Doc.decodeString "") c.credHelpers e.2
          = some c'.credHelpers
      else c'.credHelpers = c.credHelpers) := by
  unfold DockerConfig.field at h
  split at h
  next hown =>
    obtain ⟨auths, hauths, rfl⟩ := Option.map_eq_some_iff.mp h
    simp [hown, hauths, @not_isField _ "credsStore" _ hown (by decide),
      @not_isField _ "credHelpers" _ hown (by decide)]
  next hauths =>
    split at h
    next hown =>
      obtain ⟨s, hs, rfl⟩ := Option.map_eq_some_iff.mp h
      simp [hauths, hown, hs,
        @not_isField _ "credHelpers" _ hown (by decide)]
    next hstore =>
      split at h
      next hown =>
        obtain ⟨m, hm, rfl⟩ := Option.map_eq_some_iff.mp h
        simp [hauths, hstore, hown, hm]
      next hown =>
        obtain rfl := Option.some.inj h
        simp [hauths, hstore, hown]

-- ======== encoding

theorem lookup_omitEmpty (name value k : String) :
    (omitEmpty name value).lookup k
      = if k = name ∧ value ≠ "" then some (.str value) else none := by
  unfold omitEmpty
  by_cases hvalue : value = ""
  · simp [hvalue]
  · rw [if_neg hvalue, Assoc.lookup_cons]
    by_cases hk : k = name
    · simp [hk, hvalue]
    · simp [hk]

theorem omitEmpty_stringOf {o : Option Doc} (h : ∀ d, o = some d → Stated d) :
    (if Doc.stringOf o ≠ "" then some (Doc.str (Doc.stringOf o)) else none)
      = o := by
  cases o with
  | none => rfl
  | some d =>
    obtain ⟨s, rfl, hne⟩ := h d rfl
    exact if_pos hne

/-- Where a name is that of a field but for case, in a document whose
names are spelled as the fields are, it is the name of the field. -/
theorem spelled {names : List String} {name key : String}
    (hkey : key ∈ names) (hfield : isField name key = true)
    (hfold : ∀ k ∈ names,
      Json.foldName (Text.ofString name) = Json.foldName (Text.ofString k) →
        k = name) : key = name :=
  hfold key hkey (Doc.isField_unique hfield (Doc.isField_self key))

/-- The members of a plain entry are encoded as they were. -/
theorem agree_auth {d : Doc} {a : DockerAuth} (hdistinct : d.Distinct)
    (hplain : PlainAuth d) (h : DockerAuth.unmarshal d = some a) :
    Agree d a.marshal := by
  obtain ⟨fields, rfl, ⟨auth, hauth⟩, hplain⟩ := hplain
  have hnames := hdistinct.names
  have hmem : ∀ e ∈ fields,
      e.1 ∈ ["auth", "username", "password", "identitytoken"] := by
    intro e he
    rcases hplain e he with heq | ⟨hname, -⟩
    · rw [heq]
      exact List.mem_cons_self
    · exact List.mem_cons_of_mem _ hname
  have hstated : ∀ name ≠ "auth", ∀ d, fields.lookup name = some d →
      Stated d := by
    intro name hne d hd
    rcases hplain (name, d) (Assoc.mem_of_lookup hd) with heq | ⟨-, hs⟩
    · exact absurd heq hne
    · exact hs
  have ha : a.auth = Doc.stringOf (fields.lookup "auth") :=
    Doc.decodeStruct_string (fun _ _ _ hs => (auth_step hs).1) rfl hnames
      (fun e he hf => spelled (hmem e he) hf (by decide)) h
  have hu : a.username = Doc.stringOf (fields.lookup "username") :=
    Doc.decodeStruct_string (fun _ _ _ hs => (auth_step hs).2.1) rfl hnames
      (fun e he hf => spelled (hmem e he) hf (by decide)) h
  have hp : a.password = Doc.stringOf (fields.lookup "password") :=
    Doc.decodeStruct_string (fun _ _ _ hs => (auth_step hs).2.2.1) rfl
      hnames (fun e he hf => spelled (hmem e he) hf (by decide)) h
  have hi : a.identityToken
      = Doc.stringOf (fields.lookup "identitytoken") :=
    Doc.decodeStruct_string (fun _ _ _ hs => (auth_step hs).2.2.2) rfl
      hnames (fun e he hf => spelled (hmem e he) hf (by decide)) h
  apply Doc.agree_of_lookup
  intro k
  rw [List.lookup_append, List.lookup_append, List.lookup_append,
    lookup_omitEmpty, lookup_omitEmpty, lookup_omitEmpty, ha, hu, hp, hi]
  by_cases hk : k ∈ ["auth", "username", "password", "identitytoken"]
  · simp only [List.mem_cons, List.not_mem_nil, or_false] at hk
    rcases hk with rfl | rfl | rfl | rfl
    · rw [hauth]
      rfl
    · have heq := omitEmpty_stringOf (hstated "username" (by decide))
      simpa [Assoc.lookup_cons] using heq.symm
    · have heq := omitEmpty_stringOf (hstated "password" (by decide))
      simpa [Assoc.lookup_cons] using heq.symm
    · have heq := omitEmpty_stringOf (hstated "identitytoken" (by decide))
      simpa [Assoc.lookup_cons] using heq.symm
  · have hnone : fields.lookup k = none := by
      apply Doc.lookup_eq_none_of_notMem
      intro hmemk
      obtain ⟨e, he, rfl⟩ := List.mem_map.mp hmemk
      exact hk (hmem e he)
    simp only [List.mem_cons, List.not_mem_nil, or_false, not_or] at hk
    rw [hnone]
    simp [Assoc.lookup_cons, hk]

/-- An entry that agrees with an encoded one is plain. -/
theorem plain_of_agree_auth {d : Doc} {a : DockerAuth}
    (hdistinct : d.Distinct) (h : Agree d a.marshal) : PlainAuth d := by
  obtain ⟨fields, rfl⟩ := h.exists_map
  refine ⟨fields, rfl, ?_, fun e he => ?_⟩
  · have hkeys := h.keys "auth"
    rw [List.lookup_append, List.lookup_append, List.lookup_append,
      Assoc.lookup_cons, if_pos rfl] at hkeys
    obtain ⟨v, hv⟩ := Option.isSome_iff_exists.mp hkeys
    obtain ⟨b, hb, hagree⟩ := h.exists_member hv
    rw [List.lookup_append, List.lookup_append, List.lookup_append,
      Assoc.lookup_cons, if_pos rfl] at hb
    obtain rfl := Option.some.inj hb
    exact ⟨a.auth, hv.trans (congrArg some hagree.eq_str)⟩
  · obtain ⟨b, hb, hagree⟩ :=
      h.exists_member (Assoc.lookup_of_mem hdistinct.names he)
    have hmem := Assoc.mem_of_lookup hb
    -- A member that may be left out is a string that is not empty.
    have homit : ∀ name value, (e.1, b) ∈ omitEmpty name value →
        e.1 = name ∧ Stated e.2 := by
      intro name value hin
      unfold omitEmpty at hin
      by_cases hvalue : value = ""
      · rw [if_pos hvalue] at hin
        cases hin
      · rw [if_neg hvalue, List.mem_singleton, Prod.mk.injEq] at hin
        obtain ⟨hname, rfl⟩ := hin
        exact ⟨hname, value, hagree.eq_str, hvalue⟩
    rcases List.mem_append.mp hmem with hmem | hmem
    · rcases List.mem_append.mp hmem with hmem | hmem
      · rcases List.mem_append.mp hmem with hmem | hmem
        · rw [List.mem_singleton, Prod.mk.injEq] at hmem
          exact .inl hmem.1
        · obtain ⟨hname, hstated⟩ := homit "username" a.username hmem
          rw [hname]
          exact .inr ⟨by simp, hstated⟩
      · obtain ⟨hname, hstated⟩ := homit "password" a.password hmem
        rw [hname]
        exact .inr ⟨by simp, hstated⟩
    · obtain ⟨hname, hstated⟩ :=
        homit "identitytoken" a.identityToken hmem
      rw [hname]
      exact .inr ⟨by simp, hstated⟩

-- ======== what is written

theorem lookup_removeVariant {V : Type} (p : List (String × V) × Bool)
    (v k : String) :
    (removeVariant p v).1.lookup k
      = if k = v then none else p.1.lookup k := by
  unfold removeVariant
  split
  next => exact Assoc.lookup_drop v k p.1
  next hnone =>
    split
    next hk =>
      rw [hk]
      exact Option.not_isSome_iff_eq_none.mp hnone
    next => rfl

theorem foldl_removeVariant {V : Type} (variants : List String)
    (p : List (String × V) × Bool) :
    (∀ k, (variants.foldl removeVariant p).1.lookup k
      = if k ∈ variants then none else p.1.lookup k)
    ∧ ((variants.foldl removeVariant p).2 = true
      ↔ p.2 = true ∨ ∃ r ∈ variants, (p.1.lookup r).isSome) := by
  induction variants generalizing p with
  | nil => simp
  | cons v variants ih =>
    rw [List.foldl_cons]
    obtain ⟨hlookup, hmodified⟩ := ih (removeVariant p v)
    constructor
    · intro k
      rw [hlookup, lookup_removeVariant]
      by_cases hk : k = v
      · simp [hk]
      · simp [hk]
    · rw [hmodified, List.exists_mem_cons_iff]
      unfold removeVariant
      split
      next hsome =>
        exact ⟨fun _ => .inr (.inl hsome), fun _ => .inl rfl⟩
      next hnone => rw [or_iff_right hnone]

theorem isSome_lookup_auths {members : List (String × Doc)}
    {old auths : List (String × DockerAuth)}
    (h : (members.filter (fun e => isField "auths" e.1)).foldlM
      (fun m e => Doc.decodeMap DockerAuth.unmarshal m e.2) old
        = some auths) (r : String) :
    (auths.lookup r).isSome ↔ HeldLast r members
      ∨ (old.lookup r).isSome
        ∧ ∀ e ∈ members, isField "auths" e.1 → e.2 ≠ .null := by
  induction members generalizing old with
  | nil =>
    obtain rfl := Option.some.inj h
    simp [HeldLast]
  | cons e members ih =>
    obtain ⟨name, d⟩ := e
    rw [List.filter_cons] at h
    split at h
    next hown =>
      have hfield : isField "auths" name = true := hown
      rw [List.foldlM_cons] at h
      obtain ⟨m, hm, hrest⟩ := Option.bind_eq_some_iff.mp h
      rw [ih hrest, HeldLast, List.forall_mem_cons]
      cases d with
      | null =>
        obtain rfl := Option.some.inj hm
        simp [hfield, -List.lookup_isSome_iff]
      | map entries =>
        rw [Doc.isSome_lookup_fold hm]
        simp [hfield, -List.lookup_isSome_iff]
        tauto
      | _ => cases hm
    next hown =>
      have hfield : ¬isField "auths" name = true := hown
      rw [ih h, HeldLast, List.forall_mem_cons]
      simp [hfield]

theorem isSome_lookup_config {members : List (String × Doc)}
    {c : DockerConfig} (h : DockerConfig.unmarshal (.map members) = some c)
    (r : String) : (c.auths.lookup r).isSome ↔ HeldLast r members := by
  have hauths : (members.filter (fun e => isField "auths" e.1)).foldlM
      (fun m e => Doc.decodeMap DockerAuth.unmarshal m e.2) []
        = some c.auths :=
    @Doc.foldlM_field _ _ _ _ DockerConfig.auths _ _
      (fun _ _ _ hs => (config_step hs).1) members _ _ h
  rw [isSome_lookup_auths hauths]
  simp

def DockerConfig.remove (registry : String) (c : DockerConfig) :
    DockerConfig :=
  { c with auths := (removeVariants (variants registry) c.auths).1 }

theorem removeAuths_of_written {registry : String}
    {members : List (String × Doc)} (h : Written registry members) :
    ∃ c, DockerConfig.unmarshal (.map members) = some c
      ∧ removeAuths registry (.map members)
        = (c.remove registry).marshal := by
  obtain ⟨htyped, r, hr, hheld⟩ := h
  obtain ⟨c, hc⟩ :=
    Option.isSome_iff_exists.mp ((isSome_config members).mpr htyped)
  refine ⟨c, hc, ?_⟩
  have hmodified : (removeVariants (variants registry) c.auths).2
      = true :=
    (foldl_removeVariant (variants registry) (c.auths, false)).2.mpr
      (.inr ⟨r, hr, (isSome_lookup_config hc r).mpr hheld⟩)
  unfold removeAuths
  rw [hc]
  exact if_pos hmodified

theorem removeAuths_of_not_written {registry : String}
    {members : List (String × Doc)} (h : ¬Written registry members) :
    removeAuths registry (.map members) = .map members := by
  unfold removeAuths
  cases hc : DockerConfig.unmarshal (.map members) with
  | none => rfl
  | some c =>
    apply if_neg
    intro hmodified
    apply h
    have htyped := (isSome_config members).mp
      (Option.isSome_iff_exists.mpr ⟨c, hc⟩)
    rcases (foldl_removeVariant (variants registry)
      (c.auths, false)).2.mp hmodified with hfalse | ⟨r, hr, hsome⟩
    · cases hfalse
    · exact ⟨htyped, r, hr, (isSome_lookup_config hc r).mp hsome⟩

-- ======== unwritten

theorem lookup_without (registry : String) (members : List (String × Doc))
    (k : String) :
    (without registry members).lookup k
      = (members.lookup k).map (withoutMember registry k) :=
  Doc.lookup_map (withoutMember registry) k members

/-- A configuration is what it is to be, if it has no entry of the
registry. -/
theorem agree_without_iff (registry : String) (file : Doc.Object) :
    Agree (.map (without registry file.members)) (.map file.members)
      ↔ ¬Holds registry file.members := by
  constructor
  · rintro hagree ⟨entries, hentries, r, hr, hsome⟩
    have hfound := Assoc.lookup_of_mem file.distinct.names hentries
    have hwithout : (without registry file.members).lookup "auths"
        = some (dropEntries registry (.map entries)) := by
      rw [lookup_without, hfound]
      rfl
    have hkeys := (hagree.members hwithout hfound).keys r
    rw [Doc.lookup_filter (· ∉ variants registry), hsome,
      if_neg (not_not_intro hr)] at hkeys
    cases hkeys
  · intro hholds
    apply Doc.agree_of_lookup
    intro k
    rw [lookup_without]
    cases hk : file.members.lookup k with
    | none => rfl
    | some d =>
      apply congrArg some
      unfold withoutMember
      split
      next hname =>
        cases d with
        | map entries =>
          apply congrArg Doc.map
          apply List.filter_eq_self.mpr
          intro e he
          apply decide_eq_true
          intro hr
          subst hname
          refine hholds ⟨entries, Assoc.mem_of_lookup hk, e.1, hr, ?_⟩
          exact List.lookup_isSome_iff.mpr ⟨e, he, beq_self_eq_true e.1⟩
        | _ => rfl
      next => rfl

-- ======== written

theorem plain_of_agree_entries {registry : String} {d : Doc}
    {auths : List (String × DockerAuth)} (hdistinct : d.Distinct)
    (h : Agree (dropEntries registry d)
      (.map (auths.map fun e => (e.1, e.2.marshal)))) :
    ∃ entries, d = .map entries
      ∧ ∀ e ∈ entries, e.1 ∉ variants registry → PlainAuth e.2 := by
  obtain ⟨left, hleft⟩ := h.exists_map
  cases d with
  | map entries =>
    refine ⟨entries, rfl, fun e he hr => ?_⟩
    have hkept : (entries.filter (·.1 ∉ variants registry)).lookup e.1
        = some e.2 := by
      rw [Doc.lookup_filter (· ∉ variants registry), if_pos hr]
      exact Assoc.lookup_of_mem hdistinct.names he
    obtain ⟨b, hb, hagree⟩ := h.exists_member hkept
    rw [Doc.lookup_map (fun _ (a : DockerAuth) => a.marshal)] at hb
    obtain ⟨a, -, rfl⟩ := Option.map_eq_some_iff.mp hb
    exact plain_of_agree_auth (hdistinct.member he) hagree
  | _ => cases hleft

/-- What agrees with encoded helpers is a map of strings, and not
empty. -/
theorem strings_of_agree {d : Doc} {helpers : List (String × String)}
    (hdistinct : d.Distinct) (hne : helpers ≠ [])
    (h : Agree d (.map (helpers.map fun e => (e.1, .str e.2)))) :
    ∃ members, d = .map members ∧ members ≠ []
      ∧ ∀ e ∈ members, ∃ s, e.2 = .str s := by
  obtain ⟨members, rfl⟩ := h.exists_map
  refine ⟨members, rfl, ?_, fun e he => ?_⟩
  · rintro rfl
    obtain ⟨helper, rest, heq⟩ := List.exists_cons_of_ne_nil hne
    have hkeys := h.keys helper.1
    rw [heq, List.map_cons, Assoc.lookup_cons, if_pos rfl] at hkeys
    cases hkeys
  · obtain ⟨b, hb, hagree⟩ :=
      h.exists_member (Assoc.lookup_of_mem hdistinct.names he)
    rw [Doc.lookup_map (fun _ s => Doc.str s)] at hb
    obtain ⟨s, -, rfl⟩ := Option.map_eq_some_iff.mp hb
    exact ⟨s, hagree.eq_str⟩

theorem plain_of_agree {registry : String} {file : Doc.Object}
    {c : DockerConfig}
    (h : Agree (.map (without registry file.members)) c.marshal) :
    Plain registry file.members := by
  intro e he
  have hdistinct := file.distinct.member he
  have hfound : (without registry file.members).lookup e.1
      = some (withoutMember registry e.1 e.2) := by
    rw [lookup_without, Assoc.lookup_of_mem file.distinct.names he]
    rfl
  obtain ⟨b, hb, hagree⟩ := h.exists_member hfound
  rcases List.mem_append.mp (Assoc.mem_of_lookup hb) with hmem | hmem
  · rcases List.mem_append.mp hmem with hmem | hmem
    · rw [List.mem_singleton, Prod.mk.injEq] at hmem
      obtain ⟨hname, rfl⟩ := hmem
      rw [hname, withoutMember, if_pos rfl] at hagree
      exact .inl ⟨hname, plain_of_agree_entries hdistinct hagree⟩
    · unfold omitEmpty at hmem
      by_cases hstore : c.credsStore = ""
      · rw [if_pos hstore] at hmem
        cases hmem
      · rw [if_neg hstore, List.mem_singleton, Prod.mk.injEq] at hmem
        obtain ⟨hname, rfl⟩ := hmem
        rw [hname, withoutMember, if_neg (by decide)] at hagree
        exact .inr (.inl ⟨hname, c.credsStore, hagree.eq_str, hstore⟩)
  · by_cases hhelpers : c.credHelpers = []
    · rw [if_pos hhelpers] at hmem
      cases hmem
    · rw [if_neg hhelpers, List.mem_singleton, Prod.mk.injEq] at hmem
      obtain ⟨hname, rfl⟩ := hmem
      rw [hname, withoutMember, if_neg (by decide)] at hagree
      exact .inr (.inr ⟨hname, strings_of_agree hdistinct hhelpers hagree⟩)

theorem agree_entries {registry : String}
    {entries : List (String × Doc)} {auths : List (String × DockerAuth)}
    (hdistinct : (Doc.map entries).Distinct)
    (hplain : ∀ e ∈ entries, e.1 ∉ variants registry → PlainAuth e.2)
    (h : Doc.decodeMap DockerAuth.unmarshal [] (.map entries)
      = some auths) :
    Agree (dropEntries registry (.map entries))
      (.map ((removeVariants (variants registry) auths).1.map
        fun e => (e.1, e.2.marshal))) := by
  apply Doc.agree_of_rel
  intro r
  rw [Doc.lookup_filter (· ∉ variants registry),
    Doc.lookup_map (fun _ (a : DockerAuth) => a.marshal), removeVariants,
    (foldl_removeVariant (variants registry) (auths, false)).1]
  by_cases hr : r ∈ variants registry
  · rw [if_neg (not_not_intro hr), if_pos hr]
    exact .none
  · rw [if_pos hr, if_neg hr]
    have hkeys := Doc.isSome_lookup_fold h r
    have hvalue := Doc.lookup_fold hdistinct.names h r
    cases hd : entries.lookup r with
    | none =>
      rw [hd] at hvalue
      rw [hvalue]
      exact .none
    | some d =>
      rw [hd] at hkeys hvalue
      obtain ⟨a, ha⟩ :=
        Option.isSome_iff_exists.mp (hkeys.mpr (.inl rfl))
      have hmem := Assoc.mem_of_lookup hd
      rw [ha] at hvalue ⊢
      have hdecode : DockerAuth.unmarshal d = some a := by
        simpa using hvalue.symm
      exact .some (agree_auth (hdistinct.member hmem)
        (hplain (r, d) hmem hr) hdecode)

theorem agree_strings {members : List (String × Doc)}
    {helpers : List (String × String)}
    (hdistinct : (Doc.map members).Distinct)
    (hstrings : ∀ e ∈ members, ∃ s, e.2 = .str s)
    (h : Doc.decodeMap (Doc.decodeString "") [] (.map members)
      = some helpers) :
    Agree (.map members)
      (.map (helpers.map fun e => (e.1, .str e.2))) := by
  apply Doc.agree_of_lookup
  intro k
  rw [Doc.lookup_map (fun _ s => Doc.str s),
    Doc.lookup_fold hdistinct.names h k]
  cases hd : members.lookup k with
  | none => rfl
  | some d =>
    obtain ⟨s, hs⟩ := hstrings (k, d) (Assoc.mem_of_lookup hd)
    obtain rfl : d = .str s := hs
    rfl

theorem lookup_marshal (c : DockerConfig) (k : String) :
    ([("auths", Doc.map (c.auths.map fun e => (e.1, e.2.marshal)))]
      ++ omitEmpty "credsStore" c.credsStore
      ++ if c.credHelpers = [] then [] else
        [("credHelpers",
          Doc.map (c.credHelpers.map fun e => (e.1, .str e.2)))]).lookup k
    = if k = "auths" then
        some (.map (c.auths.map fun e => (e.1, e.2.marshal)))
      else if k = "credsStore" then
        if c.credsStore ≠ "" then some (.str c.credsStore) else none
      else if k = "credHelpers" then
        if c.credHelpers = [] then none else
          some (.map (c.credHelpers.map fun e => (e.1, .str e.2)))
      else none := by
  rw [List.lookup_append, List.lookup_append, lookup_omitEmpty,
    Assoc.lookup_cons]
  by_cases hauths : k = "auths"
  · simp [hauths]
  · by_cases hstore : k = "credsStore"
    · by_cases hempty : c.credsStore = ""
      · by_cases hhelpers : c.credHelpers = [] <;>
          simp [hstore, hempty, hhelpers, Assoc.lookup_cons]
      · simp [hstore, hempty]
    · by_cases hhelpers : c.credHelpers = []
      · simp [hauths, hstore, hhelpers]
      · simp [hauths, hstore, hhelpers, Assoc.lookup_cons]

theorem Plain.name {registry : String} {members : List (String × Doc)}
    (h : Plain registry members) {e : String × Doc} (he : e ∈ members) :
    e.1 ∈ ["auths", "credsStore", "credHelpers"] := by
  rcases h e he with ⟨hname, -⟩ | ⟨hname, -⟩ | ⟨hname, -⟩
  · rw [hname]
    decide
  · rw [hname]
    decide
  · rw [hname]
    decide

theorem exists_auths {r : String} {members : List (String × Doc)}
    (h : HeldLast r members) :
    ∃ e ∈ members, isField "auths" e.1 = true
      ∧ ∃ entries, e.2 = .map entries ∧ (entries.lookup r).isSome := by
  induction members with
  | nil => cases h
  | cons e members ih =>
    rcases h with hrest | ⟨hown, hentries, -⟩
    · obtain ⟨e', he', hfound⟩ := ih hrest
      exact ⟨e', List.mem_cons_of_mem e he', hfound⟩
    · exact ⟨e, List.mem_cons_self, hown, hentries⟩

/-- A plain configuration that is written is what it is to be. -/
theorem agree_of_plain {registry : String} {file : Doc.Object}
    {c : DockerConfig} (hwritten : Written registry file.members)
    (hplain : Plain registry file.members)
    (h : DockerConfig.unmarshal (.map file.members) = some c) :
    Agree (.map (without registry file.members))
      (c.remove registry).marshal := by
  have hnames := file.distinct.names
  obtain ⟨-, r, -, hheld⟩ := hwritten
  have hauths := @Doc.decodeStruct_field _ _ _ "auths"
    DockerConfig.auths _ (fun _ _ _ hs => (config_step hs).1) _ _ _ hnames
    (fun e he hf => spelled (hplain.name he) hf (by decide)) h
  have hstore : c.credsStore
      = Doc.stringOf (file.members.lookup "credsStore") :=
    Doc.decodeStruct_string (fun _ _ _ hs => (config_step hs).2.1) rfl
      hnames (fun e he hf => spelled (hplain.name he) hf (by decide)) h
  have hhelpers := @Doc.decodeStruct_field _ _ _ "credHelpers"
    DockerConfig.credHelpers _ (fun _ _ _ hs => (config_step hs).2.2)
    _ _ _ hnames
    (fun e he hf => spelled (hplain.name he) hf (by decide)) h
  apply Doc.agree_of_rel
  intro k
  rw [lookup_without, lookup_marshal]
  by_cases hk : k = "auths"
  · subst hk
    obtain ⟨e, he, hown, entries, hd, -⟩ := exists_auths hheld
    have hname : e.1 = "auths" :=
      spelled (hplain.name he) hown (by decide)
    have hlookup : file.members.lookup "auths" = some (.map entries) := by
      rw [← hname, ← hd]
      exact Assoc.lookup_of_mem hnames he
    have hdistinct := file.distinct.member he
    rw [hd] at hdistinct
    have hentries : ∀ e ∈ entries, e.1 ∉ variants registry →
        PlainAuth e.2 := by
      have hmember := hplain e he
      unfold PlainMember at hmember
      rw [hname, hd] at hmember
      simpa using hmember
    rw [hlookup, if_pos rfl]
    exact .some (agree_entries hdistinct hentries (hauths.2 _ hlookup))
  · rw [if_neg hk]
    have hsame : (file.members.lookup k).map (withoutMember registry k)
        = file.members.lookup k := by
      cases file.members.lookup k with
      | none => rfl
      | some d => exact congrArg some (if_neg hk)
    rw [hsame]
    by_cases hkStore : k = "credsStore"
    · subst hkStore
      rw [if_pos rfl]
      show Option.Rel Agree _
        (if c.credsStore ≠ "" then some (.str c.credsStore) else none)
      rw [hstore]
      apply Doc.rel_of_eq
      refine (omitEmpty_stringOf fun d hd => ?_).symm
      have hmember := hplain _ (Assoc.mem_of_lookup hd)
      simpa [PlainMember] using hmember
    · rw [if_neg hkStore]
      by_cases hkHelpers : k = "credHelpers"
      · subst hkHelpers
        rw [if_pos rfl]
        show Option.Rel Agree _ (if c.credHelpers = [] then none else
          some (.map (c.credHelpers.map fun e => (e.1, .str e.2))))
        cases hd : file.members.lookup "credHelpers" with
        | none =>
          rw [if_pos (hhelpers.1 hd)]
          exact .none
        | some d =>
          have hmem := Assoc.mem_of_lookup hd
          rcases hplain _ hmem with ⟨hname, -⟩ | ⟨hname, -⟩
            | ⟨-, members, heq, hne, hstrings⟩
          · exact absurd (show "credHelpers" = "auths" from hname)
              (by decide)
          · exact absurd (show "credHelpers" = "credsStore" from hname)
              (by decide)
          · obtain rfl : d = .map members := heq
            have hdecode := hhelpers.2 _ hd
            have hdistinct := file.distinct.member hmem
            have hfilled : c.credHelpers ≠ [] := by
              intro hempty
              obtain ⟨m, rest, hcons⟩ := List.exists_cons_of_ne_nil hne
              have hkeys := Doc.isSome_lookup_fold hdecode m.1
              rw [hempty, hcons, Assoc.lookup_cons, if_pos rfl] at hkeys
              simp at hkeys
            rw [if_neg hfilled]
            exact .some (agree_strings hdistinct hstrings hdecode)
      · rw [if_neg hkHelpers]
        have hnone : file.members.lookup k = none := by
          apply Doc.lookup_eq_none_of_notMem
          intro hmem
          obtain ⟨e, he, rfl⟩ := List.mem_map.mp hmem
          have hname := hplain.name he
          simp [hk, hkStore, hkHelpers] at hname
        rw [hnone]
        exact .none

-- ======== removing

/-- Removing a registry removes its entries and changes nothing else,
exactly if the configuration is written and plain, or is not written and
has no entry of the registry. -/
theorem removeOCIRegistry_only_iff (registry : String)
    (file : Doc.Object) (files : RegistryFiles) :
    RemovesOnly registry file files
      ↔ (Written registry file.members → Plain registry file.members)
        ∧ (¬Written registry file.members →
          ¬Holds registry file.members) := by
  have hremoves : RemovesOnly registry file files
      ↔ Agree (.map (without registry file.members))
        (removeAuths registry (.map file.members)) := by
    constructor
    · rintro ⟨d, hd, hagree⟩
      rw [Option.some.inj hd]
      exact hagree
    · intro hagree
      exact ⟨_, rfl, hagree⟩
  rw [hremoves]
  by_cases hwritten : Written registry file.members
  · obtain ⟨c, hc, heq⟩ := removeAuths_of_written hwritten
    rw [heq]
    constructor
    · intro hagree
      exact ⟨fun _ => plain_of_agree hagree, fun h => absurd hwritten h⟩
    · intro h
      exact agree_of_plain hwritten (h.1 hwritten) hc
  · rw [removeAuths_of_not_written hwritten, agree_without_iff]
    constructor
    · intro hholds
      exact ⟨fun h => absurd h hwritten, fun _ => hholds⟩
    · intro h
      exact h.2 hwritten

def contextMembers : List (String × Doc) :=
  [("auths", .map [("r.io", .map [("auth", .str "dTpw")])]),
    ("currentContext", .str "desktop")]

theorem contextMembers_distinct : (Doc.map contextMembers).Distinct := by
  refine .map (by decide) fun e he => ?_
  simp only [contextMembers, List.mem_cons, List.not_mem_nil, or_false]
    at he
  rcases he with rfl | rfl
  · refine .map (by decide) fun e he => ?_
    obtain rfl := List.mem_singleton.mp he
    refine .map (by decide) fun e he => ?_
    obtain rfl := List.mem_singleton.mp he
    exact .leaf nofun nofun
  · exact .leaf nofun nofun

/-- Removing a registry drops it. -/
theorem currentContext_dropped :
    ¬∀ (registry : String) (file : Doc.Object) (files : RegistryFiles),
      RemovesOnly registry file files := by
  intro h
  obtain ⟨d, hd, hagree⟩ := h "r.io"
    ⟨contextMembers, contextMembers_distinct⟩ ⟨none, none⟩
  have hwritten : removeAuths "r.io" (.map contextMembers)
      = .map [("auths", .map [])] := rfl
  obtain rfl := Option.some.inj hd
  rw [hwritten] at hagree
  have hkeys := hagree.keys "currentContext"
  revert hkeys
  decide

end Helm
