/-
The rules that users write (`declarativeRule` in yamlloader.go): their field
paths, and the checks `fieldNotEmpty`, `resourceExists` and `orphanCheck`.

# Values

A resource is what its JSON is decoded to, and a field of it that is missing
is nil, as one that is null. Numbers are held as they are printed.

# Paths

A path is written as its steps: names behind dots, and `[*]` for all items
of a list. What `parsePath` reads of it are these steps (`parsePath_text`),
and what `walkPath` collects are the values that its branches end in
(`walkPath_eq`). The branches that end in nothing leave nothing behind.

# References

`evalResourceExists` looks for the name alone, `evalOrphanCheck` for the
namespace and the name.
-/
import Kubikles.Diff.Resources
import Kubikles.Issues.Finding

namespace CustomRules

open Diff (Decoded)
open IssueDetector (Rule Finding ResourceRef makeFinding)

-- ======== the values

mutual

/-- `fmt.Sprintf("%v", v)`. -/
def sprintV : Doc → String
  | .null => "<nil>"
  | .bool b => toString b
  | .num literal => literal
  | .str s => s
  | .arr items => "[" ++ " ".intercalate (sprintItems items) ++ "]"
  | .map members =>
    "map[" ++ " ".intercalate
      (((sprintMembers members).mergeSort fun a b => a.1 ≤ b.1).map
        fun (k, v) => k ++ ":" ++ v) ++ "]"

def sprintItems : List Doc → List String
  | [] => []
  | d :: items => sprintV d :: sprintItems items

/-- Of the values of a map, which is printed in the order of its keys. -/
def sprintMembers : List (String × Doc) → List (String × String)
  | [] => []
  | (k, d) :: members => (k, sprintV d) :: sprintMembers members

end

structure Resource where
  members : List (String × Doc)
  decoded : Decoded (.map members)

def Resource.doc (res : Resource) : Doc := .map res.members

-- ======== the paths

/-- A text without the first `[*]` in it, if there is one. -/
def cutStar : List Char → Option (List Char)
  | '[' :: '*' :: ']' :: s => some s
  | c :: s => (cutStar s).map (c :: ·)
  | [] => none

/-- The parts of a piece between two dots. -/
def parsePart (p : List Char) : List String :=
  match cutStar p with
  | some base => (if base ≠ [] then [.ofList base] else []) ++ ["[*]"]
  | none => if p ≠ [] then [.ofList p] else []

/-- `strings.TrimPrefix(path, ".")`. -/
def trimDot : List Char → List Char
  | '.' :: path => path
  | path => path

def parsePath (path : String) : List String :=
  ((trimDot path.toList).splitOn '.').flatMap parsePart

def walkPath : Doc → List String → List String
  | .null, [] => []
  | d, [] => [sprintV d]
  | d, part :: rest =>
    if part = "[*]" then
      match d with
      | .arr items => items.flatMap fun item => walkPath item rest
      | _ => []
    else
      match d with
      | .map members => walkPath ((members.lookup part).getD .null) rest
      | _ => []

def extractFieldAll (res : Resource) (path : String) : List String :=
  walkPath res.doc (parsePath path)

/-- The loop of `extractFieldRaw`. -/
def extractRaw : Doc → List String → Doc
  | d, [] => d
  | d, part :: parts =>
    if part = "[*]" then d
    else
      match d with
      | .map members =>
        match members.lookup part with
        | some .null => .null
        | some d => extractRaw d parts
        | none => .null
      | _ => .null

def extractField (res : Resource) (path : String) : String :=
  match extractRaw res.doc (parsePath path) with
  | .null => ""
  | d => sprintV d

-- ======== the checks

/-- `yamlCheck`, as far as these checks read it. -/
structure YamlCheck where
  resource : String
  field : String := ""
  referenceField : String := ""
  targetResource : String := ""
  targetMatchField : String := ""
  referencedBy : String := ""
  matchField : String := ""
  message : String
  suggestedFix : String := ""

/-- What a check runs on: what `getResourcesAsJSON` gives, and the order in
which a loop meets the entries of a map. -/
structure Cache where
  resources : String → List Resource
  order : List (String × String) → List (String × String)

def expandTemplate (tmpl : String) (vars : List (String × String)) :
    String :=
  vars.foldl (fun result (k, v) =>
    result.replace ("\x7b\x7b." ++ k ++ "\x7d\x7d") v) tmpl

def kindFromResource : String → String
  | "pods" => "Pod"
  | "services" => "Service"
  | "ingresses" => "Ingress"
  | "ingressclasses" => "IngressClass"
  | "endpoints" => "Endpoints"
  | "configmaps" => "ConfigMap"
  | "secrets" => "Secret"
  | "deployments" => "Deployment"
  | "statefulsets" => "StatefulSet"
  | "daemonsets" => "DaemonSet"
  | "pvcs" => "PVC"
  | "pvs" => "PV"
  | "nodes" => "Node"
  | "serviceaccounts" => "ServiceAccount"
  | "hpas" => "HPA"
  | resource =>
    match resource.toList.reverse with
    | 's' :: front => .ofList front.reverse
    | _ => resource

def Resource.name (res : Resource) : String :=
  extractField res ".metadata.name"

def Resource.ns (res : Resource) : String :=
  extractField res ".metadata.namespace"

/-- The finding about a resource, with more variables than its name and its
namespace. -/
def finding (r : Rule) (c : YamlCheck) (cache : Cache) (res : Resource)
    (vars : List (String × String)) : Finding :=
  makeFinding r ⟨kindFromResource c.resource, res.name, res.ns⟩
    (expandTemplate c.message (cache.order
      ([("Name", res.name), ("Namespace", res.ns)] ++ vars)))
    c.suggestedFix []

def hasEmpty (c : YamlCheck) (res : Resource) : Bool :=
  let vals := extractFieldAll res c.field
  vals.any (fun v => v = "" || v = "null" || v = "<nil>") || vals.isEmpty

/-- The resources that `evalFieldNotEmpty` reports. -/
def lacking (c : YamlCheck) (cache : Cache) : List Resource :=
  (cache.resources c.resource).filter (hasEmpty c)

def evalFieldNotEmpty (r : Rule) (c : YamlCheck) (cache : Cache) :
    List Finding :=
  (lacking c cache).map fun res => finding r c cache res []

def targetNames (c : YamlCheck) (cache : Cache) : List String :=
  ((cache.resources c.targetResource).map fun t =>
    extractField t c.targetMatchField).filter (· ≠ "")

/-- The references that `evalResourceExists` reports. -/
def dangling (c : YamlCheck) (cache : Cache) : List (Resource × String) :=
  (cache.resources c.resource).flatMap fun res =>
    ((extractFieldAll res c.referenceField).filter fun refVal =>
      refVal ≠ "" ∧ refVal ∉ targetNames c cache).map fun refVal =>
        (res, refVal)

def evalResourceExists (r : Rule) (c : YamlCheck) (cache : Cache) :
    List Finding :=
  (dangling c cache).map fun (res, refVal) =>
    finding r c cache res [("RefValue", refVal)]

def referenced (c : YamlCheck) (cache : Cache) : List (String × String) :=
  (cache.resources c.referencedBy).flatMap fun ref =>
    ((extractFieldAll ref c.matchField).filter (· ≠ "")).map fun v =>
      (ref.ns, v)

/-- The resources that `evalOrphanCheck` reports. -/
def orphans (c : YamlCheck) (cache : Cache) : List Resource :=
  (cache.resources c.resource).filter fun res =>
    (res.ns, res.name) ∉ referenced c cache

def evalOrphanCheck (r : Rule) (c : YamlCheck) (cache : Cache) :
    List Finding :=
  (orphans c cache).map fun res => finding r c cache res []

-- ======== paths

/-- A name that can be written in a path. -/
structure StepName where
  text : String
  ne_nil : text.toList ≠ []
  noDot : '.' ∉ text.toList
  noStar : cutStar text.toList = none

inductive PathStep where
  | name (key : StepName)
  | all

def PathStep.part : PathStep → String
  | .name key => key.text
  | .all => "[*]"

/-- What is between the dots of a path: names, which may have a `[*]` behind
them. -/
def pieces : List PathStep → List (List Char)
  | [] => []
  | .name key :: .all :: steps =>
    (key.text.toList ++ ['[', '*', ']']) :: pieces steps
  | .name key :: steps => key.text.toList :: pieces steps
  | .all :: steps => ['[', '*', ']'] :: pieces steps

def pathText (steps : List PathStep) : String :=
  .ofList ('.' :: ['.'].intercalate (pieces steps))

theorem cutStar_append {s : List Char} (h : cutStar s = none) :
    cutStar (s ++ ['[', '*', ']']) = some s := by
  induction s with
  | nil => rfl
  | cons c s ih =>
    have hs : cutStar s = none := by
      unfold cutStar at h
      split at h
      · cases h
      next heq =>
        obtain ⟨-, rfl⟩ := List.cons.inj heq
        exact Option.map_eq_none_iff.mp h
      next heq => cases heq
    have hfront : ∀ t,
        c :: (s ++ ['[', '*', ']']) ≠ '[' :: '*' :: ']' :: t
          ∨ cutStar (c :: s) ≠ none := by
      intro t
      match s with
      | [] => simp
      | [_] => simp
      | x :: y :: s =>
        by_cases heq : c = '[' ∧ x = '*' ∧ y = ']'
        · obtain ⟨rfl, rfl, rfl⟩ := heq
          exact .inr (by simp [cutStar])
        · refine .inl fun h => heq ?_
          simp only [List.cons_append, List.cons.injEq] at h
          exact ⟨h.1, h.2.1, h.2.2.1⟩
    rw [List.cons_append, cutStar]
    · rw [ih hs]
      rfl
    · intro t hc ht
      rcases hfront t with hne | hne
      · exact hne (by rw [hc, ht])
      · exact hne h

theorem parsePart_name (key : StepName) :
    parsePart key.text.toList = [key.text] := by
  unfold parsePart
  rw [key.noStar]
  simp [key.ne_nil]

theorem parsePart_items (key : StepName) :
    parsePart (key.text.toList ++ ['[', '*', ']'])
      = [key.text, "[*]"] := by
  unfold parsePart
  rw [cutStar_append key.noStar]
  simp [key.ne_nil]

theorem flatMap_parsePart (steps : List PathStep) :
    (pieces steps).flatMap parsePart = steps.map PathStep.part := by
  induction steps using pieces.induct with
  | case1 => rfl
  | case2 key steps ih =>
    rw [pieces, List.flatMap_cons, parsePart_items, ih]
    rfl
  | case3 key steps hne ih =>
    rw [pieces, List.flatMap_cons, parsePart_name, ih]
    · rfl
    · exact hne
  | case4 steps ih =>
    rw [pieces, List.flatMap_cons, ih]
    rfl

theorem noDot_of_mem_pieces (steps : List PathStep) :
    ∀ p ∈ pieces steps, '.' ∉ p := by
  induction steps using pieces.induct with
  | case1 => nofun
  | case2 key steps ih =>
    rw [pieces]
    refine List.forall_mem_cons.mpr ⟨?_, ih⟩
    simp [key.noDot]
  | case3 key steps hne ih =>
    rw [pieces]
    · exact List.forall_mem_cons.mpr ⟨key.noDot, ih⟩
    · exact hne
  | case4 steps ih =>
    rw [pieces]
    exact List.forall_mem_cons.mpr ⟨by simp, ih⟩

theorem parsePath_text (steps : List PathStep) :
    parsePath (pathText steps) = steps.map PathStep.part := by
  unfold parsePath pathText
  rw [String.toList_ofList]
  show ((['.'].intercalate (pieces steps)).splitOn '.').flatMap parsePart = _
  by_cases hnil : pieces steps = []
  · rw [← flatMap_parsePart, hnil]
    rfl
  · rw [List.splitOn_intercalate '.' (noDot_of_mem_pieces steps) hnil,
      flatMap_parsePart]

-- ======== branches

/-- What the branches of a path end in, `[*]` being all items of a list. One
that cannot be followed to its end ends in nothing. -/
def branches : Doc → List PathStep → List (Option Doc)
  | d, [] => [some d]
  | .map members, .name key :: steps =>
    match members.lookup key.text with
    | some d => branches d steps
    | none => [none]
  | .arr items, .all :: steps =>
    items.flatMap fun item => branches item steps
  | _, _ :: _ => [none]

variable {d v : Doc} {steps : List PathStep} {b : Option Doc}

def Missing (b : Option Doc) : Prop := b = none ∨ b = some .null

def collected : Option Doc → Option String
  | none => none
  | some .null => none
  | some d => some (sprintV d)

theorem collected_eq_none : collected b = none ↔ Missing b := by
  unfold Missing
  match b with
  | none => simp [collected]
  | some .null => simp [collected]
  | some (.bool _) => simp [collected]
  | some (.num _) => simp [collected]
  | some (.str _) => simp [collected]
  | some (.arr _) => simp [collected]
  | some (.map _) => simp [collected]

theorem walkPath_null (parts : List String) :
    walkPath .null parts = [] := by
  cases parts with
  | nil => rfl
  | cons part parts =>
    unfold walkPath
    split <;> rfl

theorem walkPath_all (d : Doc) (parts : List String) :
    walkPath d ("[*]" :: parts)
      = match d with
        | .arr items => items.flatMap fun item => walkPath item parts
        | _ => [] := by
  cases d <;> exact if_pos rfl

theorem walkPath_name {part : String} (hpart : part ≠ "[*]") (d : Doc)
    (parts : List String) :
    walkPath d (part :: parts)
      = match d with
        | .map members => walkPath ((members.lookup part).getD .null) parts
        | _ => [] := by
  cases d <;> exact if_neg hpart

/-- The values that are collected are those of the branches that have
one. -/
theorem walkPath_eq (d : Doc) (steps : List PathStep) :
    walkPath d (steps.map PathStep.part)
      = (branches d steps).filterMap collected := by
  induction steps generalizing d with
  | nil => cases d <;> rfl
  | cons step steps ih =>
    rw [List.map_cons]
    cases step with
    | all =>
      show walkPath d ("[*]" :: _) = _
      rw [walkPath_all]
      cases d with
      | arr items => simp only [branches, ih, List.filterMap_flatMap]
      | _ => rfl
    | name key =>
      have hkey : key.text ≠ "[*]" := by
        intro h
        have hstar := key.noStar
        rw [h] at hstar
        cases hstar
      show walkPath d (key.text :: _) = _
      rw [walkPath_name hkey]
      cases d with
      | map members =>
        dsimp only
        rw [branches]
        cases members.lookup key.text with
        | none => exact walkPath_null _
        | some d => exact ih d
      | _ => rfl

theorem decoded_of_branch (hd : Decoded d)
    (hv : some v ∈ branches d steps) : Decoded v := by
  induction steps generalizing d with
  | nil =>
    rw [branches, List.mem_singleton] at hv
    exact Option.some.inj hv ▸ hd
  | cons step steps ih =>
    match d, step with
    | .map members, .name key =>
      rw [branches] at hv
      split at hv
      next d' hd' =>
        have hchild : (Doc.map members).child (.key key.text)
            = some d' := hd'
        exact ih (hd.child hchild) hv
      · cases List.mem_singleton.mp hv
    | .arr items, .all =>
      rw [branches] at hv
      obtain ⟨item, hitem, hv⟩ := List.mem_flatMap.mp hv
      obtain ⟨i, hi⟩ := List.mem_iff_getElem?.mp hitem
      have hchild : (Doc.arr items).child (.index i) = some item := hi
      exact ih (hd.child hchild) hv
    | .map _, .all | .arr _, .name _ => cases List.mem_singleton.mp hv
    | .null, step | .bool _, step | .num _, step | .str _, step =>
      rw [branches] at hv
      · cases List.mem_singleton.mp hv
      · nofun
      · nofun

-- ======== empty fields

theorem head_sprintV (htidy : Diff.tidy d) (hnull : d ≠ .null)
    (hstr : ∀ s, d ≠ .str s) :
    ∃ c t, (sprintV d).toList = c :: t ∧ c ≠ 'n' ∧ c ≠ '<' := by
  cases d with
  | null => exact absurd rfl hnull
  | str s => exact absurd rfl (hstr s)
  | bool b =>
    cases b with
    | false => exact ⟨'f', _, rfl, by decide, by decide⟩
    | true => exact ⟨'t', _, rfl, by decide, by decide⟩
  | num literal =>
    have hnumeral : Diff.numeral literal = true := htidy
    unfold Diff.numeral at hnumeral
    rw [sprintV]
    cases hl : literal.toList with
    | nil =>
      rw [hl] at hnumeral
      cases hnumeral
    | cons c t =>
      rw [hl] at hnumeral
      have hc : (c.isDigit || decide (c = '-')) = true := hnumeral
      refine ⟨c, t, rfl, fun h => ?_, fun h => ?_⟩
      · rw [h] at hc
        exact absurd hc (by decide)
      · rw [h] at hc
        exact absurd hc (by decide)
  | arr items =>
    exact ⟨'[', _, by rw [sprintV]; simp; rfl, by decide, by decide⟩
  | map members =>
    exact ⟨'m', _, by rw [sprintV]; simp; rfl, by decide, by decide⟩

theorem sprintV_eq_iff {s : String} (hs : s = "" ∨ s = "null" ∨ s = "<nil>")
    (htidy : Diff.tidy d) (hnull : d ≠ .null) :
    sprintV d = s ↔ d = .str s := by
  constructor
  · intro h
    by_contra hne
    have hstr : ∀ s', d ≠ .str s' := by
      rintro s' rfl
      rw [sprintV] at h
      exact hne (congrArg Doc.str h)
    obtain ⟨c, t, hc, hn, hlt⟩ := head_sprintV htidy hnull hstr
    rw [h] at hc
    rcases hs with rfl | rfl | rfl
    · cases hc
    · exact hn (List.cons.inj hc).1.symm
    · exact hlt (List.cons.inj hc).1.symm
  · rintro rfl
    rw [sprintV]

theorem mem_collected {s : String} (hs : s = "" ∨ s = "null" ∨ s = "<nil>")
    (hd : Decoded d) :
    s ∈ (branches d steps).filterMap collected
      ↔ some (.str s) ∈ branches d steps := by
  rw [List.mem_filterMap]
  constructor
  · rintro ⟨b, hb, hcollected⟩
    cases b with
    | none => cases hcollected
    | some v =>
      have hnull : v ≠ .null := by
        rintro rfl
        cases hcollected
      have hv : sprintV v = s := by
        cases v with
        | null => exact absurd rfl hnull
        | _ => exact Option.some.inj hcollected
      rw [sprintV_eq_iff hs (decoded_of_branch hd hb).tidy hnull] at hv
      exact hv ▸ hb
  · intro h
    refine ⟨_, h, ?_⟩
    show some (sprintV (.str s)) = some s
    rw [sprintV]

/-- A branch has the field missing, or null. -/
def Lacks (d : Doc) (steps : List PathStep) : Prop :=
  ∃ b ∈ branches d steps, Missing b

def EndsEmpty (d : Doc) (steps : List PathStep) : Prop :=
  some (.str "") ∈ branches d steps

def ReachesNothing (d : Doc) (steps : List PathStep) : Prop :=
  ∀ b ∈ branches d steps, Missing b

/-- A branch ends in a text that is taken for nil. -/
def LooksNull (d : Doc) (steps : List PathStep) : Prop :=
  some (.str "null") ∈ branches d steps
    ∨ some (.str "<nil>") ∈ branches d steps

def FieldEmpty (d : Doc) (steps : List PathStep) : Prop :=
  Lacks d steps ∨ EndsEmpty d steps ∨ ReachesNothing d steps

theorem hasEmpty_iff (c : YamlCheck) (res : Resource)
    (steps : List PathStep) :
    hasEmpty { c with field := pathText steps } res = true
      ↔ EndsEmpty res.doc steps ∨ LooksNull res.doc steps
        ∨ ReachesNothing res.doc steps := by
  have hmem : ∀ s, s = "" ∨ s = "null" ∨ s = "<nil>" →
      (s ∈ (branches res.doc steps).filterMap collected
        ↔ some (.str s) ∈ branches res.doc steps) :=
    fun s hs => mem_collected hs res.decoded
  have hnone : (branches res.doc steps).filterMap collected = []
      ↔ ReachesNothing res.doc steps := by
    rw [List.filterMap_eq_nil_iff]
    exact forall₂_congr fun b _ => collected_eq_none
  unfold hasEmpty extractFieldAll
  rw [parsePath_text, walkPath_eq, Bool.or_eq_true, List.isEmpty_iff, hnone,
    List.any_eq_true, ← or_assoc]
  apply or_congr_left
  unfold EndsEmpty LooksNull
  rw [← hmem "" (by simp), ← hmem "null" (by simp),
    ← hmem "<nil>" (by simp)]
  constructor
  · rintro ⟨v, hv, heq⟩
    simp only [Bool.or_eq_true, decide_eq_true_eq] at heq
    rcases heq with (rfl | rfl) | rfl
    · exact .inl hv
    · exact .inr (.inl hv)
    · exact .inr (.inr hv)
  · rintro (h | h | h)
    · exact ⟨_, h, by simp⟩
    · exact ⟨_, h, by simp⟩
    · exact ⟨_, h, by simp⟩

/-- A resource is reported as it should be exactly if an empty text or no
value at all is reached, or else the branches that lack the field are there
exactly if there are some that end in `null` or `<nil>`. -/
theorem fieldNotEmpty_right_iff (c : YamlCheck) (cache : Cache)
    (steps : List PathStep) (res : Resource)
    (hres : res ∈ cache.resources c.resource) :
    (res ∈ lacking { c with field := pathText steps } cache
        ↔ FieldEmpty res.doc steps)
      ↔ EndsEmpty res.doc steps ∨ ReachesNothing res.doc steps
        ∨ (Lacks res.doc steps ↔ LooksNull res.doc steps) := by
  have hreported : res ∈ lacking { c with field := pathText steps } cache
      ↔ EndsEmpty res.doc steps ∨ LooksNull res.doc steps
        ∨ ReachesNothing res.doc steps := by
    unfold lacking
    rw [List.mem_filter, hasEmpty_iff]
    exact and_iff_right hres
  rw [hreported]
  unfold FieldEmpty
  by_cases hempty : EndsEmpty res.doc steps
  · simp [hempty]
  · by_cases hnothing : ReachesNothing res.doc steps
    · simp [hnothing]
    · simp only [hempty, hnothing, false_or, or_false]
      exact iff_comm

theorem decoded_arr {items : List Doc} (h : ∀ item ∈ items, Decoded item) :
    Decoded (.arr items) := by
  refine Diff.decoded_of_child trivial fun step e he => ?_
  cases step with
  | key k => cases he
  | index i => exact h e (List.mem_of_getElem? he)

/-- `.spec.containers[*].livenessProbe`. -/
def probePath : List PathStep :=
  [.name ⟨"spec", by decide, by decide, by decide⟩,
    .name ⟨"containers", by decide, by decide, by decide⟩, .all,
    .name ⟨"livenessProbe", by decide, by decide, by decide⟩]

example : pathText probePath = ".spec.containers[*].livenessProbe" := by
  decide

def pod (containers : List Doc) (h : ∀ c ∈ containers, Decoded c) :
    Resource where
  members := [("spec", .map [("containers", .arr containers)])]
  decoded := by
    apply Diff.decoded_map (by simp)
    intro e he
    rw [List.mem_singleton.mp he]
    apply Diff.decoded_map (by simp)
    intro e he
    rw [List.mem_singleton.mp he]
    exact decoded_arr h

def probeCheck : YamlCheck where
  resource := "pods"
  message := "Pod \x7b\x7b.Name\x7d\x7d has no liveness probes"

/-- A pod without containers is reported. -/
theorem fieldNotEmpty_right_bare :
    pod [] nofun ∈ lacking { probeCheck with field := pathText probePath }
        ⟨fun _ => [pod [] nofun], id⟩
      ↔ FieldEmpty (pod [] nofun).doc probePath := by
  apply (fieldNotEmpty_right_iff probeCheck ⟨fun _ => [pod [] nofun], id⟩
    probePath (pod [] nofun) List.mem_cons_self).mpr
  exact .inr (.inl nofun)

/-- A pod of two containers, of which one has a liveness probe. -/
def oneProbe : Resource :=
  pod [.map [("livenessProbe", .map [])], .map []] (by
    have hnil : Decoded (.map []) := Diff.decoded_map (by simp) nofun
    intro c hc
    rcases List.mem_pair.mp hc with rfl | rfl
    · apply Diff.decoded_map (by simp)
      intro e he
      rw [List.mem_singleton.mp he]
      exact hnil
    · exact hnil)

/-- It is not reported. -/
theorem container_missed :
    ¬(oneProbe ∈ lacking { probeCheck with field := pathText probePath }
        ⟨fun _ => [oneProbe], id⟩
      ↔ FieldEmpty oneProbe.doc probePath) := by
  have hbranches : branches oneProbe.doc probePath
      = [some (.map []), none] := rfl
  intro h
  have hlacks : FieldEmpty oneProbe.doc probePath := by
    refine .inl ⟨none, ?_, .inl rfl⟩
    rw [hbranches]
    simp
  have hempty := (List.mem_filter.mp (h.mpr hlacks)).2
  rw [hasEmpty_iff] at hempty
  unfold EndsEmpty LooksNull ReachesNothing Missing at hempty
  rw [hbranches] at hempty
  simp at hempty

-- ======== references

/-- The check for orphans among the targets of the references. -/
def YamlCheck.orphanCheck (c : YamlCheck) : YamlCheck where
  resource := c.targetResource
  referencedBy := c.resource
  matchField := c.referenceField
  message := c.message

def References (c : YamlCheck) (cache : Cache) (res : Resource)
    (v : String) : Prop :=
  res ∈ cache.resources c.resource
    ∧ v ∈ extractFieldAll res c.referenceField ∧ v ≠ ""

def HasTarget (c : YamlCheck) (cache : Cache) (ns name : String) : Prop :=
  ∃ t ∈ cache.resources c.targetResource, t.ns = ns ∧ t.name = name

/-- References are looked up in the namespace of the resource. -/
structure NamespacesRespected (c : YamlCheck) (cache : Cache) : Prop where
  reported : ∀ res v, References c cache res v →
    ((res, v) ∈ dangling c cache ↔ ¬HasTarget c cache res.ns v)
  agrees : ∀ res v, References c cache res v →
    ∀ t ∈ orphans c.orphanCheck cache, t.name = v →
      (res, v) ∉ dangling c cache → HasTarget c cache res.ns v

theorem mem_dangling {c : YamlCheck} {cache : Cache} {res : Resource}
    {v : String} (hv : References c cache res v) :
    (res, v) ∈ dangling c cache ↔ v ∉ targetNames c cache := by
  obtain ⟨hres, hmem, hne⟩ := hv
  unfold dangling
  rw [List.mem_flatMap]
  constructor
  · rintro ⟨res', -, h⟩
    obtain ⟨v', hv', heq⟩ := List.mem_map.mp h
    obtain ⟨rfl, rfl⟩ := Prod.mk.inj heq
    have hfilter := (List.mem_filter.mp hv').2
    exact (of_decide_eq_true hfilter).2
  · intro h
    refine ⟨res, hres, List.mem_map.mpr ⟨v, ?_, rfl⟩⟩
    exact List.mem_filter.mpr ⟨hmem, decide_eq_true ⟨hne, h⟩⟩

/-- The check respects namespaces exactly if a target that is referred to in
any of them is there in the one of the resource. -/
theorem namespaces_respected_iff (c : YamlCheck) (cache : Cache)
    (hname : c.targetMatchField = ".metadata.name") :
    NamespacesRespected c cache
      ↔ ∀ res v, References c cache res v →
        (∃ ns, HasTarget c cache ns v) → HasTarget c cache res.ns v := by
  have hname : ∀ v, v ≠ "" →
      (v ∈ targetNames c cache ↔ ∃ ns, HasTarget c cache ns v) := by
    intro v hne
    unfold targetNames HasTarget
    rw [List.mem_filter, List.mem_map, hname]
    constructor
    · rintro ⟨⟨t, ht, hv⟩, -⟩
      exact ⟨t.ns, t, ht, rfl, hv⟩
    · rintro ⟨-, t, ht, -, hv⟩
      exact ⟨⟨t, ht, hv⟩, decide_eq_true hne⟩
  constructor
  · intro h res v hv hns
    by_contra hnone
    have hdangling := (h.reported res v hv).mpr hnone
    exact (mem_dangling hv).mp hdangling ((hname v hv.2.2).mpr hns)
  · intro h
    constructor
    case reported =>
      intro res v hv
      rw [mem_dangling hv, hname v hv.2.2]
      exact not_congr ⟨h res v hv, fun ht => ⟨_, ht⟩⟩
    case agrees =>
      intro res v hv t ht hname' hdangling
      have htarget : t ∈ cache.resources c.targetResource :=
        (List.mem_filter.mp ht).1
      exact h res v hv ⟨t.ns, t, htarget, rfl, hname'⟩

-- ======== an example

/-- What a resource is called, and where it is. -/
def metadata (ns name : String) : String × Doc :=
  ("metadata", .map [("name", .str name), ("namespace", .str ns)])

theorem extractField_str {res : Resource} {path s : String}
    (h : extractRaw res.doc (parsePath path) = .str s) :
    extractField res path = s := by
  unfold extractField
  rw [h]
  show sprintV (.str s) = s
  rw [sprintV]

theorem known_of_metadata {res : Resource} {ns name : String}
    (h : res.members.head? = some (metadata ns name)) :
    res.ns = ns ∧ res.name = name := by
  obtain ⟨members, decoded⟩ := res
  obtain ⟨rest, rfl⟩ := List.head?_eq_some_iff.mp h
  have hns : parsePath ".metadata.namespace"
      = ["metadata", "namespace"] := by decide
  have hname : parsePath ".metadata.name"
      = ["metadata", "name"] := by decide
  constructor
  · exact extractField_str (by rw [hns]; rfl)
  · exact extractField_str (by rw [hname]; rfl)

def secret (ns name : String) : Resource where
  members := [metadata ns name]
  decoded := by
    apply Diff.decoded_map (by simp)
    intro e he
    rw [List.mem_singleton.mp he]
    apply Diff.decoded_map (by simp)
    intro e he
    rcases List.mem_pair.mp he with rfl | rfl
    · exact Diff.decoded_str name
    · exact Diff.decoded_str ns

def ingress (ns name secretName : String) : Resource where
  members := [metadata ns name,
    ("spec", .map [("tls", .arr [.map [("secretName", .str secretName)]])])]
  decoded := by
    apply Diff.decoded_map (by simp [metadata])
    intro e he
    rcases List.mem_pair.mp he with rfl | rfl
    · have hchild : (secret ns name).doc.child (.key "metadata")
          = some (metadata ns name).2 := rfl
      exact (secret ns name).decoded.child hchild
    · apply Diff.decoded_map (by simp)
      intro e he
      rw [List.mem_singleton.mp he]
      apply decoded_arr
      intro item hitem
      rw [List.mem_singleton.mp hitem]
      apply Diff.decoded_map (by simp)
      intro e he
      rw [List.mem_singleton.mp he]
      exact Diff.decoded_str secretName

/-- The TLS secrets that ingresses refer to. -/
def tlsCheck : YamlCheck where
  resource := "ingresses"
  referenceField := ".spec.tls[*].secretName"
  targetResource := "secrets"
  targetMatchField := ".metadata.name"
  message := "Ingress \x7b\x7b.Name\x7d\x7d references no TLS secret"

/-- A cluster of an ingress that refers to the secret `tls`, with one of
this name in a namespace. -/
def cluster (ns : String) : Cache where
  resources resource :=
    if resource = "ingresses" then [ingress "shop" "web" "tls"]
    else if resource = "secrets" then [secret ns "tls"] else []
  order := id

theorem extractFieldAll_ingress :
    extractFieldAll (ingress "shop" "web" "tls") ".spec.tls[*].secretName"
      = ["tls"] := by
  have hpath : parsePath ".spec.tls[*].secretName"
      = ["spec", "tls", "[*]", "secretName"] := by decide
  unfold extractFieldAll
  rw [hpath]
  simp [ingress, metadata, Resource.doc, walkPath, sprintV,
    Assoc.lookup_cons]

theorem tls_references {ns v : String} {res : Resource}
    (h : References tlsCheck (cluster ns) res v) :
    res = ingress "shop" "web" "tls" ∧ v = "tls" := by
  obtain ⟨hres, hv, -⟩ := h
  obtain rfl := List.mem_singleton.mp
    (show res ∈ [ingress "shop" "web" "tls"] from hres)
  exact ⟨rfl, List.mem_singleton.mp (extractFieldAll_ingress ▸ hv)⟩

/-- With the secret where the ingress is, the check is right. -/
theorem namespaces_respected_shop :
    NamespacesRespected tlsCheck (cluster "shop") := by
  apply (namespaces_respected_iff tlsCheck (cluster "shop") rfl).mpr
  intro res v h _
  obtain ⟨rfl, rfl⟩ := tls_references h
  obtain ⟨hns, -⟩ := known_of_metadata
    (show (ingress "shop" "web" "tls").members.head? = _ from rfl)
  obtain ⟨hns', hname⟩ := known_of_metadata
    (show (secret "shop" "tls").members.head? = _ from rfl)
  exact ⟨secret "shop" "tls", List.mem_singleton.mpr rfl,
    hns'.trans hns.symm, hname⟩

/-- The secret of another namespace is taken for the one that is referred
to. -/
theorem other_namespace_accepted :
    ¬NamespacesRespected tlsCheck (cluster "infra") := by
  intro h
  obtain ⟨hns, -⟩ := known_of_metadata
    (show (ingress "shop" "web" "tls").members.head? = _ from rfl)
  obtain ⟨hns', hname⟩ := known_of_metadata
    (show (secret "infra" "tls").members.head? = _ from rfl)
  have hreference : References tlsCheck (cluster "infra")
      (ingress "shop" "web" "tls") "tls" := by
    refine ⟨List.mem_singleton.mpr rfl, ?_, by decide⟩
    exact extractFieldAll_ingress ▸ List.mem_singleton.mpr rfl
  have hnone : ¬HasTarget tlsCheck (cluster "infra")
      (ingress "shop" "web" "tls").ns "tls" := by
    rintro ⟨t, ht, h, -⟩
    obtain rfl := List.mem_singleton.mp
      (show t ∈ [secret "infra" "tls"] from ht)
    rw [hns, hns'] at h
    exact absurd h (by decide)
  have hdangling := (h.reported _ _ hreference).mpr hnone
  apply (mem_dangling hreference).mp hdangling
  refine List.mem_filter.mpr ⟨?_, by decide⟩
  exact List.mem_map.mpr ⟨_, List.mem_singleton.mpr rfl, hname⟩

end CustomRules
