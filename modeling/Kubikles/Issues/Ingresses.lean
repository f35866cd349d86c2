/-
The rule for hosts that several ingresses claim (`ruleNET006` in
rules_networking.go).

# Maps

`pathOwners` is ranged over in any order, which is a parameter of
`evaluateNET006`: its entries, permuted.

# The argument

The groups are those of what the ingresses claim (`pathOwners_eq`), and the
rule keeps one finding for each ingress and host of the groups of two or
more (`evaluateNET006_reported`). A group of two may be one ingress that
claims a path twice; it is reported all the same.
-/
import Kubikles.Issues.Finding
import Kubikles.Lib.Group
import Mathlib.Data.List.Nodup
import Mathlib.Data.List.Perm.Subperm

namespace IssueDetector

-- ======== ingresses

/-- `networkingv1.HTTPIngressPath`. -/
structure HTTPIngressPath where
  path : String
  pathType : Option String
deriving DecidableEq

/-- `networkingv1.IngressRule`; no `http` is a nil one. -/
structure IngressRule where
  host : String
  http : Option (List HTTPIngressPath)
deriving DecidableEq

/-- `networkingv1.Ingress`. -/
structure Ingress where
  ns : String
  name : String
  rules : List IngressRule
deriving DecidableEq

structure IngressPathKey where
  host : String
  path : String
  pathType : String
deriving DecidableEq

structure IngressRef where
  ns : String
  name : String
deriving DecidableEq

def Ingress.ref (ing : Ingress) : IngressRef := ⟨ing.ns, ing.name⟩

/-- `pathOwners`, or its entries in some order. -/
abbrev PathOwners := List (IngressPathKey × List IngressRef)

def IngressRule.hostKey (rule : IngressRule) : String :=
  if rule.host = "" then "*" else rule.host

def ownRule (ref : IngressRef) (pathOwners : PathOwners)
    (rule : IngressRule) : PathOwners :=
  match rule.http with
  | none => Group.add pathOwners (⟨rule.hostKey, "", ""⟩, ref)
  | some paths => paths.foldl (fun pathOwners p =>
    Group.add pathOwners
      (⟨rule.hostKey, p.path, p.pathType.getD "Prefix"⟩, ref)) pathOwners

/-- The loop over the rules of an ingress. -/
def ownIngress (pathOwners : PathOwners) (ing : Ingress) : PathOwners :=
  ing.rules.foldl (ownRule ing.ref) pathOwners

def pathOwners (ingresses : List Ingress) : PathOwners :=
  ingresses.foldl ownIngress []

-- ======== findings

structure FindingKey where
  ns : String
  name : String
  host : String
deriving DecidableEq

/-- `ns/name`. -/
def IngressRef.text (ref : IngressRef) : String := ref.ns ++ "/" ++ ref.name

def others (refs : List IngressRef) (ref : IngressRef) : List IngressRef :=
  refs.filter (· ≠ ref)

/-- `strings.Join(others, ", ")`. -/
def joinRefs (refs : List IngressRef) : String :=
  ", ".intercalate (refs.map IngressRef.text)

def conflict (r : Rule) (key : IngressPathKey) (refs : List IngressRef)
    (ref : IngressRef) : Finding :=
  let f := makeFinding r ⟨"Ingress", ref.name, ref.ns⟩
    ("Ingress '" ++ ref.name ++ "' has conflicting path '" ++ key.pathType
      ++ " " ++ key.path ++ "' on host '" ++ key.host ++ "' with "
      ++ joinRefs (others refs ref))
    ("Remove the duplicate path or merge the Ingress rules into a single"
      ++ " Ingress")
    [("host", key.host), ("path", key.path), ("pathType", key.pathType),
      ("conflicts", joinRefs (others refs ref))]
  { f with groupKey := key.host ++ " " ++ key.pathType ++ " " ++ key.path }

/-- `seen` and `findings`. -/
abbrev Findings := List FindingKey × List Finding

/-- The loop over the ingresses of a group. -/
def reportGroup (r : Rule) (st : Findings)
    (group : IngressPathKey × List IngressRef) : Findings :=
  if group.2.length < 2 then st
  else group.2.foldl (fun st ref =>
    let fk : FindingKey := ⟨ref.ns, ref.name, group.1.host⟩
    if fk ∈ st.1 then st
    else (st.1 ++ [fk], st.2 ++ [conflict r group.1 group.2 ref])) st

/-- `ruleNET006.Evaluate`, with the groups in this order. -/
def evaluateNET006 (r : Rule) (groups : PathOwners) : List Finding :=
  (groups.foldl (reportGroup r) ([], [])).2

/-- `NET006`. -/
def ruleNET006 : Rule where
  id := "NET006"
  name := "Duplicate Ingress Host"
  severity := severityCritical
  category := categoryNetworking


-- ======== the purpose

/-- The paths that a rule claims. One without a host claims them on `*`, and
one without paths claims the empty path. -/
def IngressRule.keys (rule : IngressRule) : List IngressPathKey :=
  match rule.http with
  | none => [⟨rule.hostKey, "", ""⟩]
  | some paths => paths.map fun p =>
    ⟨rule.hostKey, p.path, p.pathType.getD "Prefix"⟩

/-- What is claimed, by whom, as often as it is claimed. -/
def claims (ingresses : List Ingress) :
    List (IngressPathKey × IngressRef) :=
  ingresses.flatMap fun ing =>
    (ing.rules.flatMap IngressRule.keys).map fun key => (key, ing.ref)

/-- Of the paths that the ingress claims on the host, another ingress claims
one. -/
def Shared (ingresses : List Ingress) (ref : IngressRef) (host : String) :
    Prop :=
  ∃ key, key.host = host ∧ (key, ref) ∈ claims ingresses
    ∧ ∃ other, other ≠ ref ∧ (key, other) ∈ claims ingresses

def Finding.IsAbout (f : Finding) (ref : IngressRef) : Prop :=
  f.resource = ⟨"Ingress", ref.name, ref.ns⟩

structure Right (ingresses : List Ingress) (findings : List Finding) :
    Prop where
  reported : ∀ ref host,
    (∃ f ∈ findings, f.IsAbout ref ∧ f.details.lookup "host" = some host)
      ↔ Shared ingresses ref host
  once : (findings.map fun f =>
    (f.resource, f.details.lookup "host")).Nodup
  conflicts : ∀ f ∈ findings, ∀ ref, f.IsAbout ref →
    ∃ refs, f.details.lookup "conflicts" = some (joinRefs refs)
      ∧ ∀ o ∈ refs, o ≠ ref ∧ ∃ ing ∈ ingresses, ing.ref = o

-- ======== the groups

variable {ingresses : List Ingress} {groups : PathOwners} {r : Rule}
variable {key : IngressPathKey} {ref : IngressRef} {host : String}
variable {refs : List IngressRef}

theorem ownRule_eq (ref : IngressRef) (m : PathOwners)
    (rule : IngressRule) :
    ownRule ref m rule
      = (rule.keys.map fun key => (key, ref)).foldl Group.add m := by
  unfold ownRule IngressRule.keys
  cases rule.http with
  | none => rfl
  | some paths => simp only [List.foldl_map]

theorem ownIngress_eq (m : PathOwners) (ing : Ingress) :
    ownIngress m ing
      = ((ing.rules.flatMap IngressRule.keys).map fun key =>
          (key, ing.ref)).foldl Group.add m := by
  unfold ownIngress
  induction ing.rules generalizing m with
  | nil => rfl
  | cons rule rules ih =>
    rw [List.foldl_cons, ih, ownRule_eq, List.flatMap_cons,
      List.map_append, List.foldl_append]

theorem pathOwners_eq (ingresses : List Ingress) :
    pathOwners ingresses = Group.of (claims ingresses) := by
  have h : ∀ m : PathOwners, ingresses.foldl ownIngress m
      = (claims ingresses).foldl Group.add m := by
    unfold claims
    induction ingresses with
    | nil => exact fun m => rfl
    | cons ing ingresses ih =>
      intro m
      rw [List.foldl_cons, ih, ownIngress_eq, List.flatMap_cons,
        List.foldl_append]
  exact h []

theorem mem_groups (hperm : groups.Perm (pathOwners ingresses)) :
    (key, refs) ∈ groups
      ↔ refs = Group.values key (claims ingresses) ∧ refs ≠ [] := by
  rw [hperm.mem_iff, pathOwners_eq]
  exact Group.mem_of

theorem mem_of_claims (h : (key, ref) ∈ claims ingresses) :
    ∃ ing ∈ ingresses, ing.ref = ref := by
  obtain ⟨ing, hing, h⟩ := List.mem_flatMap.mp h
  obtain ⟨_, _, heq⟩ := List.mem_map.mp h
  exact ⟨ing, hing, (Prod.mk.inj heq).2⟩

-- ======== the findings

/-- Groups of more than one, each with each of its ingresses. -/
def candidates (groups : PathOwners) :
    List ((IngressPathKey × List IngressRef) × IngressRef) :=
  (groups.filter fun g => 2 ≤ g.2.length).flatMap fun g =>
    g.2.map fun ref => (g, ref)

theorem foldl_reportGroup (r : Rule) (groups : PathOwners) (st : Findings) :
    groups.foldl (reportGroup r) st
      = (candidates groups).foldl (Group.keep
          (fun c => ⟨c.2.ns, c.2.name, c.1.1.host⟩)
          (fun c => conflict r c.1.1 c.1.2 c.2)) st := by
  induction groups generalizing st with
  | nil => rfl
  | cons g groups ih =>
    rw [List.foldl_cons, ih]
    unfold candidates reportGroup
    by_cases hlt : g.2.length < 2
    · rw [if_pos hlt, List.filter_cons_of_neg (by
        show ¬decide (2 ≤ g.2.length) = true
        rw [decide_eq_true_iff]
        omega)]
    · rw [if_neg hlt, List.filter_cons_of_pos (by
        show decide (2 ≤ g.2.length) = true
        rw [decide_eq_true_iff]
        omega), List.flatMap_cons, List.foldl_append, List.foldl_map]
      rfl

theorem mem_candidates (hperm : groups.Perm (pathOwners ingresses)) :
    ((key, refs), ref) ∈ candidates groups
      ↔ refs = Group.values key (claims ingresses)
        ∧ (key, ref) ∈ claims ingresses ∧ 2 ≤ refs.length := by
  unfold candidates
  rw [List.mem_flatMap]
  constructor
  · rintro ⟨g, hg, hc⟩
    obtain ⟨hg, hlen⟩ := List.mem_filter.mp hg
    obtain ⟨ref', href, heq⟩ := List.mem_map.mp hc
    obtain ⟨rfl, rfl⟩ := Prod.mk.inj heq
    obtain ⟨hrefs, -⟩ := (mem_groups hperm).mp hg
    refine ⟨hrefs, ?_, of_decide_eq_true hlen⟩
    exact Group.mem_values.mp (hrefs ▸ href)
  · intro ⟨hrefs, href, hlen⟩
    have href : ref ∈ refs := hrefs ▸ Group.mem_values.mpr href
    have hg := (mem_groups hperm).mpr ⟨hrefs, List.ne_nil_of_mem href⟩
    exact ⟨(key, refs), List.mem_filter.mpr ⟨hg, decide_eq_true hlen⟩,
      List.mem_map.mpr ⟨ref, href, rfl⟩⟩

theorem conflict_isAbout {ref' : IngressRef} :
    (conflict r key refs ref).IsAbout ref' ↔ ref = ref' := by
  obtain ⟨ns, name⟩ := ref
  obtain ⟨ns', name'⟩ := ref'
  unfold Finding.IsAbout conflict makeFinding
  simp [and_comm]

theorem conflict_host :
    (conflict r key refs ref).details.lookup "host" = some key.host := by
  simp [conflict, makeFinding]

theorem conflict_conflicts :
    (conflict r key refs ref).details.lookup "conflicts"
      = some (joinRefs (others refs ref)) := by
  simp [conflict, makeFinding, List.lookup_cons]

/-- What is reported, whatever the order of the groups. -/
structure Reported (r : Rule) (ingresses : List Ingress)
    (findings : List Finding) : Prop where
  source : ∀ f ∈ findings, ∃ key ref, (key, ref) ∈ claims ingresses
    ∧ 2 ≤ (Group.values key (claims ingresses)).length
    ∧ f = conflict r key (Group.values key (claims ingresses)) ref
  found : ∀ key ref, (key, ref) ∈ claims ingresses →
    2 ≤ (Group.values key (claims ingresses)).length →
    ∃ f ∈ findings, f.IsAbout ref
      ∧ f.details.lookup "host" = some key.host
  once : (findings.map fun f =>
    (f.resource, f.details.lookup "host")).Nodup

theorem evaluateNET006_reported (r : Rule)
    (hperm : groups.Perm (pathOwners ingresses)) :
    Reported r ingresses (evaluateNET006 r groups) := by
  obtain ⟨firsts, hsub, hnodup, hall, heq⟩ := Group.exists_firsts
    (fun c : (IngressPathKey × List IngressRef) × IngressRef =>
      (⟨c.2.ns, c.2.name, c.1.1.host⟩ : FindingKey))
    (fun c => conflict r c.1.1 c.1.2 c.2) (candidates groups)
  have hfindings : evaluateNET006 r groups
      = firsts.map fun c => conflict r c.1.1 c.1.2 c.2 := by
    unfold evaluateNET006
    rw [foldl_reportGroup, heq]
  rw [hfindings]
  constructor
  case source =>
    intro f hf
    obtain ⟨⟨⟨key, refs⟩, ref⟩, hc, rfl⟩ := List.mem_map.mp hf
    obtain ⟨rfl, hclaim, hlen⟩ := (mem_candidates hperm).mp (hsub.subset hc)
    exact ⟨key, ref, hclaim, hlen, rfl⟩
  case found =>
    intro key ref hclaim hlen
    obtain ⟨⟨⟨key', refs⟩, ref'⟩, hc, hkey⟩ := List.mem_map.mp
      (hall _ ((mem_candidates hperm).mpr ⟨rfl, hclaim, hlen⟩))
    obtain ⟨hns, hname, hhost⟩ := FindingKey.mk.inj hkey
    refine ⟨_, List.mem_map.mpr ⟨_, hc, rfl⟩, conflict_isAbout.mpr ?_,
      conflict_host.trans (congrArg some hhost)⟩
    obtain ⟨ns, name⟩ := ref
    obtain ⟨ns', name'⟩ := ref'
    exact IngressRef.mk.injEq .. ▸ ⟨hns, hname⟩
  case once =>
    rw [List.map_map]
    refine List.Nodup.of_map (fun k : ResourceRef × Option String =>
      (⟨k.1.ns, k.1.name, k.2.getD ""⟩ : FindingKey)) ?_
    rw [List.map_map]
    refine (congrArg List.Nodup (List.map_congr_left fun c _ => ?_)).mpr
      hnodup
    show (⟨_, _, ((conflict r c.1.1 c.1.2 c.2).details.lookup "host").getD
      ""⟩ : FindingKey) = _
    rw [conflict_host]
    rfl

-- ======== the result

/-- An ingress whose path is claimed twice shares the path, or has claimed
it twice itself. -/
theorem other_or_twice {l : List IngressRef} (hlen : 2 ≤ l.length) :
    (∃ other, other ≠ ref ∧ other ∈ l) ∨ 2 ≤ l.count ref := by
  by_cases hall : ∀ other ∈ l, ref = other
  · exact .inr (by rwa [List.count_eq_length.mpr hall])
  · simp only [not_forall] at hall
    obtain ⟨other, hother, hne⟩ := hall
    exact .inl ⟨other, Ne.symm hne, hother⟩

/-- The findings are right exactly if an ingress that claims a path twice
shares the host with another one, by that path or by another. -/
theorem duplicates_right_iff (r : Rule)
    (hperm : groups.Perm (pathOwners ingresses)) :
    Right ingresses (evaluateNET006 r groups)
      ↔ ∀ key ref, 2 ≤ (claims ingresses).count (key, ref) →
        Shared ingresses ref key.host := by
  have h := evaluateNET006_reported r hperm
  constructor
  · intro hright key ref htwice
    apply (hright.reported ref key.host).mp
    apply h.found key ref (List.count_pos_iff.mp (by omega))
    rw [← Group.count_values] at htwice
    exact Nat.le_trans htwice List.count_le_length
  · intro hshared
    constructor
    case reported =>
      intro ref host
      constructor
      · rintro ⟨f, hf, habout, hhost⟩
        obtain ⟨key, ref', hclaim, hlen, rfl⟩ := h.source f hf
        obtain rfl := conflict_isAbout.mp habout
        obtain rfl := Option.some.inj (conflict_host.symm.trans hhost)
        rcases other_or_twice hlen with ⟨other, hne, hother⟩ | htwice
        · exact ⟨key, rfl, hclaim, other, hne, Group.mem_values.mp hother⟩
        · rw [Group.count_values] at htwice
          exact hshared key _ htwice
      · rintro ⟨key, rfl, hclaim, other, hne, hother⟩
        apply h.found key ref hclaim
        have hsub : [other, ref].Subperm
            (Group.values key (claims ingresses)) := by
          apply List.subperm_of_subset (by simp [hne])
          intro o ho
          rcases List.mem_pair.mp ho with rfl | rfl
          · exact Group.mem_values.mpr hother
          · exact Group.mem_values.mpr hclaim
        exact hsub.length_le
    case once => exact h.once
    case conflicts =>
      intro f hf ref habout
      obtain ⟨key, ref', _, _, rfl⟩ := h.source f hf
      obtain rfl := conflict_isAbout.mp habout
      refine ⟨_, conflict_conflicts, fun o ho => ?_⟩
      obtain ⟨ho, hne⟩ := List.mem_filter.mp ho
      exact ⟨of_decide_eq_true hne,
        mem_of_claims (Group.mem_values.mp ho)⟩

/-- An ingress that claims a path twice, which another one claims too. -/
def claimedByTwo : List Ingress :=
  [⟨"default", "web", [⟨"", some [⟨"/", none⟩]⟩, ⟨"", some [⟨"/", none⟩]⟩]⟩,
    ⟨"default", "api", [⟨"", some [⟨"/", some "Prefix"⟩]⟩]⟩]

theorem duplicates_right_two :
    Right claimedByTwo
      (evaluateNET006 ruleNET006 (pathOwners claimedByTwo)) := by
  refine (duplicates_right_iff _ (List.Perm.refl _)).mpr ?_
  intro key ref htwice
  have hmem : (key, ref) ∈ claims claimedByTwo :=
    List.count_pos_iff.mp (Nat.lt_of_lt_of_le Nat.two_pos htwice)
  have hall : ∀ c ∈ claims claimedByTwo, c.1 = ⟨"*", "/", "Prefix"⟩
      ∧ (c.2 ≠ ⟨"default", "api"⟩ ∨ c.2 ≠ ⟨"default", "web"⟩) := by decide
  obtain ⟨hkey, hne | hne⟩ := hall _ hmem
  · refine ⟨key, rfl, hmem, ⟨"default", "api"⟩, hne.symm, ?_⟩
    rw [show key = _ from hkey]
    decide
  · refine ⟨key, rfl, hmem, ⟨"default", "web"⟩, hne.symm, ?_⟩
    rw [show key = _ from hkey]
    decide

/-- An ingress that claims a path twice, and no other one. -/
def claimedByOne : List Ingress :=
  [⟨"default", "web", [⟨"example.com", some [⟨"/", some "Prefix"⟩]⟩,
    ⟨"example.com", some [⟨"/", some "Prefix"⟩]⟩]⟩]

/-- It is reported to be in conflict, with nothing. -/
theorem lone_ingress_reported :
    ¬Right claimedByOne
      (evaluateNET006 ruleNET006 (pathOwners claimedByOne)) := by
  intro hright
  obtain ⟨key, _, hmem, other, hne, hother⟩ :=
    (hright.reported ⟨"default", "web"⟩ "example.com").mp
      ⟨_, List.mem_singleton.mpr rfl, rfl, conflict_host⟩
  have hall : ∀ c ∈ claims claimedByOne, c.2 = ⟨"default", "web"⟩ := by
    decide
  exact hne (hall _ hother)

end IssueDetector
