/-
What the trace of a permission is worth.

A link grants exactly if some rule is bound to a subject, and the trace is
content with both (`trace_grants_iff`). So it goes wrong in two ways. It
takes rules that Kubernetes does not: one without groups, one for named
objects where the request names none, and one that is bound to a service
account without a namespace, whichever the request's is. And it does not
take a rule for `*/subresource` (`trace_agrees_iff`).
-/
import Kubikles.Rbac.Trace

namespace Rbac

variable {c : Cluster} {req : RBACCheckRequest}

-- ======== matchers

theorem subjectMatches_iff (s : Subject) :
    subjectMatches req s = true ↔ s.Suffices req := by
  unfold subjectMatches
  constructor
  · intro h
    cases hkind : req.subjectKind with
    | serviceAccount =>
      simp only [hkind, Bool.and_eq_true, Bool.or_eq_true,
        decide_eq_true_eq] at h
      exact ⟨h.1.1.trans hkind.symm, h.1.2, fun _ => h.2⟩
    | user =>
      simp only [hkind, Bool.and_eq_true, decide_eq_true_eq] at h
      refine ⟨h.1.trans hkind.symm, h.2, fun hsa => ?_⟩
      rw [h.1] at hsa
      cases hsa
    | group =>
      simp only [hkind, Bool.and_eq_true, decide_eq_true_eq] at h
      refine ⟨h.1.trans hkind.symm, h.2, fun hsa => ?_⟩
      rw [h.1] at hsa
      cases hsa
  · intro h
    cases hkind : req.subjectKind with
    | serviceAccount =>
      have hsa := h.kind.trans hkind
      simp [hsa, h.name, h.ns hsa]
    | user => simp [h.kind, hkind, h.name]
    | group => simp [h.kind, hkind, h.name]

theorem subjectMatcher_iff (subjects : List Subject) :
    subjectMatcher req subjects = true
      ↔ ∃ s ∈ subjects, s.Suffices req := by
  unfold subjectMatcher
  rw [List.any_eq_true]
  simp only [subjectMatches_iff]

theorem any_listed (l : List String) (x : String) :
    (l.any fun y => y = "*" || y = x) = true ↔ "*" ∈ l ∨ x ∈ l := by
  rw [List.any_eq_true]
  constructor
  · rintro ⟨y, hy, heq⟩
    rw [Bool.or_eq_true, decide_eq_true_eq, decide_eq_true_eq] at heq
    rcases heq with rfl | rfl
    · exact Or.inl hy
    · exact Or.inr hy
  · rintro (h | h)
    · exact ⟨"*", h, by simp⟩
    · exact ⟨x, h, by simp⟩

theorem length_pos_iff (l : List String) :
    decide (l.length > 0) = true ↔ l ≠ [] := by
  rw [decide_eq_true_eq]
  exact List.length_pos_iff

theorem roleGrantsAccess_of_suffices {rule : PolicyRule}
    (h : rule.Suffices req) (rules : List PolicyRule) :
    roleGrantsAccess req (rule :: rules)
      = (true, formatPolicyRule rule) := by
  have hname : (rule.resourceNames.any fun n => n = req.resourceName) = true
      ↔ req.resourceName ∈ rule.resourceNames := by simp
  unfold roleGrantsAccess
  dsimp only
  rw [if_neg, if_neg, if_neg, if_neg]
  · rw [Bool.and_eq_true, Bool.and_eq_true, Bool.not_eq_true',
      ← Bool.not_eq_true, hname, length_pos_iff, decide_eq_true_eq]
    rintro ⟨⟨hne, hsome⟩, hnot⟩
    exact (h.name.resolve_left hne).elim hsome hnot
  · rw [Bool.not_eq_true', ← Bool.not_eq_true, any_listed]
    exact not_not_intro h.verb
  · rw [Bool.not_eq_true', ← Bool.not_eq_true, any_listed]
    exact not_not_intro h.listed
  · rw [Bool.and_eq_true, Bool.not_eq_true', ← Bool.not_eq_true, any_listed,
      length_pos_iff]
    rintro ⟨hnot, hsome⟩
    exact hnot (h.group.resolve_left hsome)

theorem roleGrantsAccess_of_not_suffices {rule : PolicyRule}
    (h : ¬ rule.Suffices req) (rules : List PolicyRule) :
    roleGrantsAccess req (rule :: rules) = roleGrantsAccess req rules := by
  have hname : (rule.resourceNames.any fun n => n = req.resourceName) = true
      ↔ req.resourceName ∈ rule.resourceNames := by simp
  rw [roleGrantsAccess]
  split
  · rfl
  next hgroup =>
    split
    · rfl
    next hlisted =>
      split
      · rfl
      next hverb =>
        split
        · rfl
        next hnames =>
          rw [Bool.and_eq_true, Bool.not_eq_true', ← Bool.not_eq_true,
            any_listed, length_pos_iff] at hgroup
          rw [Bool.not_eq_true', ← Bool.not_eq_true, any_listed,
            not_not] at hlisted hverb
          rw [Bool.and_eq_true, Bool.and_eq_true, Bool.not_eq_true',
            ← Bool.not_eq_true, hname, length_pos_iff,
            decide_eq_true_eq] at hnames
          refine absurd ⟨?_, hverb, hlisted, ?_⟩ h
          · by_cases hempty : rule.apiGroups = []
            · exact Or.inl hempty
            · exact Or.inr (not_not.mp fun hn => hgroup ⟨hn, hempty⟩)
          · by_cases hempty : rule.resourceNames = []
            · exact Or.inr (Or.inl hempty)
            · by_cases hreq : req.resourceName = ""
              · exact Or.inl hreq
              · exact Or.inr (Or.inr (not_not.mp
                  fun hn => hnames ⟨⟨hreq, hempty⟩, hn⟩))

theorem roleGrantsAccess_iff (rules : List PolicyRule) :
    (roleGrantsAccess req rules).1 = true
      ↔ ∃ rule ∈ rules, rule.Suffices req := by
  induction rules with
  | nil => simp [roleGrantsAccess]
  | cons rule rules ih =>
    rw [List.exists_mem_cons_iff, ← ih]
    by_cases h : rule.Suffices req
    · rw [roleGrantsAccess_of_suffices h]
      exact iff_of_true rfl (Or.inl h)
    · rw [roleGrantsAccess_of_not_suffices h]
      exact (or_iff_right h).symm

-- ======== links

theorem grants_pair {grants : Bool} {link role : RBACChainLink}
    (hlink : link.grants = grants) :
    (∃ l ∈ link :: (if grants then [role] else []), l.grants = true)
      ↔ grants = true := by
  cases grants with
  | true => exact iff_of_true ⟨link, List.mem_cons_self, hlink⟩ rfl
  | false => simp [hlink]

/-- A ClusterRoleBinding has a link that grants. -/
theorem clusterRoleBindingLinks_iff (crb : ClusterRoleBinding) :
    (∃ link ∈ clusterRoleBindingLinks c.clientset req crb,
        link.grants = true)
      ↔ (∃ s ∈ crb.subjects, s.Suffices req) ∧ ∃ cr ∈ c.clusterRoles,
        crb.roleRef = ⟨.clusterRole, cr.name⟩
          ∧ ∃ rule ∈ cr.rules, rule.Suffices req := by
  obtain ⟨name, subjects, kind, ref⟩ := crb
  unfold clusterRoleBindingLinks
  dsimp only
  rw [← subjectMatcher_iff]
  by_cases hs : subjectMatcher req subjects = true
  · rw [if_pos hs, and_iff_right hs]
    cases kind with
    | role =>
      refine iff_of_false (by simp) ?_
      rintro ⟨cr, _, href, _⟩
      cases href
    | clusterRole =>
      cases hget : c.clientset.getClusterRole ref with
      | none =>
        refine iff_of_false (by simp) ?_
        rintro ⟨cr, hcr, href, _⟩
        cases href
        exact Keyed.find_eq_none_iff.mp hget cr hcr rfl
      | some cr =>
        dsimp only
        rw [grants_pair rfl, roleGrantsAccess_iff]
        constructor
        · intro hrules
          obtain ⟨hcr, rfl⟩ := c.clusterRole_distinct.find_iff.mp hget
          exact ⟨cr, hcr, rfl, hrules⟩
        · rintro ⟨cr', hcr', href, hrules⟩
          cases href
          have hget' := c.clusterRole_distinct.find_iff.mpr
            ⟨hcr', rfl⟩
          rw [Option.some.inj (hget.symm.trans hget')]
          exact hrules
  · rw [if_neg hs]
    exact iff_of_false (by simp) fun h => hs h.1

/-- What the role of a RoleBinding grants. -/
theorem roleBindingGrants_iff (rb : RoleBinding) :
    (roleBindingGrants c.clientset req rb).1 = true
      ↔ (∃ cr ∈ c.clusterRoles, rb.roleRef = ⟨.clusterRole, cr.name⟩
          ∧ ∃ rule ∈ cr.rules, rule.Suffices req)
        ∨ ∃ r ∈ c.roles, rb.roleRef = ⟨.role, r.name⟩ ∧ r.ns = req.ns
          ∧ ∃ rule ∈ r.rules, rule.Suffices req := by
  obtain ⟨ns, name, subjects, kind, ref⟩ := rb
  unfold roleBindingGrants
  cases kind with
  | clusterRole =>
    dsimp only
    cases hget : c.clientset.getClusterRole ref with
    | none =>
      refine iff_of_false (by simp) ?_
      rintro (⟨cr, hcr, href, _⟩ | ⟨_, _, href, _⟩)
      · cases href
        exact Keyed.find_eq_none_iff.mp hget cr hcr rfl
      · cases href
    | some cr =>
      dsimp only
      rw [roleGrantsAccess_iff]
      constructor
      · intro hrules
        obtain ⟨hcr, rfl⟩ := c.clusterRole_distinct.find_iff.mp hget
        exact Or.inl ⟨cr, hcr, rfl, hrules⟩
      · rintro (⟨cr', hcr', href, hrules⟩ | ⟨_, _, href, _⟩)
        · cases href
          have hget' := c.clusterRole_distinct.find_iff.mpr
            ⟨hcr', rfl⟩
          rw [Option.some.inj (hget.symm.trans hget')]
          exact hrules
        · cases href
  | role =>
    dsimp only
    cases hget : c.clientset.getRole req.ns ref with
    | none =>
      refine iff_of_false (by simp) ?_
      rintro (⟨_, _, href, _⟩ | ⟨r, hr, href, hns, _⟩)
      · cases href
      · cases href
        refine Keyed.find_eq_none_iff.mp hget r hr ?_
        rw [Role.key, hns]
    | some r =>
      dsimp only
      rw [roleGrantsAccess_iff]
      constructor
      · intro hrules
        obtain ⟨hr, hkey⟩ := c.role_distinct.find_iff.mp hget
        obtain ⟨hns, rfl⟩ := Prod.mk.inj hkey
        exact Or.inr ⟨r, hr, rfl, hns, hrules⟩
      · rintro (⟨_, _, href, _⟩ | ⟨r', hr', href, hns, hrules⟩)
        · cases href
        · cases href
          have hget' : c.clientset.getRole req.ns r'.name = some r' :=
            c.role_distinct.find_iff.mpr
              ⟨hr', by rw [Role.key, hns]⟩
          rw [Option.some.inj (hget.symm.trans hget')]
          exact hrules

theorem roleBindingLinks_iff (rb : RoleBinding) :
    (∃ link ∈ roleBindingLinks c.clientset req rb, link.grants = true)
      ↔ (∃ s ∈ rb.subjects, s.Suffices req)
        ∧ (roleBindingGrants c.clientset req rb).1 = true := by
  unfold roleBindingLinks
  rw [← subjectMatcher_iff]
  by_cases hs : subjectMatcher req rb.subjects = true
  · rw [if_pos hs, and_iff_right hs]
    exact grants_pair rfl
  · rw [if_neg hs]
    exact iff_of_false (by simp) fun h => hs h.1

theorem trace_grants_of_role {rb : RoleBinding} (hrb : rb ∈ c.roleBindings)
    (hne : req.ns ≠ "") (hns : rb.ns = req.ns)
    (hs : ∃ s ∈ rb.subjects, s.Suffices req)
    (hrole : (roleBindingGrants c.clientset req rb).1 = true) :
    ∃ link ∈ traceRBACChain (some c.clientset) req, link.grants = true := by
  obtain ⟨link, hlink, hgrants⟩ := (roleBindingLinks_iff rb).mpr ⟨hs, hrole⟩
  refine ⟨link, List.mem_append_right _ ?_, hgrants⟩
  rw [if_pos hne]
  exact List.mem_flatMap.mpr
    ⟨rb, List.mem_filter.mpr ⟨hrb, decide_eq_true hns⟩, hlink⟩

/-- A link grants exactly if the trace is content with a rule that is bound
to a subject, and with the subject. -/
theorem trace_grants_iff :
    (∃ link ∈ traceRBACChain (some c.clientset) req, link.grants = true)
      ↔ ∃ ns s rule, Bound c req ns s rule ∧ s.Suffices req
        ∧ rule.Suffices req := by
  constructor
  · rintro ⟨link, hlink, hgrants⟩
    rcases List.mem_append.mp hlink with hlink | hlink
    · obtain ⟨crb, hcrb, hlink⟩ := List.mem_flatMap.mp hlink
      obtain ⟨⟨s, hs, hsuffices⟩, cr, hcr, href, rule, hrule, hrules⟩ :=
        (clusterRoleBindingLinks_iff crb).mp ⟨link, hlink, hgrants⟩
      exact ⟨"", s, rule, .cluster hcrb hs hcr href hrule, hsuffices,
        hrules⟩
    · split at hlink
      next hne =>
        obtain ⟨rb, hrb, hlink⟩ := List.mem_flatMap.mp hlink
        obtain ⟨hrb, hns⟩ := List.mem_filter.mp hrb
        have hns := of_decide_eq_true hns
        obtain ⟨⟨s, hs, hsuffices⟩, hrole⟩ :=
          (roleBindingLinks_iff rb).mp ⟨link, hlink, hgrants⟩
        rcases (roleBindingGrants_iff rb).mp hrole with
          ⟨cr, hcr, href, rule, hrule, hrules⟩
          | ⟨r, hr, href, hrns, rule, hrule, hrules⟩
        · exact ⟨rb.ns, s, rule,
            .toClusterRole hrb hne hns hs hcr href hrule, hsuffices,
            hrules⟩
        · exact ⟨rb.ns, s, rule,
            .toRole hrb hne hns hs hr (hrns.trans hns.symm) href hrule,
            hsuffices, hrules⟩
      next => cases hlink
  · rintro ⟨ns, s, rule, hbound, hsuffices, hrules⟩
    cases hbound with
    | cluster hcrb hs hcr href hrule =>
      obtain ⟨link, hlink, hgrants⟩ :=
        (clusterRoleBindingLinks_iff _).mpr
          ⟨⟨s, hs, hsuffices⟩, _, hcr, href, rule, hrule, hrules⟩
      exact ⟨link, List.mem_append_left _
        (List.mem_flatMap.mpr ⟨_, hcrb, hlink⟩), hgrants⟩
    | toClusterRole hrb hne hns hs hcr href hrule =>
      exact trace_grants_of_role hrb hne hns ⟨s, hs, hsuffices⟩
        ((roleBindingGrants_iff _).mpr
          (Or.inl ⟨_, hcr, href, rule, hrule, hrules⟩))
    | toRole hrb hne hns hs hr hrns href hrule =>
      exact trace_grants_of_role hrb hne hns ⟨s, hs, hsuffices⟩
        ((roleBindingGrants_iff _).mpr
          (Or.inr ⟨_, hr, href, hrns.trans hns, rule, hrule, hrules⟩))

-- ======== agreement

/-- What a subject and a rule that the trace is content with are worth. -/
theorem suffices_iff {ns : String} {s : Subject} {rule : PolicyRule} :
    s.Suffices req ∧ rule.Suffices req
      ↔ (s.Denotes ns req ∧ rule.AllowsPlainly req)
        ∨ (s.Suffices req ∧ rule.Suffices req ∧ Lenient req ns s rule) := by
  constructor
  · rintro ⟨hs, hrule⟩
    by_cases hl : Lenient req ns s rule
    · exact Or.inr ⟨hs, hrule, hl⟩
    · unfold Lenient at hl
      rw [not_or, not_or] at hl
      obtain ⟨hgroups, hnames, haccount⟩ := hl
      refine Or.inl ⟨⟨hs.kind, hs.name, fun hsa => ?_⟩,
        ⟨hrule.group.resolve_left hgroups, hrule.verb, Or.inl hrule.listed,
          ?_⟩, hrule.listed⟩
      · by_cases hempty : s.ns = ""
        · rw [if_pos hempty]
          have hns : ns ≠ "" ∧ ns = req.subjectNamespace := by
            refine ⟨fun h => ?_, ?_⟩
            · exact haccount ⟨hsa, hempty, Or.inl h⟩
            · exact not_not.mp fun h => haccount ⟨hsa, hempty, Or.inr h⟩
          exact ⟨hns.2 ▸ hns.1, hns.2⟩
        · rw [if_neg hempty]
          have hns := (hs.ns hsa).resolve_left hempty
          exact ⟨hns ▸ hempty, hns⟩
      · by_cases hempty : rule.resourceNames = []
        · exact Or.inl hempty
        · by_cases hreq : req.resourceName = ""
          · rw [hreq]
            exact Or.inr (not_not.mp fun h => hnames ⟨hreq, hempty, h⟩)
          · exact (hrule.name.resolve_left hreq)
  · rintro (⟨hs, hrule⟩ | ⟨hs, hrule, -⟩)
    · refine ⟨⟨hs.kind, hs.name, fun hsa => ?_⟩,
        ⟨Or.inr hrule.group, hrule.verb, hrule.listed,
          Or.inr hrule.name⟩⟩
      by_cases hempty : s.ns = ""
      · exact Or.inl hempty
      · have hns := (hs.ns hsa).2
        rw [if_neg hempty] at hns
        exact Or.inr hns
    · exact ⟨hs, hrule⟩

theorem allows_iff {rule : PolicyRule} :
    rule.Allows req
      ↔ rule.AllowsPlainly req ∨ rule.AllowsBySubresource req := by
  constructor
  · intro h
    by_cases hlisted : "*" ∈ rule.resources ∨ req.resource ∈ rule.resources
    · exact Or.inl ⟨h, hlisted⟩
    · exact Or.inr ⟨h, hlisted⟩
  · rintro (h | h)
    · exact h.toAllows
    · exact h.toAllows

/-- The trace has a link that grants exactly if Kubernetes allows the
request through a binding to its subject, if and only if a rule allows it
by the resource itself, or a rule that the trace alone takes is there
exactly if one is that allows it by the subresource alone. -/
theorem trace_agrees_iff (c : Cluster) (req : RBACCheckRequest) :
    ((∃ link ∈ traceRBACChain (some c.clientset) req, link.grants = true)
        ↔ Allows c req)
      ↔ (Plain c req ∨ (TraceAlone c req ↔ BySubresource c req)) := by
  have htrace : (∃ link ∈ traceRBACChain (some c.clientset) req,
      link.grants = true) ↔ Plain c req ∨ TraceAlone c req := by
    rw [trace_grants_iff]
    constructor
    · rintro ⟨ns, s, rule, hbound, h⟩
      rcases suffices_iff.mp h with h | h
      · exact Or.inl ⟨ns, s, rule, hbound, h⟩
      · exact Or.inr ⟨ns, s, rule, hbound, h⟩
    · rintro (⟨ns, s, rule, hbound, h⟩ | ⟨ns, s, rule, hbound, h⟩)
      · exact ⟨ns, s, rule, hbound, suffices_iff.mpr (Or.inl h)⟩
      · exact ⟨ns, s, rule, hbound, suffices_iff.mpr (Or.inr h)⟩
  have hallows : Allows c req ↔ Plain c req ∨ BySubresource c req := by
    constructor
    · rintro ⟨ns, s, rule, hbound, hs, h⟩
      rcases allows_iff.mp h with h | h
      · exact Or.inl ⟨ns, s, rule, hbound, hs, h⟩
      · exact Or.inr ⟨ns, s, rule, hbound, hs, h⟩
    · rintro (⟨ns, s, rule, hbound, hs, h⟩ | ⟨ns, s, rule, hbound, hs, h⟩)
      · exact ⟨ns, s, rule, hbound, hs, h.toAllows⟩
      · exact ⟨ns, s, rule, hbound, hs, h.toAllows⟩
  rw [htrace, hallows]
  by_cases hplain : Plain c req
  · exact iff_of_true (iff_of_true (Or.inl hplain) (Or.inl hplain))
      (Or.inl hplain)
  · rw [or_iff_right hplain, or_iff_right hplain, or_iff_right hplain]

/-- A role of those who may read the logs of every object, bound to a
user. -/
def logReaders : Cluster where
  clusterRoles :=
    [⟨"log-reader", [{ apiGroups := [""], resources := ["*/log"]
                       verbs := ["get"] }]⟩]
  clusterRoleBindings :=
    [⟨"readers", [⟨.user, "ada", ""⟩], ⟨.clusterRole, "log-reader"⟩⟩]
  clusterRole_distinct := by unfold Keyed.Distinct; decide
  role_distinct := Keyed.distinct_nil

def adaReadsLogs : RBACCheckRequest where
  subjectKind := .user
  subjectName := "ada"
  verb := "get"
  resource := "pods/log"

/-- Kubernetes lets her, and no link of the trace grants it. -/
theorem log_reader_untraced :
    ¬ ((∃ link ∈ traceRBACChain (some logReaders.clientset) adaReadsLogs,
        link.grants = true) ↔ Allows logReaders adaReadsLogs) := by
  intro h
  have hallows : Allows logReaders adaReadsLogs := by
    refine ⟨"", ⟨.user, "ada", ""⟩, _,
      .cluster List.mem_cons_self List.mem_cons_self List.mem_cons_self rfl
        List.mem_cons_self, ⟨rfl, rfl, fun hsa => ?_⟩,
      ⟨Or.inr (by decide), Or.inr (by decide),
        Or.inr ⟨"log", by decide, by decide⟩, Or.inl rfl⟩⟩
    cases hsa
  obtain ⟨link, hlink, hgrants⟩ := h.mpr hallows
  have hnone : ∀ link ∈ traceRBACChain (some logReaders.clientset)
      adaReadsLogs, link.grants = false := by decide
  rw [hnone link hlink] at hgrants
  cases hgrants

end Rbac
