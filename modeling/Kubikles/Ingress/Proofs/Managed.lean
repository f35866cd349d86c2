/-
What the hosts file holds, beside what the state says.

# The argument

An update that goes through leaves the hostnames of the update in the
hosts file (`managed_update`), so behind a `Start` or a `RefreshHostnames`
that returns nil they are the hostnames of the state. The one exception is
an update of no hostnames, which does nothing: it is right only where
nothing was managed before. Each call is exact about it
(`call_matches_iff`), so a sequence of calls is.
-/
import Kubikles.Ingress.Proofs.Calls

namespace IngressForwardManager

open Machine
open Hosts (Host Entry)

variable {envs : List Env} {w w' : World} {names : List Text} {call : Call}
variable {acts : List (Call × List Env)} {out : List Return}

-- ======== the entries

theorem hostnames_entriesOf (names : List Text) :
    (entriesOf names).map Entry.hostname = names := by
  unfold entriesOf
  rw [List.map_map]
  exact List.map_id names

theorem entriesOf_eq_nil : entriesOf names = [] ↔ names = [] :=
  List.map_eq_nil_iff

theorem printed_entriesOf
    (h : Hosts.validateEntries (entriesOf names) = none) :
    ∀ e ∈ entriesOf names, e.Printed := by
  intro e he
  have hvalid := Hosts.valid_of_validateEntries h he
  obtain ⟨hplain, hne, hlength⟩ := Hosts.printed_of_valid hvalid
  obtain ⟨name, -, rfl⟩ := List.mem_map.mp he
  have hlocal : ∀ b ∈ localhost, Text.plain b = true :=
    List.all_eq_true.mp rfl
  refine ⟨hlocal, ⟨49, rfl, by decide⟩, hplain, hne, ?_⟩
  have hnine : localhost.length = 9 := rfl
  have hmax : Hosts.maxScanTokenSize = 65536 := rfl
  unfold Entry.line
  rw [List.length_append, List.length_cons, hnine, hmax]
  have hlength : name.length ≤ 253 := hlength
  show 9 + (name.length + 1) < 65536
  omega

theorem managed_update {h : Host} {env : Hosts.Env}
    {httpsPort httpPort : Int} (hne : names ≠ [])
    (hdone : (h.addEntriesWithPortRedirect env (entriesOf names) httpsPort
      httpPort).2 = none) :
    (h.addEntriesWithPortRedirect env (entriesOf names) httpsPort
      httpPort).1.managed = entriesOf names := by
  rcases Hosts.addEntries_cases env (entriesOf names) httpsPort httpPort h
    with ⟨hnil, -⟩ | ⟨-, hvalid, hadd⟩ | ⟨-, err, hadd⟩
  · exact absurd (entriesOf_eq_nil.mp hnil) hne
  · rw [hadd]
    unfold Host.managed
    rw [Hosts.redirect_content]
    exact Hosts.managed_replaced h.content fun e he =>
      (printed_entriesOf hvalid e he).readable
  · rw [hadd] at hdone
    cases hdone

theorem update_nil (env : Hosts.Env) (httpsPort httpPort : Int) (h : Host) :
    h.addEntriesWithPortRedirect env (entriesOf []) httpsPort httpPort
      = (h, none) :=
  if_pos rfl

-- ======== the calls

def Matches (w : World) : Prop :=
  w.hosts.managed.map Entry.hostname = w.state.hostnames

/-- A refresh that finds no hostnames where there are managed ones. -/
def FindsNone (w : World) : Call × List Env → Prop
  | (.refreshHostnames namespaces, .go :: .listed listIngresses :: _) =>
    w.state.active = true
      ∧ collectIngressHostnames namespaces listIngresses = []
      ∧ w.hosts.managed ≠ []
  | _ => False

theorem calls_cases {act : Call × List Env}
    (h : calls act w = some (w', out)) :
    ∃ err, out = [⟨err, w'⟩] ∧ Returns act.2 act.1.frames w w' err := by
  obtain ⟨call, envs⟩ := act
  simp only [calls] at h
  split at h
  next w₁ out₁ hrun =>
    obtain ⟨err, hreplied, heq⟩ := Option.map_eq_some_iff.mp h
    obtain ⟨rfl, rfl⟩ := Prod.mk.inj heq
    exact ⟨err, rfl, out₁, hrun, hreplied⟩
  next => cases h

/-- A call that returns nil leaves hosts file and state in agreement,
where it is active and has updated the file, unless it found no
hostnames. -/
theorem call_matches_iff {err : Option Err}
    (h : Returns envs call.frames w w' err) :
    (err = none → w'.state.active = true →
      w'.state.hostsFileUpdated = true → Matches w')
      ↔ ¬ FindsNone w (call, envs) := by
  cases call with
  | start controller namespaces =>
    refine ⟨fun _ h => h, fun _ herr _ hflag => ?_⟩
    subst herr
    obtain ⟨-, t, env, -, -, hsome, hhosts, -, hnames, hupdated⟩ :=
      start_nil h
    unfold Matches
    rw [hhosts, hnames]
    unfold Told.update
    rw [managed_update hsome (hupdated.mp hflag), hostnames_entriesOf]
  | stop =>
    refine ⟨fun _ h => h, fun _ _ hactive _ => ?_⟩
    obtain ⟨-, hidle, hstopped⟩ := stop_spec h
    cases hw : w.state.active with
    | false =>
      rw [hidle hw, hw] at hactive
      cases hactive
    | true =>
      rw [(hstopped hw).1] at hactive
      cases hactive
  | refreshHostnames namespaces =>
    rcases refresh_spec h with ⟨hinactive, herr⟩ | ⟨hactive, hrest⟩
    · refine ⟨fun _ hfinds => ?_, fun _ hnil => absurd hnil herr⟩
      unfold FindsNone at hfinds
      split at hfinds
      next =>
        rw [hinactive] at hfinds
        cases hfinds.1
      next => exact hfinds
    · obtain ⟨listIngresses, env, envs', names, rfl, hnames, hdone⟩ :=
        hrest
      show _ ↔ ¬ (w.state.active = true
        ∧ collectIngressHostnames namespaces listIngresses = []
        ∧ w.hosts.managed ≠ [])
      rw [← hnames]
      by_cases hnil : names = []
      · rw [hnil] at hdone
        unfold Host.addEntries at hdone
        rw [update_nil] at hdone
        rcases hdone with ⟨e, he, -⟩ | ⟨-, rfl, hstate, hhosts⟩
        · cases he
        · have hmatches : Matches w' ↔ w.hosts.managed = [] := by
            unfold Matches
            rw [hstate, hhosts]
            exact List.map_eq_nil_iff
          rw [hmatches, hstate]
          constructor
          · rintro hmanaged ⟨-, -, hne⟩
            exact hne (hmanaged rfl hactive rfl)
          · intro hnot _ _ _
            by_contra hne
            exact hnot ⟨hactive, hnil, hne⟩
      · refine ⟨fun _ h => hnil h.2.1, fun _ herr _ _ => ?_⟩
        rcases hdone with ⟨e, -, hne⟩ | ⟨hadd, -, hstate, hhosts⟩
        · exact absurd herr hne
        · unfold Matches
          rw [hstate, hhosts]
          unfold Host.addEntries at hadd ⊢
          rw [managed_update hnil hadd, hostnames_entriesOf]

-- ======== sequences

/-- In a sequence of calls, each that returns nil with the forwarding
active and the hosts file updated leaves the hostnames of the state in the
hosts file, if and only if no `RefreshHostnames` finds no hostnames while
some are managed. -/
theorem managed_matches_iff (hrun : run calls w acts = some (w', out)) :
    (∀ r ∈ out, r.err = none → r.world.state.active = true →
      r.world.state.hostsFileUpdated = true → Matches r.world)
      ↔ Along calls (fun w act => ¬ FindsNone w act) w acts := by
  induction acts generalizing w out with
  | nil =>
    rw [run_nil, Option.some.injEq, Prod.mk.injEq] at hrun
    rw [← hrun.2]
    exact ⟨fun _ => trivial, fun _ r hr => absurd hr List.not_mem_nil⟩
  | cons act rest ih =>
    obtain ⟨w₁, o₁, o₂, hcall, hrest, rfl⟩ := run_cons_iff.mp hrun
    obtain ⟨err, rfl, hreturns⟩ := calls_cases hcall
    have hfirst := call_matches_iff hreturns
    have hlater := ih hrest
    constructor
    · intro hall w₂ o hcall'
      rw [hcall, Option.some.injEq, Prod.mk.injEq] at hcall'
      rw [← hcall'.1]
      refine ⟨hfirst.mp fun herr => ?_, hlater.mp fun r hr => ?_⟩
      · exact hall ⟨err, w₁⟩ (List.mem_cons_self ..) herr
      · exact hall r (List.mem_append_right _ hr)
    · intro halong r hr
      obtain ⟨hok, hlong⟩ := halong w₁ [⟨err, w₁⟩] hcall
      rcases List.mem_append.mp hr with hr | hr
      · rw [List.mem_singleton.mp hr]
        exact hfirst.mpr hok
      · exact hlater.mpr hlong r hr

/-- The ingress is deleted between a `Start` and a `RefreshHostnames`. -/
def emptiedCluster : List (Call × List Env) :=
  [(.start traefik [], startAnswers true),
    (.refreshHostnames [], refreshAnswers [])]

/-- The hostnames behind a call: in the hosts file, and shown. -/
def Return.hostnames (r : Return) : List Text × List Text :=
  (r.world.hosts.managed.map Entry.hostname, r.world.state.hostnames)

/-- The call has returned nil, and the hosts file is said to be
updated. -/
def Return.updated (r : Return) : Bool :=
  r.err = none && r.world.state.active && r.world.state.hostsFileUpdated

/-- Behind the refresh no hostnames are shown, and the hosts file still
has one. -/
theorem run_emptiedCluster :
    (run calls freshWorld emptiedCluster).map (fun p =>
        p.2.map fun r => (r.updated, r.hostnames))
      = some [(true, [appHost], [appHost]), (true, [appHost], [])] := by
  rfl

/-- The equivalence, of a cluster whose ingress is deleted. -/
theorem managed_matches_iff_emptied :
    ∃ w' out, run calls freshWorld emptiedCluster = some (w', out)
      ∧ ((∀ r ∈ out, r.err = none → r.world.state.active = true →
          r.world.state.hostsFileUpdated = true → Matches r.world)
        ↔ Along calls (fun w act => ¬ FindsNone w act) freshWorld
          emptiedCluster) := by
  obtain ⟨⟨w', out⟩, hrun, -⟩ :=
    Option.map_eq_some_iff.mp run_emptiedCluster
  exact ⟨w', out, hrun, managed_matches_iff hrun⟩

/-- A refresh that finds no hostnames leaves those of before in the hosts
file. -/
theorem refresh_keeps_old_hosts :
    ¬ ∀ (w w' : World) (acts : List (Call × List Env)) (out : List Return),
      w.state = {} → run calls w acts = some (w', out) →
        ∀ r ∈ out, r.err = none → r.world.state.active = true →
          r.world.state.hostsFileUpdated = true → Matches r.world := by
  intro h
  obtain ⟨⟨w', out⟩, hrun, hout⟩ :=
    Option.map_eq_some_iff.mp run_emptiedCluster
  have hmem : (true, [appHost], [])
      ∈ out.map fun r => (r.updated, r.hostnames) := by
    rw [hout]
    exact List.mem_cons_of_mem _ (List.mem_singleton_self _)
  obtain ⟨r, hr, heq⟩ := List.mem_map.mp hmem
  obtain ⟨hupdated, hnames⟩ := Prod.mk.inj heq
  unfold Return.updated at hupdated
  rw [Bool.and_eq_true, Bool.and_eq_true, decide_eq_true_eq] at hupdated
  obtain ⟨⟨herr, hactive⟩, hflag⟩ := hupdated
  have hmatches := h freshWorld w' emptiedCluster out rfl hrun r hr herr
    hactive hflag
  obtain ⟨hmanaged, hshown⟩ := Prod.mk.inj hnames
  unfold Matches at hmatches
  rw [hmanaged, hshown] at hmatches
  cases hmatches

end IngressForwardManager
