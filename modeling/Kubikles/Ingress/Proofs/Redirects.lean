/-
The redirects a sequence of calls leaves behind.

# The argument

A `Start` installs redirects to the ports it has chosen, and a `Stop`
removes the ones to 8443 and 8080. So the chain is always what it was,
with what is left of earlier cycles and with what the next `Stop` will
remove (`Chain`), and a cycle leaves something if and only if its `Start`
had to do with another port than 8443 (`LeavesRedirect`,
`run_chain`). The managed entries are those of before until the hosts file
is updated for the first time, and none behind the `Stop` after that
(`run_managed`).
-/
import Kubikles.Ingress.Proofs.Managed

namespace IngressForwardManager

open Machine
open Hosts (Host Entry)

variable {envs : List Env} {w w' : World} {names : List Text} {call : Call}
variable {acts : List (Call × List Env)} {out : List Return}
variable {h : Host} {env : Hosts.Env} {httpsPort httpPort : Int}

-- ======== the system

/-- The system does what it is asked to. -/
structure Succeeds (env : Hosts.Env) : Prop where
  readErr : env.readErr = none
  createErr : env.createErr = none
  writeErr : env.writeErr = none
  cpErr : env.cpErr = none
  iptables : env.iptables = true
  takesRule : ∀ port, env.takesRule port = true

theorem write_succeeds (hs : Succeeds env) (newContent : Text) (h : Host) :
    h.write env newContent = ({ h with content := newContent }, none) := by
  unfold Host.write
  rw [hs.createErr, hs.writeErr, hs.cpErr]

def redirects (httpsPort httpPort : Int) : Multiset (Int × Int) :=
  (if 0 < httpsPort ∧ httpsPort ≠ 443 then {(443, httpsPort)} else 0)
    + if 0 < httpPort ∧ httpPort ≠ 80 then {(80, httpPort)} else 0

theorem redirect_chain (hs : Succeeds env) (h : Host) :
    (h.redirect env httpsPort httpPort).chain
      = h.chain + redirects httpsPort httpPort := by
  have hsetup : ∀ (fromPort toPort : Int) (h : Host),
      (h.setupIptablesRedirect env fromPort toPort).chain
        = (fromPort, toPort) ::ₘ h.chain := by
    intro fromPort toPort h
    unfold Host.setupIptablesRedirect
    rw [if_pos ⟨hs.iptables, hs.takesRule fromPort⟩]
  unfold Host.redirect redirects
  split
  · split
    · rw [hsetup, hsetup, ← Multiset.singleton_add, ← Multiset.singleton_add,
        add_left_comm, add_comm _ h.chain, add_left_comm]
    · rw [hsetup, ← Multiset.singleton_add, add_comm, add_zero]
  · split
    · rw [hsetup, ← Multiset.singleton_add, add_comm, zero_add]
    · rw [add_zero, add_zero]

theorem update_succeeds (hs : Succeeds env) (hne : names ≠ [])
    (httpsPort httpPort : Int) (h : Host) :
    (Hosts.validateEntries (entriesOf names) ≠ none
        ∧ (h.addEntriesWithPortRedirect env (entriesOf names) httpsPort
          httpPort).1 = h
        ∧ (h.addEntriesWithPortRedirect env (entriesOf names) httpsPort
          httpPort).2 ≠ none)
      ∨ Hosts.validateEntries (entriesOf names) = none
        ∧ (h.addEntriesWithPortRedirect env (entriesOf names) httpsPort
          httpPort).1.chain = h.chain + redirects httpsPort httpPort
        ∧ (h.addEntriesWithPortRedirect env (entriesOf names) httpsPort
          httpPort).2 = none := by
  unfold Host.addEntriesWithPortRedirect
  rw [if_neg fun hnil => hne (entriesOf_eq_nil.mp hnil), hs.readErr]
  cases hvalid : Hosts.validateEntries (entriesOf names) with
  | some err => exact Or.inl ⟨nofun, rfl, nofun⟩
  | none =>
    simp only [write_succeeds hs]
    exact Or.inr ⟨trivial, redirect_chain hs _, trivial⟩

theorem addEntries_chain (env : Hosts.Env) (entries : List Entry)
    (h : Host) : (h.addEntries env entries).1.chain = h.chain := by
  unfold Host.addEntries
  rcases Hosts.addEntries_cases env entries 0 0 h
    with ⟨-, hadd⟩ | ⟨-, -, hadd⟩ | ⟨-, err, hadd⟩ <;> rw [hadd]
  rfl

/-- The redirects that a `Stop` removes. -/
def removed : Multiset (Int × Int) := {(443, 8443), (80, 8080)}

theorem removeEntries_succeeds (hs : Succeeds env) (h : Host) :
    (h.removeEntries env).1.chain = h.chain - removed
      ∧ (h.removeEntries env).1.managed = [] := by
  have hremove : ∀ (fromPort toPort : Int) (h : Host),
      h.removeIptablesRedirect env fromPort toPort
        = { h with chain := h.chain.erase (fromPort, toPort) } := by
    intro fromPort toPort h
    unfold Host.removeIptablesRedirect
    rw [if_pos ⟨hs.iptables, hs.takesRule fromPort⟩]
  have hchain : h.chain - removed
      = (h.chain.erase (443, 8443)).erase (80, 8080) := by
    unfold removed
    rw [Multiset.insert_eq_cons, Multiset.sub_cons, Multiset.sub_singleton]
  unfold Host.removeEntries Host.removeEntriesWithPortRedirect
  rw [hs.readErr]
  simp only [hremove, write_succeeds hs]
  rw [hchain]
  split
  next hsame =>
    refine ⟨rfl, ?_⟩
    show Hosts.parseManagedEntries h.content = []
    rw [hsame, Hosts.managed_removed]
  next => exact ⟨rfl, Hosts.managed_removed h.content⟩

-- ======== the ports

theorem chooseHTTPSPort_cases (https : Bool) (isPortAvailable : Int → Bool)
    (m : PortForwardManager.Manager) :
    (https = true ∧ chooseHTTPSPort https isPortAvailable m = 8443)
      ∨ https = false ∧ (chooseHTTPSPort https isPortAvailable m = 0
        ∨ 10000 ≤ chooseHTTPSPort https isPortAvailable m) := by
  unfold chooseHTTPSPort
  have hknown : (8443 : Int) ∈ PortForwardManager.wellKnownPorts := by
    decide
  cases https with
  | true => exact Or.inl ⟨rfl, if_pos rfl⟩
  | false =>
    rw [if_neg Bool.false_ne_true]
    exact Or.inr ⟨rfl,
      PortForwardManager.getAvailablePort_ge hknown isPortAvailable m⟩

/-- The redirects to the ports a `Start` has chosen: some that a `Stop`
removes, and one that it does not where HTTPS has another port. -/
theorem redirects_parts (https : Bool) (isPortAvailable : Int → Bool)
    (m : PortForwardManager.Manager) (http : Bool) :
    ∃ extra installed,
      redirects (chooseHTTPSPort https isPortAvailable m)
          (if http then 8080 else 0) = extra + installed
        ∧ installed ≤ removed
        ∧ (∀ rule ∈ extra, rule.1 = 443 ∧ rule.2 ≠ 8443)
        ∧ (extra = 0 ↔ ¬ (https = false
          ∧ chooseHTTPSPort https isPortAvailable m ≠ 0)) := by
  have hnone : ∀ rule ∈ (0 : Multiset (Int × Int)),
      rule.1 = 443 ∧ rule.2 ≠ 8443 := fun rule h =>
    absurd h (Multiset.notMem_zero rule)
  have hhttp : redirects 0 (if http then 8080 else 0) ≤ removed := by
    cases http <;> decide
  rcases chooseHTTPSPort_cases https isPortAvailable m
    with ⟨hhttps, hport⟩ | ⟨hhttps, hport | hport⟩
  · rw [hport]
    refine ⟨0, redirects 8443 (if http then 8080 else 0), (zero_add _).symm,
      ?_, hnone, iff_of_true rfl fun h => ?_⟩
    · cases http <;> decide
    · rw [hhttps] at h
      cases h.1
  · rw [hport]
    exact ⟨0, _, (zero_add _).symm, hhttp, hnone,
      iff_of_true rfl fun h => h.2 rfl⟩
  · generalize chooseHTTPSPort https isPortAvailable m = port at hport
    refine ⟨{(443, port)}, _, ?_, hhttp, fun rule hrule => ?_,
      iff_of_false (Multiset.singleton_ne_zero _)
        fun h => h ⟨hhttps, by omega⟩⟩
    · have hrule : (0 < port ∧ port ≠ 443)
          ∧ ¬ ((0 : Int) < 0 ∧ (0 : Int) ≠ 443) := by omega
      unfold redirects
      rw [if_pos hrule.1, if_neg hrule.2, zero_add]
    · rw [Multiset.mem_singleton.mp hrule]
      refine ⟨rfl, fun h => ?_⟩
      have h : port = 8443 := h
      omega

-- ======== the chain

def Updates : Call × List Env → Prop
  | (.start _ namespaces, envs) => ∃ t, told envs = some t
      ∧ Hosts.validateEntries (entriesOf (t.hostnames namespaces)) = none
  | (.refreshHostnames _, _) => True
  | (.stop, _) => False

/-- A `Start` that updates the hosts file where port 8443 is taken and
another port is found. -/
def LeavesRedirect (w : World) : Call × List Env → Prop
  | (.start _ namespaces, envs) => ∃ t, told envs = some t
      ∧ Hosts.validateEntries (entriesOf (t.hostnames namespaces)) = none
      ∧ t.https = false ∧ t.httpsPort w ≠ 0
  | _ => False

def Clean (chain : Multiset (Int × Int)) : Prop :=
  ∀ rule ∈ chain, rule.1 ≠ 443 ∧ rule.1 ≠ 80

/-- The chain: what it was, what is left of earlier cycles, and what the
next `Stop` will remove. -/
structure Chain (base left : Multiset (Int × Int)) (w : World) : Prop where
  left_https : ∀ rule ∈ left, rule.1 = 443 ∧ rule.2 ≠ 8443
  chain : ∃ installed ≤ removed, w.hosts.chain = base + left + installed
    ∧ (installed ≠ 0 →
      w.state.active = true ∧ w.state.hostsFileUpdated = true)

variable {base left : Multiset (Int × Int)}

theorem add_sub_removed {kept installed : Multiset (Int × Int)}
    (hle : installed ≤ removed) (hkept : ∀ rule ∈ removed, rule ∉ kept) :
    kept + installed - removed = kept := by
  refine Multiset.ext.mpr fun rule => ?_
  rw [Multiset.count_sub, Multiset.count_add]
  have hcount := Multiset.le_iff_count.mp hle rule
  by_cases hrule : rule ∈ removed
  · rw [Multiset.count_eq_zero.mpr (hkept rule hrule)]
    omega
  · have hnone := Multiset.count_eq_zero.mpr hrule
    omega

theorem kept_of_clean (hbase : Clean base)
    (hleft : ∀ rule ∈ left, rule.1 = 443 ∧ rule.2 ≠ 8443) :
    ∀ rule ∈ removed, rule ∉ base + left := by
  intro rule hrule hmem
  have hports : rule = (443, 8443) ∨ rule = (80, 8080) := by
    unfold removed at hrule
    rw [Multiset.insert_eq_cons, Multiset.mem_cons,
      Multiset.mem_singleton] at hrule
    exact hrule
  rcases Multiset.mem_add.mp hmem with hmem | hmem
  · rcases hports with rfl | rfl
    · exact (hbase _ hmem).1 rfl
    · exact (hbase _ hmem).2 rfl
  · rcases hports with rfl | rfl
    · exact (hleft _ hmem).2 rfl
    · exact absurd (hleft _ hmem).1 (by decide)

theorem Chain.idle (hw : Chain base left w)
    (hidle : ¬ (w.state.active = true ∧ w.state.hostsFileUpdated = true)) :
    w.hosts.chain = base + left := by
  obtain ⟨installed, -, hchain, hinstalled⟩ := hw.chain
  have hzero : installed = 0 := by
    by_contra hne
    exact hidle (hinstalled hne)
  rw [hchain, hzero, add_zero]

/-- A `Start` leaves a redirect if and only if it has another port than
8443. -/
theorem start_chain {controller : IngressController}
    {namespaces : List String} (hs : ∀ env, .hosts env ∈ envs → Succeeds env)
    (hw : Chain base left w)
    (h : Returns envs (Call.start controller namespaces).frames w w' none) :
    ∃ extra, Chain base (left + extra) w' ∧ (extra = 0
      ↔ ¬ LeavesRedirect w (.start controller namespaces, envs)) := by
  obtain ⟨hinactive, t, env, htold, henv, hsome, hhosts, hactive, -, hflag⟩ :=
    start_nil h
  have hchain := hw.idle fun h => by
    rw [hinactive] at h
    exact Bool.false_ne_true h.1
  have hleaves : LeavesRedirect w (.start controller namespaces, envs)
      ↔ Hosts.validateEntries (entriesOf (t.hostnames namespaces)) = none
        ∧ t.https = false ∧ t.httpsPort w ≠ 0 := by
    constructor
    · rintro ⟨t', htold', hrest⟩
      rw [htold, Option.some.injEq] at htold'
      exact htold' ▸ hrest
    · exact fun hrest => ⟨t, htold, hrest⟩
  rw [hleaves]
  unfold Told.update at hhosts hflag
  rcases update_succeeds (hs env henv) hsome (t.httpsPort w) t.httpPort
    w.hosts with ⟨hinvalid, hsame, -⟩ | ⟨hvalid, hrules, hdone⟩
  · rw [hsame] at hhosts
    refine ⟨0, ⟨?_, 0, Multiset.zero_le _, ?_, absurd rfl⟩, ?_⟩
    · rw [add_zero]
      exact hw.left_https
    · rw [hhosts, hchain, add_zero, add_zero]
    · exact iff_of_true rfl fun h => hinvalid h.1
  · obtain ⟨extra, installed, hparts, hle, hextra, hzero⟩ :=
      redirects_parts t.https t.isPortAvailable
        (w.forwards.cleanupIngressConfigsNow t.ids t.context) t.http
    unfold Told.httpPort Told.httpsPort at hrules
    rw [hparts] at hrules
    refine ⟨extra, ⟨fun rule hrule => ?_, installed, hle, ?_, fun _ =>
      ⟨hactive, hflag.mpr hdone⟩⟩, ?_⟩
    · rcases Multiset.mem_add.mp hrule with hrule | hrule
      · exact hw.left_https rule hrule
      · exact hextra rule hrule
    · rw [hhosts]
      unfold Told.httpPort Told.httpsPort
      rw [hrules, hchain, ← add_assoc, ← add_assoc]
    · rw [hzero]
      exact not_congr ⟨fun h => ⟨hvalid, h⟩, fun h => h.2⟩

/-- The other calls leave no redirect. -/
theorem call_chain (hs : ∀ env, .hosts env ∈ envs → Succeeds env)
    (hbase : Clean base) (hw : Chain base left w)
    (h : Returns envs call.frames w w' none) :
    ∃ extra, Chain base (left + extra) w'
      ∧ (extra = 0 ↔ ¬ LeavesRedirect w (call, envs)) := by
  cases call with
  | start controller namespaces => exact start_chain hs hw h
  | stop =>
    refine ⟨0, ?_, iff_of_true rfl fun h => h⟩
    rw [add_zero]
    obtain ⟨-, hidle, hstopped⟩ := stop_spec h
    cases hactive : w.state.active with
    | false => exact hidle hactive ▸ hw
    | true =>
      obtain ⟨hstate, hsame, hremoved⟩ := hstopped hactive
      refine ⟨hw.left_https, 0, Multiset.zero_le _, ?_, absurd rfl⟩
      rw [add_zero]
      cases hflag : w.state.hostsFileUpdated with
      | false =>
        rw [hsame hflag]
        refine hw.idle fun h => ?_
        rw [hflag] at h
        exact Bool.false_ne_true h.2
      | true =>
        obtain ⟨env, henv, hhosts⟩ := hremoved hflag
        obtain ⟨installed, hle, hchain, -⟩ := hw.chain
        rw [hhosts, (removeEntries_succeeds (hs env henv) _).1, hchain]
        exact add_sub_removed hle (kept_of_clean hbase hw.left_https)
  | refreshHostnames namespaces =>
    refine ⟨0, ?_, iff_of_true rfl fun h => h⟩
    rw [add_zero]
    rcases refresh_spec h with ⟨-, herr⟩ | ⟨hactive, hrest⟩
    · exact absurd rfl herr
    · obtain ⟨_, env, _, names, -, -, hdone⟩ := hrest
      rcases hdone with ⟨_, -, herr⟩ | ⟨-, -, hstate, hhosts⟩
      · exact absurd rfl herr
      · obtain ⟨installed, hle, hchain, -⟩ := hw.chain
        refine ⟨hw.left_https, installed, hle, ?_, fun _ => ?_⟩
        · rw [hhosts, addEntries_chain, hchain]
        · rw [hstate]
          exact ⟨hactive, rfl⟩

theorem run_chain
    (hs : ∀ act ∈ acts, ∀ env, .hosts env ∈ act.2 → Succeeds env)
    (hbase : Clean base) (hw : Chain base left w)
    (hnil : ∀ r ∈ out, r.err = none)
    (hrun : run calls w acts = some (w', out)) :
    ∃ extra, Chain base (left + extra) w' ∧ (extra = 0
      ↔ Along calls (fun w act => ¬ LeavesRedirect w act) w acts) := by
  induction acts generalizing w left out with
  | nil =>
    rw [run_nil, Option.some.injEq, Prod.mk.injEq] at hrun
    refine ⟨0, ?_, iff_of_true rfl trivial⟩
    rw [add_zero, ← hrun.1]
    exact hw
  | cons act rest ih =>
    obtain ⟨w₁, o₁, o₂, hcall, hrest, rfl⟩ := run_cons_iff.mp hrun
    obtain ⟨err, rfl, hreturns⟩ := calls_cases hcall
    obtain rfl : err = none := hnil ⟨err, w₁⟩ (List.mem_cons_self ..)
    obtain ⟨extra, hw₁, hzero⟩ :=
      call_chain (hs act (List.mem_cons_self ..)) hbase hw hreturns
    obtain ⟨extra', hw', hzero'⟩ :=
      ih (fun a ha => hs a (List.mem_cons_of_mem _ ha)) hw₁
        (fun r hr => hnil r (List.mem_append_right _ hr)) hrest
    refine ⟨extra + extra', add_assoc left extra extra' ▸ hw', ?_⟩
    rw [← Multiset.card_eq_zero, Multiset.card_add, Nat.add_eq_zero_iff,
      Multiset.card_eq_zero, Multiset.card_eq_zero, hzero, hzero']
    constructor
    · rintro ⟨hok, hlong⟩ w₂ o hcall'
      rw [hcall, Option.some.injEq, Prod.mk.injEq] at hcall'
      exact hcall'.1 ▸ ⟨hok, hlong⟩
    · exact fun halong => halong w₁ [⟨none, w₁⟩] hcall

-- ======== the hosts

/-- The hosts file has not been updated. -/
structure Untouched (entries : List Entry) (w : World) : Prop where
  managed : w.hosts.managed = entries
  flag : w.state.active = true → w.state.hostsFileUpdated = false

/-- What is managed will be removed. -/
structure Handled (w : World) : Prop where
  idle : w.state.active = false → w.hosts.managed = []
  active : w.state.active = true →
    w.state.hostsFileUpdated = true ∨ w.hosts.managed = []

theorem start_managed {controller : IngressController}
    {namespaces : List String} (hs : ∀ env, .hosts env ∈ envs → Succeeds env)
    (h : Returns envs (Call.start controller namespaces).frames w w' none) :
    w.state.active = false ∧ w'.state.active = true
      ∧ (Updates (.start controller namespaces, envs)
        ↔ w'.state.hostsFileUpdated = true)
      ∧ (w'.state.hostsFileUpdated = false → w'.hosts = w.hosts) := by
  obtain ⟨hinactive, t, env, htold, henv, hsome, hhosts, hactive, -, hflag⟩ :=
    start_nil h
  refine ⟨hinactive, hactive, ?_⟩
  have hupdates : Updates (.start controller namespaces, envs)
      ↔ Hosts.validateEntries (entriesOf (t.hostnames namespaces))
        = none := by
    constructor
    · rintro ⟨t', htold', hvalid⟩
      rw [htold, Option.some.injEq] at htold'
      exact htold' ▸ hvalid
    · exact fun hvalid => ⟨t, htold, hvalid⟩
  rw [hupdates, hflag]
  unfold Told.update at hhosts hflag ⊢
  rcases update_succeeds (hs env henv) hsome (t.httpsPort w) t.httpPort
    w.hosts with ⟨hinvalid, hsame, hfailed⟩ | ⟨hvalid, -, hdone⟩
  · exact ⟨iff_of_false hinvalid hfailed, fun _ => hhosts.trans hsame⟩
  · refine ⟨iff_of_true hvalid hdone, fun hnot => ?_⟩
    rw [hflag.mpr hdone] at hnot
    cases hnot

/-- Where the hosts file is updated, what is managed will be removed;
where it is not, nothing happens to it. -/
theorem call_untouched {entries : List Entry}
    (hs : ∀ env, .hosts env ∈ envs → Succeeds env)
    (hw : Untouched entries w) (h : Returns envs call.frames w w' none) :
    (¬ Updates (call, envs) → Untouched entries w')
      ∧ (Updates (call, envs) → Handled w') := by
  cases call with
  | start controller namespaces =>
    obtain ⟨-, hactive, hupdates, hsame⟩ := start_managed hs h
    constructor
    · intro hnot
      have hflag := Bool.eq_false_iff.mpr fun h => hnot (hupdates.mpr h)
      refine ⟨?_, fun _ => hflag⟩
      rw [hsame hflag]
      exact hw.managed
    · intro hupdated
      refine ⟨fun hinactive => ?_, fun _ => Or.inl (hupdates.mp hupdated)⟩
      rw [hactive] at hinactive
      cases hinactive
  | stop =>
    refine ⟨fun _ => ?_, False.elim⟩
    obtain ⟨-, hidle, hstopped⟩ := stop_spec h
    cases hactive : w.state.active with
    | false => exact hidle hactive ▸ hw
    | true =>
      obtain ⟨hstate, hsame, -⟩ := hstopped hactive
      refine ⟨?_, fun hrunning => ?_⟩
      · rw [hsame (hw.flag hactive)]
        exact hw.managed
      · rw [hstate] at hrunning
        cases hrunning
  | refreshHostnames namespaces =>
    refine ⟨fun hnot => absurd trivial hnot, fun _ => ?_⟩
    rcases refresh_spec h with ⟨-, herr⟩ | ⟨hactive, hrest⟩
    · exact absurd rfl herr
    · obtain ⟨_, env, _, names, -, -, hdone⟩ := hrest
      rcases hdone with ⟨_, -, herr⟩ | ⟨-, -, hstate, -⟩
      · exact absurd rfl herr
      · rw [← Bool.not_eq_false] at hactive
        refine ⟨fun hidle => ?_, fun _ => Or.inl ?_⟩
        · rw [hstate] at hidle
          exact absurd hidle hactive
        · rw [hstate]

/-- What will be removed, will be removed. -/
theorem call_handled (hs : ∀ env, .hosts env ∈ envs → Succeeds env)
    (hw : Handled w) (h : Returns envs call.frames w w' none) :
    Handled w' := by
  cases call with
  | start controller namespaces =>
    obtain ⟨hinactive, hactive, -, hsame⟩ := start_managed hs h
    refine ⟨fun hidle => ?_, fun _ => ?_⟩
    · rw [hactive] at hidle
      cases hidle
    · cases hflag : w'.state.hostsFileUpdated with
      | true => exact Or.inl rfl
      | false =>
        rw [hsame hflag]
        exact Or.inr (hw.idle hinactive)
  | stop =>
    obtain ⟨-, hidle, hstopped⟩ := stop_spec h
    cases hactive : w.state.active with
    | false => exact hidle hactive ▸ hw
    | true =>
      obtain ⟨hstate, hsame, hremoved⟩ := hstopped hactive
      have hnone : w'.hosts.managed = [] := by
        cases hflag : w.state.hostsFileUpdated with
        | true =>
          obtain ⟨env, henv, hhosts⟩ := hremoved hflag
          rw [hhosts]
          exact (removeEntries_succeeds (hs env henv) _).2
        | false =>
          rw [hsame hflag]
          rcases hw.active hactive with h | h
          · rw [hflag] at h
            cases h
          · exact h
      exact ⟨fun _ => hnone, fun _ => Or.inr hnone⟩
  | refreshHostnames namespaces =>
    rcases refresh_spec h with ⟨-, herr⟩ | ⟨hactive, hrest⟩
    · exact absurd rfl herr
    · obtain ⟨_, env, _, names, -, -, hdone⟩ := hrest
      rcases hdone with ⟨_, -, herr⟩ | ⟨-, -, hstate, -⟩
      · exact absurd rfl herr
      · rw [← Bool.not_eq_false] at hactive
        refine ⟨fun hidle => ?_, fun _ => Or.inl ?_⟩
        · rw [hstate] at hidle
          exact absurd hidle hactive
        · rw [hstate]

theorem run_handled
    (hs : ∀ act ∈ acts, ∀ env, .hosts env ∈ act.2 → Succeeds env)
    (hw : Handled w) (hnil : ∀ r ∈ out, r.err = none)
    (hrun : run calls w acts = some (w', out)) : Handled w' := by
  induction acts generalizing w out with
  | nil =>
    rw [run_nil, Option.some.injEq, Prod.mk.injEq] at hrun
    exact hrun.1 ▸ hw
  | cons act rest ih =>
    obtain ⟨w₁, o₁, o₂, hcall, hrest, rfl⟩ := run_cons_iff.mp hrun
    obtain ⟨err, rfl, hreturns⟩ := calls_cases hcall
    obtain rfl : err = none := hnil ⟨err, w₁⟩ (List.mem_cons_self ..)
    exact ih (fun a ha => hs a (List.mem_cons_of_mem _ ha))
      (call_handled (hs act (List.mem_cons_self ..)) hw hreturns)
      (fun r hr => hnil r (List.mem_append_right _ hr)) hrest

/-- A sequence leaves the managed entries alone, or they will be
removed. -/
theorem run_managed {entries : List Entry}
    (hs : ∀ act ∈ acts, ∀ env, .hosts env ∈ act.2 → Succeeds env)
    (hw : Untouched entries w) (hnil : ∀ r ∈ out, r.err = none)
    (hrun : run calls w acts = some (w', out)) :
    (Along calls (fun _ act => ¬ Updates act) w acts
        ∧ Untouched entries w')
      ∨ ¬ Along calls (fun _ act => ¬ Updates act) w acts
        ∧ Handled w' := by
  induction acts generalizing w out with
  | nil =>
    rw [run_nil, Option.some.injEq, Prod.mk.injEq] at hrun
    exact Or.inl ⟨trivial, hrun.1 ▸ hw⟩
  | cons act rest ih =>
    obtain ⟨w₁, o₁, o₂, hcall, hrest, rfl⟩ := run_cons_iff.mp hrun
    obtain ⟨err, rfl, hreturns⟩ := calls_cases hcall
    obtain rfl : err = none := hnil ⟨err, w₁⟩ (List.mem_cons_self ..)
    have hs' : ∀ a ∈ rest, ∀ env, .hosts env ∈ a.2 → Succeeds env :=
      fun a ha => hs a (List.mem_cons_of_mem _ ha)
    have hnil' : ∀ r ∈ o₂, r.err = none := fun r hr =>
      hnil r (List.mem_append_right _ hr)
    obtain ⟨hsame, hupdated⟩ :=
      call_untouched (hs act (List.mem_cons_self ..)) hw hreturns
    have halong : Along calls (fun _ act => ¬ Updates act) w (act :: rest)
        ↔ ¬ Updates act
          ∧ Along calls (fun _ act => ¬ Updates act) w₁ rest := by
      constructor
      · exact fun halong => halong w₁ [⟨none, w₁⟩] hcall
      · intro hok w₂ o hcall'
        rw [hcall, Option.some.injEq, Prod.mk.injEq] at hcall'
        exact hcall'.1 ▸ hok
    rw [halong]
    by_cases hup : Updates act
    · exact Or.inr ⟨fun h => h.1 hup,
        run_handled hs' (hupdated hup) hnil' hrest⟩
    · rcases ih hs' (hsame hup) hnil' hrest with ⟨hlong, hw'⟩ | ⟨hnot, hw'⟩
      · exact Or.inl ⟨⟨hup, hlong⟩, hw'⟩
      · exact Or.inr ⟨fun h => hnot h.2, hw'⟩

-- ======== sequences

theorem stop_inactive (h : Returns envs Call.stop.frames w w' none) :
    w'.state.active = false := by
  obtain ⟨-, hidle, hstopped⟩ := stop_spec h
  cases hactive : w.state.active with
  | false =>
    rw [hidle hactive]
    exact hactive
  | true =>
    rw [(hstopped hactive).1]

/-- A sequence of successful calls that ends in a `Stop`, from where
nothing is active, on a system that does what it is asked to, leaves the
chain and the managed entries as they were and no redirect of port 443 or
80, if and only if there was none before, nothing was managed before (or
the hosts file is never updated), and no `Start` that updates the hosts
file finds port 8443 taken and another port in its place. -/
theorem redirects_undone_iff (hidle : w.state.active = false)
    (hs : ∀ act ∈ acts ++ [(.stop, envs)],
      ∀ env, .hosts env ∈ act.2 → Succeeds env)
    (hnil : ∀ r ∈ out, r.err = none)
    (hrun : run calls w (acts ++ [(.stop, envs)]) = some (w', out)) :
    (w'.hosts.chain = w.hosts.chain ∧ w'.hosts.managed = w.hosts.managed
        ∧ Clean w'.hosts.chain)
      ↔ Clean w.hosts.chain
        ∧ (w.hosts.managed = [] ∨ Along calls (fun _ act => ¬ Updates act) w
          (acts ++ [(.stop, envs)]))
        ∧ Along calls (fun w act => ¬ LeavesRedirect w act) w
          (acts ++ [(.stop, envs)]) := by
  have hinactive : w'.state.active = false := by
    obtain ⟨w₁, o₁, o₂, -, hlast, rfl⟩ := run_append_iff.mp hrun
    obtain ⟨w₂, o₃, o₄, hcall, hend, rfl⟩ := run_cons_iff.mp hlast
    rw [run_nil, Option.some.injEq, Prod.mk.injEq] at hend
    obtain ⟨err, rfl, hreturns⟩ := calls_cases hcall
    obtain rfl : err = none := hnil ⟨err, w₂⟩ (List.mem_append_right _
      (List.mem_cons_self ..))
    exact hend.1 ▸ stop_inactive hreturns
  have hchain : Clean w.hosts.chain → (w'.hosts.chain = w.hosts.chain
      ↔ Along calls (fun w act => ¬ LeavesRedirect w act) w
        (acts ++ [(.stop, envs)])) := by
    intro hclean
    have hw : Chain w.hosts.chain 0 w :=
      ⟨fun rule h => absurd h (Multiset.notMem_zero rule), 0,
        Multiset.zero_le _, by rw [add_zero, add_zero], absurd rfl⟩
    obtain ⟨extra, hw', hzero⟩ := run_chain hs hclean hw hnil hrun
    have hleft := hw'.idle fun h => by
      rw [hinactive] at h
      exact Bool.false_ne_true h.1
    rw [← hzero, hleft, zero_add]
    exact add_eq_left
  have hmanaged : w'.hosts.managed = w.hosts.managed
      ↔ w.hosts.managed = [] ∨ Along calls (fun _ act => ¬ Updates act) w
        (acts ++ [(.stop, envs)]) := by
    have hw : Untouched w.hosts.managed w :=
      ⟨rfl, fun h => by rw [hidle] at h; cases h⟩
    rcases run_managed hs hw hnil hrun with ⟨halong, hw'⟩ | ⟨hnot, hw'⟩
    · exact iff_of_true hw'.managed (Or.inr halong)
    · rw [hw'.idle hinactive]
      exact ⟨fun h => Or.inl h.symm, fun h => (h.resolve_right hnot).symm⟩
  constructor
  · rintro ⟨hsame, hentries, hclean⟩
    rw [hsame] at hclean
    exact ⟨hclean, hmanaged.mp hentries, (hchain hclean).mp hsame⟩
  · rintro ⟨hclean, hentries, halong⟩
    have hsame := (hchain hclean).mpr halong
    exact ⟨hsame, hmanaged.mpr hentries, hsame ▸ hclean⟩

/-- A `Start`, a `RefreshHostnames` that finds the same hostnames, a
`Stop`. -/
def cycle (https : Bool) : List (Call × List Env) :=
  [(.start traefik [], startAnswers https),
    (.refreshHostnames [], refreshAnswers [appHost])]

/-- What is seen of the cycle: all calls return nil, and what the chain is
behind the last. -/
def seen (acts : List (Call × List Env)) :
    Option (Bool × Multiset (Int × Int)) :=
  (run calls freshWorld (acts ++ [(.stop, stopAnswers)])).map
    fun (w, out) => (out.all fun r => r.err = none, w.hosts.chain)

theorem cycle_succeeds (https : Bool) :
    ∀ act ∈ cycle https ++ [(.stop, stopAnswers)],
      ∀ env, .hosts env ∈ act.2 → Succeeds env := by
  have hdefault : Succeeds {} := ⟨rfl, rfl, rfl, rfl, rfl, fun _ => rfl⟩
  intro act hact env henv
  have hsame : env = {} := by
    simp only [cycle, List.cons_append, List.nil_append, List.mem_cons,
      List.not_mem_nil, or_false] at hact
    rcases hact with rfl | rfl | rfl
    · simpa [startAnswers, lists] using henv
    · simpa [refreshAnswers, lists] using henv
    · simpa [stopAnswers] using henv
  exact hsame ▸ hdefault

/-- The equivalence, where port 8443 is free. -/
theorem redirects_undone_iff_free :
    ∃ w' out, run calls freshWorld (cycle true ++ [(.stop, stopAnswers)])
        = some (w', out)
      ∧ ((w'.hosts.chain = 0 ∧ w'.hosts.managed = []
          ∧ Clean w'.hosts.chain)
        ↔ Clean 0
          ∧ (freshWorld.hosts.managed = []
            ∨ Along calls (fun _ act => ¬ Updates act) freshWorld
              (cycle true ++ [(.stop, stopAnswers)]))
          ∧ Along calls (fun w act => ¬ LeavesRedirect w act) freshWorld
            (cycle true ++ [(.stop, stopAnswers)])) := by
  have hseen : seen (cycle true) = some (true, 0) := by rfl
  obtain ⟨⟨w', out⟩, hrun, hout⟩ := Option.map_eq_some_iff.mp hseen
  have hnil : ∀ r ∈ out, r.err = none := fun r hr =>
    of_decide_eq_true (List.all_eq_true.mp (Prod.mk.inj hout).1 r hr)
  exact ⟨w', out, hrun,
    redirects_undone_iff rfl (cycle_succeeds true) hnil hrun⟩

/-- Where port 8443 is taken, a redirect of port 443 is left behind. -/
theorem taken_port_leaves_redirect :
    ¬ ∀ (w w' : World) (acts : List (Call × List Env)) (envs : List Env)
        (out : List Return),
      w.state = {} → w.hosts.chain = 0 → w.hosts.managed = [] →
      (∀ act ∈ acts ++ [(.stop, envs)],
        ∀ env, .hosts env ∈ act.2 → Succeeds env) →
      (∀ r ∈ out, r.err = none) →
      run calls w (acts ++ [(.stop, envs)]) = some (w', out) →
      w'.hosts.chain = w.hosts.chain
        ∧ w'.hosts.managed = w.hosts.managed ∧ Clean w'.hosts.chain := by
  intro h
  have hseen : seen (cycle false) = some (true, {(443, 10000)}) := by rfl
  obtain ⟨⟨w', out⟩, hrun, hout⟩ := Option.map_eq_some_iff.mp hseen
  obtain ⟨hall, hchain⟩ := Prod.mk.inj hout
  have hnil : ∀ r ∈ out, r.err = none := fun r hr =>
    of_decide_eq_true (List.all_eq_true.mp hall r hr)
  have hundone := h freshWorld w' (cycle false) stopAnswers out rfl rfl rfl
    (cycle_succeeds false) hnil hrun
  have hchain : w'.hosts.chain = {(443, 10000)} := hchain
  have hclean := hundone.2.2
  rw [hchain] at hclean
  exact (hclean (443, 10000) (Multiset.mem_singleton_self _)).1 rfl

end IngressForwardManager
