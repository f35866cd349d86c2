/-
Calls that nothing interrupts.

# The argument

A call is cut at its frames: each of them has a lemma that says what it
is told and what is left to do behind it (`returns_…`), and a call that
returns nil went through the frames of its good path, since the frames of
the others end in an error (`returns_failed`). Put behind each other they
say what a call has done (`start_nil`, `stop_nil`, `refresh_nil`), in
terms of one update of the hosts file each.
-/
import Kubikles.Ingress.Manager
import Kubikles.Ingress.Proofs.Hosts

namespace IngressForwardManager

open Goroutine
open Hosts (Host)

variable {envs : List Env} {f : Frame} {fs : List Frame} {w w' : World}
variable {err : Option Err} {out out' : List Out} {l : Local}
variable {controller : IngressController} {namespaces ids : List String}
variable {names : List Text}

-- ======== returning

/-- Frames that run to their end, and what the last of them returns. -/
def Returns (envs : List Env) (frames : List Frame) (w w' : World)
    (err : Option Err) : Prop :=
  ∃ out, complete exec envs frames w = some (w', out)
    ∧ replied out = some err

theorem replied_append (hne : out' ≠ []) :
    replied (out ++ out') = replied out' := by
  unfold replied
  rw [List.getLast?_append_of_ne_nil _ hne]

theorem returns_cons (h : Returns envs (f :: fs) w w' err) :
    ∃ env envs' effect, envs = env :: envs'
      ∧ exec f env w = some effect
      ∧ (replied effect.out = none →
        Returns envs' (effect.frames ++ fs) effect.world w' err) := by
  obtain ⟨out, hrun, hreplied⟩ := h
  obtain ⟨env, envs', effect, out', rfl, hexec, hrest, rfl⟩ :=
    complete_cons_iff.mp hrun
  refine ⟨env, envs', effect, rfl, hexec, fun hsilent => ?_⟩
  refine ⟨out', hrest, ?_⟩
  by_cases hnil : out' = []
  · rw [hnil, List.append_nil, hsilent] at hreplied
    cases hreplied
  · rw [replied_append hnil] at hreplied
    exact hreplied

theorem returns_last (h : Returns envs [f] w w' err) :
    ∃ env envs' effect, envs = env :: envs'
      ∧ exec f env w = some effect
      ∧ (replied effect.out = none →
        Returns envs' effect.frames effect.world w' err) := by
  obtain ⟨env, envs', effect, henvs, hexec, hrest⟩ := returns_cons h
  rw [List.append_nil] at hrest
  exact ⟨env, envs', effect, henvs, hexec, hrest⟩

theorem returns_reply {err' : Option Err}
    (h : Returns envs [.reply err'] w w' err) : w' = w ∧ err = err' := by
  obtain ⟨out, hrun, hreplied⟩ := h
  obtain ⟨env, envs', effect, out', rfl, hexec, hrest, rfl⟩ :=
    complete_cons_iff.mp hrun
  cases env with
  | go =>
    cases hexec
    obtain ⟨-, rfl, rfl⟩ := complete_nil_iff.mp hrest
    exact ⟨rfl, (Option.some.inj hreplied).symm⟩
  | _ => cases hexec

theorem not_returns_failed (fs : List Frame) {shown returned : Err} :
    ¬ Returns envs (fs ++ failed shown returned) w w' none := by
  rintro ⟨out, hrun, hreplied⟩
  have hsplit : fs ++ failed shown returned
      = (fs ++ [.setError shown]) ++ [.reply (some returned)] := by
    rw [List.append_assoc]
    rfl
  rw [hsplit] at hrun
  obtain ⟨envs₁, envs₂, w₁, out₁, out₂, rfl, -, hlast, rfl⟩ :=
    complete_append_iff.mp hrun
  have hne : out₂ ≠ [] := by
    rintro rfl
    obtain ⟨env, _, effect, out', -, hexec, -, hout⟩ :=
      complete_cons_iff.mp hlast
    cases env with
    | go =>
      cases hexec
      cases hout
    | _ => cases hexec
  rw [replied_append hne] at hreplied
  exact nomatch (returns_reply ⟨out₂, hlast, hreplied⟩).2

theorem returns_emit {type : EventType}
    (h : Returns envs (.emitEvent type :: fs) w w' err) :
    ∃ envs', envs = .go :: envs' ∧ Returns envs' fs w w' err := by
  obtain ⟨env, envs', effect, rfl, hexec, hrest⟩ := returns_cons h
  cases env with
  | go =>
    cases hexec
    exact ⟨envs', rfl, hrest rfl⟩
  | _ => cases hexec

-- ======== Start

theorem returns_start
    (h : Returns envs [.start controller namespaces] w w' none) :
    ∃ context envs', envs = .context context :: .go :: envs'
      ∧ w.state.active = false
      ∧ Returns envs'
        [.starting { context, controller } (.cleanup namespaces)]
        (w.modifyState ({ · with
          status := .starting, active := true, error := none, context }))
        w' none := by
  obtain ⟨env, envs', effect, rfl, hexec, hrest⟩ := returns_cons h
  cases env with
  | context context =>
    cases hexec
    unfold World.start at hrest
    split at hrest
    · exact nomatch (returns_reply (hrest rfl)).2
    next hinactive =>
      obtain ⟨envs', rfl, hnext⟩ := returns_emit (hrest rfl)
      exact ⟨context, envs', rfl, Bool.eq_false_iff.mpr hinactive, hnext⟩
  | _ => cases hexec

theorem returns_cleanup
    (h : Returns envs [.starting l (.cleanup namespaces)] w w' none) :
    ∃ ids envs', envs = .order ids :: envs'
      ∧ Returns envs' [.starting l (.collect namespaces)]
        { w with forwards :=
          w.forwards.cleanupIngressConfigsNow ids l.context } w' none := by
  obtain ⟨env, envs', effect, rfl, hexec, hrest⟩ := returns_cons h
  cases env with
  | order ids =>
    simp only [exec, Local.exec] at hexec
    split at hexec
    · cases hexec
      exact ⟨ids, envs', rfl, hrest rfl⟩
    · cases hexec
  | _ => cases hexec

theorem returns_collect
    (h : Returns envs [.starting l (.collect namespaces)] w w' none) :
    ∃ listIngresses envs', envs = .listed listIngresses :: envs'
      ∧ collectIngressHostnames namespaces listIngresses ≠ []
      ∧ Returns envs' [.starting { l with
            hostnames := collectIngressHostnames namespaces listIngresses }
          .setHostnames] w w' none := by
  obtain ⟨env, envs', effect, rfl, hexec, hrest⟩ := returns_cons h
  cases env with
  | listed listIngresses =>
    cases hexec
    by_cases hnil : collectIngressHostnames namespaces listIngresses = []
    · have hrest := hrest rfl
      simp only [if_pos hnil, List.append_nil] at hrest
      exact absurd hrest (not_returns_failed [])
    · have hrest := hrest rfl
      simp only [if_neg hnil] at hrest
      exact ⟨listIngresses, envs', rfl, hnil, hrest⟩
  | _ => cases hexec

theorem returns_setHostnames
    (h : Returns envs [.starting l .setHostnames] w w' none) :
    ∃ envs', envs = .go :: envs'
      ∧ Returns envs' [.starting l .choosePorts] (w.modifyState ({ · with
          hostnames := l.hostnames, controller := some l.controller }))
        w' none := by
  obtain ⟨env, envs', effect, rfl, hexec, hrest⟩ := returns_cons h
  cases env with
  | go =>
    cases hexec
    exact ⟨envs', rfl, hrest rfl⟩
  | _ => cases hexec

theorem returns_choosePorts
    (h : Returns envs [.starting l .choosePorts] w w' none) :
    ∃ https isPortAvailable http envs',
      envs = .ports https isPortAvailable http :: envs'
      ∧ Returns envs' [.starting { l with
            httpsPort := chooseHTTPSPort https isPortAvailable w.forwards
            httpPort := if http then 8080 else 0 }
          .setPorts] w w' none := by
  obtain ⟨env, envs', effect, rfl, hexec, hrest⟩ := returns_cons h
  cases env with
  | ports https isPortAvailable http =>
    cases hexec
    exact ⟨https, isPortAvailable, http, envs', rfl, hrest rfl⟩
  | _ => cases hexec

theorem returns_setPorts
    (h : Returns envs [.starting l .setPorts] w w' none) :
    ∃ envs', envs = .go :: envs'
      ∧ Returns envs' l.behindPorts (w.modifyState ({ · with
          localHTTPPort := l.httpPort, localHTTPSPort := l.httpsPort }))
        w' none := by
  obtain ⟨env, envs', effect, rfl, hexec, hrest⟩ := returns_last h
  cases env with
  | go =>
    cases hexec
    have hrest := hrest rfl
    exact ⟨envs', rfl, hrest⟩
  | _ => cases hexec

def OnlyForwards (w w' : World) : Prop :=
  w'.state = w.state ∧ w'.hosts = w.hosts

theorem addConfig_only (w : World) (cfg : PortForwardManager.PortForwardConfig)
    (now : Nat) : OnlyForwards w (w.addConfig cfg now).1 := by
  unfold World.addConfig
  split <;> exact ⟨rfl, rfl⟩

theorem returns_created (h : Returns envs (l.created ids) w w' none) :
    Returns envs [.starting l (.setIDs ids)] w w' none := by
  unfold Local.created at h
  split at h
  · exact absurd h (not_returns_failed [])
  · exact h

theorem returns_behindHTTPS
    (h : Returns envs (l.behindHTTPS ids) w w' none) :
    ∃ ids envs' w₁, envs' <:+ envs ∧ OnlyForwards w w₁
      ∧ Returns envs' [.starting l (.setIDs ids)] w₁ w' none := by
  unfold Local.behindHTTPS at h
  split at h
  · obtain ⟨env, envs', effect, rfl, hexec, hrest⟩ := returns_last h
    cases env with
    | added id now =>
      have honly := addConfig_only w (l.httpConfig id) now
      simp only [exec, Local.exec] at hexec
      split at hexec
      next w₁ hadd =>
        cases hexec
        have hrest := hrest rfl
        rw [hadd] at honly
        exact ⟨_, envs', w₁, List.suffix_cons .., honly,
          returns_created hrest⟩
      next w₁ message hadd =>
        cases hexec
        have hrest := hrest rfl
        rw [hadd] at honly
        exact ⟨_, envs', w₁, List.suffix_cons .., honly,
          returns_created hrest⟩
    | _ => cases hexec
  · exact ⟨ids, envs, w, List.suffix_rfl, ⟨rfl, rfl⟩,
      returns_created h⟩

theorem returns_behindPorts
    (h : Returns envs l.behindPorts w w' none) :
    ∃ ids envs' w₁, envs' <:+ envs ∧ OnlyForwards w w₁
      ∧ Returns envs' [.starting l (.setIDs ids)] w₁ w' none := by
  unfold Local.behindPorts at h
  split at h
  · obtain ⟨env, envs', effect, rfl, hexec, hrest⟩ := returns_last h
    cases env with
    | added id now =>
      have honly := addConfig_only w (l.httpsConfig id) now
      simp only [exec, Local.exec] at hexec
      split at hexec
      next w₁ hadd =>
        cases hexec
        have hrest := hrest rfl
        rw [hadd] at honly
        obtain ⟨ids, envs', w₂, hsuffix, honly', hnext⟩ :=
          returns_behindHTTPS hrest
        exact ⟨ids, envs', w₂, hsuffix.trans (List.suffix_cons ..),
          ⟨honly'.1.trans honly.1, honly'.2.trans honly.2⟩, hnext⟩
      next w₁ message hadd =>
        cases hexec
        have hrest := hrest rfl
        exact absurd hrest (not_returns_failed [])
    | _ => cases hexec
  · exact returns_behindHTTPS h

theorem returns_startForwards
    (h : Returns envs (l.startForwards ids) w w' none) :
    ∃ envs' w₁, envs' <:+ envs ∧ OnlyForwards w w₁
      ∧ Returns envs' [.starting l .updateHosts] w₁ w' none := by
  induction ids generalizing envs w with
  | nil => exact ⟨envs, w, List.suffix_rfl, ⟨rfl, rfl⟩, h⟩
  | cons id rest ih =>
    obtain ⟨env, envs', effect, rfl, hexec, hrest⟩ := returns_last h
    cases env with
    | started available now =>
      simp only [exec, Local.exec] at hexec
      split at hexec
      · cases hexec
        have hrest := hrest rfl
        obtain ⟨envs', w₁, hsuffix, honly, hnext⟩ := ih hrest
        exact ⟨envs', w₁, hsuffix.trans (List.suffix_cons ..), honly,
          hnext⟩
      · cases hexec
        have hrest := hrest rfl
        exact absurd hrest (not_returns_failed [.stop])
    | _ => cases hexec

theorem returns_setIDs
    (h : Returns envs [.starting l (.setIDs ids)] w w' none) :
    ∃ envs' w₁, envs' <:+ envs
      ∧ w₁.state = { w.state with portForwardIDs := ids }
      ∧ w₁.hosts = w.hosts
      ∧ Returns envs' [.starting l .updateHosts] w₁ w' none := by
  obtain ⟨env, envs', effect, rfl, hexec, hrest⟩ := returns_last h
  cases env with
  | go =>
    cases hexec
    have hrest := hrest rfl
    obtain ⟨envs', w₁, hsuffix, honly, hnext⟩ :=
      returns_startForwards hrest
    exact ⟨envs', w₁, hsuffix.trans (List.suffix_cons ..), honly.1,
      honly.2, hnext⟩
  | _ => cases hexec

theorem returns_setRunning
    (h : Returns envs [.starting l .setRunning] w w' none) :
    w'.hosts = w.hosts ∧ w'.state = { w.state with status := .running } := by
  obtain ⟨env, envs', effect, rfl, hexec, hrest⟩ := returns_cons h
  cases env with
  | go =>
    cases hexec
    obtain ⟨_, -, hnext⟩ := returns_emit (hrest rfl)
    obtain ⟨rfl, -⟩ := returns_reply hnext
    exact ⟨rfl, rfl⟩
  | _ => cases hexec

theorem returns_hosts {step : Point} {updated : Bool}
    (hstep : step = .hostsUpdated ∧ updated = true
      ∨ ∃ e, step = .hostsFailed e ∧ updated = false)
    (h : Returns envs [.starting l step] w w' none) :
    w'.hosts = w.hosts ∧ w'.state.active = w.state.active
      ∧ w'.state.hostnames = w.state.hostnames
      ∧ w'.state.hostsFileUpdated = updated := by
  obtain ⟨env, envs', effect, rfl, hexec, hrest⟩ := returns_cons h
  rcases hstep with ⟨rfl, rfl⟩ | ⟨e, rfl, rfl⟩ <;> cases env with
  | go =>
    cases hexec
    obtain ⟨hhosts, hstate⟩ := returns_setRunning (hrest rfl)
    rw [hstate]
    exact ⟨hhosts, rfl, rfl, rfl⟩
  | _ => cases hexec

theorem returns_updateHosts
    (h : Returns envs [.starting l .updateHosts] w w' none) :
    ∃ env envs', envs = .hosts env :: envs'
      ∧ w'.hosts = (w.hosts.addEntriesWithPortRedirect env
          (entriesOf l.hostnames) l.httpsPort l.httpPort).1
      ∧ w'.state.active = w.state.active
      ∧ w'.state.hostnames = w.state.hostnames
      ∧ (w'.state.hostsFileUpdated = true
        ↔ (w.hosts.addEntriesWithPortRedirect env
          (entriesOf l.hostnames) l.httpsPort l.httpPort).2 = none) := by
  obtain ⟨env, envs', effect, rfl, hexec, hrest⟩ := returns_cons h
  cases env with
  | hosts env =>
    refine ⟨env, envs', rfl, ?_⟩
    simp only [exec, Local.exec] at hexec
    split at hexec
    next hosts hadd =>
      cases hexec
      obtain ⟨hhosts, hactive, hnames, hflag⟩ :=
        returns_hosts (.inl ⟨rfl, rfl⟩) (hrest rfl)
      rw [hadd, hflag]
      exact ⟨hhosts, hactive, hnames, fun _ => rfl, fun _ => rfl⟩
    next hosts err hadd =>
      cases hexec
      obtain ⟨hhosts, hactive, hnames, hflag⟩ :=
        returns_hosts (.inr ⟨err, rfl, rfl⟩) (hrest rfl)
      rw [hadd, hflag]
      exact ⟨hhosts, hactive, hnames, (fun h => nomatch h),
        (fun h => nomatch h)⟩
  | _ => cases hexec

/-- What a `Start` is told until its ports are chosen. -/
structure Told where
  context : String
  ids : List String
  listIngresses : String → Option (List Ingress)
  https : Bool
  isPortAvailable : Int → Bool
  http : Bool

def told : List Env → Option Told
  | .context context :: .go :: .order ids :: .listed listIngresses :: .go
      :: .ports https isPortAvailable http :: _ =>
      some ⟨context, ids, listIngresses, https, isPortAvailable, http⟩
  | _ => none

def Told.httpsPort (t : Told) (w : World) : Int :=
  chooseHTTPSPort t.https t.isPortAvailable
    (w.forwards.cleanupIngressConfigsNow t.ids t.context)

def Told.httpPort (t : Told) : Int := if t.http then 8080 else 0

def Told.hostnames (t : Told) (namespaces : List String) : List Text :=
  collectIngressHostnames namespaces t.listIngresses

def Told.update (t : Told) (namespaces : List String) (env : Hosts.Env)
    (w : World) : Host × Option Hosts.HostsError :=
  w.hosts.addEntriesWithPortRedirect env
    (entriesOf (t.hostnames namespaces)) (t.httpsPort w) t.httpPort

/-- What a `Start` that returns nil has done: it was not active, there
were hostnames, and the hosts file was updated or not. -/
theorem start_nil
    (h : Returns envs (Call.start controller namespaces).frames w w' none) :
    w.state.active = false ∧ ∃ t env, told envs = some t
      ∧ .hosts env ∈ envs
      ∧ t.hostnames namespaces ≠ []
      ∧ w'.hosts = (t.update namespaces env w).1
      ∧ w'.state.active = true
      ∧ w'.state.hostnames = t.hostnames namespaces
      ∧ (w'.state.hostsFileUpdated = true
        ↔ (t.update namespaces env w).2 = none) := by
  obtain ⟨context, envs, rfl, hinactive, hcleanup⟩ := returns_start h
  obtain ⟨ids, envs, rfl, hcollect⟩ := returns_cleanup hcleanup
  obtain ⟨listIngresses, envs, rfl, hsome, hset⟩ :=
    returns_collect hcollect
  obtain ⟨envs, rfl, hchoose⟩ := returns_setHostnames hset
  obtain ⟨https, isPortAvailable, http, envs, rfl, hports⟩ :=
    returns_choosePorts hchoose
  obtain ⟨envs, rfl, hcreate⟩ := returns_setPorts hports
  obtain ⟨ids', envs₁, w₁, hsuffix, honly, hids⟩ :=
    returns_behindPorts hcreate
  obtain ⟨envs₂, w₂, hsuffix', hstate, hhosts, hlast⟩ := returns_setIDs hids
  obtain ⟨env, envs₃, rfl, hupdate, hactive, hnames, hflag⟩ :=
    returns_updateHosts hlast
  rw [hhosts, honly.2] at hupdate hflag
  rw [hstate, honly.1] at hactive hnames
  refine ⟨hinactive, ⟨context, ids, listIngresses, https, isPortAvailable,
    http⟩, env, rfl, ?_, hsome, hupdate, hactive, hnames, hflag⟩
  refine List.mem_cons_of_mem _ (List.mem_cons_of_mem _
    (List.mem_cons_of_mem _ (List.mem_cons_of_mem _ (List.mem_cons_of_mem _
      (List.mem_cons_of_mem _ (List.mem_cons_of_mem _ ?_))))))
  exact (hsuffix'.trans hsuffix).subset (List.mem_cons_self ..)

-- ======== Stop, Refresh

theorem returns_deletes
    (h : Returns envs (ids.flatMap (fun id =>
      [.stopForward id, .deleteConfig id]) ++ fs) w w' err) :
    ∃ envs' w₁, envs' <:+ envs ∧ OnlyForwards w w₁
      ∧ Returns envs' fs w₁ w' err := by
  induction ids generalizing envs w with
  | nil => exact ⟨envs, w, List.suffix_rfl, ⟨rfl, rfl⟩, h⟩
  | cons id rest ih =>
    obtain ⟨env, envs', effect, rfl, hexec, hrest⟩ := returns_cons h
    cases env with
    | go =>
      cases hexec
      obtain ⟨env, envs', effect, rfl, hexec, hnext⟩ :=
        returns_cons (hrest rfl)
      cases env with
      | go =>
        cases hexec
        obtain ⟨envs₂, w₁, hsuffix, honly, hend⟩ := ih (hnext rfl)
        exact ⟨envs₂, w₁, hsuffix.trans
          ((List.suffix_cons ..).trans (List.suffix_cons ..)),
          honly, hend⟩
      | _ => cases hexec
    | _ => cases hexec

theorem returns_reset
    (h : Returns envs [.reset, .emitEvent .stopped, .reply none] w w' err) :
    err = none ∧ w'.state = {} ∧ w'.hosts = w.hosts := by
  obtain ⟨env, envs', effect, rfl, hexec, hrest⟩ := returns_cons h
  cases env with
  | go =>
    cases hexec
    obtain ⟨_, -, hnext⟩ := returns_emit (hrest rfl)
    obtain ⟨rfl, rfl⟩ := returns_reply hnext
    exact ⟨rfl, rfl, rfl⟩
  | _ => cases hexec

theorem returns_removeEntries
    (h : Returns envs (.removeEntries :: fs) w w' err) :
    ∃ env envs' removalFailed, envs = .hosts env :: envs'
      ∧ Returns envs' fs
        { w with hosts := (w.hosts.removeEntries env).1, removalFailed }
        w' err := by
  obtain ⟨env, envs', effect, rfl, hexec, hrest⟩ := returns_cons h
  cases env with
  | hosts env =>
    simp only [exec] at hexec
    split at hexec
    next hosts hremove =>
      cases hexec
      exact ⟨env, envs', w.removalFailed, rfl,
        hremove ▸ hrest rfl⟩
    next hosts e hremove =>
      cases hexec
      exact ⟨env, envs', true, rfl, hremove ▸ hrest rfl⟩
  | _ => cases hexec

/-- What a `Stop` has done. -/
theorem stop_spec (h : Returns envs Call.stop.frames w w' err) :
    err = none
      ∧ (w.state.active = false → w' = w)
      ∧ (w.state.active = true → w'.state = {}
        ∧ (w.state.hostsFileUpdated = false → w'.hosts = w.hosts)
        ∧ (w.state.hostsFileUpdated = true → ∃ env, .hosts env ∈ envs
          ∧ w'.hosts = (w.hosts.removeEntries env).1)) := by
  obtain ⟨env, envs', effect, rfl, hexec, hrest⟩ := returns_cons h
  cases env with
  | go =>
    cases hexec
    have hrest := hrest rfl
    unfold World.stop at hrest
    cases hactive : w.state.active with
    | false =>
      simp only [hactive, Bool.false_eq_true, if_false] at hrest
      obtain ⟨rfl, rfl⟩ := returns_reply hrest
      exact ⟨rfl, (fun _ => rfl), (fun h => nomatch h)⟩
    | true =>
      simp only [hactive, if_true] at hrest
      unfold stopFrames at hrest
      rw [List.append_assoc] at hrest
      obtain ⟨envs₁, w₁, hsuffix, honly, hnext⟩ :=
        returns_deletes hrest
      cases hflag : w.state.hostsFileUpdated with
      | false =>
        rw [hflag] at hnext
        obtain ⟨herr, hstate, hhosts⟩ := returns_reset hnext
        exact ⟨herr, (fun h => nomatch h), fun _ => ⟨hstate,
          (fun _ => hhosts.trans honly.2), (fun h => nomatch h)⟩⟩
      | true =>
        rw [hflag] at hnext
        obtain ⟨env, envs₂, failed, rfl, hlast⟩ :=
          returns_removeEntries hnext
        obtain ⟨herr, hstate, hhosts⟩ := returns_reset hlast
        have hmem : Env.hosts env ∈ .go :: envs' :=
          List.mem_cons_of_mem _ (hsuffix.subset
            (List.mem_cons_self ..))
        refine ⟨herr, (fun h => nomatch h), fun _ => ⟨hstate,
          (fun h => nomatch h), fun _ => ⟨env, hmem, ?_⟩⟩⟩
        rw [hhosts, honly.2]
  | _ => cases hexec

theorem returns_addEntries
    (h : Returns envs [.addEntries names] w w' err) :
    ∃ env envs', envs = .hosts env :: envs'
      ∧ ((∃ e, (w.hosts.addEntries env (entriesOf names)).2 = some e
          ∧ err ≠ none)
        ∨ (w.hosts.addEntries env (entriesOf names)).2 = none
          ∧ err = none
          ∧ w'.state = { w.state with
              hostnames := names, hostsFileUpdated := true }
          ∧ w'.hosts = (w.hosts.addEntries env (entriesOf names)).1) := by
  obtain ⟨env, envs', effect, rfl, hexec, hrest⟩ := returns_cons h
  cases env with
  | hosts env =>
    refine ⟨env, envs', rfl, ?_⟩
    simp only [exec] at hexec
    split at hexec
    next hosts hadd =>
      cases hexec
      obtain ⟨env', envs₂, effect, rfl, hexec, hnext⟩ :=
        returns_cons (hrest rfl)
      cases env' with
      | go =>
        cases hexec
        obtain ⟨_, -, hend⟩ := returns_emit (hnext rfl)
        obtain ⟨rfl, rfl⟩ := returns_reply hend
        rw [hadd]
        exact Or.inr ⟨rfl, rfl, rfl, rfl⟩
      | _ => cases hexec
    next hosts e hadd =>
      cases hexec
      obtain ⟨-, rfl⟩ := returns_reply (hrest rfl)
      rw [hadd]
      exact Or.inl ⟨e, rfl, fun h => nomatch h⟩
  | _ => cases hexec

/-- What a `RefreshHostnames` has done: it was not active, or it has
updated the hosts file or failed to. -/
theorem refresh_spec
    (h : Returns envs (Call.refreshHostnames namespaces).frames w w' err) :
    (w.state.active = false ∧ err ≠ none)
      ∨ w.state.active = true ∧ ∃ listIngresses env envs' names,
        envs = .go :: .listed listIngresses :: .hosts env :: envs'
        ∧ names = collectIngressHostnames namespaces listIngresses
        ∧ ((∃ e, (w.hosts.addEntries env (entriesOf names)).2 = some e
            ∧ err ≠ none)
          ∨ (w.hosts.addEntries env (entriesOf names)).2 = none
            ∧ err = none
            ∧ w'.state = { w.state with
                hostnames := names, hostsFileUpdated := true }
            ∧ w'.hosts = (w.hosts.addEntries env (entriesOf names)).1) := by
  obtain ⟨env, envs', effect, rfl, hexec, hrest⟩ := returns_cons h
  cases env with
  | go =>
    cases hexec
    have hrest := hrest rfl
    unfold World.refreshHostnames at hrest
    cases hactive : w.state.active with
    | false =>
      simp only [hactive, Bool.false_eq_true, if_false] at hrest
      obtain ⟨-, rfl⟩ := returns_reply hrest
      exact Or.inl ⟨rfl, fun h => nomatch h⟩
    | true =>
      simp only [hactive, if_true] at hrest
      obtain ⟨env, envs', effect, rfl, hexec, hnext⟩ :=
        returns_cons hrest
      cases env with
      | listed listIngresses =>
        cases hexec
        obtain ⟨env, envs₂, rfl, hdone⟩ :=
          returns_addEntries (hnext rfl)
        exact Or.inr ⟨rfl, listIngresses, env, envs₂, _, rfl, rfl,
          hdone⟩
      | _ => cases hexec
  | _ => cases hexec

-- ======== a cluster

/-- An application without port forwards, and a hosts file with nothing
managed. -/
def freshWorld : World :=
  .init ⟨∅, ∅, ∅, []⟩ ⟨Text.ofString "127.0.0.1 localhost\n", 0⟩

def traefik : IngressController := ⟨"traefik", "traefik", "traefik", 0, 443⟩

def lists (hosts : List Text) : Env := .listed fun _ => some [⟨hosts, []⟩]

/-- `app.test`. -/
def appHost : Text := Text.ofString "app.test"

/-- What a `Start` is told where all goes well. -/
def startAnswers (https : Bool) : List Env :=
  [.context "dev", .go, .order [], lists [appHost], .go,
    .ports https (fun _ => true) false, .go, .added "1" 0, .go,
    .started true 0, .hosts {}, .go, .go, .go, .go]

/-- What a `RefreshHostnames` is told. -/
def refreshAnswers (hosts : List Text) : List Env :=
  [.go, lists hosts, .hosts {}, .go, .go, .go]

/-- What a `Stop` is told, of one port forward. -/
def stopAnswers : List Env := [.go, .go, .go, .hosts {}, .go, .go, .go]

end IngressForwardManager
