/-
What ingress forwarding leaves behind.

# The argument

Beside the port forwards (`Starts`, `Configs`), the hosts file: where it has
managed entries, the forwarding is active and says so, or a frame there is
removes them or says so yet (`Settled`). Once no call is in progress there
are no frames, and what the invariants say is left of it.

# What goes wrong

`Start` shows its IDs long behind the critical section in which it makes the
forwarding active. A `Stop` in between finds none, resets the state, and
the `Start` goes on: it shows its IDs and updates the hosts file where the
forwarding is not active, and no later `Stop` removes either
(`left_behind`).
-/
import Kubikles.Ingress.Proofs.Calls
import Kubikles.Ingress.Proofs.Forwards

namespace IngressForwardManager

open Goroutine (Guarded)
open Machine (run Along)
open Hosts (Host)

variable {w w' : World} {f : Frame} {env : Env} {frames rest : List Frame}
variable {behind fs : List Frame} {gs : List (List Frame)}

-- ======== the hosts file

/-- Where the managed entries of the hosts file are accounted for. -/
def Settled (w : World) (fs : List Frame) : Prop :=
  Covered w fs ∨ w.state.active = true ∧ w.state.hostsFileUpdated = true
    ∧ .reset ∉ fs

theorem Covered.perm {fs' : List Frame} (hi : Covered w fs)
    (h : fs.Perm fs') : Covered w fs' := by
  refine hi.imp_right (Or.imp_right ?_)
  rintro ⟨f, hf, hsettles⟩
  exact ⟨f, h.mem_iff.mp hf, hsettles⟩

theorem Settled.perm {fs' : List Frame} (hi : Settled w fs)
    (h : fs.Perm fs') : Settled w fs' := by
  refine Or.imp (·.perm h) ?_ hi
  rintro ⟨hactive, hflag, hreset⟩
  exact ⟨hactive, hflag, fun hmem => hreset (h.mem_iff.mpr hmem)⟩

theorem Covered.mono {fs' : List Frame} (hi : Covered w fs)
    (hmanaged : w'.hosts.managed = w.hosts.managed)
    (hfailed : w'.removalFailed = w.removalFailed)
    (h : ∀ f ∈ fs, f.settles = true → f ∈ fs') : Covered w' fs' := by
  unfold Covered
  rw [hmanaged, hfailed]
  refine hi.imp_right (Or.imp_right ?_)
  rintro ⟨f, hf, hsettles⟩
  exact ⟨f, h f hf hsettles, hsettles⟩

theorem Covered.tail (hi : Covered w (f :: behind))
    (hf : f.settles = false) : Covered w behind := by
  refine hi.imp_right (Or.imp_right ?_)
  rintro ⟨g, hg, hsettles⟩
  rcases List.mem_cons.mp hg with rfl | hg
  · rw [hf] at hsettles
    cases hsettles
  · exact ⟨g, hg, hsettles⟩

theorem settled_of_covered (hi : Covered w behind)
    (hmanaged : w'.hosts.managed = w.hosts.managed)
    (hfailed : w'.removalFailed = w.removalFailed) :
    Settled w' (frames ++ behind) :=
  .inl (hi.mono hmanaged hfailed fun _ hg _ =>
    List.mem_append_right _ hg)

/-- A frame that settles nothing may go, and others that reset nothing may
take its place. -/
theorem Settled.step (hi : Settled w (f :: behind))
    (hmanaged : w'.hosts.managed = w.hosts.managed)
    (hfailed : w'.removalFailed = w.removalFailed)
    (hactive : w.state.active = true → w'.state.active = true)
    (hflag : w'.state.hostsFileUpdated = w.state.hostsFileUpdated)
    (hf : f.settles = false) (hreset : .reset ∉ frames) :
    Settled w' (frames ++ behind) := by
  rcases hi with hi | ⟨hon, hupdated, hnone⟩
  · exact settled_of_covered (hi.tail hf) hmanaged hfailed
  · refine .inr ⟨hactive hon, hflag.trans hupdated, ?_⟩
    rw [List.mem_append, not_or]
    exact ⟨hreset, fun h => hnone (List.mem_cons_of_mem _ h)⟩

theorem settled_of_mem (hf : f ∈ fs) (hsettles : f.settles = true) :
    Settled w fs :=
  .inl (.inr (.inr ⟨f, hf, hsettles⟩))

theorem hosts_of_failed {h h' : Host} {env : Hosts.Env}
    {entries : List Hosts.Entry} {httpsPort httpPort : Int}
    {err : Hosts.HostsError}
    (hadd : h.addEntriesWithPortRedirect env entries httpsPort httpPort
      = (h', some err)) : h' = h := by
  rcases Hosts.addEntries_cases env entries httpsPort httpPort h with
    ⟨-, heq⟩ | ⟨-, -, heq⟩ | ⟨-, err', heq⟩
  · rw [heq] at hadd
    cases hadd
  · rw [heq] at hadd
    cases hadd
  · rw [heq] at hadd
    cases hadd
    rfl

theorem settled_of_flagged (hflags : Covered w behind
      ∨ w.state.active = true ∧ .reset ∉ f :: behind)
    (hmanaged : w'.hosts.managed = w.hosts.managed)
    (hfailed : w'.removalFailed = w.removalFailed)
    (hactive : w'.state.active = w.state.active)
    (hflag : w'.state.hostsFileUpdated = true) (hreset : .reset ∉ frames) :
    Settled w' (frames ++ behind) := by
  rcases hflags with hcovered | ⟨hon, hnone⟩
  · exact settled_of_covered hcovered hmanaged hfailed
  · refine .inr ⟨hactive.trans hon, hflag, ?_⟩
    rw [List.mem_append, not_or]
    exact ⟨hreset, fun h => hnone (List.mem_cons_of_mem _ h)⟩

theorem Forwarding.reset_notMem (hd : Forwarding w env f w' frames)
    (hf : f ≠ .stop) : .reset ∉ frames := by
  cases hd with
  | same hsame hfollows =>
    exact fun h => hfollows.reset _ (List.mem_cons_of_mem f h) rfl
  | adds henv hopening hconfigs hframes =>
    rcases hframes with rfl | rfl <;> simp
  | @publishes l ids => cases ids <;> simp [Local.startForwards]
  | stops => exact absurd rfl hf
  | _ => simp

/-- What a `Start` does leaves the hosts file accounted for. -/
theorem settled_of_starting {l : Local} {point : Point} {effect : Effect}
    (h : l.exec w point env = some effect)
    (hi : Settled w (.starting l point :: behind))
    (hflags : (Frame.starting l point).flags = true → Covered w behind
      ∨ w.state.active = true ∧ .reset ∉ .starting l point :: behind)
    (hunflags : (Frame.starting l point).unflags = true →
      Covered w behind) :
    Settled effect.world (effect.frames ++ behind) := by
  have hreset : .reset ∉ effect.frames :=
    (forwarding_of_starting h).reset_notMem (fun h => nomatch h)
  cases point with
  | cleanup namespaces =>
    cases env with
    | order ids =>
      simp only [Local.exec] at h
      split at h
      · cases h
        exact hi.step rfl rfl (fun h => h) rfl rfl hreset
      · cases h
    | _ => cases h
  | addHTTPS =>
    cases env with
    | added id now =>
      simp only [Local.exec] at h
      rcases addConfig_cases (l.httpsConfig id) now w with
        ⟨forwards, stored, hadd, -⟩ | ⟨message, hadd⟩
      · rw [hadd] at h
        cases h
        exact hi.step rfl rfl (fun h => h) rfl rfl hreset
      · rw [hadd] at h
        cases h
        exact hi.step rfl rfl (fun h => h) rfl rfl hreset
    | _ => cases h
  | addHTTP ids =>
    cases env with
    | added id now =>
      simp only [Local.exec] at h
      rcases addConfig_cases (l.httpConfig id) now w with
        ⟨forwards, stored, hadd, -⟩ | ⟨message, hadd⟩
      · rw [hadd] at h
        cases h
        exact hi.step rfl rfl (fun h => h) rfl rfl hreset
      · rw [hadd] at h
        cases h
        exact hi.step rfl rfl (fun h => h) rfl rfl hreset
    | _ => cases h
  | startForward id rest =>
    cases env with
    | started available now =>
      simp only [Local.exec] at h
      split at h
      · cases h
        exact hi.step rfl rfl (fun h => h) rfl rfl hreset
      · cases h
        exact hi.step rfl rfl (fun h => h) rfl rfl hreset
    | _ => cases h
  | updateHosts =>
    cases env with
    | hosts env =>
      simp only [Local.exec] at h
      split at h
      · cases h
        exact settled_of_mem List.mem_cons_self rfl
      next hosts err hadd =>
        cases h
        rw [hosts_of_failed hadd]
        exact hi.step rfl rfl (fun h => h) rfl rfl hreset
    | _ => cases h
  | hostsUpdated =>
    cases env with
    | go =>
      cases h
      exact settled_of_flagged (hflags rfl) rfl rfl rfl rfl hreset
    | _ => cases h
  | hostsFailed err =>
    cases env with
    | go =>
      cases h
      exact settled_of_covered (hunflags rfl) rfl rfl
    | _ => cases h
  | _ =>
    -- The other points leave the hosts file and what is said of it alone.
    cases env <;> cases h
    all_goals exact hi.step rfl rfl (fun h => h) rfl rfl hreset

/-- What a frame does leaves the hosts file accounted for. -/
theorem settled_of_exec {effect : Effect} (h : exec f env w = some effect)
    (hi : Settled w (f :: behind))
    (hflags : f.flags = true → Covered w behind
      ∨ w.state.active = true ∧ .reset ∉ f :: behind)
    (hunflags : f.unflags = true → Covered w behind) :
    Settled effect.world (effect.frames ++ behind) := by
  have hreset : f ≠ .stop → .reset ∉ effect.frames :=
    (forwarding_of_exec h).reset_notMem
  cases f with
  | start controller namespaces =>
    cases env with
    | context context =>
      cases h
      have hreset := hreset (by simp)
      unfold World.start at hreset ⊢
      by_cases hactive : w.state.active = true
      · rw [if_pos hactive] at hreset ⊢
        exact hi.step rfl rfl (fun h => h) rfl rfl hreset
      · rw [if_neg hactive] at hreset ⊢
        exact hi.step rfl rfl (fun _ => rfl) rfl rfl hreset
    | _ => cases h
  | starting l point => exact settled_of_starting h hi hflags hunflags
  | stop =>
    cases env with
    | go =>
      cases h
      unfold World.stop
      by_cases hactive : w.state.active = true
      · rw [if_pos hactive]
        rcases hi with hcovered | ⟨-, hflag, -⟩
        · exact settled_of_covered (hcovered.tail rfl) rfl rfl
        · refine settled_of_mem (f := .removeEntries) ?_ rfl
          exact List.mem_append_left _
            (mem_stopFrames.mpr (.inr (.inl ⟨hflag, rfl⟩)))
      · rw [if_neg hactive]
        exact hi.step rfl rfl (fun h => h) rfl rfl List.not_mem_nil
    | _ => cases h
  | removeEntries =>
    cases env with
    | hosts env =>
      simp only [exec] at h
      rcases Hosts.removeEntries_cases env w.hosts with
        ⟨hosts, hremove, hnone⟩ | ⟨hosts, err, hremove, -⟩
      · rw [hremove] at h
        cases h
        exact .inl (.inl hnone)
      · rw [hremove] at h
        cases h
        exact .inl (.inr (.inl rfl))
    | _ => cases h
  | reset =>
    cases env with
    | go =>
      cases h
      rcases hi with hcovered | ⟨-, -, hnone⟩
      · exact settled_of_covered (hcovered.tail rfl) rfl rfl
      · exact absurd List.mem_cons_self hnone
    | _ => cases h
  | addEntries hostnames =>
    cases env with
    | hosts env =>
      simp only [exec] at h
      have hreset := hreset (by simp)
      split at h
      · cases h
        exact settled_of_mem List.mem_cons_self rfl
      next hosts err hadd =>
        cases h
        rw [hosts_of_failed hadd]
        exact hi.step rfl rfl (fun h => h) rfl rfl hreset
    | _ => cases h
  | setRefreshed hostnames =>
    cases env with
    | go =>
      cases h
      exact settled_of_flagged (hflags rfl) rfl rfl rfl rfl
        (hreset (by simp))
    | _ => cases h
  | setError err =>
    cases env with
    | go =>
      cases h
      exact settled_of_covered (hunflags rfl) rfl rfl
    | _ => cases h
  | _ =>
    have hreset := hreset (by simp)
    cases env <;> cases h
    all_goals exact hi.step rfl rfl (fun h => h) rfl rfl hreset

-- ======== the invariant

structure Inv (w : World) (gs : List (List Frame)) : Prop where
  starts : Starts w gs
  configs : Configs w gs.flatten
  hosts : Settled w gs.flatten

theorem Inv.perm {gs' : List (List Frame)} (hi : Inv w gs)
    (h : gs.Perm gs') : Inv w gs' :=
  ⟨hi.starts.perm h, hi.configs.perm h.flatten, hi.hosts.perm h.flatten⟩

theorem Inv.init (forwards : PortForwardManager.Manager) {hosts : Host}
    (hmanaged : hosts.managed = []) :
    Inv (World.init forwards hosts) [] where
  starts :=
    { status := fun h => nomatch h
      single := Nat.zero_le 1
      shown := fun h => absurd rfl h
      closes := fun _ h => nomatch h }
  configs :=
    { listed := fun _ h => nomatch h
      there := fun h => nomatch h
      held := fun _ h => nomatch h
      deleted := fun _ h => nomatch h
      remaining := fun _ h => nomatch h }
  hosts := .inl (.inl hmanaged)

theorem call_frames {c : Call} {f : Frame} (hf : f ∈ c.frames) :
    f.inFlight = false ∧ f.opening = false ∧ f ≠ .reset
      ∧ ∀ id, f ≠ .deleteConfig id := by
  cases c with
  | start controller namespaces =>
    rw [List.mem_singleton.mp hf]
    exact ⟨rfl, rfl, (fun h => nomatch h), fun _ h => nomatch h⟩
  | stop =>
    rcases List.mem_cons.mp hf with rfl | hf
    · exact ⟨rfl, rfl, (fun h => nomatch h), fun _ h => nomatch h⟩
    · rw [List.mem_singleton.mp hf]
      exact ⟨rfl, rfl, (fun h => nomatch h), fun _ h => nomatch h⟩
  | refreshHostnames namespaces =>
    rw [List.mem_singleton.mp hf]
    exact ⟨rfl, rfl, (fun h => nomatch h), fun _ h => nomatch h⟩

theorem Inv.call (hi : Inv w gs) (c : Call) : Inv w (c.frames :: gs) where
  starts :=
    { status := hi.starts.status
      single := by
        have hnone : c.frames.countP Frame.inFlight = 0 := by
          rw [List.countP_eq_zero]
          intro f hf
          rw [(call_frames hf).1]
          exact Bool.false_ne_true
        rw [List.flatten_cons, List.countP_append, hnone, Nat.zero_add]
        exact hi.starts.single
      shown := by
        intro hids
        obtain ⟨hactive, hopening, hnoError⟩ := hi.starts.shown hids
        refine ⟨hactive, fun f hf => ?_, fun g hg => ?_⟩
        · rcases List.mem_append.mp hf with hf | hf
          · exact (call_frames hf).2.1
          · exact hopening f hf
        · rcases List.mem_cons.mp hg with rfl | hg
          · cases c <;> rfl
          · exact hnoError g hg
      closes := by
        intro g hg
        rcases List.mem_cons.mp hg with rfl | hg
        · have hundoes : ∀ f ∈ c.frames, f.undoes = false := by
            cases c <;> simp [Call.frames, Frame.undoes]
          have hclose : Closes (c.frames ++ []) :=
            closes_append hundoes trivial
          rwa [List.append_nil] at hclose
        · exact hi.starts.closes g hg }
  configs := by
    refine hi.configs.same rfl rfl rfl rfl ?_ ?_ fun id => ?_
    · rw [List.flatten_cons, heldIn_append]
      have hnone : heldIn c.frames = [] := by
        unfold heldIn
        rw [List.flatMap_eq_nil_iff]
        exact fun f hf => held_of_not_opening (call_frames hf).2.1
      rw [hnone, List.nil_append]
    · rw [List.flatten_cons, List.mem_append]
      exact or_iff_right fun h => (call_frames h).2.2.1 rfl
    · rw [List.flatten_cons, List.mem_append]
      exact or_iff_right fun h => (call_frames h).2.2.2 id rfl
  hosts := by
    rw [List.flatten_cons]
    refine hi.hosts.imp (fun hcovered => ?_) ?_
    · exact hcovered.mono rfl rfl fun _ h _ => List.mem_append_right _ h
    · rintro ⟨hactive, hflag, hnone⟩
      refine ⟨hactive, hflag, ?_⟩
      rw [List.mem_append, not_or]
      exact ⟨fun h => (call_frames h).2.2.1 rfl, hnone⟩

theorem Inv.step {others : List (List Frame)} {effect : Effect}
    (hi : Inv w ((f :: rest) :: others))
    (hfs : fs.Perm (f :: (rest ++ others.flatten)))
    (hnew : NewID w env) (hok : Orderly w fs f)
    (h : exec f env w = some effect) :
    Inv effect.world ((effect.frames ++ rest) :: others) := by
  have hd := forwarding_of_exec h
  have herase : (fs.erase f).Perm (rest ++ others.flatten) := by
    have hperm := hfs.erase f
    rwa [List.erase_cons_head] at hperm
  have hreset : .reset ∉ fs → .reset ∉ f :: (rest ++ others.flatten) :=
    fun hnot hmem => hnot (hfs.mem_iff.mpr hmem)
  have hflatten : ((effect.frames ++ rest) :: others).flatten
      = effect.frames ++ (rest ++ others.flatten) := by
    rw [List.flatten_cons, List.append_assoc]
  refine ⟨hi.starts.step hd (fun hf => ?_) (fun hf => (hok.publishes hf).1),
    ?_, ?_⟩
  · exact (hok.begins hf).imp_right fun hnone g hg =>
      hnone g (hfs.mem_iff.mpr (List.mem_cons_of_mem f hg))
  · rw [hflatten]
    refine hi.configs.step hi.starts hd hnew fun hf => ?_
    obtain ⟨hactive, hnone⟩ := hok.publishes hf
    exact ⟨hactive, fun hmem =>
      hreset hnone (List.mem_cons_of_mem f hmem)⟩
  · rw [hflatten]
    refine settled_of_exec h hi.hosts (fun hf => ?_) (fun hf => ?_)
    · exact (hok.flags hf).imp (·.perm herase) (And.imp_right hreset)
    · exact (hok.unflags hf).perm herase

-- ======== the result

/-- The condition of a step: of a frame that runs, in a run whose new IDs
are new. -/
abbrev InOrder : Sys → Act → Prop :=
  Guarded (fun _ _ _ => True) fun w fs f _ => Orderly w fs f

abbrev NewIDs : Sys → Act → Prop :=
  Guarded (fun _ _ _ => True) fun w _ _ env => NewID w env

/-- Nothing is left behind: once no call is in progress and the forwarding
is not active, no port forward of a `Start` is there, and nothing managed
is in the hosts file that could be removed; and where it is active, its
status says so and its IDs are those of the port forwards that are there,
but for those that a call in progress is about to show or to delete. -/
structure NothingLeft (s : Sys) : Prop where
  configs : s.Idle → s.world.state.active = false →
    ∀ id ∈ s.world.created, id ∉ s.world.forwards.configs
  hosts : s.Idle → s.world.state.active = false →
    s.world.removalFailed = false → s.world.hosts.managed = []
  status : s.world.state.active = true → s.world.state.status ≠ .stopped
  lists : s.Idle → s.world.state.active = true →
    ∀ id, id ∈ s.world.state.portForwardIDs
      ↔ id ∈ s.world.created ∧ id ∈ s.world.forwards.configs
  listed : s.world.state.active = true → .reset ∉ s.pending →
    ∀ id ∈ s.world.state.portForwardIDs,
      id ∈ s.world.created ∧ id ∈ s.world.forwards.configs
  remaining : ∀ id ∈ s.world.created, id ∈ s.world.forwards.configs →
    id ∈ s.world.state.portForwardIDs ∨ .deleteConfig id ∈ s.pending
      ∨ id ∈ heldIn s.pending

/-- What the invariants say of a state. -/
theorem Inv.result {s : Sys} (hi : Inv s.world s.goroutines) :
    NothingLeft s where
  configs hidle hactive id hcreated hthere := by
    have hnil : s.goroutines.flatten = [] := hidle
    rcases hi.configs.remaining id hcreated hthere with ⟨h, -, -⟩ | h | h
    · rw [hactive] at h
      cases h
    · rw [hnil] at h
      cases h
    · rw [hnil] at h
      cases h
  hosts hidle hactive hfailed := by
    have hnil : s.goroutines.flatten = [] := hidle
    rcases hi.hosts with (h | h | ⟨f, hf, -⟩) | ⟨h, -, -⟩
    · exact h
    · rw [hfailed] at h
      cases h
    · rw [hnil] at hf
      cases hf
    · rw [hactive] at h
      cases h
  status := hi.starts.status
  lists hidle hactive id := by
    have hnil : s.goroutines.flatten = [] := hidle
    constructor
    · intro hid
      refine ⟨hi.configs.listed id hid, hi.configs.there hactive ?_ id hid⟩
      rw [hnil]
      exact List.not_mem_nil
    · rintro ⟨hcreated, hthere⟩
      rcases hi.configs.remaining id hcreated hthere with ⟨-, -, h⟩ | h | h
      · exact h
      · rw [hnil] at h
        cases h
      · rw [hnil] at h
        cases h
  listed hactive hreset id hid :=
    ⟨hi.configs.listed id hid, hi.configs.there hactive hreset id hid⟩
  remaining id hcreated hthere :=
    (hi.configs.remaining id hcreated hthere).imp_left fun h => h.2.2

/-- In every state of a run whose steps are in order, nothing is left
behind. -/
theorem nothing_left {forwards : PortForwardManager.Manager} {hosts : Host}
    {acts : List Act} {s' : Sys} {out : List (Nat × Out)}
    (hmanaged : hosts.managed = [])
    (hrun : run step ⟨World.init forwards hosts, []⟩ acts = some (s', out))
    (hnew : Along step NewIDs ⟨World.init forwards hosts, []⟩ acts)
    (hok : Along step InOrder ⟨World.init forwards hosts, []⟩ acts) :
    NothingLeft s' := by
  have hboth := (hnew.and hok).mono fun _ _ h => h.1.and h.2
  refine Inv.result (Goroutine.run_goroutines (J := Inv) hrun hboth
    (Inv.init forwards hmanaged) (fun h hi => hi.perm h)
    (fun hi _ => hi.call _) ?_)
  intro w fs f rest others env effect hfs hi hok hexec
  exact hi.step hfs hok.1 hok.2 hexec

-- ======== a cluster

def runs (i : Nat) (envs : List Env) : List Act := envs.map (.run i)

/-- A `Start`, and behind it a `Stop`. -/
def startStop : List Act :=
  [.call (.start traefik [])] ++ runs 0 (startAnswers true)
    ++ [.call .stop] ++ runs 1 stopAnswers

/-- A `Stop` between the first critical section of a `Start` and the one
that shows its IDs. -/
def stopInStart : List Act :=
  [.call (.start traefik [])] ++ runs 0 ((startAnswers true).take 8)
    ++ [.call .stop] ++ runs 1 [.go, .go, .go, .go]
    ++ runs 0 ((startAnswers true).drop 8)

/-- What is left of a run: is a call in progress, is the forwarding active,
the port forwards that were created and those that are there, the hostnames
in the hosts file, and could they once not be removed. -/
def leftovers (s : Sys) :
    Bool × Bool × List String × List Bool × List Text × Bool :=
  (decide s.Idle, s.world.state.active, s.world.created,
    s.world.created.map fun id => decide (id ∈ s.world.forwards.configs),
    s.world.hosts.managed.map Hosts.Entry.hostname, s.world.removalFailed)

theorem run_startStop :
    (run step ⟨freshWorld, []⟩ startStop).map (leftovers ·.1)
      = some (true, false, ["1"], [false], [], false) := by
  rfl

theorem nothing_left_startStop :
    ∃ s' out, run step ⟨freshWorld, []⟩ startStop = some (s', out)
      ∧ NothingLeft s' := by
  obtain ⟨⟨s', out⟩, hrun, -⟩ := Option.map_eq_some_iff.mp run_startStop
  exact ⟨s', out, hrun, nothing_left (by decide) hrun (by decide +kernel)
    (by decide +kernel)⟩

theorem run_stopInStart :
    (run step ⟨freshWorld, []⟩ stopInStart).map (leftovers ·.1)
      = some (true, false, ["1"], [true], [appHost], false) := by
  rfl

/-- Not every run leaves nothing behind. -/
theorem left_behind :
    ¬ ∀ (forwards : PortForwardManager.Manager) (hosts : Host)
        (acts : List Act) (s' : Sys) (out : List (Nat × Out)),
        hosts.managed = [] →
        run step ⟨World.init forwards hosts, []⟩ acts = some (s', out) →
        Along step NewIDs ⟨World.init forwards hosts, []⟩ acts →
          NothingLeft s' := by
  intro h
  obtain ⟨⟨s', out⟩, hrun, hleft⟩ :=
    Option.map_eq_some_iff.mp run_stopInStart
  have hnothing := h _ _ stopInStart s' out (by decide) hrun
    (by decide +kernel)
  obtain ⟨hidle, hleft⟩ := Prod.mk.inj hleft
  obtain ⟨hactive, hleft⟩ := Prod.mk.inj hleft
  obtain ⟨-, hleft⟩ := Prod.mk.inj hleft
  obtain ⟨-, hleft⟩ := Prod.mk.inj hleft
  obtain ⟨hnames, hfailed⟩ := Prod.mk.inj hleft
  have hnone := hnothing.hosts (of_decide_eq_true hidle) hactive hfailed
  rw [hnone] at hnames
  cases hnames

end IngressForwardManager
