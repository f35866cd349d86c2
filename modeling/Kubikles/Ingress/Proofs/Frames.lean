/-
What the frames of the ingress-forward manager do to the port forwards.

# The condition

Nothing in the code keeps a `Start` from running beside another or beside a
`Stop`, or a `RefreshHostnames` from ending behind one. So what holds of
the methods holds under a condition on the critical sections of theirs
(`Orderly`): where a `Start` begins, where it shows its IDs, and where the
hosts file is said to be updated or not.

# Frames

A `Start` is in flight until its port forwards are started, and on its way
to showing an error; until it shows the IDs of its port forwards it holds
them. What a frame does to the port forwards, and what it leaves behind it,
is one of a few things (`Forwarding`), whatever it does to the hosts file
and to what is shown of the rest.
-/
import Kubikles.Ingress.Manager

namespace IngressForwardManager

open PortForwardManager (PortForwardConfig)

variable {w w' : World} {f : Frame} {env : Env} {frames rest : List Frame}

-- ======== frames

/-- A point of `Start` before the IDs of its port forwards are shown. -/
def Point.opening : Point → Bool
  | .startForward _ _ | .updateHosts | .hostsUpdated | .hostsFailed _
  | .setRunning => false
  | _ => true

/-- A `Start` that has not shown the IDs of its port forwards. -/
def Frame.opening : Frame → Bool
  | .starting _ point => point.opening
  | _ => false

/-- A `Start` that is not done with its port forwards, or has an error to
show. -/
def Frame.inFlight : Frame → Bool
  | .starting _ (.startForward _ _) => true
  | .starting _ point => point.opening
  | .setError _ => true
  | _ => false

/-- The IDs of the port forwards that a `Start` has created and not
shown. -/
def Frame.held : Frame → List String
  | .starting _ (.addHTTP ids) => ids
  | .starting _ (.setIDs ids) => ids
  | _ => []

/-- What `Stop` does between its critical sections. -/
def Frame.undoes : Frame → Bool
  | .stopForward _ | .deleteConfig _ | .removeEntries => true
  | _ => false

/-- An error is shown, and no `Stop` is before it. -/
def bare : List Frame → Bool
  | [] => false
  | .setError _ :: _ => true
  | .stop :: _ => false
  | .reset :: _ => false
  | _ :: g => bare g

/-- Behind all that a `Stop` does is its last critical section. -/
def Closes : List Frame → Prop
  | [] => True
  | f :: g => (f.undoes = true → .reset ∈ g) ∧ Closes g

theorem inFlight_of_opening (h : f.opening = true) : f.inFlight = true := by
  cases f with
  | starting l point => cases point <;> first | rfl | cases h
  | _ => cases h

theorem closes_append (h : ∀ f ∈ frames, f.undoes = false)
    (hrest : Closes rest) : Closes (frames ++ rest) := by
  induction frames with
  | nil => exact hrest
  | cons f frames ih =>
    obtain ⟨hf, hframes⟩ := List.forall_mem_cons.mp h
    refine ⟨fun hundoes => ?_, ih hframes⟩
    rw [hf] at hundoes
    cases hundoes

theorem closes_stopFrames (ids : List String) (updated : Bool)
    (hrest : Closes rest) : Closes (stopFrames ids updated ++ rest) := by
  have hundo : ∀ undo : List Frame, Closes
      (undo ++ .reset :: .emitEvent .stopped :: rest) := by
    intro undo
    induction undo with
    | nil => exact ⟨(fun h => nomatch h), (fun h => nomatch h), hrest⟩
    | cons f undo ih =>
      exact ⟨fun _ => List.mem_append_right _ List.mem_cons_self, ih⟩
  unfold stopFrames
  rw [← List.append_assoc, List.append_assoc]
  exact hundo _

theorem bare_stopFrames (ids : List String) (updated : Bool) :
    bare (stopFrames ids updated ++ rest) = false := by
  unfold stopFrames
  induction ids with
  | nil => cases updated <;> rfl
  | cons id ids ih => exact ih

theorem mem_stopFrames {ids : List String} {updated : Bool} :
    f ∈ stopFrames ids updated
      ↔ (∃ id ∈ ids, f = .stopForward id ∨ f = .deleteConfig id)
        ∨ updated = true ∧ f = .removeEntries ∨ f = .reset
        ∨ f = .emitEvent .stopped := by
  unfold stopFrames
  cases updated <;> simp

theorem inFlight_of_mem_stop (hf : f ∈ w.stop.frames) :
    f.inFlight = false := by
  unfold World.stop at hf
  dsimp only at hf
  split at hf
  · rcases mem_stopFrames.mp hf with
      ⟨id, -, rfl | rfl⟩ | ⟨-, rfl⟩ | rfl | rfl <;> rfl
  · cases hf

-- ======== the condition

/-- The first critical section of `Start`. -/
def Frame.begins : Frame → Bool
  | .start _ _ => true
  | _ => false

/-- The critical section of `Start` that shows its IDs. -/
def Frame.publishes : Frame → Bool
  | .starting _ (.setIDs _) => true
  | _ => false

/-- A critical section that says that the hosts file is updated. -/
def Frame.flags : Frame → Bool
  | .starting _ .hostsUpdated | .setRefreshed _ => true
  | _ => false

/-- A critical section that says that it is not, or that the forwarding is
not active, without a `Stop`. -/
def Frame.unflags : Frame → Bool
  | .starting _ (.hostsFailed _) | .setError _ => true
  | _ => false

/-- What says that the hosts file is updated, or removes its entries. -/
def Frame.settles (f : Frame) : Bool := f.flags || f = .removeEntries

/-- Nothing in the hosts file is managed, or what is could once not be
removed, or one of these frames settles it. -/
def Covered (w : World) (fs : List Frame) : Prop :=
  w.hosts.managed = [] ∨ w.removalFailed = true
    ∨ ∃ f ∈ fs, f.settles = true

instance Covered.decidable (w : World) (fs : List Frame) :
    Decidable (Covered w fs) :=
  inferInstanceAs (Decidable (_ ∨ _))

/-- The condition on a step: the frame that runs, among all there are. -/
structure Orderly (w : World) (fs : List Frame) (f : Frame) : Prop where
  begins : f.begins = true → w.state.active = true
    ∨ ∀ g ∈ fs, g.inFlight = false
  publishes : f.publishes = true → w.state.active = true ∧ .reset ∉ fs
  flags : f.flags = true → Covered w (fs.erase f)
    ∨ w.state.active = true ∧ .reset ∉ fs
  unflags : f.unflags = true → Covered w (fs.erase f)

theorem orderly_iff {w : World} {fs : List Frame} {f : Frame} :
    Orderly w fs f
      ↔ (f.begins = true → w.state.active = true
          ∨ ∀ g ∈ fs, g.inFlight = false)
        ∧ (f.publishes = true → w.state.active = true ∧ .reset ∉ fs)
        ∧ (f.flags = true → Covered w (fs.erase f)
          ∨ w.state.active = true ∧ .reset ∉ fs)
        ∧ (f.unflags = true → Covered w (fs.erase f)) :=
  ⟨fun h => ⟨h.begins, h.publishes, h.flags, h.unflags⟩,
    fun ⟨h₁, h₂, h₃, h₄⟩ => ⟨h₁, h₂, h₃, h₄⟩⟩

instance Orderly.decidable (w : World) (fs : List Frame) (f : Frame) :
    Decidable (Orderly w fs f) :=
  decidable_of_iff _ orderly_iff.symm

def NewID (w : World) : Env → Prop
  | .added id _ => id ∉ w.created
  | _ => True

instance NewID.decidable (w : World) (env : Env) :
    Decidable (NewID w env) := by
  unfold NewID
  split <;> infer_instance

-- ======== worlds

/-- Two worlds have the same port forwards, and show the same of them. -/
structure SameForwards (w w' : World) : Prop where
  active : w'.state.active = w.state.active
  status : w'.state.status = .stopped → w.state.status = .stopped
  ids : w'.state.portForwardIDs = w.state.portForwardIDs
  created : w'.created = w.created
  configs : w'.forwards.configs = w.forwards.configs

theorem SameForwards.refl (w : World) : SameForwards w w :=
  ⟨rfl, id, rfl, rfl, rfl⟩

/-- Frames that stand for the one they are left by. -/
structure Follows (f : Frame) (frames : List Frame) : Prop where
  inFlight : frames.countP Frame.inFlight ≤ [f].countP Frame.inFlight
  opening : ∀ g ∈ frames, g.opening = true → f.opening = true
  held : frames.flatMap Frame.held = f.held
  undoes : ∀ g ∈ frames, g.undoes = false
  reset : ∀ g ∈ f :: frames, g ≠ .reset
  kept : ∀ id, f ≠ .deleteConfig id
  bare : f.opening = true
    ∨ ∀ rest, bare (frames ++ rest) = true → bare (f :: rest) = true

def Frame.idle : Frame → Bool
  | .starting _ (.startForward _ _) => false
  | .starting _ point => !point.opening
  | .stop | .deleteConfig _ | .reset | .setError _ => false
  | _ => true

structure IdleFrame (f : Frame) : Prop where
  inFlight : f.inFlight = false
  opening : f.opening = false
  held : f.held = []
  reset : f ≠ .reset
  kept : ∀ id, f ≠ .deleteConfig id
  bare : ∀ g, bare (f :: g) = bare g

theorem idleFrame (h : f.idle = true) : IdleFrame f := by
  cases f with
  | starting l point =>
    cases point <;>
      first
        | exact absurd h Bool.false_ne_true
        | exact ⟨rfl, rfl, rfl, (fun h => nomatch h),
            (fun _ h => nomatch h), fun _ => rfl⟩
  | _ =>
    first
      | exact absurd h Bool.false_ne_true
      | exact ⟨rfl, rfl, rfl, (fun h => nomatch h),
          (fun _ h => nomatch h), fun _ => rfl⟩

theorem bare_idle (h : ∀ g ∈ frames, g.idle = true) :
    bare (frames ++ rest) = bare rest := by
  induction frames with
  | nil => rfl
  | cons f frames ih =>
    obtain ⟨hf, hframes⟩ := List.forall_mem_cons.mp h
    rw [List.cons_append, (idleFrame hf).bare, ih hframes]

theorem follows_idle (hf : f.idle = true)
    (hall : frames.all (fun g => g.idle && !g.undoes) = true) :
    Follows f frames := by
  have hframes : ∀ g ∈ frames, g.idle = true ∧ g.undoes = false := by
    simpa [List.all_eq_true] using hall
  have hnone : frames.countP Frame.inFlight = 0 := by
    rw [List.countP_eq_zero]
    intro g hg
    rw [(idleFrame (hframes g hg).1).inFlight]
    exact Bool.false_ne_true
  exact
    { inFlight := by
        rw [hnone]
        exact Nat.zero_le _
      opening := by
        intro g hg hopening
        rw [(idleFrame (hframes g hg).1).opening] at hopening
        cases hopening
      held := by
        rw [(idleFrame hf).held, List.flatMap_eq_nil_iff]
        exact fun g hg => (idleFrame (hframes g hg).1).held
      undoes := fun g hg => (hframes g hg).2
      reset := by
        intro g hg
        rcases List.mem_cons.mp hg with rfl | hg
        · exact (idleFrame hf).reset
        · exact (idleFrame (hframes g hg).1).reset
      kept := (idleFrame hf).kept
      bare := by
        refine .inr fun rest h => ?_
        rw [bare_idle fun g hg => (hframes g hg).1] at h
        rw [(idleFrame hf).bare]
        exact h }

theorem follows_opening {g : Frame} (hf : f.opening = true)
    (hg : g.opening = true) (hheld : g.held = f.held) :
    Follows f [g] where
  inFlight := by
    simp [inFlight_of_opening hf, inFlight_of_opening hg]
  opening _ _ _ := hf
  held := by
    rw [List.flatMap_singleton, hheld]
  undoes g' hg' := by
    rw [List.mem_singleton.mp hg']
    cases g <;> first | rfl | cases hg
  reset g' hg' := by
    rcases List.mem_cons.mp hg' with rfl | hg'
    · rintro rfl
      cases hf
    · rw [List.mem_singleton.mp hg']
      rintro rfl
      cases hg
  kept id := by
    rintro rfl
    cases hf
  bare := .inl hf

theorem follows_failed (hf : f.opening = true) (hheld : f.held = [])
    (shown returned : Err) : Follows f (failed shown returned) where
  inFlight := by
    rw [List.countP_singleton, if_pos (inFlight_of_opening hf)]
    exact Nat.le_refl 1
  opening _ _ _ := hf
  held := hheld.symm
  undoes := by simp [failed, Frame.undoes]
  reset := by
    intro g hg
    rcases List.mem_cons.mp hg with rfl | hg
    · rintro rfl
      cases hf
    · rintro rfl
      simp [failed] at hg
  kept id := by
    rintro rfl
    cases hf
  bare := .inl hf

/-- What a frame does to the port forwards, and the frames it leaves. -/
inductive Forwarding (w : World) (env : Env) :
    Frame → World → List Frame → Prop
  | same {f : Frame} {w' : World} {frames : List Frame}
      (hsame : SameForwards w w') (hfollows : Follows f frames) :
      Forwarding w env f w' frames
  | begins {controller : IngressController} {namespaces : List String}
      {l : Local} {w' : World} (hinactive : w.state.active = false)
      (hactive : w'.state.active = true)
      (hstatus : w'.state.status ≠ .stopped)
      (hids : w'.state.portForwardIDs = w.state.portForwardIDs)
      (hcreated : w'.created = w.created)
      (hconfigs : w'.forwards.configs = w.forwards.configs) :
      Forwarding w env (.start controller namespaces) w'
        [.emitEvent .starting, .starting l (.cleanup namespaces)]
  | cleans {l : Local} {namespaces : List String}
      {forwards : PortForwardManager.Manager}
      (hconfigs : ∀ id, id ∈ forwards.configs → id ∈ w.forwards.configs) :
      Forwarding w env (.starting l (.cleanup namespaces))
        { w with forwards } [.starting l (.collect namespaces)]
  | adds {f : Frame} {l : Local} {id : String} {now : Nat}
      {forwards : PortForwardManager.Manager} {stored : PortForwardConfig}
      {frames : List Frame} (henv : env = .added id now)
      (hopening : f.opening = true)
      (hconfigs : forwards.configs = w.forwards.configs.insert id stored)
      (hframes : frames = [.starting l (.addHTTP (f.held ++ [id]))]
        ∨ frames = [.starting l (.setIDs (f.held ++ [id]))]) :
      Forwarding w env f
        { w with forwards, created := id :: w.created } frames
  | publishes {l : Local} {ids : List String} :
      Forwarding w env (.starting l (.setIDs ids))
        (w.modifyState ({ · with portForwardIDs := ids }))
        (l.startForwards ids)
  | stops : Forwarding w env .stop w w.stop.frames
  | deletes {id : String} {forwards : PortForwardManager.Manager}
      (hconfigs : forwards.configs = w.forwards.configs.erase id) :
      Forwarding w env (.deleteConfig id) { w with forwards } []
  | resets : Forwarding w env .reset { w with state := {} } []
  | fails {err : Err} {w' : World} (hinactive : w'.state.active = false)
      (hids : w'.state.portForwardIDs = w.state.portForwardIDs)
      (hcreated : w'.created = w.created)
      (hconfigs : w'.forwards.configs = w.forwards.configs) :
      Forwarding w env (.setError err) w' [.emitEvent .error]

-- ======== Start

theorem follows_created {l l' : Local} {point : Point}
    (hf : (Frame.starting l' point).opening = true) :
    Follows (.starting l' point)
      (l.created (Frame.starting l' point).held) := by
  unfold Local.created
  split
  next hnil => exact follows_failed hf hnil _ _
  next => exact follows_opening hf rfl rfl

theorem follows_behindHTTPS {l l' : Local} {point : Point}
    (hf : (Frame.starting l' point).opening = true) :
    Follows (.starting l' point)
      (l.behindHTTPS (Frame.starting l' point).held) := by
  unfold Local.behindHTTPS
  split
  · exact follows_opening hf rfl rfl
  · exact follows_created hf

theorem Local.behindHTTPS_added {l : Local} {id : String} :
    l.behindHTTPS [id] = [.starting l (.addHTTP [id])]
      ∨ l.behindHTTPS [id] = [.starting l (.setIDs [id])] := by
  unfold Local.behindHTTPS
  split
  · exact .inl rfl
  · exact .inr rfl

theorem follows_behindPorts {l : Local} :
    Follows (.starting l .setPorts) l.behindPorts := by
  unfold Local.behindPorts
  split
  · exact follows_opening rfl rfl rfl
  · exact follows_behindHTTPS rfl

theorem follows_startForwards {l l' : Local} {id : String}
    (ids : List String) :
    Follows (.starting l (.startForward id ids)) (l'.startForwards ids) := by
  cases ids with
  | nil =>
    exact ⟨Nat.zero_le 1, by simp [Local.startForwards, Frame.opening,
      Point.opening], rfl, by simp [Local.startForwards, Frame.undoes],
      by simp [Local.startForwards], (fun _ h => nomatch h),
      .inr fun _ h => h⟩
  | cons id' ids =>
    exact ⟨le_rfl, by simp [Local.startForwards, Frame.opening,
      Point.opening], rfl, by simp [Local.startForwards, Frame.undoes],
      by simp [Local.startForwards], (fun _ h => nomatch h),
      .inr fun _ h => h⟩

theorem follows_stop_failed {l : Local} {id : String} {ids : List String}
    (shown returned : Err) :
    Follows (.starting l (.startForward id ids))
      (.stop :: failed shown returned) :=
  ⟨by simp [failed, List.countP_cons, Frame.inFlight],
    by simp [failed, Frame.opening], rfl,
    by simp [failed, Frame.undoes], by simp [failed],
    (fun _ h => nomatch h), .inr fun _ h => nomatch h⟩

theorem addConfig_cases (cfg : PortForwardConfig) (now : Nat) (w : World) :
    (∃ forwards stored,
        w.addConfig cfg now
          = ({ w with forwards, created := cfg.id :: w.created }, none)
        ∧ forwards.configs = w.forwards.configs.insert cfg.id stored)
      ∨ ∃ message, w.addConfig cfg now = (w, some message) := by
  unfold World.addConfig
  rcases PortForwardManager.addConfigNow_cases cfg now w.forwards with
    ⟨stored, hadded, hconfigs⟩ | ⟨message, hadd⟩
  · cases hnow : w.forwards.addConfigNow cfg.id now cfg with
    | mk forwards err =>
      rw [hnow] at hadded hconfigs
      obtain rfl : err = none := hadded
      exact .inl ⟨forwards, stored, rfl, hconfigs⟩
  · rw [hadd]
    exact .inr ⟨message, rfl⟩

/-- What a `Start` does to the port forwards. -/
theorem forwarding_of_starting {l : Local} {point : Point}
    {effect : Effect} (h : l.exec w point env = some effect) :
    Forwarding w env (.starting l point) effect.world effect.frames := by
  cases point with
  | cleanup namespaces =>
    cases env with
    | order ids =>
      simp only [Local.exec] at h
      split at h
      · cases h
        refine .cleans fun id hid => ?_
        rw [PortForwardManager.cleanup_configs] at hid
        rw [← Finmap.lookup_isSome, FinMap.lookup_eraseAll] at hid
        split at hid
        · cases hid
        · exact Finmap.lookup_isSome.mp hid
      · cases h
    | _ => cases h
  | collect namespaces =>
    cases env with
    | listed listIngresses =>
      cases h
      refine .same (.refl w) ?_
      dsimp only
      split
      · exact follows_failed rfl rfl _ _
      · exact follows_opening rfl rfl rfl
    | _ => cases h
  | setHostnames =>
    cases env with
    | go =>
      cases h
      exact .same ⟨rfl, id, rfl, rfl, rfl⟩ (follows_opening rfl rfl rfl)
    | _ => cases h
  | choosePorts =>
    cases env with
    | ports https isPortAvailable http =>
      cases h
      exact .same (.refl w) (follows_opening rfl rfl rfl)
    | _ => cases h
  | setPorts =>
    cases env with
    | go =>
      cases h
      exact .same ⟨rfl, id, rfl, rfl, rfl⟩ follows_behindPorts
    | _ => cases h
  | addHTTPS =>
    cases env with
    | added id now =>
      simp only [Local.exec] at h
      rcases addConfig_cases (l.httpsConfig id) now w with
        ⟨forwards, stored, hadd, hconfigs⟩ | ⟨message, hadd⟩
      · rw [hadd] at h
        cases h
        exact .adds rfl rfl hconfigs l.behindHTTPS_added
      · rw [hadd] at h
        cases h
        exact .same (.refl w) (follows_failed rfl rfl _ _)
    | _ => cases h
  | addHTTP ids =>
    cases env with
    | added id now =>
      simp only [Local.exec] at h
      rcases addConfig_cases (l.httpConfig id) now w with
        ⟨forwards, stored, hadd, hconfigs⟩ | ⟨message, hadd⟩
      · rw [hadd] at h
        cases h
        exact .adds rfl rfl hconfigs (.inr (if_neg (by simp)))
      · rw [hadd] at h
        cases h
        exact .same (.refl w) (follows_created rfl)
    | _ => cases h
  | setIDs ids =>
    cases env with
    | go =>
      cases h
      exact .publishes
    | _ => cases h
  | startForward id rest =>
    cases env with
    | started available now =>
      have hconfigs : (w.forwards.startNow available now id).1.configs
          = w.forwards.configs :=
        PortForwardManager.startNow_configs available
      simp only [Local.exec] at h
      split at h
      next forwards hstart =>
        cases h
        rw [hstart] at hconfigs
        exact .same ⟨rfl, fun h => h, rfl, rfl, hconfigs⟩
          (follows_startForwards rest)
      next forwards message hstart =>
        cases h
        rw [hstart] at hconfigs
        exact .same ⟨rfl, fun h => h, rfl, rfl, hconfigs⟩
          (follows_stop_failed _ _)
    | _ => cases h
  | updateHosts =>
    cases env with
    | hosts env =>
      simp only [Local.exec] at h
      split at h
      · cases h
        exact .same ⟨rfl, id, rfl, rfl, rfl⟩
          (follows_idle rfl rfl)
      · cases h
        exact .same ⟨rfl, id, rfl, rfl, rfl⟩
          (follows_idle rfl rfl)
    | _ => cases h
  | hostsUpdated =>
    cases env with
    | go =>
      cases h
      exact .same ⟨rfl, id, rfl, rfl, rfl⟩ (follows_idle rfl rfl)
    | _ => cases h
  | hostsFailed err =>
    cases env with
    | go =>
      cases h
      exact .same ⟨rfl, id, rfl, rfl, rfl⟩ (follows_idle rfl rfl)
    | _ => cases h
  | setRunning =>
    cases env with
    | go =>
      cases h
      refine .same ⟨rfl, ?_, rfl, rfl, rfl⟩ (follows_idle rfl rfl)
      exact fun h => nomatch h
    | _ => cases h

-- ======== all of them

/-- A frame that is idle, and leaves idle frames, in a world whose port
forwards it leaves alone. -/
theorem forwarding_idle (hsame : SameForwards w w') (hf : f.idle = true)
    (hframes : frames.all (fun g => g.idle && !g.undoes) = true) :
    Forwarding w env f w' frames :=
  .same hsame (follows_idle hf hframes)

/-- What a frame does to the port forwards. -/
theorem forwarding_of_exec {effect : Effect}
    (h : exec f env w = some effect) :
    Forwarding w env f effect.world effect.frames := by
  cases f with
  | start controller namespaces =>
    cases env with
    | context context =>
      cases h
      unfold World.start
      split
      · exact forwarding_idle (.refl w) rfl rfl
      next hinactive =>
        exact .begins (by simpa using hinactive) rfl
          (fun h => nomatch h) rfl rfl rfl
    | _ => cases h
  | starting l point => exact forwarding_of_starting h
  | stop =>
    cases env with
    | go =>
      cases h
      exact .stops
    | _ => cases h
  | stopForward id =>
    cases env with
    | go =>
      cases h
      exact forwarding_idle
        ⟨rfl, fun h => h, rfl, rfl, PortForwardManager.stopNow_configs⟩
        rfl rfl
    | _ => cases h
  | deleteConfig id =>
    cases env with
    | go =>
      cases h
      exact .deletes PortForwardManager.deleteConfigNow_configs
    | _ => cases h
  | removeEntries =>
    cases env with
    | hosts env =>
      simp only [exec] at h
      split at h
      · cases h
        exact forwarding_idle ⟨rfl, fun h => h, rfl, rfl, rfl⟩ rfl rfl
      · cases h
        exact forwarding_idle ⟨rfl, fun h => h, rfl, rfl, rfl⟩ rfl rfl
    | _ => cases h
  | reset =>
    cases env with
    | go =>
      cases h
      exact .resets
    | _ => cases h
  | refreshHostnames namespaces =>
    cases env with
    | go =>
      cases h
      refine forwarding_idle (.refl w) rfl ?_
      unfold World.refreshHostnames
      dsimp only
      split <;> rfl
    | _ => cases h
  | recollect namespaces =>
    cases env with
    | listed listIngresses =>
      cases h
      exact forwarding_idle (.refl w) rfl rfl
    | _ => cases h
  | addEntries hostnames =>
    cases env with
    | hosts env =>
      simp only [exec] at h
      split at h
      · cases h
        exact forwarding_idle ⟨rfl, fun h => h, rfl, rfl, rfl⟩ rfl rfl
      · cases h
        exact forwarding_idle ⟨rfl, fun h => h, rfl, rfl, rfl⟩ rfl rfl
    | _ => cases h
  | setRefreshed hostnames =>
    cases env with
    | go =>
      cases h
      exact forwarding_idle ⟨rfl, fun h => h, rfl, rfl, rfl⟩ rfl rfl
    | _ => cases h
  | setError err =>
    cases env with
    | go =>
      cases h
      exact .fails rfl rfl rfl rfl
    | _ => cases h
  | emitEvent type =>
    cases env with
    | go =>
      cases h
      exact forwarding_idle (.refl w) rfl rfl
    | _ => cases h
  | reply err =>
    cases env with
    | go =>
      cases h
      exact forwarding_idle (.refl w) rfl rfl
    | _ => cases h

end IngressForwardManager
