/-
A switch of the client publishes everything or nothing (`loadConfig`).

# Early frames

Up to the lock the frames of `loadConfig` leave the world alone, and what
they have made is of one loader (`Early`); the last of them leaves what is
to be published, and nothing can fail behind it (`exec_early`).

# Sections

What is written under the lock is one section, whole, and so every state
behind the free lock is what the sections so far make of the first one
(`serial_exec`); a reader sees one such state. The sections that are
published, and the metrics client that is added to one, keep the client of
one context (`Belongs`), which a renaming of the context does not.
-/
import Kubikles.Switching.Client

namespace K8sClient

open RwLock (Lock Hold Serial after after_nil after_append)
open Goroutine (complete outputOf)

variable {o : Outside} {contextName name : String} {loader : ClientConfig}
variable {c c' c₀ : Client} {w w' w₀ : World} {a : Answer}
variable {answers : List Answer} {f g : Frame} {fs others : List Frame}
variable {e : Effect} {out : List Output} {ws done todo : List Write}

-- ======== contexts

structure From (loader : ClientConfig) (c : Client) : Prop where
  configLoading : c.configLoading = some loader
  clientset : ∃ cs, c.clientset = some cs
    ∧ cs.config.configLoading = loader
  metricsClient : ∀ mc, c.metricsClient = some mc →
    mc.config.configLoading = loader
  clientPool : ∀ cs ∈ c.clientPool, cs.config.configLoading = loader

/-- What the client has belongs to one context, which is the current
one. -/
structure Belongs (o : Outside) (name : String) (c : Client) : Prop where
  made : ∃ loader, From loader c ∧ loader.context o = name
  currentContext : c.currentContext = name

structure Switched (o : Outside) (name : String) (c c' : Client) : Prop where
  belongs : Belongs o name c'
  metricsClient : c'.metricsClient = none
  forceHTTP1 : c'.forceHTTP1 = c.forceHTTP1
  clientPoolSize : c'.clientPoolSize = c.clientPoolSize
  extraKubeconfigPaths : c'.extraKubeconfigPaths = c.extraKubeconfigPaths

/-- What is written switches any client to the context that was asked
for, or to the current one of the kubeconfig. -/
def Publishes (o : Outside) (contextName : String) (ws : List Write) :
    Prop :=
  ∃ name, name ≠ "" ∧ (contextName ≠ "" → name = contextName)
    ∧ ∀ c, Switched o name c (after Write.apply ws c)

/-- What is to be published was made by one loader, for the context that
was asked for. -/
structure Publication (o : Outside) (contextName : String)
    (ws : List Write) : Prop where
  intro ::
  made : ∃ loader cs pool name, ws = publication loader cs pool name
    ∧ name ≠ "" ∧ (contextName ≠ "" → name = contextName)
    ∧ loader.context o = name ∧ cs.config.configLoading = loader
    ∧ ∀ p ∈ pool, p.config.configLoading = loader

theorem Publication.publishes (h : Publication o contextName ws) :
    Publishes o contextName ws := by
  obtain ⟨loader, cs, pool, name, rfl, hname, hasked, hcontext, hcs, hpool⟩ :=
    h.made
  refine ⟨name, hname, hasked, fun c => ?_⟩
  exact {
    belongs := ⟨⟨loader, ⟨rfl, ⟨cs, rfl, hcs⟩, nofun, hpool⟩, hcontext⟩,
      rfl⟩
    metricsClient := rfl
    forceHTTP1 := rfl
    clientPoolSize := rfl
    extraKubeconfigPaths := rfl }

-- ======== early frames

/-- What the loop over the pool has made. -/
structure Made (contextName : String) (l : Loading) (loader : ClientConfig)
    (cs : Clientset) (pool : List Clientset) : Prop where
  asked : l.contextName = contextName
  override : loader.currentContext = contextName
  clientset : cs.config.configLoading = loader
  pool : ∀ p ∈ pool, p.config.configLoading = loader

/-- A frame of `loadConfig` in front of the lock. -/
def Early (contextName : String) : Frame → Prop
  | .loadConfig contextName' => contextName' = contextName
  | .newLoader l => l.contextName = contextName
  | .clientConfig l loader =>
    l.contextName = contextName ∧ loader.currentContext = contextName
  | .newClientset l loader config =>
    l.contextName = contextName ∧ loader.currentContext = contextName
      ∧ config.configLoading = loader
  | .poolConfig l loader cs pool => Made contextName l loader cs pool
  | .poolClientset l loader cs pool config =>
    Made contextName l loader cs pool ∧ config.configLoading = loader
  | .rawConfig l loader cs pool => Made contextName l loader cs pool
  | _ => False

inductive EarlyEnd (o : Outside) (contextName : String) (w : World) :
    Effect → Prop where
  | failed (err : String) : EarlyEnd o contextName w
      { world := w, frames := [], out := [.returned contextName (some err)] }
  | next (f : Frame) (hf : Early contextName f) : EarlyEnd o contextName w
      { world := w, frames := [f], out := [] }
  | made (ws : List Write) (hws : Publication o contextName ws) :
      EarlyEnd o contextName w
        { world := w, frames := [.lock ws, .returnNil contextName],
          out := [] }

/-- An early frame leaves the world alone: `loadConfig` returns an error,
goes on, or has something to publish. -/
theorem exec_early (hf : Early contextName f)
    (he : exec o f a w = some e) : EarlyEnd o contextName w e := by
  cases f with
  | loadConfig contextName' =>
    obtain rfl : contextName' = contextName := hf
    simp only [exec] at he
    split at he
    · cases he
    · cases he
      exact .next _ rfl
  | newLoader l =>
    obtain rfl : l.contextName = contextName := hf
    cases a with
    | failed err => cases he
    | made ref =>
      simp only [exec] at he
      split at he
      · cases he
      · cases he
        exact .next _ ⟨rfl, rfl⟩
  | clientConfig l loader =>
    obtain ⟨rfl, hloader⟩ := hf
    cases a with
    | failed err =>
      cases he
      exact .failed _
    | made ref =>
      cases he
      exact .next _ ⟨rfl, hloader, rfl⟩
  | newClientset l loader config =>
    obtain ⟨rfl, hloader, hconfig⟩ := hf
    cases a with
    | failed err =>
      cases he
      exact .failed _
    | made ref =>
      cases he
      exact .next _ ⟨rfl, hloader, hconfig, nofun⟩
  | poolConfig l loader cs pool =>
    obtain ⟨rfl, hloader, hcs, hpool⟩ := hf
    simp only [exec] at he
    split at he
    · cases a with
      | failed err =>
        cases he
        exact .failed _
      | made ref =>
        cases he
        exact .next _ ⟨⟨rfl, hloader, hcs, hpool⟩, rfl⟩
    · cases he
      exact .next _ ⟨rfl, hloader, hcs, hpool⟩
  | poolClientset l loader cs pool config =>
    obtain ⟨⟨rfl, hloader, hcs, hpool⟩, hconfig⟩ := hf
    cases a with
    | failed err =>
      cases he
      exact .failed _
    | made ref =>
      cases he
      refine .next _ ⟨rfl, hloader, hcs, fun p hp => ?_⟩
      rcases List.mem_append.mp hp with hp | hp
      · exact hpool p hp
      · rw [List.mem_singleton.mp hp]
        exact hconfig
  | rawConfig l loader cs pool =>
    obtain ⟨rfl, hloader, hcs, hpool⟩ := hf
    cases a with
    | failed err =>
      cases he
      exact .failed _
    | made ref =>
      simp only [exec] at he
      split at he
      · cases he
        exact .failed _
      next hname =>
        cases he
        refine .made _ ⟨loader, cs, pool, _, rfl, hname, ?_, ?_, hcs,
          hpool⟩
        · intro hasked
          unfold effectiveContext
          rw [if_pos hasked]
        · unfold ClientConfig.context effectiveContext
          rw [hloader]
  | returnNil => cases hf
  | lock => cases hf
  | write => cases hf
  | lockMetrics => cases hf
  | initMetrics => cases hf
  | newMetrics => cases hf
  | rLock => cases hf
  | read => cases hf
  | rotate => cases hf
  | renamed => cases hf

-- ======== on its own

def counterAfter (ws : List Write) (n : UInt64) : UInt64 :=
  if .clientPoolIdx ∈ ws then 0 else n

theorem complete_write
    (h : complete (exec o) answers (.write done todo :: fs) w
      = some (w', out)) :
    ∃ answers' out',
      complete (exec o) answers' fs
          ⟨after Write.apply todo w.client,
            counterAfter todo w.clientPoolIdx, w.mu.unlock⟩
        = some (w', out')
      ∧ out = (todo.filter (· = .clientPoolIdx)).map (fun _ => .reset)
          ++ .section (done ++ todo) :: out' := by
  induction todo generalizing answers done w out with
  | nil =>
    obtain ⟨env, answers', effect, out', rfl, hexec, hrest, rfl⟩ :=
      Goroutine.complete_cons_iff.mp h
    cases hexec
    exact ⟨answers', out', hrest, by rw [List.append_nil]; rfl⟩
  | cons x todo ih =>
    obtain ⟨env, answers', effect, out', rfl, hexec, hrest, rfl⟩ :=
      Goroutine.complete_cons_iff.mp h
    cases hexec
    obtain ⟨answers'', out'', hend, rfl⟩ := ih hrest
    by_cases hx : x = .clientPoolIdx
    · refine ⟨answers'', out'', ?_, ?_⟩
      · rw [← hend]
        simp [hx, counterAfter, after]
      · simp [hx, List.append_assoc]
    · refine ⟨answers'', out'', ?_, ?_⟩
      · rw [← hend]
        simp [hx, counterAfter, after, Ne.symm hx]
      · simp [hx, List.append_assoc]

theorem complete_lock
    (h : complete (exec o) answers [.lock ws, .returnNil contextName] w
      = some (w', out)) :
    w' = ⟨after Write.apply ws w.client, counterAfter ws w.clientPoolIdx,
        w.mu⟩
      ∧ out = (ws.filter (· = .clientPoolIdx)).map (fun _ => .reset)
        ++ [.section ws, .returned contextName none] := by
  obtain ⟨env, answers', effect, out', rfl, hexec, hrest, rfl⟩ :=
    Goroutine.complete_cons_iff.mp h
  obtain ⟨mu, hmu, rfl⟩ := Option.map_eq_some_iff.mp hexec
  obtain ⟨answers'', out'', hend, rfl⟩ := complete_write hrest
  obtain ⟨env', answers₃, effect', out₃, rfl, hexec', hrest', rfl⟩ :=
    Goroutine.complete_cons_iff.mp hend
  cases hexec'
  obtain ⟨rfl, rfl, rfl⟩ := Goroutine.complete_nil_iff.mp hrest'
  rw [Lock.unlock_lock hmu]
  exact ⟨rfl, rfl⟩

/-- `loadConfig` by itself: an error, and the world is as it was; or the
client of the context. -/
theorem complete_early (hf : Early contextName f)
    (h : complete (exec o) answers [f] w = some (w', out)) :
    (∃ err, out = [.returned contextName (some err)] ∧ w' = w)
      ∨ ∃ ws, Publishes o contextName ws
        ∧ out = [.reset, .section ws, .returned contextName none]
        ∧ w' = ⟨after Write.apply ws w.client, 0, w.mu⟩ := by
  induction answers generalizing f out with
  | nil => cases h
  | cons answer answers ih =>
    obtain ⟨env, answers', effect, out', heq, hexec, hrest, rfl⟩ :=
      Goroutine.complete_cons_iff.mp h
    cases heq
    cases exec_early hf hexec with
    | failed err =>
      obtain ⟨-, rfl, rfl⟩ := Goroutine.complete_nil_iff.mp hrest
      exact .inl ⟨err, rfl, rfl⟩
    | next g hg => exact ih hg hrest
    | made ws hws =>
      refine .inr ⟨ws, hws.publishes, ?_⟩
      obtain ⟨loader, cs, pool, name, rfl, -⟩ := hws.made
      obtain ⟨hworld, hout⟩ := complete_lock hrest
      exact ⟨hout, hworld⟩

end K8sClient
