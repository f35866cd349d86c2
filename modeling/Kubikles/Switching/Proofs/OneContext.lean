/-
A switch of the client, by itself and among others (`loadConfig`).

By itself it returns an error and nothing has changed, or everything is of
the new context. Among others it gives away an error and nothing else, or
its one section (`run_returned`); what is read under the lock is of one
client between two sections (`run_history`); and as long as no context is
renamed that client is of one context (`run_fine`).
-/
import Kubikles.Switching.Proofs.Published

namespace K8sClient

open RwLock (Serial after after_append)
open Goroutine (complete outputOf)

variable {o : Outside} {contextName name : String}
variable {c c₀ : Client} {w : World} {a : Answer}
variable {f g : Frame} {fs others : List Frame} {e : Effect}
variable {out : List Output} {past : List (List Write)} {s : Sys}

-- ======== one context

/-- What is under way leaves the client of one context. -/
def Fine (o : Outside) (c : Client) : Frame → Prop
  | .lock ws => ∀ c name, Belongs o name c →
      ∃ name', Belongs o name' (after Write.apply ws c)
  | .write done todo =>
    ∃ name, Belongs o name (after Write.apply (done ++ todo) c)
  | .newMetrics config => c.configLoading = some config.configLoading
  | .renamed _ _ => False
  | f => isLoad f = true →
      (∃ contextName, Early contextName f)
        ∨ ∃ contextName, f = .returnNil contextName

theorem Early.fine (h : Early contextName f) : Fine o c f := by
  cases f <;> first | exact fun _ => .inl ⟨_, h⟩ | cases h

theorem Fine.of_nothing (hf : hold f = .nothing) (h : Fine o c f) :
    Fine o c₀ f := by
  cases f <;> first | exact h | cases hf

theorem Publication.fine {ws : List Write}
    (h : Publication o contextName ws) : Fine o c (.lock ws) := by
  intro c' _ _
  obtain ⟨name, -, -, hswitched⟩ := h.publishes
  exact ⟨name, (hswitched c').belongs⟩

theorem Belongs.of_settings {c' : Client} (h : Belongs o name c)
    (hloader : c'.configLoading = c.configLoading)
    (hclientset : c'.clientset = c.clientset)
    (hmetrics : c'.metricsClient = c.metricsClient)
    (hpool : c'.clientPool = c.clientPool)
    (hcurrent : c'.currentContext = c.currentContext) :
    Belongs o name c' := by
  obtain ⟨⟨loader, hfrom, hcontext⟩, hname⟩ := h
  refine ⟨⟨loader, ⟨?_, ?_, ?_, ?_⟩, hcontext⟩, hcurrent.trans hname⟩
  · rw [hloader]
    exact hfrom.configLoading
  · rw [hclientset]
    exact hfrom.clientset
  · rw [hmetrics]
    exact hfrom.metricsClient
  · rw [hpool]
    exact hfrom.clientPool

theorem Belongs.metrics {config : RestConfig} {ref : Nat}
    (h : Belongs o name c)
    (hloader : c.configLoading = some config.configLoading) :
    Belongs o name { c with metricsClient := some ⟨config, ref⟩ } := by
  obtain ⟨⟨loader, hfrom, hcontext⟩, hname⟩ := h
  refine ⟨⟨loader, ⟨hfrom.configLoading, hfrom.clientset, ?_,
    hfrom.clientPool⟩, hcontext⟩, hname⟩
  intro mc hmc
  cases hmc
  exact Option.some.inj (hloader.symm.trans hfrom.configLoading)

theorem fine_framesOf (call : Call)
    (hcall : ∀ oldName newName, call ≠ .renameContext oldName newName) :
    ∀ g ∈ framesOf call, Fine o c g := by
  intro g hg
  cases call with
  | loadConfig contextName =>
    rw [List.mem_singleton.mp hg]
    have hearly : Early contextName (.loadConfig contextName) := rfl
    exact hearly.fine
  | setForceHTTP1 enabled =>
    rw [List.mem_singleton.mp hg]
    exact fun c name h => ⟨name, h.of_settings rfl rfl rfl rfl rfl⟩
  | setClientPoolSize size =>
    rw [List.mem_singleton.mp hg]
    exact fun c name h => ⟨name, h.of_settings rfl rfl rfl rfl rfl⟩
  | setExtraKubeconfigPaths paths =>
    rw [List.mem_singleton.mp hg]
    exact fun c name h => ⟨name, h.of_settings rfl rfl rfl rfl rfl⟩
  | getMetrics =>
    rw [List.mem_singleton.mp hg]
    exact nofun
  | reader reader =>
    rw [List.mem_singleton.mp hg]
    exact nofun
  | renameContext oldName newName => exact absurd rfl (hcall oldName newName)

/-- What comes of a frame that leaves the client of one context. -/
structure Kept (o : Outside) (c₀ : Client) (past : List (List Write))
    (e : Effect) : Prop where
  frames : ∀ g ∈ e.frames,
    Fine o (clientAfter (past ++ sections e.out) c₀) g
  belongs : ∃ name,
    Belongs o name (clientAfter (past ++ sections e.out) c₀)

theorem Kept.of_nil (hout : sections e.out = [])
    (hframes : ∀ g ∈ e.frames, Fine o (clientAfter past c₀) g)
    (h : ∃ name, Belongs o name (clientAfter past c₀)) :
    Kept o c₀ past e := by
  refine ⟨?_, ?_⟩
  · rw [hout, List.append_nil]
    exact hframes
  · rw [hout, List.append_nil]
    exact h

theorem fine_exec (h : Ordered w c₀ (f :: others) past)
    (hf : Fine o (clientAfter past c₀) f)
    (hbelongs : ∃ name, Belongs o name (clientAfter past c₀))
    (he : exec o f a w = some e) : Kept o c₀ past e := by
  by_cases hload : isLoad f = true
  · have hstill := still_load hload he
    refine .of_nil hstill.sections ?_ hbelongs
    have hearly : (∃ contextName, Early contextName f)
        ∨ ∃ contextName, f = .returnNil contextName := by
      cases f <;> first | exact hf rfl | cases hload
    rcases hearly with ⟨contextName, hearly⟩ | ⟨contextName, rfl⟩
    · cases exec_early hearly he with
      | failed err => exact nofun
      | next g hg =>
        intro g' hg'
        rw [List.mem_singleton.mp hg']
        exact hg.fine
      | made ws hws =>
        intro g' hg'
        rcases List.mem_cons.mp hg' with rfl | hg'
        · exact hws.fine
        · rw [List.mem_singleton.mp hg']
          exact fun _ => .inr ⟨contextName, rfl⟩
    · cases he
      exact nofun
  cases exec_moves (Bool.not_eq_true _ ▸ hload) he with
  | lock todo mu hmu =>
    obtain ⟨name, hname⟩ := hbelongs
    refine .of_nil rfl (fun g hg => ?_) ⟨name, hname⟩
    rw [List.mem_singleton.mp hg]
    exact hf _ name hname
  | write done x todo =>
    refine .of_nil ?_ (fun g hg => ?_) hbelongs
    · dsimp only
      split <;> rfl
    · rw [List.mem_singleton.mp hg]
      show ∃ name, Belongs o name
        (after Write.apply (done ++ [x] ++ todo) _)
      rw [← List.append_cons]
      exact hf
  | unlock done =>
    refine ⟨nofun, ?_⟩
    obtain ⟨name, hname⟩ := hf
    refine ⟨name, ?_⟩
    rw [List.append_nil] at hname
    show Belongs o name (after Write.apply (past ++ [done]).flatten c₀)
    rw [List.flatten_append, List.flatten_singleton, after_append]
    exact hname
  | initMetrics =>
    refine .of_nil rfl (fun g hg => ?_) hbelongs
    rw [List.mem_singleton.mp hg]
    exact hbelongs
  | configMetrics loader ref hloader =>
    have hclient : w.client = clientAfter past c₀ :=
      h.writing .initMetrics (List.mem_cons_self ..) rfl
    refine .of_nil rfl (fun g hg => ?_) hbelongs
    rw [List.mem_singleton.mp hg]
    show (clientAfter past c₀).configLoading = _
    rw [← hclient]
    exact hloader
  | newMetrics config ref =>
    refine .of_nil rfl (fun g hg => ?_) hbelongs
    rw [List.mem_singleton.mp hg]
    obtain ⟨name, hname⟩ := hbelongs
    exact ⟨name, hname.metrics hf⟩
  | noMetrics config =>
    refine .of_nil rfl (fun g hg => ?_) hbelongs
    rw [List.mem_singleton.mp hg]
    exact hbelongs
  | rUnlock reader seen =>
    refine .of_nil (sections_next reader seen) (fun g hg => ?_) hbelongs
    obtain ⟨pool, mainCs, rfl⟩ := (next_spec reader seen).1 g hg
    exact nofun
  | rotate pool mainCs cs => exact .of_nil rfl nofun hbelongs
  | renamed oldName newName => exact hf.elim
  | notRenamed oldName newName => exact hf.elim
  | _ =>
    -- a lock is taken, or a field is read
    refine .of_nil rfl (fun g hg => ?_) hbelongs
    rw [List.mem_singleton.mp hg]
    exact nofun

-- ======== runs

/-- The client is of one context behind every section, and what is under
way keeps it so. -/
structure Steady (o : Outside) (c₀ : Client) (w : World)
    (fs : List Frame) (out : List Output) : Prop where
  ordered : Ordered w c₀ fs (sections out)
  fine : ∀ f ∈ fs, Fine o (clientAfter (sections out) c₀) f
  belongs : ∀ before, before <+: sections out →
    ∃ name, Belongs o name (clientAfter before c₀)

theorem Steady.now (h : Steady o c₀ w fs out) :
    ∃ name, Belongs o name (clientAfter (sections out) c₀) :=
  h.belongs _ (List.prefix_refl _)

theorem sections_exec (he : exec o f a w = some e) :
    sections e.out = []
      ∨ hold f = .write ∧ ∃ ws, sections e.out = [ws] := by
  by_cases hload : isLoad f = true
  · exact .inl (still_load hload he).sections
  rcases (exec_moves (Bool.not_eq_true _ ▸ hload) he).sections with
    hnil | ⟨done, rfl, hdone⟩
  · exact .inl hnil
  · exact .inr ⟨rfl, done, hdone⟩

theorem Steady.exec (h : Steady o c₀ w (f :: others) out)
    (he : exec o f a w = some e) :
    Steady o c₀ e.world (e.frames ++ others) (out ++ e.out) := by
  have hkept := fine_exec h.ordered (h.fine f (List.mem_cons_self ..))
    h.now he
  refine ⟨?_, fun g hg => ?_, fun before hbefore => ?_⟩
  · rw [sections_append]
    exact ordered_exec h.ordered he
  · rw [sections_append]
    rcases List.mem_append.mp hg with hg | hg
    · exact hkept.frames g hg
    · have hfine := h.fine g (List.mem_cons_of_mem _ hg)
      rcases sections_exec he with hnil | ⟨hwrite, -⟩
      · rw [hnil, List.append_nil]
        exact hfine
      · exact hfine.of_nothing ((h.ordered.held.writer hwrite).2 g hg)
  · rw [sections_append] at hbefore
    rcases sections_exec he with hnil | ⟨-, ws, hws⟩
    · rw [hnil, List.append_nil] at hbefore
      exact h.belongs before hbefore
    · rw [hws] at hbefore
      rcases List.prefix_concat_iff.mp hbefore with rfl | hbefore
      · rw [← hws]
        exact hkept.belongs
      · exact h.belongs before hbefore

def Keeps : Goroutine.Act Call Answer → Prop
  | .call (.renameContext _ _) => False
  | _ => True

theorem run_fine {acts : List (Goroutine.Act Call Answer)}
    {out : List (Nat × Output)} (hmu : w.mu = {})
    (hbelongs : Belongs o name w.client) (hkeeps : ∀ a ∈ acts, Keeps a)
    (hrun : Machine.run (step o) ⟨w, []⟩ acts = some (s, out)) :
    Steady o w.client s.world s.pending (out.map Prod.snd) := by
  have hok : Machine.Along (step o)
      (Goroutine.Guarded (fun _ _ call => Keeps (.call call))
        fun _ _ _ _ => True) ⟨w, []⟩ acts := by
    refine (Machine.along_of_forall hkeeps).mono fun s a ha => ?_
    unfold Goroutine.Guarded
    cases a with
    | call call => exact ha
    | run i answer =>
      dsimp only
      split <;> trivial
  have hrun' : Machine.run (Goroutine.step (exec o) framesOf) ⟨w, []⟩ acts
      = some (s, out) := hrun
  apply Goroutine.run_pending_history
    (J := fun w' fs out => Steady o w.client w' fs out) hrun' hok
  · obtain ⟨client, clientPoolIdx, mu⟩ := w
    obtain rfl : mu = {} := hmu
    refine ⟨Serial.start, nofun, fun before hbefore => ?_⟩
    rw [List.prefix_nil.mp hbefore]
    exact ⟨name, hbelongs⟩
  · intro w' fs fs' out hp h
    exact ⟨h.ordered.perm hp, fun f hf => h.fine f (hp.mem_iff.mpr hf),
      h.belongs⟩
  · intro w' fs out call h hcall
    refine ⟨h.ordered.add (hold_framesOf call), fun f hf => ?_, h.belongs⟩
    rcases List.mem_append.mp hf with hf | hf
    · exact h.fine f hf
    · refine fine_framesOf call (fun oldName newName heq => ?_) f hf
      subst heq
      exact hcall
  · intro w' fs f others out a e _ h _ he
    exact h.exec he

/-- A switch that fails changes nothing, and one that succeeds changes
everything. Whatever the other methods do meanwhile, a switch gives away
its error and nothing else, or its one section, behind which everything is
of the context that was asked for; the client is what the sections make of
it, and what is read under the lock is of one client between two of them,
which is one of one context where none is renamed. -/
theorem loadConfig_atomic (o : Outside) :
    (∀ contextName answers w w' out,
      complete (exec o) answers (framesOf (.loadConfig contextName)) w
          = some (w', out) →
        (∃ err, out = [.returned contextName (some err)] ∧ w' = w)
          ∨ ∃ name, name ≠ "" ∧ (contextName ≠ "" → name = contextName)
            ∧ Switched o name w.client w'.client
            ∧ w'.clientPoolIdx = 0 ∧ w'.mu = w.mu
            ∧ .returned contextName none ∈ out)
      ∧ ∀ w acts s out, w.mu = {} →
        Machine.run (step o) ⟨w, []⟩ acts = some (s, out) →
          (s.world.mu.writer = false → s.world.client
              = clientAfter (sections (out.map Prod.snd)) w.client)
            ∧ s.world.clientPoolIdx
              = counter w.clientPoolIdx (out.map Prod.snd)
            ∧ (∀ i contextName err,
              (i, .returned contextName (some err)) ∈ out →
                outputOf i out = [.returned contextName (some err)])
            ∧ (∀ i contextName, (i, .returned contextName none) ∈ out →
              ∃ ws, Publishes o contextName ws ∧ outputOf i out
                = [.reset, .section ws, .returned contextName none])
            ∧ (∀ i seen, (i, .held seen) ∈ out →
              ∃ before, before <+: sections (out.map Prod.snd)
                ∧ ∀ v ∈ seen, v.Of (clientAfter before w.client))
            ∧ ((∀ a ∈ acts, Keeps a) → ∀ name, Belongs o name w.client →
              ∀ before, before <+: sections (out.map Prod.snd) →
                ∃ name', Belongs o name' (clientAfter before w.client)) := by
  refine ⟨fun contextName answers w w' out h => ?_,
    fun w acts s out hmu hrun => ?_⟩
  · have hearly : Early contextName (.loadConfig contextName) := rfl
    rcases complete_early hearly h with herr | ⟨ws, hws, rfl, rfl⟩
    · exact .inl herr
    · obtain ⟨name, hname, hasked, hswitched⟩ := hws
      exact .inr ⟨name, hname, hasked, hswitched w.client, rfl, rfl,
        by simp⟩
  · have hhistory := run_history hmu hrun
    refine ⟨hhistory.ordered.free, hhistory.counter, ?_, ?_, ?_, ?_⟩
    · intro i contextName err hmem
      rcases run_returned hrun hmem with ⟨_, -, hout⟩ | ⟨hnone, -⟩
      · exact hout
      · cases hnone
    · intro i contextName hmem
      rcases run_returned hrun hmem with ⟨_, hsome, -⟩ | ⟨-, hpublished⟩
      · cases hsome
      · exact hpublished
    · intro i seen hmem
      exact hhistory.held seen (List.mem_map.mpr ⟨_, hmem, rfl⟩)
    · intro hkeeps name hbelongs
      exact (run_fine hmu hbelongs hkeeps hrun).belongs

/-- The second member of the pool cannot be made. -/
example :
    let w : World := { client := {
      clientPoolSize := 2, currentContext := "dev" } }
    complete (exec ⟨"/root/.kube/config", fun _ => "prod"⟩)
        [.made 0, .made 1, .made 2, .made 3, .made 4, .made 5, .made 6,
          .failed "refused"] (framesOf (.loadConfig "")) w
      = some (w, [.returned ""
          (some "failed to create pool clientset 1: refused")]) := by
  decide

end K8sClient
