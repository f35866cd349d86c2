/-
What others see of a switch of the client (`loadConfig`).

# Sections

What is written under the lock is one section, whole, and so the client
behind the free lock is what the sections so far make of the first one
(`ordered_exec`); a reader sees one such client.

# Contexts

The sections that are published, and the metrics client that is added to
one, keep the client of one context (`Belongs`): the metrics client is
made of the loader that is there under the lock (`fine_exec`). A renaming
of the current context is a section as well, and not one of these.
-/
import Kubikles.Switching.Proofs.Client

namespace K8sClient

open RwLock (Lock Hold Serial after after_nil after_append)
open Goroutine (complete outputOf)

variable {o : Outside} {contextName name : String} {loader : ClientConfig}
variable {c c' c₀ : Client} {w w' : World} {a : Answer}
variable {answers : List Answer} {f g : Frame} {fs others : List Frame}
variable {e : Effect} {out : List Output} {ws done todo : List Write}
variable {past : List (List Write)} {s : Sys}

-- ======== sections

def hold : Frame → Hold
  | .write _ _ => .write
  | .initMetrics => .write
  | .newMetrics _ => .write
  | .read _ _ _ => .read
  | _ => .nothing

def wrote : Frame → List Write
  | .write done _ => done
  | _ => []

def saw : Frame → List Value
  | .read _ _ seen => seen
  | _ => []

def Output.section? : Output → Option (List Write)
  | .section ws => some ws
  | _ => none

def sections (out : List Output) : List (List Write) :=
  out.filterMap Output.section?

def clientAfter (past : List (List Write)) (c : Client) : Client :=
  after Write.apply past.flatten c

abbrev Ordered (w : World) (c₀ : Client) (fs : List Frame)
    (past : List (List Write)) : Prop :=
  Serial Write.apply Value.Of hold wrote saw w.mu w.client c₀ fs past

theorem sections_append (out out' : List Output) :
    sections (out ++ out') = sections out ++ sections out' :=
  List.filterMap_append

def Output.count : Output → UInt64 → UInt64
  | .reset, _ => 0
  | .incremented, n => n + 1
  | _, n => n

def counter (n₀ : UInt64) (out : List Output) : UInt64 :=
  out.foldl (fun n out => out.count n) n₀

theorem counter_append (n₀ : UInt64) (out out' : List Output) :
    counter n₀ (out ++ out') = counter (counter n₀ out) out' :=
  List.foldl_append

theorem counter_next (reader : Reader) (seen : List Value) (n₀ : UInt64) :
    counter n₀ (reader.next seen).2 = n₀ := by
  unfold Reader.next
  split
  · rfl
  · split <;> rfl
  · rfl

/-- A frame that leaves the lock and what is behind it alone. -/
structure Still (w : World) (e : Effect) : Prop where
  client : e.world.client = w.client
  mu : e.world.mu = w.mu
  counter : e.world.clientPoolIdx = counter w.clientPoolIdx e.out
  frames : ∀ g ∈ e.frames, hold g = .nothing
  sections : sections e.out = []
  held : ∀ seen, .held seen ∉ e.out

theorem Still.of_frames (hgs : ∀ g ∈ fs, hold g = .nothing) :
    Still w { world := w, frames := fs, out := [] } :=
  ⟨rfl, rfl, rfl, hgs, rfl, nofun⟩

theorem still_return (contextName : String) :
    Still w { world := w, out := [.returned contextName none] } :=
  ⟨rfl, rfl, rfl, nofun, rfl, by simp⟩

theorem still_fail (l : Loading) (err : String) : Still w (fail l w err) :=
  ⟨rfl, rfl, rfl, nofun, rfl, by simp [fail]⟩

/-- A frame of `loadConfig` that is not under the lock. -/
def isLoad : Frame → Bool
  | .loadConfig _ => true
  | .newLoader _ => true
  | .clientConfig _ _ => true
  | .newClientset _ _ _ => true
  | .poolConfig _ _ _ _ => true
  | .poolClientset _ _ _ _ _ => true
  | .rawConfig _ _ _ _ => true
  | .returnNil _ => true
  | _ => false

theorem still_load (hf : isLoad f = true) (he : exec o f a w = some e) :
    Still w e := by
  cases f with
  | loadConfig contextName =>
    simp only [exec] at he
    split at he <;> cases he
    exact .of_frames (by simp [hold])
  | newLoader l =>
    cases a with
    | failed err => cases he
    | made ref =>
      simp only [exec] at he
      split at he <;> cases he
      exact .of_frames (by simp [hold])
  | clientConfig l loader =>
    cases a with
    | failed err =>
      cases he
      exact still_fail ..
    | made ref =>
      cases he
      exact .of_frames (by simp [hold])
  | newClientset l loader config =>
    cases a with
    | failed err =>
      cases he
      exact still_fail ..
    | made ref =>
      cases he
      exact .of_frames (by simp [hold])
  | poolConfig l loader cs pool =>
    simp only [exec] at he
    split at he
    · cases a with
      | failed err =>
        cases he
        exact still_fail ..
      | made ref =>
        cases he
        exact .of_frames (by simp [hold])
    · cases he
      exact .of_frames (by simp [hold])
  | poolClientset l loader cs pool config =>
    cases a with
    | failed err =>
      cases he
      exact still_fail ..
    | made ref =>
      cases he
      exact .of_frames (by simp [hold])
  | rawConfig l loader cs pool =>
    cases a with
    | failed err =>
      cases he
      exact still_fail ..
    | made ref =>
      simp only [exec] at he
      split at he <;> cases he
      · exact still_fail ..
      · exact .of_frames (by simp [hold])
  | returnNil contextName =>
    cases he
    exact still_return contextName
  | lock => cases hf
  | write => cases hf
  | lockMetrics => cases hf
  | initMetrics => cases hf
  | newMetrics => cases hf
  | rLock => cases hf
  | read => cases hf
  | rotate => cases hf
  | renamed => cases hf

inductive Moves (w : World) : Frame → Effect → Prop
  | lock (todo : List Write) (mu : Lock) (hmu : w.mu.lock = some mu) :
      Moves w (.lock todo)
        { world := { w with mu }, frames := [.write [] todo] }
  | write (done : List Write) (x : Write) (todo : List Write) :
      Moves w (.write done (x :: todo)) {
        world := { w with
          client := x.apply w.client
          clientPoolIdx :=
            if x = .clientPoolIdx then 0 else w.clientPoolIdx }
        frames := [.write (done ++ [x]) todo]
        out := if x = .clientPoolIdx then [.reset] else [] }
  | unlock (done : List Write) :
      Moves w (.write done []) {
        world := { w with mu := w.mu.unlock }
        out := [.section done] }
  | lockMetrics (mu : Lock) (hmu : w.mu.lock = some mu) :
      Moves w .lockMetrics
        { world := { w with mu }, frames := [.initMetrics] }
  | initMetrics :
      Moves w .initMetrics { world := w, frames := [.write [] []] }
  | configMetrics (loader : ClientConfig) (ref : Nat)
      (hloader : w.client.configLoading = some loader) :
      Moves w .initMetrics
        { world := w, frames := [.newMetrics ⟨loader, false, ref⟩] }
  | newMetrics (config : RestConfig) (ref : Nat) :
      Moves w (.newMetrics config) { world := w, frames := [
        .write [] [.metricsClient (some ⟨config, ref⟩)]] }
  | noMetrics (config : RestConfig) :
      Moves w (.newMetrics config)
        { world := w, frames := [.write [] []] }
  | rLock (reader : Reader) (mu : Lock) (hmu : w.mu.rLock = some mu) :
      Moves w (.rLock reader)
        { world := { w with mu },
          frames := [.read reader reader.fields []] }
  | read (reader : Reader) (field : Field) (todo : List Field)
      (seen : List Value) :
      Moves w (.read reader (field :: todo) seen) {
        world := w
        frames := [.read reader todo (seen ++ [w.client.read field])] }
  | rUnlock (reader : Reader) (seen : List Value) :
      Moves w (.read reader [] seen) {
        world := { w with mu := w.mu.rUnlock }
        frames := (reader.next seen).1
        out := .held seen :: (reader.next seen).2 }
  | rotate (pool : List Clientset) (mainCs : Clientset)
      (cs : Option Clientset) :
      Moves w (.rotate pool mainCs) {
        world := { w with clientPoolIdx := w.clientPoolIdx + 1 }
        out := [.incremented, .clientset cs] }
  | renamed (oldName newName : String) :
      Moves w (.renamed oldName newName)
        { world := w, frames := [.lock [.currentContext newName]] }
  | notRenamed (oldName newName : String) :
      Moves w (.renamed oldName newName) { world := w }

theorem exec_moves (hf : isLoad f = false) (he : exec o f a w = some e) :
    Moves w f e := by
  cases f with
  | lock todo =>
    obtain ⟨mu, hmu, rfl⟩ := Option.map_eq_some_iff.mp he
    exact .lock todo mu hmu
  | write done todo =>
    cases todo with
    | nil =>
      cases he
      exact .unlock done
    | cons x todo =>
      cases he
      exact .write done x todo
  | lockMetrics =>
    obtain ⟨mu, hmu, rfl⟩ := Option.map_eq_some_iff.mp he
    exact .lockMetrics mu hmu
  | initMetrics =>
    simp only [exec] at he
    split at he
    · cases he
      exact .initMetrics
    next hloader =>
      cases he
      exact .configMetrics _ _ hloader
    · cases he
      exact .initMetrics
    · cases he
  | newMetrics config =>
    cases a with
    | made ref =>
      cases he
      exact .newMetrics config ref
    | failed err =>
      cases he
      exact .noMetrics config
  | rLock reader =>
    obtain ⟨mu, hmu, rfl⟩ := Option.map_eq_some_iff.mp he
    exact .rLock reader mu hmu
  | read reader todo seen =>
    cases todo with
    | nil =>
      cases he
      exact .rUnlock reader seen
    | cons field todo =>
      cases he
      exact .read reader field todo seen
  | rotate pool mainCs =>
    cases he
    exact .rotate pool mainCs _
  | renamed oldName newName =>
    simp only [exec] at he
    split at he
    · cases he
    · cases he
      split
      · exact .renamed oldName newName
      · exact .notRenamed oldName newName
  | loadConfig => cases hf
  | newLoader => cases hf
  | clientConfig => cases hf
  | newClientset => cases hf
  | poolConfig => cases hf
  | poolClientset => cases hf
  | rawConfig => cases hf
  | returnNil => cases hf

theorem next_spec (reader : Reader) (seen : List Value) :
    (∀ g ∈ (reader.next seen).1, ∃ pool mainCs, g = .rotate pool mainCs)
      ∧ ∀ out ∈ (reader.next seen).2, ∃ cs, out = .clientset cs := by
  unfold Reader.next
  split
  · exact ⟨nofun, by simp⟩
  · split
    · exact ⟨by simp, nofun⟩
    · exact ⟨nofun, by simp⟩
  · exact ⟨nofun, nofun⟩

theorem sections_next (reader : Reader) (seen : List Value) :
    sections (reader.next seen).2 = [] := by
  unfold sections
  rw [List.filterMap_eq_nil_iff]
  intro out hout
  obtain ⟨cs, rfl⟩ := (next_spec reader seen).2 out hout
  rfl

theorem Moves.sections (h : Moves w f e) :
    sections e.out = []
      ∨ ∃ done, f = .write done [] ∧ sections e.out = [done] := by
  cases h with
  | unlock done => exact .inr ⟨done, rfl, rfl⟩
  | write done x todo =>
    refine .inl ?_
    dsimp only
    split <;> rfl
  | rUnlock reader seen => exact .inl (sections_next reader seen)
  | lock => exact .inl rfl
  | lockMetrics => exact .inl rfl
  | initMetrics => exact .inl rfl
  | configMetrics => exact .inl rfl
  | newMetrics => exact .inl rfl
  | noMetrics => exact .inl rfl
  | rLock => exact .inl rfl
  | read => exact .inl rfl
  | rotate => exact .inl rfl
  | renamed => exact .inl rfl
  | notRenamed => exact .inl rfl

/-- A client in order stays so: each frame does one thing with the lock
and what is behind it. -/
theorem ordered_moves (h : Ordered w c₀ (f :: others) past)
    (hm : Moves w f e) :
    Ordered e.world c₀ (e.frames ++ others) (past ++ sections e.out) := by
  have hquiet (hout : sections e.out = [])
      (hquiet : Ordered e.world c₀ (e.frames ++ others) past) :
      Ordered e.world c₀ (e.frames ++ others)
        (past ++ sections e.out) := by
    rw [hout, List.append_nil]
    exact hquiet
  cases hm with
  | lock todo mu hmu => exact hquiet rfl (h.lock rfl rfl rfl hmu)
  | write done x todo =>
    refine hquiet ?_ (h.write [x] rfl rfl rfl)
    dsimp only
    split <;> rfl
  | unlock done => exact h.unlock rfl nofun
  | lockMetrics mu hmu => exact hquiet rfl (h.lock rfl rfl rfl hmu)
  | initMetrics => exact hquiet rfl (h.write [] rfl rfl rfl)
  | configMetrics loader ref hloader =>
    exact hquiet rfl (h.write [] rfl rfl rfl)
  | newMetrics config ref => exact hquiet rfl (h.write [] rfl rfl rfl)
  | noMetrics config => exact hquiet rfl (h.write [] rfl rfl rfl)
  | rLock reader mu hmu => exact hquiet rfl (h.rLock rfl rfl rfl hmu)
  | read reader field todo seen =>
    exact hquiet rfl (h.see rfl rfl rfl ⟨field, rfl⟩)
  | rUnlock reader seen =>
    refine hquiet (sections_next reader seen)
      (h.rUnlock rfl fun g hg => ?_)
    obtain ⟨pool, mainCs, rfl⟩ := (next_spec reader seen).1 g hg
    rfl
  | rotate pool mainCs cs => exact hquiet rfl (h.away rfl nofun)
  | renamed oldName newName =>
    refine hquiet rfl (h.away rfl fun g hg => ?_)
    rw [List.mem_singleton.mp hg]
    rfl
  | notRenamed oldName newName => exact hquiet rfl (h.away rfl nofun)

theorem ordered_exec (h : Ordered w c₀ (f :: others) past)
    (he : exec o f a w = some e) :
    Ordered e.world c₀ (e.frames ++ others) (past ++ sections e.out) := by
  by_cases hload : isLoad f = true
  · have hstill := still_load hload he
    have hnothing : hold f = .nothing := by
      cases f <;> first | rfl | cases hload
    unfold Ordered
    rw [hstill.sections, hstill.client, hstill.mu, List.append_nil]
    exact h.away hnothing hstill.frames
  · exact ordered_moves h (exec_moves (Bool.not_eq_true _ ▸ hload) he)

theorem held_exec {seen : List Value}
    (h : Ordered w c₀ (f :: others) past) (he : exec o f a w = some e)
    (hseen : .held seen ∈ e.out) :
    ∀ v ∈ seen, v.Of (clientAfter past c₀) := by
  by_cases hload : isLoad f = true
  · exact absurd hseen ((still_load hload he).held seen)
  cases exec_moves (Bool.not_eq_true _ ▸ hload) he with
  | rUnlock reader seen' =>
    obtain ⟨hnext, hout⟩ := next_spec reader seen'
    rcases List.mem_cons.mp hseen with heq | hmem
    · cases heq
      exact h.seen rfl
    · obtain ⟨cs, hcs⟩ := hout _ hmem
      cases hcs
  | write done x todo =>
    dsimp only at hseen
    split at hseen <;> simp at hseen
  | unlock done => simp at hseen
  | rotate pool mainCs cs => simp at hseen
  | lock => cases hseen
  | lockMetrics => cases hseen
  | initMetrics => cases hseen
  | configMetrics => cases hseen
  | newMetrics => cases hseen
  | noMetrics => cases hseen
  | rLock => cases hseen
  | read => cases hseen
  | renamed => cases hseen
  | notRenamed => cases hseen

theorem counter_exec (he : exec o f a w = some e) :
    e.world.clientPoolIdx = counter w.clientPoolIdx e.out := by
  by_cases hload : isLoad f = true
  · exact (still_load hload he).counter
  cases exec_moves (Bool.not_eq_true _ ▸ hload) he with
  | write done x todo =>
    dsimp only
    split <;> rfl
  | rUnlock reader seen =>
    exact (counter_next reader seen w.clientPoolIdx).symm
  | _ => rfl

-- ======== history

/-- Between what there is and what was given away. -/
structure History (c₀ : Client) (n₀ : UInt64) (w : World)
    (fs : List Frame) (out : List Output) : Prop where
  ordered : Ordered w c₀ fs (sections out)
  held : ∀ seen, .held seen ∈ out → ∃ before, before <+: sections out
    ∧ ∀ v ∈ seen, v.Of (clientAfter before c₀)
  counter : w.clientPoolIdx = counter n₀ out

theorem hold_framesOf (call : Call) :
    ∀ g ∈ framesOf call, hold g = .nothing := by
  cases call <;> simp [framesOf, hold]

theorem History.exec {n₀ : UInt64}
    (h : History c₀ n₀ w (f :: others) out)
    (he : exec o f a w = some e) :
    History c₀ n₀ e.world (e.frames ++ others) (out ++ e.out) where
  ordered := by
    rw [sections_append]
    exact ordered_exec h.ordered he
  held seen hseen := by
    rw [sections_append]
    rcases List.mem_append.mp hseen with hseen | hseen
    · obtain ⟨before, hbefore, hof⟩ := h.held seen hseen
      exact ⟨before, hbefore.trans (List.prefix_append _ _), hof⟩
    · exact ⟨sections out, List.prefix_append _ _,
        held_exec h.ordered he hseen⟩
  counter := by
    rw [counter_append, ← h.counter]
    exact counter_exec he

theorem run_history {acts : List (Goroutine.Act Call Answer)}
    {out : List (Nat × Output)} (hmu : w.mu = {})
    (hrun : Machine.run (step o) ⟨w, []⟩ acts = some (s, out)) :
    History w.client w.clientPoolIdx s.world s.pending
      (out.map Prod.snd) := by
  have hrun' : Machine.run (Goroutine.step (exec o) framesOf) ⟨w, []⟩ acts
      = some (s, out) := hrun
  apply Goroutine.run_pending_history
    (J := fun w' fs out => History w.client w.clientPoolIdx w' fs out)
    hrun' Goroutine.unguarded
  · obtain ⟨client, clientPoolIdx, mu⟩ := w
    obtain rfl : mu = {} := hmu
    exact ⟨Serial.start, nofun, rfl⟩
  · intro w' fs fs' out hp h
    exact ⟨h.ordered.perm hp, h.held, h.counter⟩
  · intro w' fs out call h _
    exact ⟨h.ordered.add (hold_framesOf call), h.held, h.counter⟩
  · intro w' fs f others out a e _ h _ he
    exact h.exec he

-- ======== one loadConfig's own

def resets (ws : List Write) : List Output :=
  (ws.filter (· = .clientPoolIdx)).map fun _ => .reset

theorem resets_append (ws ws' : List Write) :
    resets (ws ++ ws') = resets ws ++ resets ws' := by
  unfold resets
  rw [List.filter_append, List.map_append]

theorem resets_singleton (x : Write) :
    resets [x] = if x = .clientPoolIdx then [.reset] else [] := by
  unfold resets
  by_cases hx : x = .clientPoolIdx <;> simp [hx]

/-- What `loadConfig` has still to do and what it has given away; any
other method gives no return of it away. -/
inductive Own (o : Outside) : List Frame → List Output → Prop
  | early (contextName : String) (f : Frame) (hf : Early contextName f) :
      Own o [f] []
  | lock (contextName : String) (ws : List Write)
      (hws : Publication o contextName ws) :
      Own o [.lock ws, .returnNil contextName] []
  | write (contextName : String) (done todo : List Write)
      (hws : Publication o contextName (done ++ todo)) :
      Own o [.write done todo, .returnNil contextName] (resets done)
  | written (contextName : String) (ws : List Write)
      (hws : Publication o contextName ws) :
      Own o [.returnNil contextName] (resets ws ++ [.section ws])
  | returned (contextName : String) (ws : List Write)
      (hws : Publication o contextName ws) :
      Own o [] (resets ws ++ [.section ws, .returned contextName none])
  | failed (contextName err : String) :
      Own o [] [.returned contextName (some err)]
  | other (fs : List Frame) (out : List Output)
      (hfs : ∀ f ∈ fs, isLoad f = false)
      (hout : ∀ contextName err, .returned contextName err ∉ out) :
      Own o fs out

theorem own_framesOf (call : Call) : Own o (framesOf call) [] := by
  cases call with
  | loadConfig contextName => exact .early contextName _ rfl
  | setForceHTTP1 enabled => exact .other _ _ (by simp [framesOf, isLoad]) nofun
  | setClientPoolSize size => exact .other _ _ (by simp [framesOf, isLoad]) nofun
  | setExtraKubeconfigPaths paths =>
    exact .other _ _ (by simp [framesOf, isLoad]) nofun
  | getMetrics => exact .other _ _ (by simp [framesOf, isLoad]) nofun
  | reader reader => exact .other _ _ (by simp [framesOf, isLoad]) nofun
  | renameContext oldName newName =>
    exact .other _ _ (by simp [framesOf, isLoad]) nofun

theorem moves_other (h : Moves w f e) :
    (∀ g ∈ e.frames, isLoad g = false)
      ∧ ∀ contextName err, .returned contextName err ∉ e.out := by
  cases h with
  | write done x todo =>
    refine ⟨by simp [isLoad], fun contextName err hmem => ?_⟩
    dsimp only at hmem
    split at hmem <;> simp at hmem
  | rUnlock reader seen =>
    obtain ⟨hnext, hout⟩ := next_spec reader seen
    refine ⟨fun g hg => ?_, fun contextName err hmem => ?_⟩
    · obtain ⟨pool, mainCs, rfl⟩ := hnext g hg
      rfl
    · rcases List.mem_cons.mp hmem with heq | hmem
      · cases heq
      · obtain ⟨cs, hcs⟩ := hout _ hmem
        cases hcs
  | _ => simp [isLoad]

theorem own_exec (h : Own o (f :: fs) out) (he : exec o f a w = some e) :
    Own o (e.frames ++ fs) (out ++ e.out) := by
  generalize hfs : f :: fs = gs at h
  cases h with
  | early contextName f' hf =>
    cases hfs
    cases exec_early hf he with
    | failed err => exact .failed contextName err
    | next g hg => exact .early contextName g hg
    | made ws hws => exact .lock contextName ws hws
  | lock contextName ws hws =>
    cases hfs
    obtain ⟨mu, -, rfl⟩ := Option.map_eq_some_iff.mp he
    exact .write contextName [] ws hws
  | write contextName done todo hws =>
    cases hfs
    cases todo with
    | nil =>
      cases he
      rw [List.append_nil] at hws
      exact .written contextName done hws
    | cons x todo =>
      cases he
      rw [List.append_cons] at hws
      have hwrite := Own.write contextName (done ++ [x]) todo hws
      rw [resets_append, resets_singleton] at hwrite
      exact hwrite
  | written contextName ws hws =>
    cases hfs
    cases he
    rw [List.append_assoc]
    exact .returned contextName ws hws
  | returned => cases hfs
  | failed => cases hfs
  | other gs out hother hout =>
    subst hfs
    obtain ⟨hframes, hnew⟩ :=
      moves_other (exec_moves (hother f (List.mem_cons_self ..)) he)
    refine .other _ _ (fun g hg => ?_) fun contextName err hmem => ?_
    · rcases List.mem_append.mp hg with hg | hg
      · exact hframes g hg
      · exact hother g (List.mem_cons_of_mem _ hg)
    · rcases List.mem_append.mp hmem with hmem | hmem
      · exact hout contextName err hmem
      · exact hnew contextName err hmem

theorem Own.of_returned {err : Option String} (h : Own o fs out)
    (hmem : .returned contextName err ∈ out) :
    (∃ text, err = some text ∧ out = [.returned contextName err])
      ∨ err = none ∧ ∃ ws, Publishes o contextName ws
        ∧ out = [.reset, .section ws, .returned contextName none] := by
  cases h with
  | early => cases hmem
  | lock => cases hmem
  | write contextName' done todo hws =>
    obtain ⟨x, -, hx⟩ := List.mem_map.mp hmem
    cases hx
  | written contextName' ws hws =>
    rcases List.mem_append.mp hmem with hmem | hmem
    · obtain ⟨x, -, hx⟩ := List.mem_map.mp hmem
      cases hx
    · cases List.mem_singleton.mp hmem
  | returned contextName' ws hws =>
    rcases List.mem_append.mp hmem with hmem | hmem
    · obtain ⟨x, -, hx⟩ := List.mem_map.mp hmem
      cases hx
    · rcases List.mem_cons.mp hmem with hno | hmem
      · cases hno
      · cases List.mem_singleton.mp hmem
        refine .inr ⟨rfl, ws, hws.publishes, ?_⟩
        obtain ⟨loader, cs, pool, name, rfl, -⟩ := hws.made
        rfl
  | failed contextName' text =>
    cases List.mem_singleton.mp hmem
    exact .inl ⟨text, rfl, rfl⟩
  | other gs out hother hout => exact absurd hmem (hout contextName err)

theorem run_returned {acts : List (Goroutine.Act Call Answer)}
    {out : List (Nat × Output)} {i : Nat} {err : Option String}
    (hrun : Machine.run (step o) ⟨w, []⟩ acts = some (s, out))
    (hmem : (i, .returned contextName err) ∈ out) :
    (∃ text, err = some text
        ∧ outputOf i out = [.returned contextName err])
      ∨ err = none ∧ ∃ ws, Publishes o contextName ws
        ∧ outputOf i out
          = [.reset, .section ws, .returned contextName none] := by
  obtain ⟨hown, hnone⟩ := Goroutine.run_own_empty
    (J := fun fs _ out => Own o fs out) own_framesOf
    (fun h he => own_exec h he) hrun
  have hmine := Goroutine.mem_outputOf.mpr hmem
  cases hi : s.goroutines[i]? with
  | none =>
    rw [hnone i hi] at hmine
    cases hmine
  | some fs => exact (hown i fs hi).of_returned hmine

end K8sClient
