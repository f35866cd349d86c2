/-
When a multi-pod log session panics.

# The argument

The closer waits for the producers, so nobody is left to send behind its
close (`Inv.emptied`). `Stop` waits for nobody: behind its close a producer
still reads lines, but finds the context done before it comes to a send.
Only a producer that stands at a send already, or that opens its stream,
whose error it sends, may panic. Where there is none the invariant is kept
(`exec_inv`); where there is one a panic is one or two steps away
(`unguarded_stop_panics`).
-/
import Kubikles.PodLog.MultiLog

namespace MultiLog

open Goroutine (Guarded)
open Machine
open Rfc3339 (Time dayNanos)

variable {cluster : Cluster} {req : MultiLogRequest} {sys s s' : Sys}
variable {w : MultiLogSession} {fs others : List Frame} {f : Frame}
variable {env : Env} {effect : Effect} {acts : List Act}
variable {out : List (Nat × Out)} {sources : List Source}

-- ======== the producers

/-- A producer that is at a send, or opens the stream whose error it would
send. -/
@[simp] def Frame.sends : Frame → Bool
  | .stream _ | .send _ _ => true
  | _ => false

/-- A producer that comes back to the outer `select` before it sends. -/
@[simp] def Frame.reads : Frame → Bool
  | .register _ | .scan _ | .check _ _ => true
  | _ => false

@[simp] def Frame.counted : Frame → Bool
  | .closeStream _ | .wgDone => true
  | f => f.sends || f.reads

/-- `Stop` closes the channel where no producer is at a send or opens its
stream. -/
def ClosesBehindSends (w : MultiLogSession) (pending : List Frame) :
    Frame → Env → Prop
  | .stop, _ => w.closed = false → ∀ f ∈ pending, f.sends = false
  | _, _ => True

instance : ∀ w pending f env,
    Decidable (ClosesBehindSends w pending f env)
  | w, pending, .stop, _ => inferInstanceAs
      (Decidable (w.closed = false → ∀ f ∈ pending, f.sends = false))
  | _, _, .stream _, _ | _, _, .register _, _ | _, _, .scan _, _
  | _, _, .check _ _, _ | _, _, .send _ _, _ | _, _, .closeStream _, _
  | _, _, .wgDone, _ | _, _, .wait, _ | _, _, .closeEntries, _
  | _, _, .cancel, _ | _, _, .receive, _ => isTrue trivial

-- ======== the invariant

/-- What holds of a session and the places its goroutines are at. -/
structure Inv (w : MultiLogSession) (pending : List Frame) : Prop where
  /-- `closed` says whether the channel is. -/
  told : w.closed = w.entries.closed
  sound : w.panicked = none
  counted : pending.countP Frame.counted = w.wg
  canceled : Frame.stop ∈ pending → w.ctxDone = true
  emptied : Frame.closeEntries ∈ pending → w.wg = 0
  /-- Behind the close nobody is at a send. -/
  silent : w.closed = true → ∀ f ∈ pending, f.sends = false
  /-- And who reads on finds the context done. -/
  ended : w.closed = true → w.ctxDone = true
    ∨ ∀ f ∈ pending, f.reads = false

theorem Inv.perm (hperm : fs.Perm others) (h : Inv w fs) :
    Inv w others where
  told := h.told
  sound := h.sound
  counted := by rw [← hperm.countP_eq]; exact h.counted
  canceled := fun hmem => h.canceled (hperm.mem_iff.mpr hmem)
  emptied := fun hmem => h.emptied (hperm.mem_iff.mpr hmem)
  silent := fun hclosed f hf =>
    h.silent hclosed f (hperm.mem_iff.mpr hf)
  ended := fun hclosed => (h.ended hclosed).imp_right
    fun hall f hf => hall f (hperm.mem_iff.mpr hf)

theorem Frame.counted_of_sends (h : f.sends = true) : f.counted = true := by
  cases f <;> first | rfl | cases h

theorem Frame.counted_of_reads (h : f.reads = true) : f.counted = true := by
  cases f <;> first | rfl | cases h

theorem idle_of_wg (h : fs.countP Frame.counted = 0) :
    ∀ f ∈ fs, f.sends = false ∧ f.reads = false := by
  intro f hf
  have hnot := List.countP_eq_zero.mp h f hf
  constructor
  · cases hsends : f.sends with
    | false => rfl
    | true => exact absurd (Frame.counted_of_sends hsends) hnot
  · cases hreads : f.reads with
    | false => rfl
    | true => exact absurd (Frame.counted_of_reads hreads) hnot

/-- A goroutine goes on to other places, and the session stays as it is
but for what the invariant does not read. -/
theorem Inv.move {w' : MultiLogSession} {places : List Frame}
    (h : Inv w (f :: others)) (hclosed : w'.closed = w.closed)
    (hentries : w'.entries.closed = w.entries.closed)
    (hsound : w'.panicked = w.panicked)
    (hdone : w.ctxDone = true → w'.ctxDone = true)
    (hwg : w'.wg + [f].countP Frame.counted
      = w.wg + places.countP Frame.counted)
    (hborn : f.counted = true ∨ ∀ g ∈ places, g.counted = false)
    (hclosers : ∀ g ∈ places, (g = .stop → w'.ctxDone = true)
      ∧ (g = .closeEntries → w'.wg = 0))
    (hsends : w.closed = true → ∀ g ∈ places, g.sends = false)
    (hreads : w.closed = true →
      f.reads = true ∨ ∀ g ∈ places, g.reads = false) :
    Inv w' (places ++ others) where
  told := by rw [hclosed, hentries]; exact h.told
  sound := by rw [hsound]; exact h.sound
  counted := by
    have hold := h.counted
    rw [← List.singleton_append, List.countP_append] at hold
    rw [List.countP_append]
    omega
  canceled := fun hmem => by
    rcases List.mem_append.mp hmem with hmem | hmem
    · exact (hclosers _ hmem).1 rfl
    · exact hdone (h.canceled (List.mem_cons_of_mem _ hmem))
  emptied := fun hmem => by
    rcases List.mem_append.mp hmem with hmem | hmem
    · exact (hclosers _ hmem).2 rfl
    · have hzero := h.emptied (List.mem_cons_of_mem _ hmem)
      have hnone := List.countP_eq_zero.mp (h.counted.trans hzero)
      rcases hborn with hf | hplaces
      · exact absurd hf (hnone f (List.mem_cons_self ..))
      · have hcount : places.countP Frame.counted = 0 :=
          List.countP_eq_zero.mpr fun g hg => by
            rw [hplaces g hg]
            exact Bool.false_ne_true
        omega
  silent := fun hc g hg => by
    rw [hclosed] at hc
    rcases List.mem_append.mp hg with hg | hg
    · exact hsends hc g hg
    · exact h.silent hc g (List.mem_cons_of_mem _ hg)
  ended := fun hc => by
    rw [hclosed] at hc
    rcases h.ended hc with hdone' | hall
    · exact Or.inl (hdone hdone')
    · refine Or.inr fun g hg => ?_
      rcases List.mem_append.mp hg with hg | hg
      · rcases hreads hc with hf | hplaces
        · rw [hall f (List.mem_cons_self ..)] at hf
          cases hf
        · exact hplaces g hg
      · exact hall g (List.mem_cons_of_mem _ hg)

theorem closeOnce_open (hopen : w.closed = false)
    (hentries : w.entries.closed = false) :
    w.closeOnce = { w with
      entries := { w.entries with closed := true }, closed := true } := by
  unfold MultiLogSession.closeOnce
  rw [if_neg (by rw [hopen]; exact Bool.false_ne_true),
    Chan.close_open hentries]

/-- A critical section that closes the channel where nobody is at a
send. -/
theorem Inv.closeOnce (h : Inv w (f :: others))
    (hf : f.counted = false)
    (hsilent : w.closed = false → ∀ g ∈ others, g.sends = false)
    (hended : w.closed = false → w.ctxDone = true
      ∨ ∀ g ∈ others, g.reads = false) :
    Inv w.closeOnce others := by
  have hrest : Inv w others := by
    show Inv w ([] ++ others)
    refine h.move rfl rfl rfl id ?_ ?_ ?_ ?_ ?_
    · rw [List.countP_singleton, hf]
      rfl
    all_goals simp
  cases hopen : w.closed with
  | true =>
    unfold MultiLogSession.closeOnce
    rw [if_pos hopen]
    exact hrest
  | false =>
    rw [closeOnce_open hopen (h.told ▸ hopen)]
    exact {
      told := rfl
      sound := hrest.sound
      counted := hrest.counted
      canceled := hrest.canceled
      emptied := hrest.emptied
      silent := fun _ => hsilent hopen
      ended := fun _ => hended hopen }

theorem exec_inv (hfrom : fs.Perm (f :: others)) (h : Inv w (f :: others))
    (hok : ClosesBehindSends w fs f env)
    (hexec : exec f env w = some effect) :
    Inv effect.world (effect.frames ++ others) := by
  have hopen : w.closed = true → f.sends = true → False := fun hc hf => by
    rw [h.silent hc f (List.mem_cons_self ..)] at hf
    cases hf
  cases f with
  | stream src =>
    cases env <;> cases hexec
    · exact h.move rfl rfl rfl id rfl (Or.inl rfl) (by simp)
        (by simp) fun hc => (hopen hc rfl).elim
    · exact h.move rfl rfl rfl id rfl (Or.inl rfl) (by simp)
        (fun hc => (hopen hc rfl).elim) fun hc => (hopen hc rfl).elim
  | register src =>
    cases env <;> cases hexec
    exact h.move rfl rfl rfl id rfl (Or.inl rfl) (by simp)
      (by simp) fun _ => Or.inl rfl
  | scan src =>
    cases env <;> cases hexec
    · exact h.move rfl rfl rfl id rfl (Or.inl rfl) (by simp)
        (by simp) fun _ => Or.inl rfl
    · exact h.move rfl rfl rfl id rfl (Or.inl rfl) (by simp)
        (by simp) fun _ => Or.inl rfl
  | check src line =>
    cases env <;> cases hexec
    by_cases hdone : w.ctxDone = true
    · rw [if_pos hdone]
      exact h.move rfl rfl rfl id rfl (Or.inl rfl) (by simp)
        (by simp) fun _ => Or.inl rfl
    · rw [if_neg hdone]
      refine h.move rfl rfl rfl id rfl (Or.inl rfl) (by simp)
        (fun hc => ?_) fun _ => Or.inl rfl
      -- behind the close a producer finds the context done
      rcases h.ended hc with hdone' | hall
      · exact absurd hdone' hdone
      · cases hall _ (List.mem_cons_self ..)
  | send entry loop =>
    cases env <;> try cases hexec
    next sends =>
      cases sends with
      | true =>
        rw [exec] at hexec
        split at hexec
        next entries hsend =>
          cases hexec
          have hentries := Chan.send_closed hsend
          cases loop with
          | none =>
            exact h.move rfl hentries rfl id rfl (Or.inl rfl)
              (by simp) (by simp)
              fun _ => Or.inr (by simp)
          | some src =>
            exact h.move rfl hentries rfl id rfl (Or.inl rfl)
              (by simp) (by simp)
              fun hc => (hopen hc rfl).elim
        next hpanic =>
          have hclosed := (Chan.send_panic_iff entry _).mp hpanic
          exact (hopen (h.told.trans hclosed) rfl).elim
        next => cases hexec
      | false =>
        rw [exec] at hexec
        split at hexec
        · cases hexec
          cases loop with
          | none =>
            exact h.move rfl rfl rfl id rfl (Or.inl rfl) (by simp)
              (by simp)
              fun _ => Or.inr (by simp)
          | some src =>
            exact h.move rfl rfl rfl id rfl (Or.inl rfl) (by simp)
              (by simp)
              fun _ => Or.inr (by simp)
        · cases hexec
  | closeStream src =>
    cases env <;> cases hexec
    exact h.move rfl rfl rfl id rfl (Or.inl rfl) (by simp)
      (by simp) fun _ => Or.inr (by simp)
  | wgDone =>
    cases env <;> cases hexec
    have hpos : 0 < w.wg := by
      rw [← h.counted]
      exact List.countP_pos_iff.mpr ⟨_, List.mem_cons_self .., rfl⟩
    refine h.move rfl rfl rfl id ?_ (Or.inl rfl) (by simp) (by simp)
      fun _ => Or.inr (by simp)
    show w.wg - 1 + 1 = w.wg
    omega
  | wait =>
    cases env <;> try cases hexec
    rw [exec] at hexec
    split at hexec
    next hzero =>
      cases hexec
      exact h.move rfl rfl rfl id rfl (Or.inr (by simp)) (by simp [hzero])
        (by simp) fun _ => Or.inr (by simp)
    · cases hexec
  | closeEntries =>
    cases env <;> cases hexec
    have hidle := idle_of_wg (h.counted.trans
      (h.emptied (List.mem_cons_self ..)))
    refine h.closeOnce rfl (fun _ g hg => ?_) fun _ => Or.inr fun g hg => ?_
    · exact (hidle g (List.mem_cons_of_mem _ hg)).1
    · exact (hidle g (List.mem_cons_of_mem _ hg)).2
  | cancel =>
    cases env <;> cases hexec
    exact h.move rfl rfl rfl (fun _ => rfl) rfl (Or.inr (by simp))
      (by simp) (by simp) fun _ => Or.inr (by simp)
  | stop =>
    cases env <;> cases hexec
    have hdone := h.canceled (List.mem_cons_self ..)
    have hcleared : Inv { w with podStreams := ∅ } (.stop :: others) :=
      { h with }
    refine hcleared.closeOnce rfl (fun hc g hg => ?_) fun _ => Or.inl hdone
    exact hok hc g (hfrom.mem_iff.mpr (List.mem_cons_of_mem _ hg))
  | receive =>
    cases env <;> try cases hexec
    rw [exec] at hexec
    split at hexec
    next entry entries hreceive =>
      cases hexec
      exact h.move rfl (Chan.receive_closed hreceive) rfl id rfl
        (Or.inr (by simp)) (by simp) (by simp) fun _ => Or.inr (by simp)
    · cases hexec

theorem launch_pending (sources : List Source) :
    (launch sources).pending = sources.map Frame.stream ++ [.wait] := by
  unfold Goroutine.Sys.pending launch
  rw [List.flatten_append, ← List.flatMap_def, ← List.map_eq_flatMap]
  rfl

theorem launch_inv (sources : List Source) :
    Inv (launch sources).world (launch sources).pending where
  told := rfl
  sound := rfl
  counted := by
    rw [launch_pending, List.countP_append, List.countP_map]
    show sources.countP (fun _ => true) + 0 = sources.length
    rw [List.countP_true, Nat.add_zero]
  canceled := fun h => by rw [launch_pending] at h; simp at h
  emptied := fun h => by rw [launch_pending] at h; simp at h
  silent := fun h => nomatch h
  ended := fun h => nomatch h

theorem launched (h : startMultiLogSession cluster req = .ok sys) :
    ∃ sources, sys = launch sources := by
  unfold startMultiLogSession at h
  split at h
  · cases h
  · split at h
    · cases h
    · cases h
    · cases h
      exact ⟨_, rfl⟩

/-- A call that is made is no producer and has nothing closed yet. -/
theorem call_inv (h : Inv w fs) (call : Call) :
    Inv w (fs ++ call.frames) := by
  have hnew : ∀ g ∈ call.frames, (g ≠ .stop ∧ g ≠ .closeEntries)
      ∧ g.counted = false ∧ g.sends = false ∧ g.reads = false := by
    cases call <;> simp [Call.frames]
  constructor
  case told => exact h.told
  case sound => exact h.sound
  case counted =>
    have hzero : call.frames.countP Frame.counted = 0 :=
      List.countP_eq_zero.mpr fun g hg => by
        rw [(hnew g hg).2.1]
        exact Bool.false_ne_true
    rw [List.countP_append, hzero]
    exact h.counted
  case canceled =>
    intro hmem
    rcases List.mem_append.mp hmem with hmem | hmem
    · exact h.canceled hmem
    · exact absurd rfl (hnew _ hmem).1.1
  case emptied =>
    intro hmem
    rcases List.mem_append.mp hmem with hmem | hmem
    · exact h.emptied hmem
    · exact absurd rfl (hnew _ hmem).1.2
  case silent =>
    intro hc g hg
    rcases List.mem_append.mp hg with hg | hg
    · exact h.silent hc g hg
    · exact (hnew g hg).2.2.1
  case ended =>
    intro hc
    refine (h.ended hc).imp_right fun hall g hg => ?_
    rcases List.mem_append.mp hg with hg | hg
    · exact hall g hg
    · exact (hnew g hg).2.2.2

-- ======== the claim

/-- Where `Stop` closes the channel only while no producer is at a send or
opens its stream, no interleaving of the producers, the closer, the readers
and the calls of `Stop` ends in a panic: nobody sends on the closed channel,
and nobody closes it again. -/
theorem session_never_panics
    (hstart : startMultiLogSession cluster req = .ok sys)
    (hok : Along step (Guarded (fun _ _ _ => True) ClosesBehindSends) sys acts)
    (hrun : run step sys acts = some (s, out)) :
    s.world.panicked = none := by
  obtain ⟨sources, rfl⟩ := launched hstart
  exact (Goroutine.run_pending hrun hok (launch_inv sources) Inv.perm
    (fun h _ => call_inv h _) exec_inv).sound

def noon : Time where
  year := 2024
  month := 5
  day := 1
  nanos := dayNanos / 2
  offset := 0
  valid := by decide

theorem getElem?_set_of_head {i j : Nat} {rest rest' g : List Frame}
    {head head' : Frame} {goroutines : List (List Frame)}
    (hi : goroutines[i]? = some (head :: rest))
    (hj : goroutines[j]? = some (head' :: rest')) (hne : head ≠ head') :
    (goroutines.set i g)[j]? = some (head' :: rest') := by
  have hij : i ≠ j := by
    rintro rfl
    rw [hi] at hj
    cases hj
    exact hne rfl
  rw [List.getElem?_set_ne hij]
  exact hj

theorem late_send_panics {i : Nat} {rest : List Frame}
    {entry : MultiLogEntry} {loop : Option Source}
    (hclosed : s.world.entries.closed = true)
    (hi : s.goroutines[i]? = some (.send entry loop :: rest)) :
    ∃ s' out, step (.run i (.select true)) s = some (s', out)
      ∧ s'.world.panicked = some .sendOnClosed := by
  have hsend : s.world.entries.send entry = .panic :=
    (Chan.send_panic_iff entry _).mpr hclosed
  refine ⟨⟨{ s.world with panicked := some .sendOnClosed },
    s.goroutines.set i rest⟩, [], ?_, rfl⟩
  simp only [step, Goroutine.step, hi, exec, hsend]
  rfl

theorem late_stream_panics {i : Nat} {rest : List Frame} {src : Source}
    (hclosed : s.world.entries.closed = true)
    (hi : s.goroutines[i]? = some (.stream src :: rest)) :
    ∃ acts s' out, run step s acts = some (s', out)
      ∧ s'.world.panicked = some .sendOnClosed := by
  let entry := src.entry noon
    (Text.ofString "[ERROR] Failed to stream logs: " ++ [])
  have hfail : step (.run i (.failed [] noon)) s
      = some (⟨s.world, s.goroutines.set i (.send entry none :: rest)⟩,
          []) := by
    simp only [step, Goroutine.step, hi, exec]
    rfl
  have hlt : i < s.goroutines.length :=
    (List.getElem?_eq_some_iff.mp hi).choose
  obtain ⟨s', out, hsend, hpanicked⟩ := late_send_panics
    (s := ⟨s.world, s.goroutines.set i (.send entry none :: rest)⟩)
    hclosed (List.getElem?_set_self hlt)
  exact ⟨_, s', _, run_cons_iff.mpr ⟨_, _, _, hfail,
    run_cons_iff.mpr ⟨_, _, _, hsend, run_nil _, rfl⟩, rfl⟩, hpanicked⟩

theorem early_stop_panics {i j : Nat} {rest rest' : List Frame}
    (hinv : Inv s.world s.pending) (hopen : s.world.closed = false)
    (hi : s.goroutines[i]? = some (.stop :: rest))
    (hj : s.goroutines[j]? = some (f :: rest')) (hf : f.sends = true) :
    ∃ acts s' out, run step s acts = some (s', out)
      ∧ s'.world.panicked = some .sendOnClosed := by
  have hentries : s.world.entries.closed = false := hinv.told ▸ hopen
  have hclosed : ({ s.world with podStreams := ∅ } :
      MultiLogSession).closeOnce.entries.closed = true :=
    congrArg (·.entries.closed)
      (closeOnce_open (w := { s.world with podStreams := ∅ }) hopen hentries)
  have hstop : step (.run i .go) s
      = some (⟨({ s.world with podStreams := ∅ } :
          MultiLogSession).closeOnce, s.goroutines.set i rest⟩, []) := by
    simp only [step, Goroutine.step, hi, exec]
    rfl
  have hne : Frame.stop ≠ f := by
    rintro rfl
    cases hf
  have hthere := getElem?_set_of_head (g := rest) hi hj hne
  obtain ⟨w, goroutines⟩ := s
  cases f with
  | send entry loop =>
    obtain ⟨s', out, hsend, hpanicked⟩ :=
      late_send_panics (s := ⟨_, goroutines.set i rest⟩) hclosed hthere
    exact ⟨_, s', _, run_cons_iff.mpr ⟨_, _, _, hstop,
      run_cons_iff.mpr ⟨_, _, _, hsend, run_nil _, rfl⟩, rfl⟩, hpanicked⟩
  | stream src =>
    obtain ⟨acts, s', out, hrun, hpanicked⟩ :=
      late_stream_panics (s := ⟨_, goroutines.set i rest⟩) hclosed hthere
    exact ⟨_, s', _, run_cons_iff.mpr ⟨_, _, _, hstop, hrun, rfl⟩,
      hpanicked⟩
  | _ => cases hf

def onePod : Cluster where
  clientsetError := none
  get name := some ⟨name, [Text.ofString "app"]⟩
  list := .ok []

def oneRequest : MultiLogRequest where
  podNames := [Text.ofString "web"]
  labelSelector := []
  container := []
  timestamps := false

/-- The producer has a line and comes to its `select`; `Stop` cancels the
context and closes the channel; and the `select` sends. -/
def lateSend : List Act :=
  [.run 0 .opened, .run 0 .go, .run 0 (.line []), .run 0 (.time noon),
    .call .stop, .run 2 .go, .run 2 .go, .run 0 (.select true)]

def lateStop : List Act :=
  [.run 0 .opened, .run 0 .go, .run 0 (.line []), .call .stop,
    .run 2 .go, .run 2 .go, .run 0 (.time noon), .run 0 .go, .run 0 .go]

/-- Without a panic, of a `Stop` while a line is read. -/
theorem session_never_panics_lateStop :
    ∃ sys s out, startMultiLogSession onePod oneRequest = .ok sys
      ∧ run step sys lateStop = some (s, out)
      ∧ s.world.closed = true ∧ s.world.panicked = none := by
  have hstart : startMultiLogSession onePod oneRequest
      = .ok (launch (oneRequest.sources
          [⟨Text.ofString "web", [Text.ofString "app"]⟩])) := rfl
  have hrun : ∃ s out, run step (launch (oneRequest.sources
      [⟨Text.ofString "web", [Text.ofString "app"]⟩])) lateStop
      = some (s, out) ∧ s.world.closed = true := ⟨_, _, rfl, rfl⟩
  obtain ⟨s, out, hrun, hclosed⟩ := hrun
  refine ⟨_, s, out, hstart, hrun, hclosed, ?_⟩
  exact session_never_panics hstart (by decide) hrun

/-- The condition is needed: where a run has met it so far, `Stop` is about to
close the channel, and a producer is at a send or opens its stream, the run
may go on to a panic. -/
theorem unguarded_stop_panics {i j : Nat} {rest rest' : List Frame}
    (hstart : startMultiLogSession cluster req = .ok sys)
    (hok : Along step (Guarded (fun _ _ _ => True) ClosesBehindSends) sys acts)
    (hrun : run step sys acts = some (s, out))
    (hopen : s.world.closed = false)
    (hi : s.goroutines[i]? = some (.stop :: rest))
    (hj : s.goroutines[j]? = some (f :: rest')) (hf : f.sends = true) :
    ∃ more s' out', run step sys (acts ++ more) = some (s', out')
      ∧ s'.world.panicked = some .sendOnClosed := by
  obtain ⟨sources, rfl⟩ := launched hstart
  have hinv := Goroutine.run_pending hrun hok (launch_inv sources) Inv.perm
    (fun h _ => call_inv h _) exec_inv
  obtain ⟨more, s', out', hmore, hpanicked⟩ :=
    early_stop_panics hinv hopen hi hj hf
  exact ⟨more, s', _, run_append_iff.mpr ⟨_, _, _, hrun, hmore, rfl⟩,
    hpanicked⟩

theorem unguarded_stop_panics_atSelect :
    ∃ sys more s out, startMultiLogSession onePod oneRequest = .ok sys
      ∧ run step sys (lateSend.take 6 ++ more) = some (s, out)
      ∧ s.world.panicked = some .sendOnClosed := by
  have hstart : startMultiLogSession onePod oneRequest
      = .ok (launch (oneRequest.sources
          [⟨Text.ofString "web", [Text.ofString "app"]⟩])) := rfl
  obtain ⟨more, s, out, hrun⟩ := unguarded_stop_panics (i := 2) (j := 0)
    hstart (by decide) (show run step _ (lateSend.take 6) = _ from rfl)
    rfl rfl rfl rfl
  exact ⟨_, more, s, out, hstart, hrun⟩

/-- `Stop` and a producer that has come to its `select` may panic. -/
theorem stop_panics :
    ¬ ∀ (cluster : Cluster) (req : MultiLogRequest) (sys s : Sys)
        (acts : List Act) (out : List (Nat × Out)),
      startMultiLogSession cluster req = .ok sys →
        run step sys acts = some (s, out) → s.world.panicked = none := by
  intro h
  have hpanic : ∃ s out, run step (launch (oneRequest.sources
      [⟨Text.ofString "web", [Text.ofString "app"]⟩])) lateSend
      = some (s, out) ∧ s.world.panicked = some .sendOnClosed :=
    ⟨_, _, rfl, rfl⟩
  obtain ⟨s, out, hrun, hpanicked⟩ := hpanic
  have hnone := h onePod oneRequest _ s lateSend out rfl hrun
  rw [hpanicked] at hnone
  cases hnone

end MultiLog
