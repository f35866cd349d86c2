/-
Which port forwards of a `Start` there are.

# The argument

Two invariants, of the goroutines and the world. At most one `Start` is in
flight, and where IDs are shown the forwarding is active, no `Start` is
about to show others and no error is about to hide them (`Starts`). So a
port forward that was ever created, and is still there, is shown, or about
to be deleted by a `Stop`, or held by the `Start` that has created it
(`Configs`).
-/
import Kubikles.Ingress.Proofs.Frames

namespace IngressForwardManager

variable {w w' : World} {f : Frame} {env : Env} {frames rest : List Frame}
variable {behind fs : List Frame} {others gs : List (List Frame)}

-- ======== starts

structure Shown (w : World) (gs : List (List Frame)) : Prop where
  active : w.state.active = true
  opening : ∀ f ∈ gs.flatten, f.opening = false
  noError : ∀ g ∈ gs, bare g = false

/-- What holds of the calls of `Start`. -/
structure Starts (w : World) (gs : List (List Frame)) : Prop where
  status : w.state.active = true → w.state.status ≠ .stopped
  single : gs.flatten.countP Frame.inFlight ≤ 1
  shown : w.state.portForwardIDs ≠ [] → Shown w gs
  closes : ∀ g ∈ gs, Closes g

theorem Starts.perm {gs' : List (List Frame)} (hi : Starts w gs)
    (h : gs.Perm gs') : Starts w gs' where
  status := hi.status
  single := by
    rw [← h.flatten.countP_eq]
    exact hi.single
  shown hids := by
    obtain ⟨hactive, hopening, hbare⟩ := hi.shown hids
    exact ⟨hactive, fun f hf => hopening f (h.flatten.mem_iff.mpr hf),
      fun g hg => hbare g (h.mem_iff.mpr hg)⟩
  closes g hg := hi.closes g (h.mem_iff.mpr hg)

theorem Starts.alone (hi : Starts w ((f :: rest) :: others))
    (hf : f.inFlight = true) {g : Frame}
    (hg : g ∈ rest ++ others.flatten) : g.inFlight = false := by
  have hsingle := hi.single
  rw [List.flatten_cons, List.cons_append, List.countP_cons, if_pos hf]
    at hsingle
  by_contra h
  have hpos : 0 < (rest ++ others.flatten).countP Frame.inFlight :=
    List.countP_pos_iff.mpr ⟨g, hg, by simpa using h⟩
  omega

theorem Starts.hidden (hi : Starts w ((f :: rest) :: others))
    (hf : f.opening = true) : w.state.portForwardIDs = [] := by
  by_contra h
  have hopening := (hi.shown h).opening f
    (List.mem_append_left _ List.mem_cons_self)
  rw [hf] at hopening
  cases hopening

theorem inFlight_of_bare {g : List Frame} (h : bare g = true) :
    ∃ f ∈ g, f.inFlight = true := by
  induction g with
  | nil => cases h
  | cons f g ih =>
    cases f with
    | setError err => exact ⟨_, List.mem_cons_self, rfl⟩
    | stop => cases h
    | reset => cases h
    | _ =>
      obtain ⟨f', hf', hflight⟩ := ih h
      exact ⟨f', List.mem_cons_of_mem _ hf', hflight⟩

/-- The frames that take the place of one are no more in flight than it
was. -/
theorem Forwarding.inFlight_le (hd : Forwarding w env f w' frames)
    (h : f.begins = false) :
    frames.countP Frame.inFlight ≤ [f].countP Frame.inFlight := by
  cases hd with
  | same hsame hfollows => exact hfollows.inFlight
  | begins => cases h
  | cleans => exact le_rfl
  | adds henv hopening hconfigs hframes =>
    rw [List.countP_singleton, if_pos (inFlight_of_opening hopening)]
    rcases hframes with rfl | rfl <;> exact le_rfl
  | @publishes l ids =>
    cases ids with
    | nil => exact Nat.zero_le 1
    | cons id ids => exact le_rfl
  | stops =>
    have hnone : w.stop.frames.countP Frame.inFlight = 0 := by
      rw [List.countP_eq_zero]
      intro g hg
      rw [inFlight_of_mem_stop hg]
      exact Bool.false_ne_true
    rw [hnone]
    exact Nat.zero_le _
  | deletes => exact le_rfl
  | resets => exact le_rfl
  | fails => exact Nat.zero_le _

theorem Starts.single_step (hi : Starts w ((f :: rest) :: others))
    (hd : Forwarding w env f w' frames)
    (hok : f.begins = true → w.state.active = true
      ∨ ∀ g ∈ rest ++ others.flatten, g.inFlight = false) :
    ((frames ++ rest) :: others).flatten.countP Frame.inFlight ≤ 1 := by
  have hsingle := hi.single
  rw [List.flatten_cons, List.cons_append, List.countP_cons] at hsingle
  rw [List.flatten_cons, List.append_assoc, List.countP_append]
  cases hbegins : f.begins with
  | false =>
    have hle := hd.inFlight_le hbegins
    rw [List.countP_singleton] at hle
    omega
  | true =>
    cases hd with
    | same hsame hfollows =>
      have hle := hfollows.inFlight
      rw [List.countP_singleton] at hle
      omega
    | begins hinactive =>
      rcases hok hbegins with hactive | hnone
      · rw [hinactive] at hactive
        cases hactive
      · have hzero : (rest ++ others.flatten).countP Frame.inFlight
            = 0 := by
          rw [List.countP_eq_zero]
          intro g hg
          rw [hnone g hg]
          exact Bool.false_ne_true
        rw [hzero]
        exact le_rfl
    | adds henv hopening =>
      cases f <;> cases hbegins
      cases hopening
    | _ => cases hbegins

/-- What is left of the goroutine that runs decides whether IDs may still
be shown. -/
theorem Shown.step (h : Shown w ((f :: rest) :: others))
    (hactive : w'.state.active = true)
    (hopening : ∀ g ∈ frames, g.opening = false)
    (hbare : bare (frames ++ rest) = false) :
    Shown w' ((frames ++ rest) :: others) where
  active := hactive
  opening g hg := by
    rw [List.flatten_cons, List.append_assoc, List.mem_append] at hg
    rcases hg with hg | hg
    · exact hopening g hg
    · exact h.opening g (List.mem_cons_of_mem f hg)
  noError g hg := by
    rcases List.mem_cons.mp hg with rfl | hg
    · exact hbare
    · exact h.noError g (List.mem_cons_of_mem _ hg)

theorem Shown.head (h : Shown w ((f :: rest) :: others)) :
    f.opening = false ∧ bare (f :: rest) = false :=
  ⟨h.opening f (List.mem_append_left _ List.mem_cons_self),
    h.noError _ List.mem_cons_self⟩

/-- IDs that are shown behind a step were shown before, or are shown by
it. -/
theorem Starts.shown_step (hi : Starts w ((f :: rest) :: others))
    (hd : Forwarding w env f w' frames)
    (hok : f.publishes = true → w.state.active = true)
    (hids : w'.state.portForwardIDs ≠ []) :
    Shown w' ((frames ++ rest) :: others) := by
  cases hd with
  | same hsame hfollows =>
    rw [hsame.ids] at hids
    have hshown := hi.shown hids
    obtain ⟨hopening, hbare⟩ := hshown.head
    refine hshown.step (hsame.active.trans hshown.active) ?_ ?_
    · intro g hg
      by_contra h
      have hf := hfollows.opening g hg (by simpa using h)
      rw [hopening] at hf
      cases hf
    · rcases hfollows.bare with hf | hstill
      · rw [hopening] at hf
        cases hf
      · by_contra h
        rw [hstill rest (by simpa using h)] at hbare
        cases hbare
  | begins hinactive hactive hstatus hsame =>
    rw [hsame] at hids
    rw [(hi.shown hids).active] at hinactive
    cases hinactive
  | cleans => exact absurd (hi.hidden rfl) hids
  | adds henv hopening => exact absurd (hi.hidden hopening) hids
  | @publishes l ids =>
    have halone : ∀ g ∈ rest ++ others.flatten, g.inFlight = false :=
      fun g hg => hi.alone rfl hg
    have hstart : ∀ g ∈ l.startForwards ids, g.opening = false := by
      cases ids <;> simp [Local.startForwards, Frame.opening,
        Point.opening]
    have hbehind : ∀ g, (∀ f ∈ g, f.inFlight = false) →
        bare g = false := by
      intro g hg
      by_contra h
      obtain ⟨f, hf, hflight⟩ := inFlight_of_bare (by simpa using h)
      rw [hg f hf] at hflight
      cases hflight
    refine ⟨hok rfl, fun g hg => ?_, fun g hg => ?_⟩
    · rw [List.flatten_cons, List.append_assoc, List.mem_append] at hg
      rcases hg with hg | hg
      · exact hstart g hg
      · by_contra h
        have hflight := inFlight_of_opening (by simpa using h)
        rw [halone g hg] at hflight
        cases hflight
    · rcases List.mem_cons.mp hg with rfl | hg
      · have hrest := hbehind rest fun f hf =>
          halone f (List.mem_append_left _ hf)
        cases ids with
        | nil => exact hrest
        | cons id ids => exact hrest
      · exact hbehind g fun f hf => halone f
          (List.mem_append_right _ (List.mem_flatten_of_mem hg hf))
  | stops =>
    have hshown := hi.shown hids
    refine hshown.step hshown.active (fun g hg => ?_) ?_
    · by_contra h
      have hflight := inFlight_of_opening (by simpa using h)
      rw [inFlight_of_mem_stop hg] at hflight
      cases hflight
    · unfold World.stop
      rw [if_pos hshown.active]
      exact bare_stopFrames _ _
  | deletes =>
    have hshown := hi.shown hids
    exact hshown.step hshown.active
      (fun _ hg => absurd hg List.not_mem_nil) hshown.head.2
  | resets => exact absurd rfl hids
  | fails hinactive hsame =>
    rw [hsame] at hids
    have hbare := (hi.shown hids).head.2
    cases hbare

theorem Starts.closes_step (hi : Starts w ((f :: rest) :: others))
    (hd : Forwarding w env f w' frames) : Closes (frames ++ rest) := by
  have hrest : Closes rest := (hi.closes _ List.mem_cons_self).2
  cases hd with
  | same hsame hfollows => exact closes_append hfollows.undoes hrest
  | begins => exact closes_append (by simp [Frame.undoes]) hrest
  | cleans => exact closes_append (by simp [Frame.undoes]) hrest
  | adds henv hopening hconfigs hframes =>
    refine closes_append ?_ hrest
    rcases hframes with rfl | rfl <;> simp [Frame.undoes]
  | @publishes l ids =>
    refine closes_append ?_ hrest
    cases ids <;> simp [Local.startForwards, Frame.undoes]
  | stops =>
    unfold World.stop
    dsimp only
    split
    · exact closes_stopFrames _ _ hrest
    · exact hrest
  | deletes => exact hrest
  | resets => exact hrest
  | fails => exact closes_append (by simp [Frame.undoes]) hrest

theorem Starts.status_step (hi : Starts w ((f :: rest) :: others))
    (hd : Forwarding w env f w' frames)
    (hactive : w'.state.active = true) : w'.state.status ≠ .stopped := by
  cases hd with
  | same hsame =>
    exact fun h => hi.status (hsame.active.symm.trans hactive)
      (hsame.status h)
  | begins _ _ hstatus => exact hstatus
  | cleans => exact hi.status hactive
  | adds => exact hi.status hactive
  | publishes => exact hi.status hactive
  | stops => exact hi.status hactive
  | deletes => exact hi.status hactive
  | resets => cases hactive
  | fails hinactive =>
    rw [hinactive] at hactive
    cases hactive

theorem Starts.step (hi : Starts w ((f :: rest) :: others))
    (hd : Forwarding w env f w' frames)
    (hbegins : f.begins = true → w.state.active = true
      ∨ ∀ g ∈ rest ++ others.flatten, g.inFlight = false)
    (hpublishes : f.publishes = true → w.state.active = true) :
    Starts w' ((frames ++ rest) :: others) where
  status := hi.status_step hd
  single := hi.single_step hd hbegins
  shown := hi.shown_step hd hpublishes
  closes g hg := by
    rcases List.mem_cons.mp hg with rfl | hg
    · exact hi.closes_step hd
    · exact hi.closes g (List.mem_cons_of_mem _ hg)

-- ======== configurations

/-- The port forwards that a `Start` holds. -/
def heldIn (fs : List Frame) : List String := fs.flatMap Frame.held

theorem heldIn_append (fs gs : List Frame) :
    heldIn (fs ++ gs) = heldIn fs ++ heldIn gs :=
  List.flatMap_append

theorem heldIn_cons (f : Frame) (fs : List Frame) :
    heldIn (f :: fs) = f.held ++ heldIn fs :=
  List.flatMap_cons

/-- Where the port forwards are that were ever created, and are still
there. -/
structure Configs (w : World) (fs : List Frame) : Prop where
  listed : ∀ id ∈ w.state.portForwardIDs, id ∈ w.created
  there : w.state.active = true → .reset ∉ fs →
    ∀ id ∈ w.state.portForwardIDs, id ∈ w.forwards.configs
  held : ∀ id ∈ heldIn fs, id ∈ w.created ∧ id ∈ w.forwards.configs
  deleted : ∀ id, .deleteConfig id ∈ fs → id ∈ w.created ∧ id ∉ heldIn fs
  remaining : ∀ id ∈ w.created, id ∈ w.forwards.configs →
    (w.state.active = true ∧ .reset ∉ fs ∧ id ∈ w.state.portForwardIDs)
      ∨ .deleteConfig id ∈ fs ∨ id ∈ heldIn fs

theorem Configs.perm {fs' : List Frame} (hi : Configs w fs)
    (h : fs.Perm fs') : Configs w fs' := by
  have hheld : (heldIn fs).Perm (heldIn fs') := h.flatMap_right _
  exact
    { listed := hi.listed
      there := fun hactive hreset =>
        hi.there hactive fun hmem => hreset (h.mem_iff.mp hmem)
      held := fun id hid => hi.held id (hheld.mem_iff.mpr hid)
      deleted := fun id hid => by
        rw [← hheld.mem_iff]
        exact hi.deleted id (h.mem_iff.mpr hid)
      remaining := fun id hcreated hid => by
        rw [← hheld.mem_iff, ← h.mem_iff, ← h.mem_iff]
        exact hi.remaining id hcreated hid }

/-- Frames that hold, delete and reset nothing, and a world that has the
same port forwards, change nothing. -/
theorem Configs.same {fs' : List Frame} (hi : Configs w fs)
    (hactive : w'.state.active = w.state.active)
    (hids : w'.state.portForwardIDs = w.state.portForwardIDs)
    (hcreated : w'.created = w.created)
    (hconfigs : w'.forwards.configs = w.forwards.configs)
    (hheld : heldIn fs' = heldIn fs)
    (hreset : .reset ∈ fs' ↔ .reset ∈ fs)
    (hdelete : ∀ id, .deleteConfig id ∈ fs' ↔ .deleteConfig id ∈ fs) :
    Configs w' fs' where
  listed := by
    rw [hids, hcreated]
    exact hi.listed
  there := by
    rw [hactive, hreset, hids, hconfigs]
    exact hi.there
  held := by
    rw [hheld, hcreated, hconfigs]
    exact hi.held
  deleted id := by
    rw [hdelete, hcreated, hheld]
    exact hi.deleted id
  remaining id := by
    rw [hcreated, hconfigs, hactive, hreset, hids, hdelete, hheld]
    exact hi.remaining id

theorem Configs.unlisted {fs' : List Frame} (hi : Configs w fs)
    (hbefore : w.state.active = true → .reset ∉ fs →
      w.state.portForwardIDs = [])
    (hids : w'.state.portForwardIDs = []) (hcreated : w'.created = w.created)
    (hconfigs : ∀ id, id ∈ w'.forwards.configs → id ∈ w.forwards.configs)
    (hkept : ∀ id ∈ heldIn fs, id ∈ w'.forwards.configs)
    (hheld : heldIn fs' = heldIn fs)
    (hdelete : ∀ id, .deleteConfig id ∈ fs' ↔ .deleteConfig id ∈ fs) :
    Configs w' fs' where
  listed id hid := by
    rw [hids] at hid
    cases hid
  there _ _ id hid := by
    rw [hids] at hid
    cases hid
  held id hid := by
    rw [hheld] at hid
    rw [hcreated]
    exact ⟨(hi.held id hid).1, hkept id hid⟩
  deleted id hid := by
    rw [hcreated, hheld]
    exact hi.deleted id ((hdelete id).mp hid)
  remaining id hmem hthere := by
    rw [hcreated] at hmem
    rw [hdelete, hheld]
    rcases hi.remaining id hmem (hconfigs id hthere) with
      ⟨hactive, hreset, h⟩ | h
    · rw [hbefore hactive hreset] at h
      cases h
    · exact .inr h

theorem held_of_not_opening (h : f.opening = false) : f.held = [] := by
  cases f with
  | starting l point => cases point <;> first | rfl | cases h
  | _ => rfl

theorem Starts.nothing_held (hi : Starts w ((f :: rest) :: others))
    (hf : f.opening = true) : heldIn (rest ++ others.flatten) = [] := by
  unfold heldIn
  rw [List.flatMap_eq_nil_iff]
  intro g hg
  apply held_of_not_opening
  by_contra h
  have hflight := inFlight_of_opening (by simpa using h)
  rw [hi.alone (inFlight_of_opening hf) hg] at hflight
  cases hflight

theorem Shown.nothing_held (h : Shown w gs) : heldIn gs.flatten = [] := by
  unfold heldIn
  rw [List.flatMap_eq_nil_iff]
  exact fun g hg => held_of_not_opening (h.opening g hg)

/-- A configuration more, held by the `Start` that has created it. -/
theorem Configs.adds {id : String} {forwards : PortForwardManager.Manager}
    {stored : PortForwardManager.PortForwardConfig}
    (hi : Configs w (f :: behind)) (hids : w.state.portForwardIDs = [])
    (hnone : heldIn behind = []) (hf : f.opening = true)
    (hnew : id ∉ w.created)
    (hconfigs : forwards.configs = w.forwards.configs.insert id stored)
    (hheld : heldIn frames = f.held ++ [id])
    (hdelete : ∀ k, .deleteConfig k ∉ frames) :
    Configs { w with forwards, created := id :: w.created }
      (frames ++ behind) where
  listed k hk := by
    rw [hids] at hk
    cases hk
  there _ _ k hk := by
    rw [hids] at hk
    cases hk
  held k hk := by
    rw [heldIn_append, hheld, hnone, List.append_nil, List.mem_append,
      List.mem_singleton] at hk
    rw [hconfigs, Finmap.mem_insert]
    rcases hk with hk | rfl
    · obtain ⟨hcreated, hthere⟩ := hi.held k (List.mem_append_left _ hk)
      exact ⟨List.mem_cons_of_mem _ hcreated, .inr hthere⟩
    · exact ⟨List.mem_cons_self, .inl rfl⟩
  deleted k hk := by
    rcases List.mem_append.mp hk with hk | hk
    · exact absurd hk (hdelete k)
    · obtain ⟨hcreated, hnot⟩ := hi.deleted k (List.mem_cons_of_mem _ hk)
      refine ⟨List.mem_cons_of_mem _ hcreated, ?_⟩
      rw [heldIn_append, hheld, hnone, List.append_nil, List.mem_append,
        List.mem_singleton]
      rintro (h | rfl)
      · exact hnot (List.mem_append_left _ h)
      · exact hnew hcreated
  remaining k hcreated hthere := by
    rw [hconfigs, Finmap.mem_insert] at hthere
    rw [heldIn_append, hheld]
    by_cases hk : k = id
    · subst hk
      exact .inr (.inr (by simp))
    · have hcreated := (List.mem_cons.mp hcreated).resolve_left hk
      rcases hi.remaining k hcreated (hthere.resolve_left hk) with
        ⟨-, -, h⟩ | h | h
      · rw [hids] at h
        cases h
      · refine .inr (.inl (List.mem_append_right _ ?_))
        rcases List.mem_cons.mp h with rfl | h
        · cases hf
        · exact h
      · rw [heldIn_cons, hnone, List.append_nil] at h
        exact .inr (.inr (by simp [h]))

/-- The IDs that are held are shown. -/
theorem Configs.publishes {l : Local} {ids : List String}
    (hi : Configs w (.starting l (.setIDs ids) :: behind))
    (hids : w.state.portForwardIDs = []) (hnone : heldIn behind = [])
    (hactive : w.state.active = true) (hreset : .reset ∉ behind) :
    Configs (w.modifyState ({ · with portForwardIDs := ids }))
      (l.startForwards ids ++ behind) := by
  have hheld : heldIn (l.startForwards ids ++ behind) = [] := by
    rw [heldIn_append, hnone]
    cases ids <;> rfl
  have hmine : ∀ k ∈ ids, k ∈ w.created ∧ k ∈ w.forwards.configs :=
    fun k hk => hi.held k (List.mem_append_left _ hk)
  have hreset' : .reset ∉ l.startForwards ids ++ behind := by
    rw [List.mem_append, not_or]
    refine ⟨?_, hreset⟩
    cases ids <;> simp [Local.startForwards]
  have hdelete : ∀ k, .deleteConfig k ∈ l.startForwards ids ++ behind
      ↔ .deleteConfig k ∈ behind := by
    intro k
    cases ids <;> simp [Local.startForwards]
  exact
    { listed := fun k hk => (hmine k hk).1
      there := fun _ _ k hk => (hmine k hk).2
      held := by simp [hheld]
      deleted := by
        intro k hk
        rw [hdelete] at hk
        rw [hheld]
        exact ⟨(hi.deleted k (List.mem_cons_of_mem _ hk)).1,
          List.not_mem_nil⟩
      remaining := by
        intro k hcreated hthere
        rw [hdelete]
        rcases hi.remaining k hcreated hthere with ⟨-, -, h⟩ | h | h
        · rw [hids] at h
          cases h
        · exact .inr (.inl ((List.mem_cons.mp h).resolve_left (by simp)))
        · rw [heldIn_cons, hnone, List.append_nil] at h
          exact .inl ⟨hactive, hreset', h⟩ }

/-- The IDs that are shown are about to be deleted. -/
theorem Configs.stops (hi : Configs w (.stop :: behind))
    (hnone : w.state.portForwardIDs ≠ [] → heldIn behind = []) :
    Configs w (w.stop.frames ++ behind) := by
  have hheld : heldIn (w.stop.frames ++ behind) = heldIn behind := by
    rw [heldIn_append]
    have hnil : heldIn w.stop.frames = [] := by
      unfold heldIn
      rw [List.flatMap_eq_nil_iff]
      intro g hg
      apply held_of_not_opening
      by_contra h
      have hflight := inFlight_of_opening (by simpa using h)
      rw [inFlight_of_mem_stop hg] at hflight
      cases hflight
    rw [hnil, List.nil_append]
  by_cases hactive : w.state.active = true
  · have hframes : w.stop.frames
        = stopFrames w.state.portForwardIDs w.state.hostsFileUpdated := by
      unfold World.stop
      rw [if_pos hactive]
    have hreset : .reset ∈ w.stop.frames ++ behind := by
      rw [hframes]
      exact List.mem_append_left _
        (mem_stopFrames.mpr (.inr (.inr (.inl rfl))))
    have hdelete : ∀ k, .deleteConfig k ∈ w.stop.frames ++ behind
        ↔ k ∈ w.state.portForwardIDs ∨ .deleteConfig k ∈ behind := by
      intro k
      rw [hframes, List.mem_append, mem_stopFrames]
      simp
    exact
      { listed := hi.listed
        there := fun _ h => absurd hreset h
        held := by
          rw [hheld]
          exact hi.held
        deleted := by
          intro k hk
          rw [hheld]
          rcases (hdelete k).mp hk with hk | hk
          · refine ⟨hi.listed k hk, ?_⟩
            rw [hnone (List.ne_nil_of_mem hk)]
            exact List.not_mem_nil
          · exact hi.deleted k (List.mem_cons_of_mem _ hk)
        remaining := by
          intro k hcreated hthere
          rw [hdelete, hheld]
          rcases hi.remaining k hcreated hthere with ⟨-, -, h⟩ | h | h
          · exact .inr (.inl (.inl h))
          · exact .inr (.inl (.inr
              ((List.mem_cons.mp h).resolve_left (by simp))))
          · exact .inr (.inr h) }
  · have hframes : w.stop.frames = [] := by
      unfold World.stop
      rw [if_neg hactive]
    rw [hframes, List.nil_append]
    exact hi.same rfl rfl rfl rfl rfl (by simp) (by simp)

theorem Configs.deletes {id : String}
    {forwards : PortForwardManager.Manager}
    (hi : Configs w (.deleteConfig id :: behind))
    (hreset : .reset ∈ behind)
    (hconfigs : forwards.configs = w.forwards.configs.erase id) :
    Configs { w with forwards } behind where
  listed := hi.listed
  there _ h := absurd hreset h
  held k hk := by
    obtain ⟨hcreated, hthere⟩ := hi.held k hk
    have hne : k ≠ id := by
      rintro rfl
      exact (hi.deleted k List.mem_cons_self).2 hk
    rw [hconfigs, Finmap.mem_erase]
    exact ⟨hcreated, hne, hthere⟩
  deleted k hk := hi.deleted k (List.mem_cons_of_mem _ hk)
  remaining k hcreated hthere := by
    rw [hconfigs, Finmap.mem_erase] at hthere
    rcases hi.remaining k hcreated hthere.2 with ⟨-, h, -⟩ | h | h
    · exact absurd (List.mem_cons_of_mem _ hreset) h
    · refine .inr (.inl (List.mem_of_ne_of_mem ?_ h))
      rintro ⟨⟩
      exact hthere.1 rfl
    · exact .inr (.inr h)

/-- The invariant of the configurations is kept. -/
theorem Configs.step (hi : Configs w (f :: (rest ++ others.flatten)))
    (hstarts : Starts w ((f :: rest) :: others))
    (hd : Forwarding w env f w' frames) (hnew : NewID w env)
    (hok : f.publishes = true → w.state.active = true
      ∧ .reset ∉ rest ++ others.flatten) :
    Configs w' (frames ++ (rest ++ others.flatten)) := by
  cases hd with
  | same hsame hfollows =>
    refine hi.same hsame.active hsame.ids hsame.created hsame.configs
      ?_ ?_ ?_
    · rw [heldIn_append, heldIn_cons]
      exact congrArg (· ++ _) hfollows.held
    · have hnot := hfollows.reset
      constructor
      · intro h
        rcases List.mem_append.mp h with h | h
        · exact absurd rfl (hnot _ (List.mem_cons_of_mem f h))
        · exact List.mem_cons_of_mem f h
      · intro h
        rcases List.mem_cons.mp h with rfl | h
        · exact absurd rfl (hnot _ List.mem_cons_self)
        · exact List.mem_append_right _ h
    · intro id
      constructor
      · intro h
        rcases List.mem_append.mp h with h | h
        · exact nomatch hfollows.undoes _ h
        · exact List.mem_cons_of_mem f h
      · intro h
        rcases List.mem_cons.mp h with rfl | h
        · exact absurd rfl (hfollows.kept id)
        · exact List.mem_append_right _ h
  | begins hinactive hactive hstatus hids hcreated hconfigs =>
    have hnil : w.state.portForwardIDs = [] := by
      by_contra h
      rw [(hstarts.shown h).active] at hinactive
      cases hinactive
    apply hi.unlisted (fun _ _ => hnil) (hids.trans hnil) hcreated
    · rw [hconfigs]
      exact fun _ h => h
    · rw [hconfigs]
      exact fun id hid => (hi.held id hid).2
    · rfl
    · simp
  | cleans hconfigs =>
    have hnil := hstarts.hidden rfl
    refine hi.unlisted (fun _ _ => hnil) hnil rfl hconfigs ?_ rfl ?_
    · intro id hid
      rw [heldIn_cons, hstarts.nothing_held rfl] at hid
      cases hid
    · simp
  | adds henv hopening hconfigs hframes =>
    subst henv
    refine hi.adds (hstarts.hidden hopening)
      (hstarts.nothing_held hopening) hopening hnew hconfigs ?_ ?_
    · rcases hframes with rfl | rfl <;> exact List.append_nil _
    · rcases hframes with rfl | rfl <;> simp
  | publishes =>
    obtain ⟨hactive, hreset⟩ := hok rfl
    exact hi.publishes (hstarts.hidden rfl) (hstarts.nothing_held rfl)
      hactive hreset
  | stops =>
    refine hi.stops fun hids => ?_
    have hnone := (hstarts.shown hids).nothing_held
    exact (List.append_eq_nil_iff.mp hnone).2
  | @deletes id forwards hconfigs =>
    have hclose := (hstarts.closes _ List.mem_cons_self).1 rfl
    exact hi.deletes (List.mem_append_left _ hclose) hconfigs
  | resets =>
    refine hi.unlisted (fun _ h => absurd List.mem_cons_self h) rfl rfl
      (fun _ h => h) ?_ rfl ?_
    · exact fun id hid => (hi.held id hid).2
    · simp
  | fails hinactive hids hcreated hconfigs =>
    have hnil : w.state.portForwardIDs = [] := by
      by_contra h
      have hbare := (hstarts.shown h).head.2
      cases hbare
    apply hi.unlisted (fun _ _ => hnil) (hids.trans hnil) hcreated
    · rw [hconfigs]
      exact fun _ h => h
    · rw [hconfigs]
      exact fun id hid => (hi.held id hid).2
    · rfl
    · simp

end IngressForwardManager
