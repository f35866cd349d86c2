/-
What is said about one forward, and what becomes of it where it is said
once more.

# One ID

An event is about one ID, and what it does to the configuration and the
forward shown under it depends on these two alone (`Seen.tell`). A
response that arrives with events still on their way is told some of
what it knows already: it holds what the manager had when it was read,
and the events emitted before that are told to it as well.

# Why that does no harm

`Ready` says that what a request has been answered, completed by what
the manager has now, is behind the events from some place on what the
manager has now. A later event keeps it (`Ready.tell`): the event is
told to both sides, and that the other half of the request is the
manager's after the event instead of before it makes no difference,
because of what the events before say about a forward that is not
active or a configuration that is not there (`Calm`).
-/
import Kubikles.Forward.Manager

namespace PortForwardsHook

open PortForwardManager

-- ======== one event

/-- What is shown under an ID: a configuration, and the configuration
and status of an active forward. -/
@[ext] structure Seen where
  config : Option PortForwardConfig
  forward : Option (PortForwardConfig × Status)

def Seen.start (status : Option Status) (x : Seen) : Seen :=
  { x with
    forward :=
      match x.forward with
      | some p => some (p.1, status.getD p.2)
      | none => x.config.bind fun cfg => status.map (cfg, ·) }

def Seen.tell (contextFilter : String) (e : PortForwardEvent)
    (x : Seen) : Seen :=
  match e.type with
  | .configAdded =>
    { x with
      config := x.config.or (e.config.filter (·.passes contextFilter)) }
  | .configUpdated =>
    { x with config := x.config.map fun cfg => e.config.getD cfg }
  | .configRemoved => ⟨none, none⟩
  | .started => x.start e.status
  | .status .error => x.start e.status
  | .status .stopped => { x with forward := none }
  | .status _ => x

def starts (e : PortForwardEvent) : Bool :=
  e.type = .started || e.type = .status .error

def knows (e : PortForwardEvent) (known : Prop) : Prop :=
  match e.type with
  | .configAdded => True
  | .configRemoved => False
  | _ => known

variable {contextFilter id : String} {e : PortForwardEvent} {x y b : Seen}

theorem tell_config (h : x.config = y.config) :
    (x.tell contextFilter e).config = (y.tell contextFilter e).config := by
  unfold Seen.tell Seen.start
  split <;> simp [h]

/-- An event leaves a configuration, or none, whatever the
configuration. -/
theorem tell_config_isSome (h : x.config.isSome = y.config.isSome) :
    (x.tell contextFilter e).config.isSome
      = (y.tell contextFilter e).config.isSome := by
  unfold Seen.tell Seen.start
  split <;> simp [Option.isSome_or, h]

/-- An event that starts nothing treats forwards alike whatever the
configuration. -/
theorem tell_forward (hquiet : starts e = false)
    (h : x.forward = y.forward) :
    (x.tell contextFilter e).forward
      = (y.tell contextFilter e).forward := by
  unfold starts at hquiet
  unfold Seen.tell
  split <;> simp_all

/-- The two differ in the status of the forward, at most. -/
structure Seen.Like (x y : Seen) : Prop where
  config : x.config = y.config
  forward : x.forward.map Prod.fst = y.forward.map Prod.fst

theorem Seen.Like.tell (h : x.Like y) :
    (x.tell contextFilter e).Like (y.tell contextFilter e) := by
  refine ⟨tell_config h.config, ?_⟩
  have hstart : (x.start e.status).forward.map Prod.fst
      = (y.start e.status).forward.map Prod.fst := by
    have hforward := h.forward
    unfold Seen.start
    rw [h.config]
    cases hx : x.forward with
    | none =>
      cases hy : y.forward with
      | none => rfl
      | some q => simp [hx, hy] at hforward
    | some p =>
      cases hy : y.forward with
      | none => simp [hx, hy] at hforward
      | some q => simpa [hx, hy] using hforward
  unfold Seen.tell
  split
  next => exact h.forward
  next => exact h.forward
  next => rfl
  next => exact hstart
  next => exact hstart
  next => rfl
  next => exact h.forward

-- ======== some events

def told (contextFilter id : String) (events : List PortForwardEvent)
    (x : Seen) : Seen :=
  events.foldl
    (fun x e => if e.configID = id then x.tell contextFilter e else x) x

variable {events : List PortForwardEvent}

@[simp] theorem told_nil : told contextFilter id [] x = x := rfl

theorem told_concat :
    told contextFilter id (events ++ [e]) x
      = if e.configID = id then
          (told contextFilter id events x).tell contextFilter e
        else told contextFilter id events x := by
  unfold told
  rw [List.foldl_append]
  rfl

theorem told_cons :
    told contextFilter id (e :: events) x
      = told contextFilter id events
          (if e.configID = id then x.tell contextFilter e else x) :=
  rfl

theorem told_congr {R : Seen → Seen → Prop}
    (hR : ∀ e ∈ events, e.configID = id → ∀ x y, R x y →
      R (x.tell contextFilter e) (y.tell contextFilter e)) (h : R x y) :
    R (told contextFilter id events x) (told contextFilter id events y) := by
  induction events generalizing x y with
  | nil => exact h
  | cons e events ih =>
    rw [told_cons, told_cons]
    apply ih fun e' he' => hR e' (List.mem_cons_of_mem _ he')
    split
    next hid => exact hR e (List.mem_cons_self ..) hid x y h
    next => exact h

theorem told_config (h : x.config = y.config) :
    (told contextFilter id events x).config
      = (told contextFilter id events y).config :=
  told_congr (R := fun x y => x.config = y.config)
    (fun _ _ _ _ _ h => tell_config h) h

theorem told_config_isSome (h : x.config.isSome = y.config.isSome) :
    (told contextFilter id events x).config.isSome
      = (told contextFilter id events y).config.isSome :=
  told_congr (R := fun x y => x.config.isSome = y.config.isSome)
    (fun _ _ _ _ _ h => tell_config_isSome h) h

theorem told_forward
    (hquiet : ∀ e ∈ events, e.configID = id → starts e = false)
    (h : x.forward = y.forward) :
    (told contextFilter id events x).forward
      = (told contextFilter id events y).forward :=
  told_congr (R := fun x y => x.forward = y.forward)
    (fun e he hid _ _ h => tell_forward (hquiet e he hid) h) h

theorem Seen.Like.told (contextFilter id : String)
    (events : List PortForwardEvent) (h : x.Like y) :
    (told contextFilter id events x).Like
      (PortForwardsHook.told contextFilter id events y) :=
  told_congr (fun _ _ _ _ _ h => Seen.Like.tell h) h

-- ======== what an event may follow

/-- The event agrees with what is known of the ID (`known`: the manager
has a configuration), with what is shown under it and with the events
before. -/
structure Steady (events : List PortForwardEvent) (id : String)
    (known : Prop) (b : Seen) (e : PortForwardEvent) : Prop where
  /-- Only what is new is added. -/
  added : e.type = .configAdded →
    ¬ known ∧ b = ⟨none, none⟩
  /-- What is updated is there, and is not about to be started. -/
  updated : e.type = .configUpdated → known ∧ (b.forward = none
    ∨ ∀ e' ∈ events, e'.configID = id → starts e' = false)
  /-- What is started has a configuration, or is active. -/
  started : starts e = true →
    e.status.isSome ∧ (b.config.isSome ∨ b.forward.isSome)

/-- Of what is not there the events say so in the end, or say
nothing. -/
structure Calm (contextFilter id : String)
    (events : List PortForwardEvent) (known : Prop) (b : Seen) : Prop where
  idle : b.forward = none →
    (∀ x, (told contextFilter id events x).forward = none)
      ∨ ∀ x, (told contextFilter id events x).forward = x.forward
  unknown : ¬ known →
    (∀ x, (told contextFilter id events x).config = none)
      ∨ ∀ x, (told contextFilter id events x).config = x.config

theorem calm_nil {known : Prop} : Calm contextFilter id [] known b :=
  ⟨fun _ => Or.inr fun _ => rfl, fun _ => Or.inr fun _ => rfl⟩

theorem tell_starts (hstarts : starts e = true) :
    x.tell contextFilter e = x.start e.status := by
  unfold starts at hstarts
  unfold Seen.tell
  split <;> simp_all

theorem start_forward (status : Status)
    (h : x.config.isSome ∨ x.forward.isSome) :
    (x.start (some status)).forward.isSome := by
  unfold Seen.start
  cases hforward : x.forward with
  | some p => rfl
  | none =>
    rw [hforward] at h
    cases hconfig : x.config with
    | some cfg => rfl
    | none => simp [hconfig] at h

/-- An event that starts nothing stops the forward, or leaves it
alone. -/
theorem tell_forward_cases (contextFilter : String)
    (hquiet : starts e = false) :
    (∀ x : Seen, (x.tell contextFilter e).forward = none)
      ∨ ∀ x : Seen, (x.tell contextFilter e).forward = x.forward := by
  unfold starts at hquiet
  cases htype : e.type with
  | started => simp [htype] at hquiet
  | configAdded => exact Or.inr fun x => by simp [Seen.tell, htype]
  | configUpdated => exact Or.inr fun x => by simp [Seen.tell, htype]
  | configRemoved => exact Or.inl fun x => by simp [Seen.tell, htype]
  | status status =>
    cases status with
    | error => simp [htype] at hquiet
    | stopped => exact Or.inl fun x => by simp [Seen.tell, htype]
    | starting => exact Or.inr fun x => by simp [Seen.tell, htype]
    | running => exact Or.inr fun x => by simp [Seen.tell, htype]
    | reconnecting => exact Or.inr fun x => by simp [Seen.tell, htype]

/-- An event behind which there is no configuration removes it, or
leaves it alone, unless it is an update. -/
theorem tell_config_cases {known : Prop} (hknows : ¬ knows e known)
    (hupdated : e.type ≠ .configUpdated) :
    (∀ x : Seen, (x.tell contextFilter e).config = none)
      ∨ ¬ known
        ∧ ∀ x : Seen, (x.tell contextFilter e).config = x.config := by
  unfold knows at hknows
  cases htype : e.type with
  | configAdded => simp [htype] at hknows
  | configUpdated => exact absurd htype hupdated
  | configRemoved => exact Or.inl fun x => by simp [Seen.tell, htype]
  | started =>
    refine Or.inr ⟨by simpa [htype] using hknows, fun x => ?_⟩
    simp [Seen.tell, Seen.start, htype]
  | status status =>
    refine Or.inr ⟨by simpa [htype] using hknows, fun x => ?_⟩
    cases status <;> simp [Seen.tell, Seen.start, htype]

theorem Calm.tell {known : Prop} (h : Calm contextFilter id events known b)
    (hid : e.configID = id) (hs : Steady events id known b e) :
    Calm contextFilter id (events ++ [e]) (knows e known)
      (b.tell contextFilter e) := by
  have hconcat : ∀ x, told contextFilter id (events ++ [e]) x
      = (told contextFilter id events x).tell contextFilter e :=
    fun x => told_concat.trans (if_pos hid)
  constructor
  · intro hidle
    by_cases hstarts : starts e = true
    · -- Then a forward is active.
      obtain ⟨hstatus, hthere⟩ := hs.started hstarts
      obtain ⟨status, hstatus⟩ := Option.isSome_iff_exists.mp hstatus
      have hsome := start_forward status hthere
      rw [tell_starts hstarts, hstatus] at hidle
      rw [hidle] at hsome
      cases hsome
    · rcases tell_forward_cases contextFilter (by simpa using hstarts)
        with hnone | hsame
      · exact Or.inl fun x => by rw [hconcat, hnone]
      · rw [hsame] at hidle
        rcases h.idle hidle with h | h
        · exact Or.inl fun x => by rw [hconcat, hsame, h]
        · exact Or.inr fun x => by rw [hconcat, hsame, h]
  · intro hknows
    have hupdated : e.type ≠ .configUpdated := by
      intro htype
      apply hknows
      simpa [knows, htype] using (hs.updated htype).1
    rcases tell_config_cases hknows hupdated with hnone | ⟨hknown, hsame⟩
    · exact Or.inl fun x => by rw [hconcat, hnone]
    · rcases h.unknown hknown with h | h
      · exact Or.inl fun x => by rw [hconcat, hsame, h]
      · exact Or.inr fun x => by rw [hconcat, hsame, h]

-- ======== the answers

/-- What a request has been answered about an ID. -/
structure Answer where
  config : Option (Option PortForwardConfig) := none
  forward : Option (Option (PortForwardConfig × Status)) := none

def Answer.fill (a : Answer) (b : Seen) : Seen :=
  ⟨a.config.getD b.config, a.forward.getD b.forward⟩

/-- Behind the events what has been answered, the rest of it answered
now, is what the manager has. -/
def Ready (contextFilter id : String) (events : List PortForwardEvent)
    (a : Answer) (b : Seen) : Prop :=
  told contextFilter id events (a.fill b) = b

@[simp] theorem fill_empty (b : Seen) : Answer.fill {} b = b := rfl

variable {a : Answer} {known : Prop}

section

variable (hc : Calm contextFilter id events known b)
  (hr : Ready contextFilter id events a b)

include hr

/-- The configuration an answer leads to, where the event touches
none. -/
theorem Ready.config_eq (b' : Seen) (h : b'.config = b.config) :
    (told contextFilter id events (a.fill b')).config = b.config := by
  have hfill : (a.fill b').config = (a.fill b).config := by
    unfold Answer.fill
    rw [h]
  rw [told_config hfill, hr]

include hc

/-- No answer leads to a forward, where there is none before the event
or behind it. -/
theorem Ready.forward_none (b' : Seen) (hidle : b.forward = none)
    (h : b'.forward = none) :
    (told contextFilter id events (a.fill b')).forward = none := by
  rcases hc.idle hidle with hnone | hsame
  · exact hnone _
  · have hfill : (a.fill b').forward = (a.fill b).forward := by
      unfold Answer.fill
      rw [h, hidle]
    rw [hsame, hfill, ← hsame, hr, hidle]

/-- The configuration is added, and it is nowhere yet. -/
theorem Ready.added (htype : e.type = .configAdded)
    (hs : Steady events id known b e) :
    (told contextFilter id events
      (a.fill (b.tell contextFilter e))).tell contextFilter e
      = b.tell contextFilter e := by
  obtain ⟨hunknown, hb⟩ := hs.added htype
  have hforward := hr.forward_none hc (b.tell contextFilter e)
    (by rw [hb]) (by simp [Seen.tell, htype, hb])
  have hconfig : (b.tell contextFilter e).config
      = e.config.filter (·.passes contextFilter) := by
    simp [Seen.tell, htype, hb]
  generalize hz : told contextFilter id events
    (a.fill (b.tell contextFilter e)) = z at hforward
  suffices h : z.config.or (e.config.filter (·.passes contextFilter))
      = e.config.filter (·.passes contextFilter) by
    ext1
    · rw [hconfig]
      simpa [Seen.tell, htype] using h
    · simp [Seen.tell, htype, hb, hforward]
  cases ha : a.config with
  | some c =>
    have hfill : (a.fill (b.tell contextFilter e)).config
        = (a.fill b).config := by
      simp [Answer.fill, ha]
    have hnone : z.config = none := by
      rw [← hz, told_config hfill, hr, hb]
    rw [hnone]
    rfl
  | none =>
    rcases hc.unknown hunknown with hnone | hsame
    · rw [← hz, hnone]
      rfl
    · have hfill : (a.fill (b.tell contextFilter e)).config
          = e.config.filter (·.passes contextFilter) := by
        simp [Answer.fill, ha, hconfig]
      rw [← hz, hsame, hfill]
      exact Option.or_self

/-- The configuration is replaced where there is one. -/
theorem Ready.updated (htype : e.type = .configUpdated)
    (hs : Steady events id known b e) :
    (told contextFilter id events
      (a.fill (b.tell contextFilter e))).tell contextFilter e
      = b.tell contextFilter e := by
  have hsame : (b.tell contextFilter e).forward = b.forward := by
    simp [Seen.tell, htype]
  have hforward : (told contextFilter id events
      (a.fill (b.tell contextFilter e))).forward = b.forward := by
    rcases (hs.updated htype).2 with hidle | hquiet
    · rw [hidle]
      exact hr.forward_none hc _ hidle (hsame.trans hidle)
    · have hfill : (a.fill (b.tell contextFilter e)).forward
          = (a.fill b).forward := by
        unfold Answer.fill
        rw [hsame]
      rw [told_forward hquiet hfill, hr]
  have hisSome : (told contextFilter id events
      (a.fill (b.tell contextFilter e))).config.isSome
      = b.config.isSome := by
    have hfill : (a.fill (b.tell contextFilter e)).config.isSome
        = (a.fill b).config.isSome := by
      unfold Answer.fill
      cases a.config with
      | some c => rfl
      | none => simp [Seen.tell, htype]
    rw [told_config_isSome hfill, hr]
  cases hconfig : e.config with
  | none =>
    have htell : ∀ x : Seen, x.tell contextFilter e = x := by
      intro x
      ext1 <;> simp [Seen.tell, htype, hconfig]
    rw [htell, htell, hr]
  | some cfg =>
    have hmap : ∀ x : Seen, (x.tell contextFilter e).config
        = if x.config.isSome then some cfg else none := by
      intro x
      simp only [Seen.tell, htype, hconfig]
      cases x.config <;> rfl
    ext1
    · rw [hmap, hmap, hisSome]
    · rw [hsame, ← hforward]
      simp [Seen.tell, htype]

/-- A forward starts or changes its status. -/
theorem Ready.started (hstarts : starts e = true)
    (hs : Steady events id known b e) :
    (told contextFilter id events
      (a.fill (b.tell contextFilter e))).tell contextFilter e
      = b.tell contextFilter e := by
  obtain ⟨hstatus, hthere⟩ := hs.started hstarts
  obtain ⟨status, hstatus⟩ := Option.isSome_iff_exists.mp hstatus
  rw [tell_starts hstarts, tell_starts hstarts, hstatus]
  have hconfig := hr.config_eq (b.start (some status)) rfl
  generalize hz : told contextFilter id events
    (a.fill (b.start (some status))) = z at hconfig
  suffices h : (z.start (some status)).forward
      = (b.start (some status)).forward from
    Seen.ext hconfig h
  cases hforward : b.forward with
  | some p =>
    have hlike : (a.fill (b.start (some status))).Like (a.fill b) := by
      refine ⟨rfl, ?_⟩
      unfold Answer.fill
      cases a.forward with
      | some f => rfl
      | none => simp [Seen.start, hforward]
    have hfst := (hlike.told contextFilter id events).forward
    rw [hz, hr, hforward] at hfst
    obtain ⟨q, hq, hfst⟩ := Option.map_eq_some_iff.mp hfst
    simp [Seen.start, hq, hforward, hfst]
  | none =>
    obtain ⟨cfg, hcfg⟩ : ∃ cfg, b.config = some cfg := by
      rw [hforward] at hthere
      exact Option.isSome_iff_exists.mp (by simpa using hthere)
    have hstart : (b.start (some status)).forward
        = some (cfg, status) := by
      simp [Seen.start, hforward, hcfg]
    cases ha : a.forward with
    | some f =>
      have hfill : a.fill (b.start (some status)) = a.fill b := by
        ext1
        · rfl
        · simp [Answer.fill, ha]
      rw [← hz, hfill, hr]
    | none =>
      have hfill : (a.fill (b.start (some status))).forward
          = some (cfg, status) := by
        simp [Answer.fill, ha, hstart]
      have hzforward : z.forward = none
          ∨ z.forward = some (cfg, status) := by
        rw [← hz]
        rcases hc.idle hforward with hnone | hsame
        · exact Or.inl (hnone _)
        · exact Or.inr (by rw [hsame, hfill])
      rw [hstart]
      rcases hzforward with h | h
      · simp [Seen.start, h, hconfig, hcfg]
      · simp [Seen.start, h]

theorem Ready.tell (hid : e.configID = id)
    (hs : Steady events id known b e) :
    Ready contextFilter id (events ++ [e]) a (b.tell contextFilter e) := by
  unfold Ready
  rw [told_concat, if_pos hid]
  by_cases hstarts : starts e = true
  · exact hr.started hc hstarts hs
  have hsame (htell : ∀ x : Seen, x.tell contextFilter e = x) :
      (told contextFilter id events
        (a.fill (b.tell contextFilter e))).tell contextFilter e
        = b.tell contextFilter e := by
    rw [htell, htell, hr]
  cases htype : e.type with
  | configAdded => exact hr.added hc htype hs
  | configUpdated => exact hr.updated hc htype hs
  | configRemoved => simp [Seen.tell, htype]
  | started => simp [starts, htype] at hstarts
  | status status =>
    cases status with
    | error => simp [starts, htype] at hstarts
    | stopped =>
      have hconfig := hr.config_eq (b.tell contextFilter e)
        (by simp [Seen.tell, htype])
      ext1
      · simpa [Seen.tell, htype] using hconfig
      · simp [Seen.tell, htype]
    | starting => exact hsame fun x => by simp [Seen.tell, htype]
    | running => exact hsame fun x => by simp [Seen.tell, htype]
    | reconnecting => exact hsame fun x => by simp [Seen.tell, htype]

end

end PortForwardsHook
