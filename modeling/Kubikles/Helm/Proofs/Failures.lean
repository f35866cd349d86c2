/-
What a failed upgrade leaves of a release.

# Paths

The normal path only adds revisions (`normalUpgrade_cases`). The replace
path removes all of them first; if it then fails to install, they are
lost, unless nothing was removed or a revision with the very same values
is there (`replaceRelease_error`, `replaceRelease_loses`).

# Calls

So a call keeps the values, whatever fails, exactly when the replace path
is not taken or ends well; another call starts from them if what was added
on the normal path has them too (`upgradeRelease_loses_nothing_iff`).
-/
import Kubikles.Helm.Proofs.Values

namespace Helm

open Doc (Agree)

-- ======== records

/-- The records of a release whose last revision is deployed or stuck. -/
structure Stored where
  older : History
  last : Revision
  status : last.status = .deployed ∨ needsReplace last.status = true

def Stored.history (s : Stored) : History := s.older ++ [s.last]

/-- The values that another upgrade of the release with `ReuseValues` lays
the given ones over. -/
def reuseBase (h : History) : Option (Option Values) :=
  match h.getLast? with
  | none => none
  | some last =>
    if needsReplace last.status then some last.config
    else (currentRelease h last).map Revision.config

/-- If a run returns an error, a revision with the values is there. -/
def KeptOnError (run : Cluster × Result) (name : String)
    (config : Option Values) : Prop :=
  ∀ e, run.2 = .returned (some e) →
    ∃ r ∈ run.1 name, SameConfig r.config config

/-- If a run returns an error, another one starts from the values. -/
def ReusedOnError (run : Cluster × Result) (name : String)
    (config : Option Values) : Prop :=
  ∀ e, run.2 = .returned (some e) →
    ∃ c, reuseBase (run.1 name) = some c ∧ SameConfig c config

/-- The chart is there and the release is found to be stuck. -/
def Replaces (charts : Charts) (endings : Endings) (opts : UpgradeOptions)
    (s : Stored) : Prop :=
  prepare charts opts = .ok () ∧ endings.get = none ∧
    needsReplace s.last.status = true

/-- The given values are the stored ones, or a part of them to lay over. -/
def Restates (opts : UpgradeOptions) (stored : Option Values) : Prop :=
  if opts.reuseValues then
    ∀ k v, opts.given.lookup k = some v →
      ∃ w, (stored.getD []).lookup k = some w ∧ Agree v w
  else SameConfig opts.values stored

/-- How the actions of the replace path have to end, for the values to be
there after an error: nothing is removed, or something is installed again,
with the same values if that fails. -/
def ReplaceKeeps (endings : Endings) (opts : UpgradeOptions)
    (stored : Option Values) : Prop :=
  match endings.uninstall, endings.install with
  | .failsBefore _, _ => True
  | _, .succeeds => True
  | _, .failsBefore _ => False
  | _, .failsAfter _ _ => Restates opts stored

/-- The loop over the given values panics before anything is removed. -/
def Panics (opts : UpgradeOptions) (stored : Option Values) : Prop :=
  opts.reuseValues = true ∧ stored = none ∧ opts.given ≠ []

/-- A failed upgrade adds a revision with the same values. -/
def UpgradeRestates (opts : UpgradeOptions) (s : Stored) : Prop :=
  ∀ current, s.last.status.isPending = false →
    currentRelease s.history s.last = some current →
    SameConfig (some (upgradeValues opts.reuseValues opts.resetValues
      opts.given current.config)) s.last.config

theorem Stored.reuseBase (s : Stored) :
    reuseBase s.history = some s.last.config := by
  unfold Helm.reuseBase Stored.history
  rw [List.getLast?_concat]
  show (if needsReplace s.last.status then _ else _) = _
  by_cases hstuck : needsReplace s.last.status = true
  · rw [if_pos hstuck]
  · rw [if_neg hstuck, currentRelease,
      if_pos (s.status.resolve_right hstuck)]
    rfl

theorem sameConfig_refl (c : Option Values) : SameConfig c c := .same _

/-- What the loop over the given values makes of stored ones. -/
theorem sameConfig_overlay_iff (given stored : Values) :
    SameConfig (some (Doc.overlay given stored)) (some stored) ↔
      ∀ k v, given.lookup k = some v →
        ∃ w, stored.lookup k = some w ∧ Agree v w := by
  unfold SameConfig
  constructor
  · intro h k v hv
    have hk := h.keys k
    have hoverlay : (Doc.overlay given stored).lookup k = some v := by
      rw [Doc.lookup_overlay, hv]
      rfl
    show ∃ w, stored.lookup k = some w ∧ _
    cases hw : stored.lookup k with
    | none =>
      simp [hoverlay, hw] at hk
    | some w => exact ⟨w, rfl, h.members hoverlay hw⟩
  · intro h
    refine .map (fun k => ?_) fun k a b ha hb => ?_
    · show ((Doc.overlay given stored).lookup k).isSome
        = (stored.lookup k).isSome
      rw [Doc.lookup_overlay]
      cases hv : given.lookup k with
      | none => rfl
      | some v =>
        obtain ⟨w, hw, -⟩ := h k v hv
        rw [hw]
        rfl
    · change (Doc.overlay given stored).lookup k = some a at ha
      change stored.lookup k = some b at hb
      rw [Doc.lookup_overlay] at ha
      cases hv : given.lookup k with
      | none =>
        rw [hv, hb] at ha
        cases ha
        exact .same _
      | some v =>
        obtain ⟨w, hw, hagree⟩ := h k v hv
        rw [hw] at hb
        rw [hv] at ha
        cases ha
        cases hb
        exact hagree

theorem replaceValues_same_iff {opts : UpgradeOptions}
    {stored values : Option Values}
    (h : replaceValues opts stored = .ok values) :
    SameConfig values stored ↔ Restates opts stored := by
  unfold replaceValues at h
  unfold Restates
  by_cases hreuse : opts.reuseValues = true
  · rw [if_pos hreuse] at h ⊢
    cases stored with
    | some c =>
      cases h
      exact sameConfig_overlay_iff opts.given c
    | none =>
      rw [assignAll] at h
      by_cases hgiven : opts.given = []
      · rw [if_pos hgiven] at h
        cases h
        rw [hgiven]
        refine ⟨fun _ k v hv => ?_, fun _ => sameConfig_refl none⟩
        cases hv
      · rw [if_neg hgiven] at h
        cases h
  · rw [if_neg hreuse] at h ⊢
    cases h
    exact Iff.rfl

theorem replaceValues_panics_iff (opts : UpgradeOptions)
    (stored : Option Values) :
    (∃ message, replaceValues opts stored = .error message) ↔
      Panics opts stored := by
  unfold replaceValues Panics
  by_cases hreuse : opts.reuseValues = true
  · rw [if_pos hreuse]
    cases stored with
    | some c => simp [assignAll]
    | none =>
      by_cases hgiven : opts.given = []
      · simp [assignAll, hgiven]
      · simp [assignAll, hgiven, hreuse]
  · simp [hreuse]

theorem Stored.history_ne_nil (s : Stored) : s.history ≠ [] := by
  simp [Stored.history]

theorem Stored.last_mem (s : Stored) : s.last ∈ s.history := by
  simp [Stored.history]

theorem uninstall_history (ending : Ending) (s : Stored) :
    (uninstall ending s.history).1
      = match ending with
        | .failsBefore _ => s.history
        | _ => [] := by
  unfold uninstall
  rw [if_neg s.history_ne_nil]
  cases ending with
  | succeeds => rfl
  | failsBefore message => rfl
  | failsAfter message pending => rfl

theorem install_nil (ending : Ending) (values : Option Values) :
    install ending values [] = match ending with
      | .succeeds => ([⟨1, .deployed, values⟩], .ok ())
      | .failsBefore message => ([], .error message)
      | .failsAfter message pending =>
        ([⟨1, if pending then .pendingInstall else .failed, values⟩],
          .error message) :=
  if_neg fun h => h rfl

theorem install_history (ending : Ending) (values : Option Values)
    (s : Stored) :
    install ending values s.history
      = (s.history, .error "cannot re-use a name that is still in use") :=
  if_pos s.history_ne_nil

theorem reuseBase_installed (pending : Bool) (values : Option Values) :
    Helm.reuseBase
      [⟨1, if pending then .pendingInstall else .failed, values⟩]
      = some values := by
  cases pending with
  | true => rfl
  | false => rfl

/-- Records that hold the values, and are reused. -/
structure Safe (h : History) (config : Option Values) : Prop where
  kept : ∃ r ∈ h, SameConfig r.config config
  reused : ∃ c, reuseBase h = some c ∧ SameConfig c config

theorem Stored.safe (s : Stored) : Safe s.history s.last.config where
  kept := ⟨s.last, s.last_mem, sameConfig_refl _⟩
  reused := ⟨s.last.config, s.reuseBase, sameConfig_refl _⟩

theorem replaceRelease_error {endings : Endings} {opts : UpgradeOptions}
    {s : Stored} {values : Option Values}
    (hvalues : replaceValues opts s.last.config = .ok values) {e : String}
    (he : (replaceRelease endings opts s.last s.history).2
      = .returned (some e)) :
    (ReplaceKeeps endings opts s.last.config →
      Safe (replaceRelease endings opts s.last s.history).1
        s.last.config) := by
  intro hkeeps
  unfold replaceRelease at he ⊢
  rw [hvalues] at he ⊢
  dsimp only at he ⊢
  rw [uninstall_history] at he ⊢
  cases huninstall : endings.uninstall with
  | failsBefore message =>
    dsimp only
    rw [install_history]
    exact s.safe
  | _ =>
    rw [huninstall] at he
    dsimp only at he ⊢
    rw [install_nil] at he ⊢
    cases hinstall : endings.install with
    | succeeds =>
      rw [hinstall] at he
      cases he
    | failsBefore message =>
      rw [ReplaceKeeps, huninstall, hinstall] at hkeeps
      cases hkeeps
    | failsAfter message pending =>
      rw [ReplaceKeeps, huninstall, hinstall] at hkeeps
      have hsame := (replaceValues_same_iff hvalues).mpr hkeeps
      exact {
        kept := ⟨_, List.mem_singleton_self _, hsame⟩
        reused := ⟨values, reuseBase_installed pending values, hsame⟩ }

theorem replaceRelease_loses {endings : Endings} {opts : UpgradeOptions}
    {s : Stored} {values : Option Values}
    (hvalues : replaceValues opts s.last.config = .ok values)
    (hkeeps : ¬ReplaceKeeps endings opts s.last.config) :
    ∃ e, (replaceRelease endings opts s.last s.history).2
        = .returned (some e) ∧
      ∀ r ∈ (replaceRelease endings opts s.last s.history).1,
        ¬SameConfig r.config s.last.config := by
  unfold replaceRelease
  rw [hvalues]
  dsimp only
  rw [uninstall_history]
  cases huninstall : endings.uninstall with
  | failsBefore message =>
    refine absurd ?_ hkeeps
    rw [ReplaceKeeps, huninstall]
    trivial
  | _ =>
    dsimp only
    rw [install_nil]
    cases hinstall : endings.install with
    | succeeds =>
      refine absurd ?_ hkeeps
      rw [ReplaceKeeps, huninstall, hinstall]
      trivial
    | failsBefore message => exact ⟨_, rfl, nofun⟩
    | failsAfter message pending =>
      refine ⟨_, rfl, fun r hr hsame => hkeeps ?_⟩
      rw [ReplaceKeeps, huninstall, hinstall]
      rw [List.mem_singleton.mp hr] at hsame
      exact (replaceValues_same_iff hvalues).mp hsame

-- ======== the normal path

/-- What an upgrade that fails after its effect leaves: the records, and
one with the values that Helm put together. -/
theorem reuseBase_upgraded (h : History) (version : Nat) (pending : Bool)
    (values : Option Values) :
    Helm.reuseBase (h ++ [⟨version,
        if pending then .pendingUpgrade else .failed, values⟩])
      = some values := by
  unfold Helm.reuseBase
  rw [List.getLast?_concat]
  cases pending with
  | true => rfl
  | false => rfl

/-- How an upgrade ends: nothing was done, a revision was added, or there
is no error. -/
theorem normalUpgrade_cases (endings : Endings) (opts : UpgradeOptions)
    (s : Stored) :
    (normalUpgrade endings opts s.history).1 = s.history ∧
        (∀ message pending, endings.upgrade = .failsAfter message pending →
          UpgradeRestates opts s) ∨
      (∃ current values message pending version,
        endings.upgrade = .failsAfter message pending ∧
        s.last.status.isPending = false ∧
        currentRelease s.history s.last = some current ∧
        values = upgradeValues opts.reuseValues opts.resetValues opts.given
          current.config ∧
        (normalUpgrade endings opts s.history).1
          = s.history ++ [⟨version,
              if pending then .pendingUpgrade else .failed, some values⟩] ∧
        (normalUpgrade endings opts s.history).2
          = .returned (some ("failed to upgrade release: " ++ message))) ∨
      (normalUpgrade endings opts s.history).2 = .returned none ∧
        endings.upgrade = .succeeds := by
  have hlast : s.history.getLast? = some s.last := List.getLast?_concat
  unfold normalUpgrade upgrade
  rw [hlast]
  dsimp only
  by_cases hpending : s.last.status.isPending = true
  · rw [if_pos hpending]
    refine .inl ⟨rfl, fun _ _ _ current hfalse => ?_⟩
    rw [hpending] at hfalse
    cases hfalse
  · rw [if_neg hpending]
    cases hcurrent : currentRelease s.history s.last with
    | none =>
      refine .inl ⟨rfl, fun _ _ _ current _ hsome => ?_⟩
      rw [hcurrent] at hsome
      cases hsome
    | some current =>
      dsimp only
      cases hupgrade : endings.upgrade with
      | succeeds => exact .inr (.inr ⟨rfl, rfl⟩)
      | failsBefore message =>
        exact .inl ⟨rfl, fun _ _ h => by cases h⟩
      | failsAfter message pending =>
        exact .inr (.inl ⟨current, _, message, pending, _, rfl,
          Bool.eq_false_iff.mpr hpending, rfl, rfl, rfl, rfl⟩)

theorem normalUpgrade_kept {endings : Endings} {opts : UpgradeOptions}
    {s : Stored} {e : String}
    (he : (normalUpgrade endings opts s.history).2 = .returned (some e)) :
    ∃ r ∈ (normalUpgrade endings opts s.history).1,
      SameConfig r.config s.last.config := by
  refine ⟨s.last, ?_, sameConfig_refl _⟩
  obtain ⟨hsame, -⟩ | ⟨_, _, _, _, _, _, _, _, _, hadded, _⟩ | ⟨hnone, -⟩ :=
    normalUpgrade_cases endings opts s
  · rw [hsame]
    exact s.last_mem
  · rw [hadded]
    exact List.mem_append_left _ s.last_mem
  · rw [hnone] at he
    cases he

/-- After an upgrade that failed, another one starts from the values,
exactly if a revision that was added has them. -/
theorem normalUpgrade_reused_iff (endings : Endings)
    (opts : UpgradeOptions) (s : Stored) :
    (∀ e, (normalUpgrade endings opts s.history).2 = .returned (some e) →
      ∃ c, reuseBase (normalUpgrade endings opts s.history).1 = some c ∧
        SameConfig c s.last.config) ↔
      ∀ message pending, endings.upgrade = .failsAfter message pending →
        UpgradeRestates opts s := by
  obtain ⟨hsame, hrestates⟩ |
      ⟨current, values, message, pending, version, hfails, hpending,
        hcurrent, hvalues, hadded, herror⟩ | ⟨hnone, hsucceeds⟩ :=
    normalUpgrade_cases endings opts s
  · rw [hsame]
    exact ⟨fun _ => hrestates,
      fun _ _ _ => ⟨_, s.reuseBase, sameConfig_refl _⟩⟩
  · rw [hadded, reuseBase_upgraded]
    constructor
    · intro h _ _ _ current' _ hcurrent'
      obtain ⟨c, hc, hsame⟩ := h _ herror
      cases hc
      rw [hcurrent] at hcurrent'
      cases hcurrent'
      rw [← hvalues]
      exact hsame
    · intro h _ _
      refine ⟨_, rfl, ?_⟩
      rw [hvalues]
      exact h message pending hfails current hpending hcurrent
  · constructor
    · intro _ message pending hfails
      rw [hsucceeds] at hfails
      cases hfails
    · intro _ e he
      rw [hnone] at he
      cases he

-- ======== a whole call

theorem upgradeRelease_of_prepare {charts : Charts} (endings : Endings)
    {opts : UpgradeOptions} (name : String) (cluster : Cluster)
    (h : History) (hprepare : prepare charts opts = .ok ()) :
    (upgradeRelease charts endings opts name (cluster.set name h)).1 name
        = (upgradeRecords endings opts h).1 ∧
      (upgradeRelease charts endings opts name (cluster.set name h)).2
        = (upgradeRecords endings opts h).2 := by
  have hset : cluster.set name h name = h := if_pos rfl
  unfold upgradeRelease
  rw [hprepare]
  dsimp only
  rw [hset]
  exact ⟨if_pos rfl, rfl⟩

theorem upgradeRecords_eq (charts : Charts) (endings : Endings)
    (opts : UpgradeOptions) (s : Stored)
    (hprepare : prepare charts opts = .ok ()) :
    (Replaces charts endings opts s →
      upgradeRecords endings opts s.history
        = replaceRelease endings opts s.last s.history) ∧
    (¬Replaces charts endings opts s →
      upgradeRecords endings opts s.history
        = normalUpgrade endings opts s.history) := by
  have hlast : s.history.getLast? = some s.last := List.getLast?_concat
  unfold upgradeRecords getRelease
  constructor
  · intro hreplaces
    rw [hreplaces.2.1, hlast]
    exact if_pos hreplaces.2.2
  · intro hnot
    cases hget : endings.get with
    | some message => rfl
    | none =>
      rw [hlast]
      exact if_neg fun hstuck => hnot ⟨hprepare, hget, hstuck⟩

/-- When the values are there after an error: the replace path is not
taken, panics, or ends as it should. -/
def KeepsWhen (charts : Charts) (endings : Endings)
    (opts : UpgradeOptions) (s : Stored) : Prop :=
  Replaces charts endings opts s → Panics opts s.last.config ∨
    ReplaceKeeps endings opts s.last.config

/-- When a revision that the normal path adds has the values. -/
def AddsSameWhen (charts : Charts) (endings : Endings)
    (opts : UpgradeOptions) (s : Stored) : Prop :=
  prepare charts opts = .ok () → ¬Replaces charts endings opts s →
    ∀ message pending, endings.upgrade = .failsAfter message pending →
      UpgradeRestates opts s

section Call

variable (charts : Charts) (endings : Endings) (opts : UpgradeOptions)
  (name : String) (cluster : Cluster) (s : Stored)

theorem safe_of_unprepared {charts : Charts} {opts : UpgradeOptions}
    {e : String} (hprepare : prepare charts opts = .error e) :
    Safe ((upgradeRelease charts endings opts name
      (cluster.set name s.history)).1 name) s.last.config := by
  have hset : cluster.set name s.history name = s.history := if_pos rfl
  unfold upgradeRelease
  rw [hprepare]
  dsimp only
  rw [hset]
  exact s.safe

theorem replaceRelease_safe_iff :
    (∀ e, (replaceRelease endings opts s.last s.history).2
        = .returned (some e) →
      Safe (replaceRelease endings opts s.last s.history).1
        s.last.config) ↔
      Panics opts s.last.config ∨
        ReplaceKeeps endings opts s.last.config := by
  cases hvalues : replaceValues opts s.last.config with
  | error message =>
    have hpanics := (replaceValues_panics_iff opts s.last.config).mp
      ⟨message, hvalues⟩
    refine ⟨fun _ => .inl hpanics, fun _ e he => ?_⟩
    unfold replaceRelease at he
    rw [hvalues] at he
    cases he
  | ok values =>
    constructor
    · intro hsafe
      right
      by_contra hkeeps
      obtain ⟨e, he, hlost⟩ := replaceRelease_loses hvalues hkeeps
      obtain ⟨r, hr, hsame⟩ := (hsafe e he).kept
      exact hlost r hr hsame
    · rintro (hpanics | hkeeps)
      · obtain ⟨message, herror⟩ :=
          (replaceValues_panics_iff opts s.last.config).mpr hpanics
        rw [hvalues] at herror
        cases herror
      · exact fun e he => replaceRelease_error hvalues he hkeeps

/-- A revision with the values is there after every error, exactly if the
replace path is not taken, panics, or ends as it should. -/
theorem keptOnError_iff :
    KeptOnError (upgradeRelease charts endings opts name
        (cluster.set name s.history)) name s.last.config ↔
      KeepsWhen charts endings opts s := by
  unfold KeptOnError KeepsWhen
  cases hprepare : prepare charts opts with
  | error e =>
    constructor
    · intro _ hreplaces
      have hok := hreplaces.1
      rw [hprepare] at hok
      cases hok
    · intro _ _ _
      exact (safe_of_unprepared endings name cluster s hprepare).kept
  | ok =>
    obtain ⟨hrecords, hresult⟩ := upgradeRelease_of_prepare
      endings name cluster s.history hprepare
    rw [hrecords, hresult]
    obtain ⟨hyes, hno⟩ := upgradeRecords_eq charts endings opts s hprepare
    by_cases hreplaces : Replaces charts endings opts s
    · rw [hyes hreplaces]
      constructor
      · intro hkept _
        by_contra hneither
        obtain ⟨hpanics, hkeeps⟩ := not_or.mp hneither
        cases hvalues : replaceValues opts s.last.config with
        | error message =>
          exact hpanics ((replaceValues_panics_iff ..).mp ⟨_, hvalues⟩)
        | ok values =>
          obtain ⟨e, he, hlost⟩ := replaceRelease_loses hvalues hkeeps
          obtain ⟨r, hr, hsame⟩ := hkept e he
          exact hlost r hr hsame
      · intro hwhen e he
        exact ((replaceRelease_safe_iff endings opts s).mpr
          (hwhen hreplaces) e he).kept
    · rw [hno hreplaces]
      exact ⟨fun _ h => absurd h hreplaces,
        fun _ _ he => normalUpgrade_kept he⟩

/-- Another call starts from the values after every error, if they are
there, exactly if a revision that was added has them too. -/
theorem reusedOnError_iff (hkeeps : KeepsWhen charts endings opts s) :
    ReusedOnError (upgradeRelease charts endings opts name
        (cluster.set name s.history)) name s.last.config ↔
      AddsSameWhen charts endings opts s := by
  unfold ReusedOnError AddsSameWhen
  cases hprepare : prepare charts opts with
  | error e =>
    constructor
    · intro _ hok
      cases hok
    · intro _ _ _
      exact (safe_of_unprepared endings name cluster s hprepare).reused
  | ok =>
    obtain ⟨hrecords, hresult⟩ := upgradeRelease_of_prepare
      endings name cluster s.history hprepare
    rw [hrecords, hresult]
    obtain ⟨hyes, hno⟩ := upgradeRecords_eq charts endings opts s hprepare
    by_cases hreplaces : Replaces charts endings opts s
    · rw [hyes hreplaces]
      refine ⟨fun _ _ hnot => absurd hreplaces hnot, fun _ e he => ?_⟩
      exact ((replaceRelease_safe_iff endings opts s).mpr
        (hkeeps hreplaces) e he).reused
    · rw [hno hreplaces, normalUpgrade_reused_iff]
      exact ⟨fun h _ _ => h, fun h => h rfl hreplaces⟩

/-- When a failed upgrade loses nothing: exactly when what the replace
path removes is stored again, a revision with the values is there after
every error; exactly when what the normal path adds has the values too,
another call starts from them. -/
theorem upgradeRelease_loses_nothing_iff :
    (KeptOnError (upgradeRelease charts endings opts name
        (cluster.set name s.history)) name s.last.config ↔
      KeepsWhen charts endings opts s) ∧
    (KeptOnError (upgradeRelease charts endings opts name
          (cluster.set name s.history)) name s.last.config ∧
        ReusedOnError (upgradeRelease charts endings opts name
          (cluster.set name s.history)) name s.last.config ↔
      KeepsWhen charts endings opts s ∧
        AddsSameWhen charts endings opts s) := by
  have hkept := keptOnError_iff charts endings opts name cluster s
  refine ⟨hkept, ?_⟩
  rw [hkept]
  exact and_congr_right fun hkeeps =>
    reusedOnError_iff charts endings opts name cluster s hkeeps

end Call

/-- A failed release, whose chart cannot be installed once it has been
removed. -/
theorem upgradeRelease_loses_values :
    ¬ KeptOnError
      (upgradeRelease ⟨.ok (), fun _ _ _ => .ok "", fun _ _ => .ok "",
          fun _ => .ok ()⟩
        ⟨none, .succeeds, .failsBefore "timeout", .succeeds⟩
        { reuseValues := true } "web"
        (Cluster.set (fun _ => []) "web"
          [⟨1, .failed, some [("replicas", .num "3")]⟩]))
      "web" (some [("replicas", .num "3")]) := by
  intro h
  obtain ⟨r, hr, -⟩ := h _ rfl
  cases hr

end Helm
