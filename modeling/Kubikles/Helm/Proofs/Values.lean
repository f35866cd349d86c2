/-
The values that the replace path installs a release with.

The replace path lays the given values over the stored ones member by
member, where Helm merges them, and does not look at `ResetValues`.
Without `ReuseValues` it passes on what is given, where Helm takes the
stored values if nothing is. The two agree exactly where none of this
matters (`replaceValues_agrees_iff`).
-/
import Kubikles.Helm.Upgrade

namespace Helm

open Doc (Agree Covers)

-- ======== agreement

/-- Two maps of values are the same; one that is nil has no members. -/
def SameConfig (c c' : Option Values) : Prop :=
  Agree (.map (c.getD [])) (.map (c'.getD []))

/-- The replace path installs the values that Helm would upgrade to. -/
def InstallsUpgrade (opts : UpgradeOptions) (stored : Option Values) :
    Prop :=
  ∃ values, replaceValues opts stored = .ok values ∧
    SameConfig values (some (upgradeValues opts.reuseValues
      opts.resetValues opts.given stored))

/-- Where the two ways to put values together come to the same: values to
reuse are given in full where maps meet or a reset asks for them, and are
there if any are given; without reuse or reset, some are given or none
are stored. -/
def MergeSettled (opts : UpgradeOptions) (stored : Option Values) : Prop :=
  if opts.reuseValues then
    (stored = none → opts.given = []) ∧
    if opts.resetValues then
      ∀ k, ((stored.getD []).lookup k).isSome →
        (opts.given.lookup k).isSome
    else
      ∀ k v w, opts.given.lookup k = some v →
        (stored.getD []).lookup k = some w → Covers v w
  else
    opts.resetValues ∨ opts.given ≠ [] ∨ stored.getD [] = []

theorem eq_nil_of_agree {members : Values}
    (h : Agree (.map []) (.map members)) : members = [] := by
  cases members with
  | nil => rfl
  | cons e members =>
    obtain ⟨k, v⟩ := e
    have hkeys := h.keys k
    rw [Assoc.lookup_cons, if_pos rfl] at hkeys
    cases hkeys

theorem agree_overlay_given_iff (given stored : Values) :
    Agree (.map (Doc.overlay given stored)) (.map given) ↔
      ∀ k, (stored.lookup k).isSome → (given.lookup k).isSome := by
  constructor
  · intro h k hk
    rw [← h.keys k, Doc.lookup_overlay]
    cases given.lookup k with
    | none => exact hk
    | some v => rfl
  · intro h
    refine Doc.agree_of_lookup fun k => ?_
    rw [Doc.lookup_overlay]
    cases hv : given.lookup k with
    | none =>
      cases hw : stored.lookup k with
      | none => rfl
      | some w =>
        have hk := h k
        rw [hv, hw] at hk
        cases hk rfl
    | some v => rfl

/-- Laying values over a map is merging them if they cover what they
meet. -/
theorem agree_overlay_merge_iff (given stored : Values) :
    Agree (.map (Doc.overlay given stored))
        (.map (Doc.mergeMembers given stored)) ↔
      ∀ k v w, given.lookup k = some v → stored.lookup k = some w →
        Covers v w := by
  constructor
  · intro h k v w hv hw
    refine (Doc.agree_merge_iff v w).mp (h.members (k := k) ?_ ?_)
    · rw [Doc.lookup_overlay, hv]
      rfl
    · rw [Doc.lookup_mergeMembers, hv, hw]
      rfl
  · intro h
    refine .map (fun k => ?_) fun k a b ha hb => ?_
    · rw [Doc.lookup_overlay, Doc.lookup_mergeMembers]
      cases given.lookup k with
      | none => rfl
      | some _ => cases stored.lookup k <;> rfl
    · rw [Doc.lookup_overlay] at ha
      rw [Doc.lookup_mergeMembers] at hb
      cases hv : given.lookup k with
      | none =>
        rw [hv] at ha hb
        have hab : some a = some b := ha.symm.trans hb
        cases hab
        exact .same a
      | some v =>
        rw [hv] at ha hb
        rw [← Option.some.inj ha]
        cases hw : stored.lookup k with
        | none =>
          rw [hw] at hb
          rw [← Option.some.inj hb]
          exact .same v
        | some w =>
          rw [hw] at hb
          rw [← Option.some.inj hb]
          exact (Doc.agree_merge_iff v w).mpr (h k v w hv hw)

/-- Given values stand for the stored ones if there are some, or none are
stored. -/
theorem agree_given_default_iff (given stored : Values) :
    Agree (.map given) (.map (if given = [] then stored else given)) ↔
      given ≠ [] ∨ stored = [] := by
  by_cases hgiven : given = []
  · rw [if_pos hgiven, hgiven]
    constructor
    · intro h
      exact .inr (eq_nil_of_agree h)
    · rintro (h | h)
      · exact absurd rfl h
      · rw [h]
        exact .same _
  · rw [if_neg hgiven]
    exact ⟨fun _ => .inl hgiven, fun _ => .same _⟩

theorem installsUpgrade_of_ok {opts : UpgradeOptions}
    {stored values : Option Values}
    (h : replaceValues opts stored = .ok values) :
    InstallsUpgrade opts stored ↔
      SameConfig values (some (upgradeValues opts.reuseValues
        opts.resetValues opts.given stored)) := by
  constructor
  · rintro ⟨values', hvalues, hsame⟩
    rw [h] at hvalues
    cases hvalues
    exact hsame
  · intro hsame
    exact ⟨values, h, hsame⟩

theorem installsUpgrade_reuse {opts : UpgradeOptions}
    (hreuse : opts.reuseValues = true) (c : Values) :
    InstallsUpgrade opts (some c) ↔ MergeSettled opts (some c) := by
  have hok : replaceValues opts (some c)
      = .ok (some (Doc.overlay opts.given c)) := if_pos hreuse
  rw [installsUpgrade_of_ok hok, SameConfig, MergeSettled, if_pos hreuse,
    upgradeValues]
  by_cases hreset : opts.resetValues = true
  · rw [if_pos hreset, if_pos hreset]
    show Agree (.map (Doc.overlay opts.given c)) (.map opts.given) ↔ _
    rw [agree_overlay_given_iff]
    exact ⟨fun h => ⟨nofun, h⟩, And.right⟩
  · rw [if_neg hreset, if_neg hreset, if_pos hreuse]
    show Agree (.map (Doc.overlay opts.given c))
      (.map (Doc.mergeMembers opts.given c)) ↔ _
    rw [agree_overlay_merge_iff]
    exact ⟨fun h => ⟨nofun, h⟩, And.right⟩

/-- Values are reused of a release that has no map of them: the loop over
the given ones may not run. -/
theorem installsUpgrade_reuse_nil {opts : UpgradeOptions}
    (hreuse : opts.reuseValues = true) :
    InstallsUpgrade opts none ↔ MergeSettled opts none := by
  rw [MergeSettled, if_pos hreuse]
  by_cases hgiven : opts.given = []
  · have hok : replaceValues opts none = .ok none := by
      rw [replaceValues, if_pos hreuse, assignAll, if_pos hgiven]
    rw [installsUpgrade_of_ok hok, SameConfig, upgradeValues, hgiven]
    constructor
    · intro _
      refine ⟨fun _ => rfl, ?_⟩
      split
      · intro k hk
        cases hk
      · intro k v w _ hw
        cases hw
    · intro _
      split
      · exact .same _
      · exact .same _
  · constructor
    · rintro ⟨values, hvalues, -⟩
      rw [replaceValues, if_pos hreuse, assignAll, if_neg hgiven] at hvalues
      cases hvalues
    · rintro ⟨hnone, -⟩
      exact absurd (hnone rfl) hgiven

theorem installsUpgrade_fresh {opts : UpgradeOptions}
    (hreuse : ¬opts.reuseValues = true) (stored : Option Values) :
    InstallsUpgrade opts stored ↔ MergeSettled opts stored := by
  have hok : replaceValues opts stored = .ok (some opts.given) :=
    if_neg hreuse
  rw [installsUpgrade_of_ok hok, SameConfig, MergeSettled, if_neg hreuse,
    upgradeValues]
  by_cases hreset : opts.resetValues = true
  · rw [if_pos hreset]
    exact ⟨fun _ => .inl hreset, fun _ => .same _⟩
  · rw [if_neg hreset, if_neg hreuse]
    show Agree (.map opts.given) (.map (if opts.given = [] then _ else _)) ↔ _
    rw [agree_given_default_iff]
    exact ⟨.inr, fun h => h.resolve_left hreset⟩

/-- The replace path installs what Helm would upgrade to exactly where the
two ways to put values together come to the same. -/
theorem replaceValues_agrees_iff (opts : UpgradeOptions)
    (stored : Option Values) :
    InstallsUpgrade opts stored ↔ MergeSettled opts stored := by
  by_cases hreuse : opts.reuseValues = true
  · cases stored with
    | none => exact installsUpgrade_reuse_nil hreuse
    | some c => exact installsUpgrade_reuse hreuse c
  · exact installsUpgrade_fresh hreuse stored

/-- One member of a map is given anew: the rest of the map is lost when the
release has failed. -/
theorem replaceValues_loses_nested :
    ¬ InstallsUpgrade
      { values := some [("image", .map [("tag", .str "2")])]
        reuseValues := true }
      (some [("image", .map [("repository", .str "web")])]) := by
  intro h
  obtain ⟨values, hvalues, hsame⟩ := h
  cases hvalues
  have hnested := Agree.members (k := "image") hsame rfl rfl
  exact absurd (hnested.keys "repository") (by decide)

end Helm
