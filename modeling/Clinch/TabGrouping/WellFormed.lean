import Clinch.Contiguous
import Clinch.TabGrouping.Selection

/-!
# The tab bar stays well formed

* `Grouped`, `WellFormed`: what the tab bar keeps;
* `Regrouped`: the tabs after a call, the selected ones in another group;
* `Cut`: a place in the tab bar that splits no group; `Cut.clamp`, `cut_after_last`, `cut_anchor`;
* **`Regrouped.of_spliced`**, **`Grouped.spliced`**: a block of tabs is put in at such a place;
* `Grouped.prune`, `activePaneGroup_restore`: the end of every call.
-/

set_option autoImplicit false

namespace Clinch

namespace Workspace

variable {P G : Type} [DecidableEq P] [DecidableEq G] {flags : FeatureFlags} {ws : Workspace P G}

/-- The tab is in the group. -/
def InGroup (g : G) (tab : TabData P G) : Prop := tab.groupId = some g

instance (g : G) : DecidablePred (InGroup (P := P) g) := fun tab =>
  inferInstanceAs (Decidable (tab.groupId = some g))

/-- The tabs of a group are contiguous and not pinned themselves, and the effectively pinned tabs
are the first ones. An id names one pane group. -/
structure Grouped (flags : FeatureFlags) (ws : Workspace P G) : Prop where
  contiguous : ∀ g, Contiguous (InGroup g) ws.tabs
  notPinned : ∀ tab ∈ ws.tabs, tab.groupId ≠ none → tab.pinned = false
  pinnedFirst : Leading (fun tab => isTabEffectivelyPinned flags ws.tabGroups tab = true) ws.tabs
  distinct : (ws.tabs.map fun tab => tab.paneGroup).Nodup

/-- **The tab bar is well formed**: besides, every registered group has a tab. -/
structure WellFormed (flags : FeatureFlags) (ws : Workspace P G) : Prop
    extends Grouped flags ws where
  populated : ∀ g, (ws.tabGroups.get g).isSome → ∃ tab ∈ ws.tabs, InGroup g tab

/-- The pane groups of the selected tabs. -/
def selectedPanes (ws : Workspace P G) : List P := ws.selectedTabs.map fun tab => tab.paneGroup

/-- Neither selected in `ws` nor in the group `dest`. -/
def isUnaffected (ws : Workspace P G) (dest : Option G) (tab : TabData P G) : Bool :=
  tab.paneGroup ∉ ws.selectedPanes ∧ ∀ g ∈ dest, tab.groupId ≠ some g

/-- The same tabs with the same one active: the unselected ones outside the group `dest` are in
their order, and exactly the selected ones have changed to the group `dest`. -/
structure Regrouped (ws ws' : Workspace P G) (dest : Option G) : Prop where
  tabs : (ws'.tabs.map fun tab => tab.paneGroup).Perm (ws.tabs.map fun tab => tab.paneGroup)
  order : (ws'.tabs.filter (ws.isUnaffected dest)).map (fun tab => tab.paneGroup) =
    (ws.tabs.filter (ws.isUnaffected dest)).map fun tab => tab.paneGroup
  membership : ∀ tab ∈ ws.tabs, ∀ tab' ∈ ws'.tabs, tab'.paneGroup = tab.paneGroup →
    tab'.groupId = if ws.isSelected tab then dest else tab.groupId
  active : ws'.activePaneGroup = ws.activePaneGroup

/-! ## Places in the tab bar -/

/-- The place splits no group. -/
def Cut (tabs : List (TabData P G)) (n : ℕ) : Prop :=
  n ≤ tabs.length ∧ ∀ g, Splits (InGroup g) (tabs.take n) (tabs.drop n)

variable {groups : HashMap G TabGroup} {tabs : List (TabData P G)}

omit [DecidableEq P] in
/-- A tab of a group is effectively pinned when the group is. -/
theorem effectivelyPinned_of_inGroup {tab : TabData P G} {g : G} (hg : InGroup g tab)
    (hp : tab.pinned = false) : isTabEffectivelyPinned flags groups tab =
      (flags.pinnedTabs && (groups.get g).any fun group => group.pinned) := by
  rw [isTabEffectivelyPinned, hp, show tab.groupId = some g from hg]
  cases flags.pinnedTabs <;> rfl

omit [DecidableEq P] in
/-- Only the group of a tab matters for whether it is effectively pinned. -/
theorem effectivelyPinned_congr {groups' : HashMap G TabGroup} {tab : TabData P G}
    (h : ∀ g, InGroup g tab → ((groups'.get g).map fun group => group.pinned) =
      (groups.get g).map fun group => group.pinned) :
    isTabEffectivelyPinned flags groups' tab = isTabEffectivelyPinned flags groups tab := by
  have hany : ∀ o : Option TabGroup, (o.any fun group => group.pinned) =
      ((o.map fun group => group.pinned).any fun b => b) := by
    intro o
    cases o <;> rfl
  rw [isTabEffectivelyPinned, isTabEffectivelyPinned]
  cases hg : tab.groupId with
  | none => rfl
  | some g => simp only [Option.any_some, hany, h g hg]

omit [DecidableEq P] in
/-- **The clamped place splits no group, and no pinned tab is after it.** -/
theorem Cut.clamp {n : ℕ} (h : Cut tabs n)
    (hpinned : ∀ tab ∈ tabs, tab.groupId ≠ none → tab.pinned = false)
    (hfirst : Leading (fun tab => isTabEffectivelyPinned flags groups tab = true) tabs) :
    Cut tabs (clampToUnpinnedRegion flags groups tabs n) ∧
      ∀ tab ∈ tabs.drop (clampToUnpinnedRegion flags groups tabs n),
        ¬ isTabEffectivelyPinned flags groups tab = true := by
  have htake : (tabs.takeWhile fun tab =>
      decide (isTabEffectivelyPinned flags groups tab = true)).length =
      pinnedBoundaryIndex flags groups tabs := by
    simp only [Bool.decide_eq_true, pinnedBoundaryIndex]
  refine ⟨?_, hfirst.drop (htake.le.trans (le_max_right _ _))⟩
  rw [clampToUnpinnedRegion]
  rcases max_choice n (pinnedBoundaryIndex flags groups tabs) with hmax | hmax
  · rw [hmax]
    exact h
  · rw [hmax]
    refine ⟨(List.takeWhile_prefix _).length_le, fun g => ?_⟩
    have hdrop := hfirst.drop htake.le
    have heff : ∀ tab ∈ tabs, InGroup g tab → isTabEffectivelyPinned flags groups tab =
        (flags.pinnedTabs && (groups.get g).any fun group => group.pinned) := by
      intro tab htab hin
      refine effectivelyPinned_of_inGroup hin (hpinned tab htab ?_)
      rw [show tab.groupId = some g from hin]
      exact Option.some_ne_none g
    -- the tabs of a group are all before the place, or all after it
    by_cases hg : (flags.pinnedTabs && (groups.get g).any fun group => group.pinned) = true
    · refine Or.inr fun tab htab hin => hdrop tab htab ?_
      exact (heff tab (List.drop_subset _ _ htab) hin).trans hg
    · refine Or.inl fun tab htab hin => hg ?_
      rw [pinnedBoundaryIndex, ← List.prefix_iff_eq_take.mp (List.takeWhile_prefix _)] at htab
      rw [← heff tab ((List.takeWhile_prefix _).subset htab) hin]
      exact List.mem_takeWhile_imp htab

omit [DecidableEq P] in
/-- The place after the last tab of a group splits no group. -/
theorem cut_after_last {g : G} {last : ℕ} (hcontiguous : ∀ g, Contiguous (InGroup g) tabs)
    (h : rposition (fun tab => tab.groupId = some g) tabs = some last) : Cut tabs (last + 1) := by
  obtain ⟨L, tab, R, rfl, rfl, htab, hR⟩ := rposition_some h
  have hin : InGroup g tab := of_decide_eq_true htab
  refine ⟨by simp, fun g' => ?_⟩
  rw [show L ++ tab :: R = (L ++ [tab]) ++ R by simp,
    show L.length + 1 = (L ++ [tab]).length by simp, List.take_left, List.drop_left]
  by_cases hg : g' = g
  · subst hg
    exact Or.inr fun tab' htab' hin' => hR tab' htab' (decide_eq_true hin')
  · have hnot : ¬ InGroup g' tab := fun hin' => hg (Option.some.inj (hin'.symm.trans hin))
    refine ((hcontiguous g').splits hnot).imp_left fun hL tab' htab' => ?_
    rcases List.mem_append.mp htab' with htab' | htab'
    · exact hL tab' htab'
    · rw [List.mem_singleton.mp htab']
      exact hnot

omit [DecidableEq P] [DecidableEq G] in
/-- So does the place where a tab has been, unless its group has other tabs on both sides. -/
theorem cut_of_splits {A B B' : List (TabData P G)} {x : TabData P G}
    (hcontiguous : ∀ g, Contiguous (InGroup g) (A ++ x :: B)) (hB : B'.Sublist B)
    (hgone : ∀ g, InGroup g x → Splits (InGroup g) A B') : Cut (A ++ B') A.length := by
  refine ⟨by simp, fun g => ?_⟩
  rw [List.take_left, List.drop_left]
  by_cases hin : InGroup g x
  · exact hgone g hin
  · exact ((hcontiguous g).splits hin).sublist (List.Sublist.refl A) hB

/-! ## A block of tabs at such a place -/

omit [DecidableEq P] [DecidableEq G] in
/-- The groups stay contiguous when the tabs of one group, or of none, are put in together. -/
theorem contiguous_spliced {n : ℕ} {block : List (TabData P G)} {dest : Option G}
    (hcut : Cut tabs n) (hcontiguous : ∀ g, Contiguous (InGroup g) tabs)
    (hblock : ∀ tab ∈ block, tab.groupId = dest)
    (hdest : ∀ g, dest = some g → ∀ tab ∈ tabs, ¬ InGroup g tab) (g : G) :
    Contiguous (InGroup g) (tabs.take n ++ block ++ tabs.drop n) := by
  by_cases hg : dest = some g
  · refine ⟨tabs.take n, block, tabs.drop n, rfl, ?_, ?_, ?_⟩
    · exact fun tab htab => hdest g hg tab (List.take_subset _ _ htab)
    · exact fun tab htab => (hblock tab htab).trans hg
    · exact fun tab htab => hdest g hg tab (List.drop_subset _ _ htab)
  · refine Contiguous.insert ?_ (hcut.2 g) fun tab htab hin => hg ?_
    · rw [List.take_append_drop]
      exact hcontiguous g
    · exact (hblock tab htab).symm.trans hin

omit [DecidableEq G] in
theorem isSelected_iff_mem (hdistinct : (ws.tabs.map fun tab => tab.paneGroup).Nodup)
    {tab : TabData P G} (htab : tab ∈ ws.tabs) :
    tab.paneGroup ∈ ws.selectedPanes ↔ ws.isSelected tab = true := by
  constructor
  · intro h
    obtain ⟨tab', htab', hpane⟩ := List.mem_map.mp h
    obtain ⟨hmem, hsel⟩ := List.mem_filter.mp htab'
    rwa [← List.inj_on_of_nodup_map hdistinct hmem htab hpane]
  · exact fun h => List.mem_map_of_mem (List.mem_filter.mpr ⟨htab, h⟩)

omit [DecidableEq P] [DecidableEq G] in
/-- A block of moved tabs put in between the others: the same tabs. -/
theorem perm_spliced {moved : TabData P G → Bool} {f : TabData P G → TabData P G}
    (hpane : ∀ tab, (f tab).paneGroup = tab.paneGroup) (tabs : List (TabData P G)) (n : ℕ) :
    (((tabs.filter fun tab => !moved tab).take n ++ (tabs.filter moved).map f ++
      (tabs.filter fun tab => !moved tab).drop n).map fun tab => tab.paneGroup).Perm
        (tabs.map fun tab => tab.paneGroup) := by
  have hmap : ((tabs.filter moved).map f).map (fun tab => tab.paneGroup) =
      (tabs.filter moved).map fun tab => tab.paneGroup := by
    rw [List.map_map]
    exact List.map_congr_left fun tab _ => hpane tab
  rw [List.map_append, List.map_append, hmap]
  refine (List.perm_append_comm.append_right _).trans ?_
  rw [List.append_assoc, ← List.map_append, List.take_append_drop, ← List.map_append]
  exact (List.filter_append_perm moved tabs).map _

/-- **The other tabs keep their order and their groups**, when the tabs with the property `moved`,
the selected ones and those of the group, are put in as a block. -/
theorem Regrouped.of_spliced (hdistinct : (ws.tabs.map fun tab => tab.paneGroup).Nodup)
    {dest : Option G} {moved : TabData P G → Bool} {f : TabData P G → TabData P G} {n : ℕ}
    (hmoved : ∀ tab ∈ ws.tabs, moved tab = true ↔
      ws.isSelected tab = true ∨ ∃ g, dest = some g ∧ InGroup g tab)
    (hpane : ∀ tab, (f tab).paneGroup = tab.paneGroup)
    (hgroup : ∀ tab ∈ ws.tabs, moved tab = true → (f tab).groupId = dest) {ws' : Workspace P G}
    (htabs : ws'.tabs = (ws.tabs.filter fun tab => !moved tab).take n ++
      (ws.tabs.filter moved).map f ++ (ws.tabs.filter fun tab => !moved tab).drop n)
    (hactive : ws'.activePaneGroup = ws.activePaneGroup) : Regrouped ws ws' dest := by
  have hunaffected : ∀ tab ∈ ws.tabs, ws.isUnaffected dest tab = !moved tab := by
    intro tab htab
    rw [Bool.eq_iff_iff, isUnaffected, decide_eq_true_iff, Bool.not_eq_true', ← Bool.not_eq_true,
      hmoved tab htab, isSelected_iff_mem hdistinct htab, not_or, not_exists]
    exact and_congr_right fun _ => forall_congr' fun g => not_and.symm
  refine ⟨?_, ?_, fun tab htab tab' htab' he => ?_, hactive⟩
  · rw [htabs]
    exact perm_spliced hpane ws.tabs n
  · have hothers : (ws.tabs.filter fun tab => !moved tab).filter (ws.isUnaffected dest) =
        ws.tabs.filter (ws.isUnaffected dest) := by
      rw [List.filter_congr hunaffected, List.filter_filter]
      exact List.filter_congr fun tab htab => by rw [hunaffected tab htab, Bool.and_self]
    have hblock : ((ws.tabs.filter moved).map f).filter (ws.isUnaffected dest) = [] := by
      rw [List.filter_map, List.map_eq_nil_iff, List.filter_eq_nil_iff]
      intro tab hmem
      obtain ⟨htab, hm⟩ := List.mem_filter.mp hmem
      rw [Function.comp_apply, isUnaffected, decide_eq_true_iff, hpane,
        isSelected_iff_mem hdistinct htab, hgroup tab htab hm]
      rintro ⟨hsel, hother⟩
      obtain ⟨g, hg, -⟩ := ((hmoved tab htab).mp hm).resolve_left hsel
      exact hother g hg hg
    rw [htabs, List.filter_append, List.filter_append, hblock, List.append_nil, ← List.filter_append,
      List.take_append_drop, hothers]
  · have hinj : ∀ {u}, u ∈ ws.tabs → u.paneGroup = tab.paneGroup → u = tab := fun hu =>
      List.inj_on_of_nodup_map hdistinct hu htab
    rw [htabs, List.append_assoc] at htab'
    have hcases : tab' ∈ ws.tabs.filter (fun tab => !moved tab) ∨
        tab' ∈ (ws.tabs.filter moved).map f := by
      rcases List.mem_append.mp htab' with h | h
      · exact Or.inl (List.take_subset _ _ h)
      · rcases List.mem_append.mp h with h | h
        · exact Or.inr h
        · exact Or.inl (List.drop_subset _ _ h)
    rcases hcases with h | h
    · obtain ⟨hmem, hm⟩ := List.mem_filter.mp h
      obtain rfl := hinj hmem he
      rw [if_neg]
      intro hsel
      rw [(hmoved tab' htab).mpr (Or.inl hsel)] at hm
      exact nomatch hm
    · obtain ⟨u, hu, rfl⟩ := List.mem_map.mp h
      obtain ⟨hmem, hm⟩ := List.mem_filter.mp hu
      obtain rfl := hinj hmem ((hpane u).symm.trans he)
      rw [hgroup u hmem hm]
      split
      · rfl
      · rename_i hsel
        obtain ⟨g, hg, hin⟩ := ((hmoved u htab).mp hm).resolve_left hsel
        exact hg.trans hin.symm

/-- **The groups and the pinned tabs keep their shape** when the tabs with the property `moved` are
put in as a block at a place that splits no group. -/
theorem Grouped.spliced (h : ws.Grouped flags) {dest : Option G} {moved : TabData P G → Bool}
    {f : TabData P G → TabData P G} {n : ℕ} {groups : HashMap G TabGroup}
    (hmoved : ∀ tab ∈ ws.tabs, moved tab = true ↔
      ws.isSelected tab = true ∨ ∃ g, dest = some g ∧ InGroup g tab)
    (hpane : ∀ tab, (f tab).paneGroup = tab.paneGroup)
    (hblock : ∀ tab ∈ ws.tabs, moved tab = true → (f tab).groupId = dest ∧ (f tab).pinned = false)
    (hcut : Cut (ws.tabs.filter fun tab => !moved tab) n)
    (hgroups : ∀ tab ∈ ws.tabs, moved tab = false → isTabEffectivelyPinned flags groups tab =
      isTabEffectivelyPinned flags ws.tabGroups tab)
    (hpinned : ((∀ tab ∈ (ws.tabs.filter moved).map f, ¬ isTabEffectivelyPinned flags groups tab) ∧
        ∀ tab ∈ (ws.tabs.filter fun tab => !moved tab).drop n,
          ¬ isTabEffectivelyPinned flags groups tab) ∨
      (∀ tab ∈ (ws.tabs.filter moved).map f, isTabEffectivelyPinned flags groups tab) ∧
        ∀ tab ∈ (ws.tabs.filter fun tab => !moved tab).take n,
          isTabEffectivelyPinned flags groups tab) (activeTabIndex : ℕ) :
    Grouped flags
      { tabs := (ws.tabs.filter fun tab => !moved tab).take n ++ (ws.tabs.filter moved).map f ++
          (ws.tabs.filter fun tab => !moved tab).drop n
        tabGroups := groups
        activeTabIndex } := by
  have hothers : ∀ tab ∈ ws.tabs.filter fun tab => !moved tab, tab ∈ ws.tabs ∧ moved tab = false :=
    fun tab htab => (List.mem_filter.mp htab).imp_right fun hm => by simpa using hm
  have hmem : ∀ tab ∈ (ws.tabs.filter moved).map f, tab.groupId = dest ∧ tab.pinned = false := by
    intro tab htab
    obtain ⟨tab', htab', rfl⟩ := List.mem_map.mp htab
    obtain ⟨hmem, hm⟩ := List.mem_filter.mp htab'
    exact hblock tab' hmem hm
  have hfirst : Leading (fun tab => isTabEffectivelyPinned flags groups tab = true)
      ((ws.tabs.filter fun tab => !moved tab).take n ++
        (ws.tabs.filter fun tab => !moved tab).drop n) := by
    rw [List.take_append_drop]
    refine (h.pinnedFirst.sublist List.filter_sublist).congr fun tab htab => ?_
    obtain ⟨hin, hm⟩ := hothers tab htab
    rw [hgroups tab hin hm]
  refine ⟨fun g => ?_, fun tab htab hne => ?_, ?_, ?_⟩
  · refine contiguous_spliced hcut (fun g => (h.contiguous g).sublist List.filter_sublist)
      (fun tab htab => (hmem tab htab).1) (fun g hg tab htab hin => ?_) g
    obtain ⟨hl, hm⟩ := hothers tab htab
    rw [(hmoved tab hl).mpr (Or.inr ⟨g, hg, hin⟩)] at hm
    exact nomatch hm
  · rw [List.append_assoc] at htab
    rcases List.mem_append.mp htab with htab | htab
    · exact h.notPinned tab (hothers tab (List.take_subset _ _ htab)).1 hne
    · rcases List.mem_append.mp htab with htab | htab
      · exact (hmem tab htab).2
      · exact h.notPinned tab (hothers tab (List.drop_subset _ _ htab)).1 hne
  · rcases hpinned with ⟨hB, hR⟩ | ⟨hB, hL⟩
    · exact hfirst.insert_not hR hB
    · exact hfirst.insert hL hB
  · exact (perm_spliced hpane ws.tabs n).nodup_iff.mpr h.distinct

/-! ## The end of a call -/

omit [DecidableEq P] in
theorem pruneEmptyTabGroup_frame (g : G) : (ws.pruneEmptyTabGroup g).tabs = ws.tabs ∧
    (ws.pruneEmptyTabGroup g).activeTabIndex = ws.activeTabIndex := by
  rw [pruneEmptyTabGroup]
  split <;> exact ⟨rfl, rfl⟩

omit [DecidableEq P] in
/-- Only a group without tabs is removed. -/
theorem get_pruneEmptyTabGroup_of_mem (g : G) {g' : G} {tab : TabData P G} (htab : tab ∈ ws.tabs)
    (hin : InGroup g' tab) : (ws.pruneEmptyTabGroup g).tabGroups.get g' = ws.tabGroups.get g' := by
  rw [pruneEmptyTabGroup]
  split
  · rename_i hany
    refine HashMap.get_remove_of_ne _ ?_
    rintro rfl
    have htrue : (ws.tabs.any fun tab => tab.groupId = some g') = true :=
      List.any_eq_true.mpr ⟨tab, htab, decide_eq_true hin⟩
    simp [htrue] at hany
  · rfl

omit [DecidableEq P] in
theorem get_pruneEmptyTabGroup_isSome {g g' : G}
    (h : ((ws.pruneEmptyTabGroup g).tabGroups.get g').isSome) :
    (ws.tabGroups.get g').isSome ∧ (g' = g → ∃ tab ∈ ws.tabs, InGroup g' tab) := by
  rw [pruneEmptyTabGroup] at h
  cases hany : ws.tabs.any fun tab => tab.groupId = some g with
  | true =>
    rw [hany] at h
    refine ⟨h, ?_⟩
    rintro rfl
    obtain ⟨tab, htab, hin⟩ := List.any_eq_true.mp hany
    exact ⟨tab, htab, of_decide_eq_true hin⟩
  | false =>
    rw [hany] at h
    obtain ⟨group, hgroup⟩ := Option.isSome_iff_exists.mp h
    obtain ⟨hget, hne⟩ := HashMap.get_remove_some.mp hgroup
    exact ⟨Option.isSome_iff_exists.mpr ⟨group, hget⟩, fun he => absurd he hne⟩

omit [DecidableEq P] in
theorem Grouped.pruneOne (h : ws.Grouped flags) (g : G) :
    (ws.pruneEmptyTabGroup g).Grouped flags := by
  have htabs := (@pruneEmptyTabGroup_frame _ _ _ ws g).1
  refine ⟨?_, ?_, ?_, ?_⟩
  · rw [htabs]
    exact h.contiguous
  · rw [htabs]
    exact h.notPinned
  · rw [htabs]
    refine h.pinnedFirst.congr fun tab htab => ?_
    rw [effectivelyPinned_congr fun g' hin =>
      congrArg _ (get_pruneEmptyTabGroup_of_mem g htab hin)]
  · rw [htabs]
    exact h.distinct

omit [DecidableEq P] in
/-- **Pruning the groups that may be empty leaves a well-formed tab bar.** -/
theorem Grouped.prune {gs : List G} (h : ws.Grouped flags)
    (hgs : ∀ g, (ws.tabGroups.get g).isSome → g ∈ gs ∨ ∃ tab ∈ ws.tabs, InGroup g tab) :
    (gs.foldl pruneEmptyTabGroup ws).WellFormed flags ∧
      (gs.foldl pruneEmptyTabGroup ws).tabs = ws.tabs ∧
      (gs.foldl pruneEmptyTabGroup ws).activeTabIndex = ws.activeTabIndex := by
  induction gs generalizing ws with
  | nil =>
    exact ⟨{ h with populated := fun g hg => (hgs g hg).resolve_left List.not_mem_nil }, rfl, rfl⟩
  | cons g gs ih =>
    obtain ⟨htabs, hactive⟩ := @pruneEmptyTabGroup_frame _ _ _ ws g
    rw [List.foldl_cons, ← htabs, ← hactive]
    refine ih (h.pruneOne g) fun g' hg' => ?_
    obtain ⟨hsome, hmember⟩ := get_pruneEmptyTabGroup_isSome hg'
    rw [htabs]
    rcases hgs g' hsome with hmem | hmem
    · rcases List.mem_cons.mp hmem with rfl | hmem
      · exact Or.inr (hmember rfl)
      · exact Or.inl hmem
    · exact Or.inr hmem

omit [DecidableEq G] in
theorem restoreActiveTabIndex_frame (pane : Option P) :
    (ws.restoreActiveTabIndex pane).tabs = ws.tabs ∧
      (ws.restoreActiveTabIndex pane).tabGroups = ws.tabGroups := by
  cases pane with
  | none => exact ⟨rfl, rfl⟩
  | some activeId =>
    simp only [restoreActiveTabIndex]
    split <;> exact ⟨rfl, rfl⟩

omit [DecidableEq G] in
/-- **The same tab is active again** after the tabs have been put in another order. -/
theorem activePaneGroup_restore {ws₁ : Workspace P G}
    (hperm : (ws₁.tabs.map fun tab => tab.paneGroup).Perm (ws.tabs.map fun tab => tab.paneGroup))
    (hindex : ws₁.activeTabIndex = ws.activeTabIndex) :
    (ws₁.restoreActiveTabIndex ws.activePaneGroup).activePaneGroup = ws.activePaneGroup := by
  cases hactive : ws.activePaneGroup with
  | none =>
    have hlen := hperm.length_eq
    rw [List.length_map, List.length_map] at hlen
    rw [activePaneGroup, Option.map_eq_none_iff, List.getElem?_eq_none_iff] at hactive
    rw [restoreActiveTabIndex, activePaneGroup, Option.map_eq_none_iff, List.getElem?_eq_none_iff,
      hindex, hlen]
    exact hactive
  | some activeId =>
    obtain ⟨tab, htab, hpane⟩ := Option.map_eq_some_iff.mp hactive
    have hmem : activeId ∈ ws₁.tabs.map fun tab => tab.paneGroup :=
      hperm.mem_iff.mpr (hpane ▸ List.mem_map_of_mem (List.mem_of_getElem? htab))
    obtain ⟨tab₁, hmem₁, hpane₁⟩ := List.mem_map.mp hmem
    rw [restoreActiveTabIndex]
    cases hfind : ws₁.tabs.findIdx? fun tab => tab.paneGroup = activeId with
    | none => exact absurd hpane₁ (by simpa using List.findIdx?_eq_none_iff.mp hfind tab₁ hmem₁)
    | some newIndex =>
      obtain ⟨hlt, hpane₂, -⟩ := List.findIdx?_eq_some_iff_getElem.mp hfind
      simp only [activePaneGroup]
      rw [List.getElem?_eq_getElem hlt, Option.map_some]
      exact congrArg some (of_decide_eq_true hpane₂)

theorem Grouped.restore (h : ws.Grouped flags) (pane : Option P) :
    (ws.restoreActiveTabIndex pane).Grouped flags := by
  obtain ⟨htabs, hgroups⟩ := @restoreActiveTabIndex_frame _ _ _ ws pane
  refine ⟨?_, ?_, ?_, ?_⟩
  · rw [htabs]
    exact h.contiguous
  · rw [htabs]
    exact h.notPinned
  · rw [htabs, hgroups]
    exact h.pinnedFirst
  · rw [htabs]
    exact h.distinct

omit [DecidableEq P] in
theorem Grouped.expand (h : ws.Grouped flags) (g : G) : (ws.expandTabGroup g).Grouped flags := by
  refine ⟨h.contiguous, h.notPinned, h.pinnedFirst.congr fun tab _ => ?_, h.distinct⟩
  rw [expandTabGroup, effectivelyPinned_congr]
  intro g' _
  rw [HashMap.get_modify]
  split
  · rw [Option.map_map]
    rfl
  · rfl

omit [DecidableEq P] in
theorem Grouped.clear (h : ws.Grouped flags) :
    ws.clearTabMultiSelection.Grouped flags where
  contiguous g := Contiguous.map (f := fun tab : TabData P G =>
    { tab with inMultiSelection := false }) (h.contiguous g)
  notPinned tab htab hne := by
    obtain ⟨tab', htab', rfl⟩ := List.mem_map.mp htab
    exact h.notPinned tab' htab' hne
  pinnedFirst := by
    obtain ⟨a, b, hab, ha, hb⟩ := h.pinnedFirst
    refine ⟨a.map _, b.map _, (congrArg _ hab).trans List.map_append, ?_, ?_⟩
    · intro tab htab
      obtain ⟨tab', htab', rfl⟩ := List.mem_map.mp htab
      exact ha tab' htab'
    · intro tab htab
      obtain ⟨tab', htab', rfl⟩ := List.mem_map.mp htab
      exact hb tab' htab'
  distinct := by
    have hmap : (ws.clearTabMultiSelection.tabs.map fun tab => tab.paneGroup) =
        ws.tabs.map fun tab => tab.paneGroup := List.map_map
    rw [hmap]
    exact h.distinct

end Workspace

end Clinch
