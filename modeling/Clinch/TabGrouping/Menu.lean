import Clinch.TabGrouping.WellFormed

/-!
# The multi-tab menu

The three calls of the menu, on every well-formed tab bar and every selection.

* `regroup`, `partition_regrouped`: the marked tabs, parted from the others;
* `newTabGroup_regroups`, `moveSelectedTabs_regroups`, `removeSelectedTabs_regroups`;
* `newTabGroup_unchanged`, `moveSelectedTabs_unchanged`, `removeSelectedTabs_unchanged`: the calls
  that are refused;
* **`menu_keeps_wellFormed`**: the calls return, the tab bar stays well formed, and exactly the
  selected tabs have changed groups; `removeSelectedTabs_mixed`: a selection across groups.
-/

set_option autoImplicit false

namespace Clinch

namespace Workspace

variable {P G : Type}

/-- A tab that joins a group. -/
def joining (groupId : G) (tab : TabData P G) : TabData P G :=
  { tab with groupId := some groupId, pinned := false, inMultiSelection := false }

/-- A tab that leaves its group. -/
def leaving (tab : TabData P G) : TabData P G := { tab with groupId := none }

variable [DecidableEq P] [DecidableEq G] {flags : FeatureFlags} {ws : Workspace P G}

/-- What the loops over the selected tabs do to a tab. -/
def regroup (ws : Workspace P G) (mark : TabData P G → TabData P G) (tab : TabData P G) :
    TabData P G :=
  if ws.isSelected tab then mark tab else tab

omit [DecidableEq G] in
/-- The marked tabs are parted into the moved ones and the others, which are as before. -/
theorem partition_regrouped {mark : TabData P G → TabData P G} {moved : TabData P G → Bool}
    {q : TabData P G → Bool} (hq : ∀ tab ∈ ws.tabs, q (ws.regroup mark tab) = moved tab)
    (hmoved : ∀ tab ∈ ws.tabs, ws.isSelected tab = true → moved tab = true) :
    (ws.tabs.map (ws.regroup mark)).partition q =
      ((ws.tabs.filter moved).map (ws.regroup mark), ws.tabs.filter fun tab => !moved tab) := by
  rw [List.partition_eq_filter_filter, List.filter_map, List.filter_map]
  refine congrArg₂ _ (congrArg _ (List.filter_congr hq)) ?_
  rw [List.filter_congr (q := fun tab => !moved tab) fun tab htab => ?_]
  · refine (List.map_congr_left fun tab htab => ?_).trans (List.map_id _)
    obtain ⟨hmem, hm⟩ := List.mem_filter.mp htab
    rw [regroup, if_neg]
    · rfl
    · intro hsel
      rw [hmoved tab hmem hsel] at hm
      exact nomatch hm
  · simp only [Function.comp_apply, hq tab htab]

/-- The groups that the selected tabs leave. -/
def leftGroups (ws : Workspace P G) : List G :=
  (ws.selectedTabs.filterMap fun tab => tab.groupId).dedup

theorem previousGroupIds_eq : ws.previousGroupIds (indicesFrom ws.isSelected ws.tabs 0) =
    .ok ws.leftGroups := by
  rw [previousGroupIds, mapM_index_indicesFrom]
  rfl

/-- A group that a selected tab has left may be empty, any other one is not. -/
theorem mem_leftGroups {tabs : List (TabData P G)} {g : G} {tab : TabData P G}
    (htab : tab ∈ ws.tabs) (hin : InGroup g tab)
    (hkept : ws.isSelected tab = false → tab ∈ tabs) :
    g ∈ ws.leftGroups ∨ ∃ tab ∈ tabs, InGroup g tab := by
  cases hsel : ws.isSelected tab with
  | true =>
    refine Or.inl (List.mem_dedup.mpr (List.mem_filterMap.mpr ⟨tab, ?_, hin⟩))
    exact List.mem_filter.mpr ⟨htab, hsel⟩
  | false => exact Or.inr ⟨tab, hkept hsel, hin⟩

/-- **The end of every call**: the tab that was active is active again, and the groups that are empty
now are pruned. -/
theorem Regrouped.finish {ws₁ : Workspace P G} {dest : Option G} {gs : List G}
    (h₁ : ws₁.Grouped flags) (hindex : ws₁.activeTabIndex = ws.activeTabIndex)
    (hperm : (ws₁.tabs.map fun tab => tab.paneGroup).Perm (ws.tabs.map fun tab => tab.paneGroup))
    (hgs : ∀ g, (ws₁.tabGroups.get g).isSome → g ∈ gs ∨ ∃ tab ∈ ws₁.tabs, InGroup g tab)
    (hregrouped : ∀ ws', ws'.tabs = ws₁.tabs → ws'.activePaneGroup = ws.activePaneGroup →
      ws.Regrouped ws' dest) :
    (gs.foldl pruneEmptyTabGroup (ws₁.restoreActiveTabIndex ws.activePaneGroup)).WellFormed flags ∧
      ws.Regrouped (gs.foldl pruneEmptyTabGroup (ws₁.restoreActiveTabIndex ws.activePaneGroup))
        dest := by
  obtain ⟨htabs, hgroups⟩ := @restoreActiveTabIndex_frame _ _ _ ws₁ ws.activePaneGroup
  obtain ⟨hwf, htabs', hactive'⟩ := @Grouped.prune _ _ _ flags _ gs (h₁.restore ws.activePaneGroup) (by
    rw [htabs, hgroups]
    exact hgs)
  refine ⟨hwf, hregrouped _ (htabs'.trans htabs) ?_⟩
  rw [activePaneGroup, htabs', hactive']
  exact activePaneGroup_restore hperm hindex

omit [DecidableEq G] in
theorem paneGroup_regroup {mark : TabData P G → TabData P G}
    (hmark : ∀ tab, (mark tab).paneGroup = tab.paneGroup) (tab : TabData P G) :
    (ws.regroup mark tab).paneGroup = tab.paneGroup := by
  rw [regroup]
  split
  · exact hmark tab
  · rfl

omit [DecidableEq P] [DecidableEq G] in
/-- The tabs that are not moved are still there. -/
theorem mem_spliced {tabs block : List (TabData P G)} {moved : TabData P G → Bool} {n : ℕ}
    {tab : TabData P G} (htab : tab ∈ tabs) (hm : moved tab = false) :
    tab ∈ (tabs.filter fun tab => !moved tab).take n ++ block ++
      (tabs.filter fun tab => !moved tab).drop n := by
  have hmem : tab ∈ (tabs.filter fun tab => !moved tab).take n ++
      (tabs.filter fun tab => !moved tab).drop n := by
    rw [List.take_append_drop]
    exact List.mem_filter.mpr ⟨htab, by simp [hm]⟩
  rcases List.mem_append.mp hmem with hmem | hmem
  · exact List.mem_append_left _ (List.mem_append_left _ hmem)
  · exact List.mem_append_right _ hmem

/-! ## A new group -/

/-- **`new_tab_group_from_selected_tabs`** makes a group of the selected tabs. -/
theorem newTabGroup_regroups (h : ws.WellFormed flags) {groupId : G}
    (hflag : flags.groupedTabs = true) (htwo : 2 ≤ ws.selectedTabs.length)
    (hfresh : ∀ tab ∈ ws.tabs, ¬ InGroup groupId tab) :
    ∃ ws', ws.newTabGroupFromSelectedTabs flags groupId = .ok ws' ∧ ws'.WellFormed flags ∧
      ws.Regrouped ws' (some groupId) := by
  have hne : ws.tabs.filter ws.isSelected ≠ [] := List.ne_nil_of_length_pos (by
    rw [selectedTabs] at htwo
    omega)
  obtain ⟨A, x, B, hl, hA, hx⟩ := exists_first hne
  have hindices : ws.selectedTabIndices = indicesFrom ws.isSelected ws.tabs 0 :=
    selectedTabIndices_eq h.distinct
  have hlen : ¬ (indicesFrom ws.isSelected ws.tabs 0).length < 2 := by
    rw [length_indicesFrom]
    exact not_lt.mpr htwo
  have hanchor : index (indicesFrom ws.isSelected ws.tabs 0) 0 = .ok A.length := by
    rw [hl, indicesFrom_append, indicesFrom_eq_nil hA, List.nil_append, indicesFrom_cons, if_pos hx,
      Nat.zero_add]
    rfl
  have hx' : index ws.tabs A.length = .ok x := index_ok (by rw [hl]; simp)
  have hmoved : ∀ tab ∈ ws.tabs, ws.isSelected tab = true ↔
      ws.isSelected tab = true ∨ ∃ g, some groupId = some g ∧ InGroup g tab := by
    intro tab htab
    refine ⟨Or.inl, fun hor => hor.resolve_right ?_⟩
    rintro ⟨g, hg, hin⟩
    obtain rfl := Option.some.inj hg
    exact hfresh tab htab hin
  rw [newTabGroupFromSelectedTabs, hflag, hindices]
  simp only [Bool.not_true, Bool.false_eq_true, if_false, if_neg hlen, previousGroupIds_eq, ok_bind,
    hanchor, hx', modifyEach_indicesFrom]
  have hpart : (ws.tabs.map fun tab => if ws.isSelected tab = true then (⟨tab.paneGroup, some groupId,
      false, false⟩ : TabData P G) else tab).partition (fun tab => tab.groupId = some groupId) =
      ((ws.tabs.filter ws.isSelected).map (ws.regroup (joining groupId)),
        ws.tabs.filter fun tab => !ws.isSelected tab) := by
    refine partition_regrouped (fun tab htab => ?_) fun tab _ hsel => hsel
    rw [regroup]
    split
    · rename_i hsel
      rw [hsel, decide_eq_true rfl]
    · rename_i hsel
      rw [Bool.eq_false_iff.mpr hsel]
      exact decide_eq_false (hfresh tab htab)
  simp only [hpart]
  have hothers : (ws.tabs.filter fun tab => !ws.isSelected tab) =
      A ++ B.filter fun tab => !ws.isSelected tab := by
    rw [hl, List.filter_append, List.filter_eq_self.mpr fun tab htab => by simp [hA tab htab],
      List.filter_cons_of_neg (by simp [hx])]
  have hcontiguous : ∀ g, Contiguous (InGroup g) (ws.tabs.filter fun tab => !ws.isSelected tab) :=
    fun g => (h.contiguous g).sublist List.filter_sublist
  -- the block goes behind the rest of the first selected tab's group, or where that tab has been
  have hcut : Cut (ws.tabs.filter fun tab => !ws.isSelected tab) ((x.groupId.bind fun prevGroupId =>
      (rposition (fun tab => tab.groupId = some prevGroupId)
        (ws.tabs.filter fun tab => !ws.isSelected tab)).map (· + 1)).getD A.length) := by
    cases hlast : x.groupId.bind fun prevGroupId =>
      (rposition (fun tab => decide (tab.groupId = some prevGroupId))
        (ws.tabs.filter fun tab => !ws.isSelected tab)).map (· + 1) with
    | some n =>
      obtain ⟨prevGroupId, -, hn⟩ := Option.bind_eq_some_iff.mp hlast
      obtain ⟨last, hposition, rfl⟩ := Option.map_eq_some_iff.mp hn
      exact cut_after_last hcontiguous hposition
    | none =>
      rw [Option.getD_none, hothers]
      refine @cut_of_splits _ _ _ B _ x ?_ List.filter_sublist fun g hin => Or.inl ?_
      · rw [← hl]
        exact h.contiguous
      · rw [show x.groupId = some g from hin, Option.bind_some, Option.map_eq_none_iff] at hlast
        refine fun tab htab hin' => rposition_none hlast tab ?_ (decide_eq_true hin')
        rw [hothers]
        exact List.mem_append_left _ htab
  have hgroups : ∀ tab ∈ ws.tabs, ws.isSelected tab = false →
      isTabEffectivelyPinned flags (ws.tabGroups.insert groupId .new) tab =
        isTabEffectivelyPinned flags ws.tabGroups tab := by
    intro tab htab _
    refine effectivelyPinned_congr fun g hin => ?_
    rw [HashMap.get_insert, if_neg]
    rintro rfl
    exact hfresh tab htab hin
  have hothers' : ∀ tab ∈ ws.tabs.filter fun tab => !ws.isSelected tab,
      tab ∈ ws.tabs ∧ ws.isSelected tab = false :=
    fun tab htab => (List.mem_filter.mp htab).imp_right fun hsel => by simpa using hsel
  obtain ⟨hclamp, hdrop⟩ := @Cut.clamp _ _ _ flags (ws.tabGroups.insert groupId .new) _ _ hcut
    (fun tab htab => h.notPinned tab (hothers' tab htab).1)
    ((h.pinnedFirst.sublist List.filter_sublist).congr fun tab htab => by
      rw [hgroups tab (hothers' tab htab).1 (hothers' tab htab).2])
  generalize @clampToUnpinnedRegion P G _ flags _ _ _ = n at hclamp hdrop ⊢
  rw [splice_ok hclamp.1, ok_bind]
  have hpane := @paneGroup_regroup P G _ ws (joining groupId) fun _ => rfl
  have hblock : ∀ tab ∈ ws.tabs, ws.isSelected tab = true →
      (ws.regroup (joining groupId) tab).groupId =
        some groupId ∧
      (ws.regroup (joining groupId) tab).pinned = false := by
    intro tab _ hsel
    rw [regroup, if_pos hsel]
    exact ⟨rfl, rfl⟩
  refine ⟨_, rfl, Regrouped.finish ?_ rfl (perm_spliced hpane ws.tabs n) ?_ fun ws' htabs hactive =>
    Regrouped.of_spliced h.distinct hmoved hpane (fun tab htab hm => (hblock tab htab hm).1) htabs
      hactive⟩
  · refine h.toGrouped.spliced hmoved hpane hblock hclamp hgroups (Or.inl ⟨?_, hdrop⟩) _
    intro tab htab
    obtain ⟨tab', htab', rfl⟩ := List.mem_map.mp htab
    obtain ⟨hmem, hsel⟩ := List.mem_filter.mp htab'
    obtain ⟨hg, hp⟩ := hblock tab' hmem hsel
    rw [effectivelyPinned_of_inGroup hg hp, HashMap.get_insert, if_pos rfl]
    simp [TabGroup.new]
  · intro g hg
    by_cases he : g = groupId
    · subst he
      refine Or.inr ⟨ws.regroup (joining g) x, ?_, ?_⟩
      · have hmem : x ∈ ws.tabs := by rw [hl]; simp
        exact List.mem_append_left _ (List.mem_append_right _
          (List.mem_map_of_mem (List.mem_filter.mpr ⟨hmem, hx⟩)))
      · rw [regroup, if_pos hx]
        rfl
    · rw [HashMap.get_insert, if_neg he] at hg
      obtain ⟨tab, htab, hin⟩ := h.populated g hg
      exact mem_leftGroups htab hin fun hsel => mem_spliced htab hsel

/-! ## Another group -/

/-- The tabs of the group and those that join it. -/
def isMovedTo (ws : Workspace P G) (groupId : G) (tab : TabData P G) : Bool :=
  ws.isSelected tab || tab.groupId = some groupId

theorem isMovedTo_iff {groupId : G} (tab : TabData P G) : ws.isMovedTo groupId tab = true ↔
    ws.isSelected tab = true ∨ ∃ g, some groupId = some g ∧ InGroup g tab := by
  rw [isMovedTo, Bool.or_eq_true, decide_eq_true_iff]
  refine or_congr_right ⟨fun hin => ⟨groupId, rfl, hin⟩, ?_⟩
  rintro ⟨g, hg, hin⟩
  exact hg ▸ hin

/-- The tabs of the group are all in it after the loop, and not pinned themselves. -/
theorem regroup_joining {groupId : G} (h : ws.Grouped flags) {tab : TabData P G}
    (htab : tab ∈ ws.tabs) (hm : ws.isMovedTo groupId tab = true) :
    (ws.regroup (joining groupId) tab).groupId = some groupId ∧
      (ws.regroup (joining groupId) tab).pinned = false := by
  rw [regroup]
  split
  · exact ⟨rfl, rfl⟩
  · rename_i hsel
    have hin : tab.groupId = some groupId := by
      simpa [isMovedTo, Bool.eq_false_iff.mpr hsel] using hm
    exact ⟨hin, h.notPinned tab htab (by rw [hin]; exact Option.some_ne_none _)⟩

/-- The rest of the tabs, parted at the first tab of the group. -/
theorem filter_not_isMovedTo {groupId : G} {A B : List (TabData P G)} {x : TabData P G}
    (hA : ∀ y ∈ A, decide (y.groupId = some groupId) = false)
    (hx : decide (x.groupId = some groupId) = true) :
    ((A ++ x :: B).filter fun tab => !ws.isMovedTo groupId tab) =
      (A.filter fun tab => !ws.isSelected tab) ++ B.filter fun tab => !ws.isMovedTo groupId tab := by
  rw [List.filter_append, List.filter_cons_of_neg (by simp [isMovedTo, hx])]
  refine congrArg (· ++ _) (List.filter_congr fun tab htab => ?_)
  rw [isMovedTo, hA tab htab, Bool.or_false]

/-- **`move_selected_tabs_to_group`** puts the selected tabs into a group. -/
theorem moveSelectedTabs_regroups (h : ws.WellFormed flags) {groupId : G}
    (hflag : flags.groupedTabs = true) (htwo : 2 ≤ ws.selectedTabs.length)
    (hexists : (ws.tabGroups.get groupId).isSome) :
    ∃ ws', ws.moveSelectedTabsToGroup flags groupId = .ok ws' ∧ ws'.WellFormed flags ∧
      ws.Regrouped ws' (some groupId) := by
  have hindices : ws.selectedTabIndices = indicesFrom ws.isSelected ws.tabs 0 :=
    selectedTabIndices_eq h.distinct
  have hlen : ¬ (indicesFrom ws.isSelected ws.tabs 0).length < 2 := by
    rw [length_indicesFrom]
    exact not_lt.mpr htwo
  -- the first tab of the group
  obtain ⟨member, hmember, hin⟩ := h.populated groupId hexists
  obtain ⟨A, x, B, hl, hA, hx⟩ :=
    @exists_first _ (fun tab : TabData P G => decide (tab.groupId = some groupId)) ws.tabs
      (List.ne_nil_of_mem (List.mem_filter.mpr ⟨hmember, decide_eq_true hin⟩))
  have hxin : InGroup groupId x := of_decide_eq_true hx
  have hmem : x ∈ ws.tabs := by rw [hl]; simp
  have hfirst : ws.tabs.findIdx? (fun tab => tab.groupId = some groupId) = some A.length := by
    rw [hl]
    exact findIdx?_append hA hx
  have hcount : checkedSub A.length ((indicesFrom ws.isSelected ws.tabs 0).filter
      fun i => i < A.length).length = .ok (A.filter fun tab => !ws.isSelected tab).length := by
    have hparts := @List.length_eq_length_filter_add _ A ws.isSelected
    rw [hl, filter_lt_indicesFrom, length_indicesFrom, checkedSub_ok (by omega)]
    exact congrArg _ (by omega)
  have hpart : (ws.tabs.map fun tab => if ws.isSelected tab = true then (⟨tab.paneGroup, some groupId,
      false, false⟩ : TabData P G) else tab).partition (fun tab => tab.groupId = some groupId) =
      ((ws.tabs.filter (ws.isMovedTo groupId)).map (ws.regroup (joining groupId)),
        ws.tabs.filter fun tab => !ws.isMovedTo groupId tab) := by
    refine partition_regrouped (fun tab _ => ?_) fun tab _ hsel => by
      rw [isMovedTo, hsel, Bool.true_or]
    rw [regroup, isMovedTo]
    split
    · rename_i hsel
      rw [hsel, Bool.true_or]
      exact decide_eq_true rfl
    · rename_i hsel
      rw [Bool.eq_false_iff.mpr hsel, Bool.false_or]
  have hothers : (ws.tabs.filter fun tab => !ws.isMovedTo groupId tab) =
      (A.filter fun tab => !ws.isSelected tab) ++
        B.filter fun tab => !ws.isMovedTo groupId tab := by
    rw [hl, filter_not_isMovedTo hA hx]
  have hcut : Cut (ws.tabs.filter fun tab => !ws.isMovedTo groupId tab)
      (A.filter fun tab => !ws.isSelected tab).length := by
    rw [hothers]
    refine @cut_of_splits _ _ _ B _ x (fun g => ?_) List.filter_sublist fun g hin =>
      Or.inl fun tab htab hin' => ?_
    · refine (h.contiguous g).sublist ?_
      rw [hl]
      exact List.Sublist.append List.filter_sublist (List.Sublist.refl _)
    · rw [← Option.some.inj (hxin.symm.trans hin)] at hin'
      exact of_decide_eq_false (hA tab (List.mem_of_mem_filter htab)) hin'
  have hpane := @paneGroup_regroup P G _ ws (joining groupId) fun _ => rfl
  -- the block is pinned exactly when the tab that it is put in at has been
  have hpinned : ∀ tab ∈ (ws.tabs.filter (ws.isMovedTo groupId)).map (ws.regroup (joining groupId)),
      isTabEffectivelyPinned flags ws.tabGroups tab = isTabEffectivelyPinned flags ws.tabGroups x := by
    intro tab htab
    obtain ⟨tab', htab', rfl⟩ := List.mem_map.mp htab
    obtain ⟨hmem', hm⟩ := List.mem_filter.mp htab'
    obtain ⟨hg, hp⟩ := regroup_joining h.toGrouped hmem' hm
    rw [effectivelyPinned_of_inGroup hg hp, effectivelyPinned_of_inGroup hxin]
    exact h.notPinned x hmem (by rw [show x.groupId = some groupId from hxin]; exact Option.some_ne_none _)
  have hbar : Leading (fun tab => isTabEffectivelyPinned flags ws.tabGroups tab = true)
      (A ++ x :: B) := hl ▸ h.pinnedFirst
  have hgrouped := fun activeTabIndex => h.toGrouped.spliced (fun tab _ => isMovedTo_iff tab) hpane
    (fun tab htab => regroup_joining h.toGrouped htab) hcut (fun _ _ _ => rfl) (by
      by_cases hx : isTabEffectivelyPinned flags ws.tabGroups x = true
      · refine Or.inr ⟨fun tab htab => (hpinned tab htab).trans hx, fun tab htab => ?_⟩
        rw [hothers, List.take_left] at htab
        exact hbar.before hx tab (List.mem_of_mem_filter htab)
      · refine Or.inl ⟨fun tab htab => by rwa [hpinned tab htab], fun tab htab => ?_⟩
        rw [hothers, List.drop_left] at htab
        exact hbar.after hx tab (List.mem_of_mem_filter htab)) activeTabIndex
  have hcomm : ∀ ws₁ : Workspace P G, (ws₁.restoreActiveTabIndex ws.activePaneGroup).expandTabGroup
      groupId = (ws₁.expandTabGroup groupId).restoreActiveTabIndex ws.activePaneGroup := by
    intro ws₁
    cases ws.activePaneGroup with
    | none => rfl
    | some activeId =>
      simp only [restoreActiveTabIndex, expandTabGroup]
      cases ws₁.tabs.findIdx? fun tab => tab.paneGroup = activeId <;> rfl
  rw [moveSelectedTabsToGroup, hflag, hindices, hexists]
  simp only [Bool.not_true, Bool.or_self, Bool.false_eq_true, if_false, if_neg hlen,
    previousGroupIds_eq, ok_bind, hfirst, hcount, modifyEach_indicesFrom, hpart,
    splice_ok hcut.1, hcomm]
  refine ⟨_, rfl, Regrouped.finish ((hgrouped _).expand groupId) rfl (perm_spliced hpane ws.tabs _) ?_
    fun ws' htabs hactive => Regrouped.of_spliced h.distinct (fun tab _ => isMovedTo_iff tab) hpane
      (fun tab htab hm => (regroup_joining h.toGrouped htab hm).1) htabs hactive⟩
  intro g hg
  have hg' : (ws.tabGroups.get g).isSome := by
    rw [expandTabGroup, HashMap.get_modify] at hg
    split at hg
    · rwa [Option.isSome_map] at hg
    · exact hg
  by_cases he : g = groupId
  · subst he
    have hm : ws.isMovedTo g x = true := (isMovedTo_iff x).mpr (Or.inr ⟨g, rfl, hxin⟩)
    refine Or.inr ⟨ws.regroup (joining g) x, ?_, (regroup_joining h.toGrouped hmem hm).1⟩
    exact List.mem_append_left _ (List.mem_append_right _
      (List.mem_map_of_mem (List.mem_filter.mpr ⟨hmem, hm⟩)))
  · obtain ⟨tab, htab, hin⟩ := h.populated g hg'
    refine (mem_leftGroups htab hin fun hsel => mem_spliced htab ?_).imp_left fun hmem => ?_
    · rw [isMovedTo, hsel, Bool.false_or]
      exact decide_eq_false fun hin' => he (Option.some.inj (hin.symm.trans hin'))
    · exact List.mem_filter.mpr ⟨hmem, decide_eq_true he⟩

/-! ## No group -/

omit [DecidableEq P] [DecidableEq G] in
theorem indicesFrom_map {s : TabData P G → Bool} {f : TabData P G → TabData P G}
    {l : List (TabData P G)} (h : ∀ tab ∈ l, s (f tab) = s tab) (k : ℕ) :
    indicesFrom s (l.map f) k = indicesFrom s l k := by
  induction l generalizing k with
  | nil => rfl
  | cons tab l ih =>
    rw [List.map_cons, indicesFrom_cons, indicesFrom_cons, h tab List.mem_cons_self,
      ih fun tab' htab' => h tab' (List.mem_cons_of_mem _ htab')]

/-- **The selection shares a group** when all selected tabs, and at least one, are in it. -/
theorem selectionSharedGroup_eq_some (hdistinct : (ws.tabs.map fun tab => tab.paneGroup).Nodup)
    {g : G} : ws.selectionSharedGroup = some g ↔
      ws.selectedTabs ≠ [] ∧ ∀ tab ∈ ws.selectedTabs, InGroup g tab := by
  rw [selectionSharedGroup, selectedTabIndices_eq hdistinct, filterMap_indicesFrom, ← selectedTabs]
  cases hsel : ws.selectedTabs with
  | nil => simp
  | cons tab tabs =>
    rw [List.map_cons]
    cases hg : tab.groupId with
    | none =>
      refine iff_of_false (fun h => by cases h) fun h => ?_
      cases hg.symm.trans (h.2 tab List.mem_cons_self)
    | some first =>
      simp only [List.all_map, List.mem_cons, forall_eq_or_imp, ne_eq, reduceCtorEq,
        not_false_eq_true, true_and]
      rw [show InGroup g tab ↔ first = g by rw [InGroup, hg, Option.some_inj]]
      split
      · rename_i hall
        rw [List.all_eq_true] at hall
        rw [Option.some_inj]
        refine ⟨fun he => ⟨he, fun tab' htab' => ?_⟩, And.left⟩
        exact he ▸ of_decide_eq_true (hall tab' htab')
      · rename_i hall
        refine iff_of_false (fun h => by cases h) fun h => hall (List.all_eq_true.mpr ?_)
        intro tab' htab'
        exact decide_eq_true (h.1 ▸ h.2 tab' htab')

omit [DecidableEq P] [DecidableEq G] in
theorem activePaneGroup_clear : ws.clearTabMultiSelection.activePaneGroup = ws.activePaneGroup := by
  rw [activePaneGroup, activePaneGroup, clearTabMultiSelection, List.getElem?_map, Option.map_map]
  rfl

theorem Regrouped.congr {ws' ws'' : Workspace P G} {dest : Option G} (h : ws.Regrouped ws' dest)
    (htabs : ws''.tabs = ws'.tabs) (hactive : ws''.activePaneGroup = ws'.activePaneGroup) :
    ws.Regrouped ws'' dest where
  tabs := htabs ▸ h.tabs
  order := htabs ▸ h.order
  membership := htabs ▸ h.membership
  active := hactive.trans h.active

/-- Whether a tab is marked as selected does not matter any more. -/
theorem Regrouped.clear {ws' : Workspace P G} {dest : Option G} (h : ws.Regrouped ws' dest) :
    ws.Regrouped ws'.clearTabMultiSelection dest where
  tabs := by
    rw [clearTabMultiSelection, List.map_map]
    exact h.tabs
  order := by
    rw [clearTabMultiSelection, List.filter_map, List.map_map]
    exact h.order
  membership tab htab tab' htab' he := by
    obtain ⟨u, hu, rfl⟩ := List.mem_map.mp htab'
    exact h.membership tab htab u hu he
  active := activePaneGroup_clear.trans h.active

omit [DecidableEq G] in
/-- Parting the tabs by the selected indices, after the selected ones have left their group. -/
theorem partition_leaving :
    ((((ws.tabs.map (ws.regroup leaving)).zipIdx.partition fun e =>
        (indicesFrom ws.isSelected ws.tabs 0).contains e.2).1.map Prod.fst),
      ((ws.tabs.map (ws.regroup leaving)).zipIdx.partition fun e =>
        (indicesFrom ws.isSelected ws.tabs 0).contains e.2).2.map Prod.fst) =
    ((ws.tabs.filter ws.isSelected).map (ws.regroup leaving),
      ws.tabs.filter fun tab => !ws.isSelected tab) := by
  have hselected : ∀ tab : TabData P G, ws.isSelected (ws.regroup leaving tab) = ws.isSelected tab := by
    intro tab
    rw [regroup]
    split <;> rfl
  have hpart := @partition_indicesFrom _ ws.isSelected (ws.tabs.map (ws.regroup leaving))
  rw [indicesFrom_map fun tab _ => hselected tab] at hpart
  refine hpart.trans (List.partition_eq_filter_filter.symm.trans ?_)
  exact partition_regrouped (fun tab _ => hselected tab) fun _ _ hs => hs

omit [DecidableEq P] in
/-- The place after the last tab of a group, or where there is none. -/
theorem cut_rposition {groupId : G} {tabs : List (TabData P G)} {n : ℕ}
    (hcontiguous : ∀ g, Contiguous (InGroup g) tabs)
    (hnone : rposition (fun tab => tab.groupId = some groupId) tabs = none → Cut tabs n) :
    Cut tabs (match rposition (fun tab => tab.groupId = some groupId) tabs with
      | some last => last + 1
      | none => n) := by
  cases hlast : rposition (fun tab => decide (tab.groupId = some groupId)) tabs with
  | some last => exact cut_after_last hcontiguous hlast
  | none => exact hnone hlast

/-- **`remove_selected_tabs_from_group`** takes the selected tabs out of their group. -/
theorem removeSelectedTabs_regroups (h : ws.WellFormed flags) {groupId : G}
    (hflag : flags.groupedTabs = true) (hne : ws.selectedTabs ≠ [])
    (hshared : ∀ tab ∈ ws.selectedTabs, InGroup groupId tab) :
    ∃ ws', ws.removeSelectedTabsFromGroup flags = .ok ws' ∧ ws'.WellFormed flags ∧
      ws.Regrouped ws' none := by
  have hindices : ws.selectedTabIndices = indicesFrom ws.isSelected ws.tabs 0 :=
    selectedTabIndices_eq h.distinct
  have hgroup := (selectionSharedGroup_eq_some h.distinct).mpr ⟨hne, hshared⟩
  have hsel : ∀ tab ∈ ws.tabs, ws.isSelected tab = true → InGroup groupId tab := fun tab htab hs =>
    hshared tab (List.mem_filter.mpr ⟨htab, hs⟩)
  -- the first tab of the group
  obtain ⟨member, hmember⟩ := List.exists_mem_of_ne_nil _ hne
  obtain ⟨A, x, B, hl, hA, hx⟩ :=
    @exists_first _ (fun tab : TabData P G => decide (tab.groupId = some groupId)) ws.tabs
      (List.ne_nil_of_mem (List.mem_filter.mpr ⟨List.mem_of_mem_filter hmember,
        decide_eq_true (hshared member hmember)⟩))
  have hfirst : ws.tabs.findIdx? (fun tab => tab.groupId = some groupId) = some A.length := by
    rw [hl]
    exact findIdx?_append hA hx
  have hA' : ∀ tab ∈ A, ws.isSelected tab = false := fun tab htab => by
    rw [Bool.eq_false_iff]
    exact fun hs => of_decide_eq_false (hA tab htab) (hsel tab (by rw [hl]; simp [htab]) hs)
  have hcount : checkedSub A.length ((indicesFrom ws.isSelected ws.tabs 0).filter
      fun i => i < A.length).length = .ok A.length := by
    rw [hl, filter_lt_indicesFrom, indicesFrom_eq_nil hA']
    exact checkedSub_ok (Nat.zero_le _)
  have hmark : (ws.tabs.map fun tab => if ws.isSelected tab = true then (⟨tab.paneGroup, none,
      tab.inMultiSelection, tab.pinned⟩ : TabData P G) else tab) = ws.tabs.map (ws.regroup leaving) :=
    rfl
  obtain ⟨hremoved, hrest⟩ := Prod.mk.inj (@partition_leaving _ _ _ ws)
  have hothers : (ws.tabs.filter fun tab => !ws.isSelected tab) =
      A ++ (x :: B).filter fun tab => !ws.isSelected tab := by
    rw [hl, List.filter_append, List.filter_eq_self.mpr fun tab htab => by simp [hA' tab htab]]
  have hcontiguous : ∀ g, Contiguous (InGroup g) (ws.tabs.filter fun tab => !ws.isSelected tab) :=
    fun g => (h.contiguous g).sublist List.filter_sublist
  -- the block goes behind the rest of the group, or where the group has been
  have hcut := @cut_rposition _ _ _ groupId _ A.length hcontiguous fun hlast => by
    have hgone := rposition_none hlast
    have hxsel : ws.isSelected x = true := by
      by_contra hs
      refine hgone x ?_ hx
      rw [hothers]
      exact List.mem_append_right _ (List.mem_filter.mpr ⟨List.mem_cons_self, by simp [hs]⟩)
    rw [List.filter_cons_of_neg (by simp [hxsel])] at hothers
    rw [hothers]
    refine @cut_of_splits _ _ _ B _ x ?_ List.filter_sublist fun g hin => Or.inl ?_
    · rw [← hl]
      exact h.contiguous
    · intro tab htab hin'
      rw [← Option.some.inj ((of_decide_eq_true hx).symm.trans hin)] at hin'
      exact of_decide_eq_false (hA tab htab) hin'
  have hothers' : ∀ tab ∈ ws.tabs.filter fun tab => !ws.isSelected tab,
      tab ∈ ws.tabs ∧ ws.isSelected tab = false :=
    fun tab htab => (List.mem_filter.mp htab).imp_right fun hs => by simpa using hs
  rw [removeSelectedTabsFromGroup, hflag, hgroup, hindices]
  simp only [Bool.not_true, Bool.false_eq_true, if_false, modifyEach_indicesFrom, ok_bind, hfirst,
    Option.getD_some, hcount, hmark, hremoved, hrest]
  obtain ⟨hclamp, hdrop⟩ := @Cut.clamp _ _ _ flags ws.tabGroups _ _ hcut
    (fun tab htab => h.notPinned tab (hothers' tab htab).1)
    (h.pinnedFirst.sublist List.filter_sublist)
  generalize @clampToUnpinnedRegion P G _ flags _ _ _ = n at hclamp hdrop ⊢
  rw [splice_ok hclamp.1, ok_bind]
  have hmoved : ∀ tab ∈ ws.tabs, ws.isSelected tab = true ↔
      ws.isSelected tab = true ∨ ∃ g, none = some g ∧ InGroup g tab := by
    intro tab _
    simp
  have hpane := @paneGroup_regroup P G _ ws leaving fun _ => rfl
  have hblock : ∀ tab ∈ ws.tabs, ws.isSelected tab = true →
      (ws.regroup leaving tab).groupId = none ∧ (ws.regroup leaving tab).pinned = false := by
    intro tab htab hs
    rw [regroup, if_pos hs]
    refine ⟨rfl, h.notPinned tab htab ?_⟩
    rw [show tab.groupId = some groupId from hsel tab htab hs]
    exact Option.some_ne_none _
  have hgrouped := h.toGrouped.spliced hmoved hpane hblock hclamp (fun _ _ _ => rfl)
    (Or.inl ⟨fun tab htab => ?_, hdrop⟩) ws.activeTabIndex
  · refine ⟨_, rfl, @Regrouped.finish P G _ _ flags ws _ none [groupId] hgrouped.clear rfl ?_ ?_ ?_⟩
    · rw [clearTabMultiSelection, List.map_map]
      exact perm_spliced hpane ws.tabs n
    · intro g hg
      obtain ⟨tab, htab, hin⟩ := h.populated g hg
      cases hs : ws.isSelected tab with
      | true =>
        have he : g = groupId := Option.some.inj (hin.symm.trans (hsel tab htab hs))
        exact Or.inl (List.mem_singleton.mpr he)
      | false => exact Or.inr ⟨_, List.mem_map_of_mem (mem_spliced htab hs), hin⟩
    · intro ws' htabs hactive
      -- before the flags are cleared
      have hspliced := @Regrouped.of_spliced _ _ _ _ _ h.distinct _ _ _ n hmoved hpane
        (fun tab htab hm => (hblock tab htab hm).1)
        { ws' with tabs := (ws.tabs.filter fun tab => !ws.isSelected tab).take n ++
          (ws.tabs.filter ws.isSelected).map (ws.regroup leaving) ++
          (ws.tabs.filter fun tab => !ws.isSelected tab).drop n } rfl (by
        rw [← hactive, ← activePaneGroup_clear, activePaneGroup, activePaneGroup, htabs]
        rfl)
      exact hspliced.clear.congr htabs (by rw [hactive, hspliced.clear.active])
  · obtain ⟨tab', htab', rfl⟩ := List.mem_map.mp htab
    obtain ⟨hmem, hs⟩ := List.mem_filter.mp htab'
    obtain ⟨hg, hp⟩ := hblock tab' hmem hs
    rw [isTabEffectivelyPinned, hg, hp]
    simp

/-! ## Every call -/

omit [DecidableEq P] in
theorem WellFormed.clear (h : ws.WellFormed flags) :
    ws.clearTabMultiSelection.WellFormed flags :=
  { h.toGrouped.clear with
    populated := fun g hg => by
      obtain ⟨tab, htab, hin⟩ := h.populated g hg
      exact ⟨_, List.mem_map_of_mem htab, hin⟩ }

theorem newTabGroup_unchanged (h : ws.WellFormed flags) (groupId : G)
    (hnot : ¬ (flags.groupedTabs = true ∧ 2 ≤ ws.selectedTabs.length)) :
    ws.newTabGroupFromSelectedTabs flags groupId = .ok ws := by
  rw [newTabGroupFromSelectedTabs, selectedTabIndices_eq h.distinct]
  cases hflag : flags.groupedTabs with
  | false => rfl
  | true =>
    refine (if_neg (by decide)).trans (if_pos ?_)
    rw [length_indicesFrom]
    exact not_le.mp fun htwo => hnot ⟨hflag, htwo⟩

theorem moveSelectedTabs_unchanged (h : ws.WellFormed flags) {groupId : G}
    (hnot : ¬ (flags.groupedTabs = true ∧ 2 ≤ ws.selectedTabs.length)) :
    ws.moveSelectedTabsToGroup flags groupId = .ok ws := by
  rw [moveSelectedTabsToGroup, selectedTabIndices_eq h.distinct]
  cases hflag : flags.groupedTabs with
  | false => rfl
  | true =>
    split
    · rfl
    · refine if_pos ?_
      rw [length_indicesFrom]
      exact not_le.mp fun htwo => hnot ⟨hflag, htwo⟩

theorem removeSelectedTabs_unchanged (h : ws.WellFormed flags)
    (hnot : ¬ ∃ g, ws.selectedTabs ≠ [] ∧ ∀ tab ∈ ws.selectedTabs, InGroup g tab) :
    ws.removeSelectedTabsFromGroup flags =
      .ok (if flags.groupedTabs then ws.clearTabMultiSelection else ws) := by
  have hshared : ws.selectionSharedGroup = none := by
    rw [Option.eq_none_iff_forall_ne_some]
    exact fun g hg => hnot ⟨g, (selectionSharedGroup_eq_some h.distinct).mp hg⟩
  rw [removeSelectedTabsFromGroup, hshared]
  cases flags.groupedTabs <;> rfl

/-- **The menu keeps the tab bar well formed.** Making a group with a fresh id, moving to a registered
group and removing from a group return; the tab bar is well formed, has the same tabs with the same
one active, and exactly the selected tabs have changed groups. A call for fewer than two selected
tabs, or a removal of tabs that do not share a group, changes no group and no place. -/
theorem menu_keeps_wellFormed (flags : FeatureFlags) (ws : Workspace P G) (h : ws.WellFormed flags)
    (groupId : G) :
    ((∀ tab ∈ ws.tabs, ¬ InGroup groupId tab) →
      ∃ ws', ws.newTabGroupFromSelectedTabs flags groupId = .ok ws' ∧ ws'.WellFormed flags ∧
        if flags.groupedTabs = true ∧ 2 ≤ ws.selectedTabs.length then
          ws.Regrouped ws' (some groupId)
        else ws' = ws) ∧
    ((ws.tabGroups.get groupId).isSome →
      ∃ ws', ws.moveSelectedTabsToGroup flags groupId = .ok ws' ∧ ws'.WellFormed flags ∧
        if flags.groupedTabs = true ∧ 2 ≤ ws.selectedTabs.length then
          ws.Regrouped ws' (some groupId)
        else ws' = ws) ∧
    ∃ ws', ws.removeSelectedTabsFromGroup flags = .ok ws' ∧ ws'.WellFormed flags ∧
      ((flags.groupedTabs = true ∧
          ∃ g, ws.selectedTabs ≠ [] ∧ ∀ tab ∈ ws.selectedTabs, InGroup g tab) ∧
        ws.Regrouped ws' none ∨
      ¬ (flags.groupedTabs = true ∧
          ∃ g, ws.selectedTabs ≠ [] ∧ ∀ tab ∈ ws.selectedTabs, InGroup g tab) ∧
        ws' = if flags.groupedTabs then ws.clearTabMultiSelection else ws) := by
  refine ⟨fun hfresh => ?_, fun hexists => ?_, ?_⟩
  · by_cases hcall : flags.groupedTabs = true ∧ 2 ≤ ws.selectedTabs.length
    · simp only [if_pos hcall]
      exact newTabGroup_regroups h hcall.1 hcall.2 hfresh
    · simp only [if_neg hcall]
      exact ⟨ws, newTabGroup_unchanged h groupId hcall, h, rfl⟩
  · by_cases hcall : flags.groupedTabs = true ∧ 2 ≤ ws.selectedTabs.length
    · simp only [if_pos hcall]
      exact moveSelectedTabs_regroups h hcall.1 hcall.2 hexists
    · simp only [if_neg hcall]
      exact ⟨ws, moveSelectedTabs_unchanged h hcall, h, rfl⟩
  · by_cases hcall : flags.groupedTabs = true ∧
      ∃ g, ws.selectedTabs ≠ [] ∧ ∀ tab ∈ ws.selectedTabs, InGroup g tab
    · obtain ⟨hflag, g, hne, hshared⟩ := hcall
      obtain ⟨ws', hok, hwf, hregrouped⟩ := removeSelectedTabs_regroups h hflag hne hshared
      exact ⟨ws', hok, hwf, Or.inl ⟨⟨hflag, g, hne, hshared⟩, hregrouped⟩⟩
    · have hwf : (if flags.groupedTabs then ws.clearTabMultiSelection else ws).WellFormed flags := by
        split
        · exact h.clear
        · exact h
      refine ⟨_, ?_, hwf, Or.inr ⟨hcall, rfl⟩⟩
      cases hflag : flags.groupedTabs with
      | false => rw [removeSelectedTabsFromGroup, hflag]; rfl
      | true =>
        rw [removeSelectedTabs_unchanged h fun hshared => hcall ⟨hflag, hshared⟩, hflag]

/-- A group of two tabs, a third tab in a pinned group before them and a fourth one in no group; the
second and the fourth one are selected. -/
def fourTabs : Workspace ℕ ℕ where
  tabs := [⟨0, some 1, false, false⟩, ⟨1, some 2, true, false⟩, ⟨2, some 2, false, false⟩,
    ⟨3, none, true, false⟩]
  tabGroups := ((HashMap.empty.insert 1 { collapsed := false, pinned := true }).insert 2 .new)
  activeTabIndex := 3

theorem fourTabs_wellFormed : fourTabs.WellFormed ⟨true, true⟩ where
  contiguous g := by
    by_cases h₁ : g = 1
    · subst h₁
      exact ⟨[], fourTabs.tabs.take 1, fourTabs.tabs.drop 1, rfl, by simp, by decide, by decide⟩
    by_cases h₂ : g = 2
    · subst h₂
      exact ⟨fourTabs.tabs.take 1, (fourTabs.tabs.drop 1).take 2, fourTabs.tabs.drop 3, rfl,
        by decide, by decide, by decide⟩
    refine Contiguous.of_forall_not fun tab htab hin => ?_
    have hgroup : ∀ tab ∈ fourTabs.tabs, tab.groupId = some 1 ∨ tab.groupId = some 2 ∨
        tab.groupId = none := by decide
    rcases hgroup tab htab with hg | hg | hg
    · exact h₁ (Option.some.inj (hin.symm.trans hg))
    · exact h₂ (Option.some.inj (hin.symm.trans hg))
    · exact Option.some_ne_none g (hin.symm.trans hg)
  notPinned := by decide
  pinnedFirst := ⟨fourTabs.tabs.take 1, fourTabs.tabs.drop 1, rfl, by decide, by decide⟩
  distinct := by decide
  populated g hg := by
    have hgroup : g = 1 ∨ g = 2 := by
      by_contra hne
      rw [not_or] at hne
      rw [fourTabs, HashMap.get_insert, if_neg hne.2, HashMap.get_insert, if_neg hne.1] at hg
      exact nomatch hg
    rcases hgroup with rfl | rfl
    · exact ⟨_, List.mem_cons_self, rfl⟩
    · exact ⟨_, List.mem_cons_of_mem _ List.mem_cons_self, rfl⟩

/-- The second and the fourth tab of `fourTabs` in a new group, and in the pinned one. -/
theorem menu_keeps_wellFormed_fourTabs :
    (∃ ws', fourTabs.newTabGroupFromSelectedTabs ⟨true, true⟩ 3 = .ok ws' ∧
      ws'.WellFormed ⟨true, true⟩ ∧ fourTabs.Regrouped ws' (some 3)) ∧
    ∃ ws', fourTabs.moveSelectedTabsToGroup ⟨true, true⟩ 1 = .ok ws' ∧
      ws'.WellFormed ⟨true, true⟩ ∧ fourTabs.Regrouped ws' (some 1) := by
  have hcall : (⟨true, true⟩ : FeatureFlags).groupedTabs = true ∧
      2 ≤ fourTabs.selectedTabs.length := by decide
  obtain ⟨hnew, -, -⟩ := menu_keeps_wellFormed ⟨true, true⟩ fourTabs fourTabs_wellFormed 3
  obtain ⟨-, hmove, -⟩ := menu_keeps_wellFormed ⟨true, true⟩ fourTabs fourTabs_wellFormed 1
  constructor
  · obtain ⟨ws', hok, hwf, hregrouped⟩ := hnew (by decide)
    rw [if_pos hcall] at hregrouped
    exact ⟨ws', hok, hwf, hregrouped⟩
  · obtain ⟨ws', hok, hwf, hregrouped⟩ := hmove (by decide)
    rw [if_pos hcall] at hregrouped
    exact ⟨ws', hok, hwf, hregrouped⟩

/-- **A selection across groups**: no selected tab of `fourTabs` leaves its group. -/
theorem removeSelectedTabs_mixed :
    fourTabs.WellFormed ⟨true, true⟩ ∧ ∃ ws', fourTabs.removeSelectedTabsFromGroup ⟨true, true⟩ =
      .ok ws' ∧ ∃ tab ∈ fourTabs.tabs, fourTabs.isSelected tab = true ∧ tab.groupId = some 2 ∧
        ∃ tab' ∈ ws'.tabs, tab'.paneGroup = tab.paneGroup ∧ tab'.groupId = some 2 :=
  ⟨fourTabs_wellFormed, fourTabs.clearTabMultiSelection, rfl, ⟨1, some 2, true, false⟩,
    by decide, by decide, rfl, ⟨1, some 2, false, false⟩, by decide, rfl, rfl⟩

end Workspace

end Clinch
