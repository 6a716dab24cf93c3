import Clinch.FileTree.Tree

/-!
# Removals from the file tree

`remove` takes out the entry of a path, and then the entries below it through the child sets that it
takes out on its way.

* `Pending`: what is below the calls that are still to be made is reached from them;
* `Pending.removeAll`: the calls take out what is below them and nothing else;
* **`IsTree.remove`**: `remove` deletes exactly the subtree of its path.
-/

set_option autoImplicit false

namespace Clinch

namespace FileTreeMapStore

variable {store : FileTreeMapStore}

/-! ## One call -/

/-- The store after one call of `remove`, without the calls for the children. -/
def removeStep (store : FileTreeMapStore) (path : StandardizedPath) : FileTreeMapStore :=
  let store := (store.removeItemAndParent path).2
  { store with parentToChildMap := store.parentToChildMap.remove path }

theorem removeItemAndParent_fst (path : StandardizedPath) :
    (store.removeItemAndParent path).1 = store.get path := by
  rw [removeItemAndParent]
  split <;> rfl

theorem view_removeItemAndParent (path path' : StandardizedPath) :
    (store.removeItemAndParent path).2.view path' =
      if path' = path then none else store.view path' := by
  have h : (store.stateMap.remove path).get path' =
      if path' = path then none else store.view path' := by
    split
    · rename_i he
      rw [he, HashMap.get_remove_self]
    · rename_i he
      exact HashMap.get_remove_of_ne _ he
  rw [removeItemAndParent]
  split <;> exact h

/-- The parent's set loses the path, if the parent is a directory of the store. -/
theorem mem_childSet_removeItemAndParent {path path' child : StandardizedPath} :
    child ∈ (store.removeItemAndParent path).2.childSet path' ↔ child ∈ store.childSet path' ∧
      ¬ (child = path ∧ path.parent = some path' ∧ store.view.IsDirectory path') := by
  have hdir : ∀ parent, path.parent = some parent →
      (FileView.IsDirectory (view { store with stateMap := store.stateMap.remove path }) parent ↔
        store.view.IsDirectory parent) := by
    intro parent hp
    have hne : parent ≠ path := by
      rintro rfl
      exact StandardizedPath.not_suffix_parent hp (List.suffix_refl _)
    rw [FileView.IsDirectory, show view { store with stateMap := store.stateMap.remove path } parent
      = store.view parent from HashMap.get_remove_of_ne _ hne, FileView.IsDirectory]
  rw [removeItemAndParent]
  split
  · rename_i parent hp
    obtain ⟨hparent, hd⟩ := parentDirectory_eq_some.mp hp
    rw [hdir parent hparent] at hd
    rw [childSet_modifyChildren]
    split
    · rename_i he
      subst he
      rw [HashSet.mem_remove]
      exact ⟨fun h => ⟨h.2, fun hand => h.1 hand.1⟩, fun h => ⟨fun he => h.2 ⟨he, hparent, hd⟩, h.1⟩⟩
    · rename_i hne
      refine (and_iff_left ?_).symm
      rintro ⟨-, hparent', -⟩
      exact hne (Option.some.inj (hparent'.symm.trans hparent))
  · rename_i hp
    refine (and_iff_left ?_).symm
    rintro ⟨-, hparent, hd⟩
    exact parentDirectory_eq_none.mp hp ⟨path', hparent, (hdir _ hparent).mpr hd⟩

theorem view_removeStep (path path' : StandardizedPath) :
    (store.removeStep path).view path' = if path' = path then none else store.view path' :=
  view_removeItemAndParent path path'

theorem mem_childSet_removeStep {path path' child : StandardizedPath} :
    child ∈ (store.removeStep path).childSet path' ↔ path' ≠ path ∧
      child ∈ store.childSet path' ∧
      ¬ (child = path ∧ path.parent = some path' ∧ store.view.IsDirectory path') := by
  rw [← mem_childSet_removeItemAndParent]
  by_cases h : path' = path
  · subst h
    rw [childSet, removeStep, HashMap.get_remove_self]
    simp
  · rw [childSet, removeStep, HashMap.get_remove_of_ne _ h]
    exact (and_iff_right h).symm

/-- A path's own set is not that of its parent. -/
theorem mem_childSet_self {path child : StandardizedPath} :
    child ∈ (store.removeItemAndParent path).2.childSet path ↔ child ∈ store.childSet path := by
  rw [mem_childSet_removeItemAndParent]
  refine and_iff_left ?_
  rintro ⟨-, hp, -⟩
  exact StandardizedPath.not_suffix_parent hp (List.suffix_refl _)

theorem removeAll_cons (fuel : ℕ) (path : StandardizedPath) (paths : List StandardizedPath) :
    removeAll (fuel + 1) store (path :: paths) = removeAll fuel (store.removeStep path)
      (((store.removeItemAndParent path).2.childSet path).elements ++ paths) := rfl

/-- A call takes as many children out of the sets as it makes calls. -/
theorem childCount_removeStep (path : StandardizedPath) :
    (store.removeStep path).childCount +
      ((store.removeItemAndParent path).2.childSet path).elements.length ≤ store.childCount := by
  have hstep : (store.removeStep path).childCount +
      ((store.removeItemAndParent path).2.childSet path).elements.length =
        (store.removeItemAndParent path).2.childCount := by
    rw [childCount, childCount, removeStep, childSet]
    rw [← HashMap.sum_remove (store.removeItemAndParent path).2.parentToChildMap _ path]
    cases (store.removeItemAndParent path).2.parentToChildMap.get path <;> rfl
  rw [hstep, removeItemAndParent]
  split
  · rename_i parent _
    rw [childCount, childCount, modifyChildren, HashMap.sum_insert,
      ← HashMap.sum_remove store.parentToChildMap _ parent]
    refine Nat.add_le_add_left ?_ _
    rw [childSet]
    cases store.parentToChildMap.get parent with
    | none => rfl
    | some children => exact children.length_remove_le path
  · exact le_rfl

/-! ## All calls -/

/-- A path is at or below one of the calls. -/
def Below (paths : List StandardizedPath) (path : StandardizedPath) : Prop :=
  ∃ root ∈ paths, root <:+ path

/-- **The calls that are still to be made reach what is below them.** -/
structure Pending (store : FileTreeMapStore) (paths : List StandardizedPath) : Prop where
  child : ∀ path child, child ∈ store.childSet path →
    (store.view child).isSome ∧ child.parent = some path ∧ store.view.IsDirectory path
  closed : ∀ path, (store.view path).isSome → Below paths path →
    path ∈ paths ∨ ∃ parent, path.parent = some parent ∧ path ∈ store.childSet parent
  orphan : ∀ path ∈ paths, ¬ store.view.InDirectory path

namespace Pending

variable {path : StandardizedPath} {paths : List StandardizedPath}

theorem ne_of_mem_childSet (h : store.Pending (path :: paths)) {path' child : StandardizedPath}
    (hc : child ∈ store.childSet path') : child ≠ path := by
  rintro rfl
  obtain ⟨-, hp, hd⟩ := h.child _ _ hc
  exact h.orphan child List.mem_cons_self ⟨path', hp, hd⟩

theorem mem_childSet_removeStep (h : store.Pending (path :: paths))
    {path' child : StandardizedPath} : child ∈ (store.removeStep path).childSet path' ↔
      path' ≠ path ∧ child ∈ store.childSet path' := by
  rw [FileTreeMapStore.mem_childSet_removeStep]
  exact and_congr_right fun _ => and_iff_left_of_imp fun hc hand =>
    h.ne_of_mem_childSet hc hand.1

theorem mem_calls {child : StandardizedPath} :
    child ∈ ((store.removeItemAndParent path).2.childSet path).elements ++ paths ↔
      child ∈ store.childSet path ∨ child ∈ paths := by
  rw [List.mem_append, HashSet.mem_elements, mem_childSet_self]

theorem removeStep (h : store.Pending (path :: paths)) : (store.removeStep path).Pending
    (((store.removeItemAndParent path).2.childSet path).elements ++ paths) := by
  constructor
  · intro path' child hc
    rw [h.mem_childSet_removeStep] at hc
    obtain ⟨hs, hp, state, hstate⟩ := h.child _ _ hc.2
    rw [view_removeStep, if_neg (h.ne_of_mem_childSet hc.2)]
    exact ⟨hs, hp, state, by rw [view_removeStep, if_neg hc.1, hstate]⟩
  · rintro path' hs ⟨root, hroot, hsuffix⟩
    rw [view_removeStep] at hs
    split at hs
    · cases hs
    rename_i hne
    have hbelow : Below (path :: paths) path' := by
      rcases mem_calls.mp hroot with hroot | hroot
      · exact ⟨path, List.mem_cons_self,
          (StandardizedPath.suffix_of_parent (h.child _ _ hroot).2.1
            (List.suffix_refl _)).trans hsuffix⟩
      · exact ⟨root, List.mem_cons_of_mem _ hroot, hsuffix⟩
    rcases h.closed path' hs hbelow with hmem | ⟨parent, hp, hc⟩
    · exact Or.inl (mem_calls.mpr (Or.inr ((List.mem_cons.mp hmem).resolve_left hne)))
    · by_cases he : parent = path
      · exact Or.inl (mem_calls.mpr (Or.inl (he ▸ hc)))
      · exact Or.inr ⟨parent, hp, h.mem_childSet_removeStep.mpr ⟨he, hc⟩⟩
  · rintro path' hmem ⟨parent, hp, state, hstate⟩
    rw [view_removeStep] at hstate
    split at hstate
    · cases hstate
    rename_i hne
    rcases mem_calls.mp hmem with hmem | hmem
    · exact hne (Option.some.inj (hp.symm.trans (h.child _ _ hmem).2.1))
    · exact h.orphan path' (List.mem_cons_of_mem _ hmem) ⟨parent, hp, state, hstate⟩

/-- An entry below the next call is that of the call, or below one of the calls after it. -/
theorem below_calls (h : store.Pending (path :: paths)) {path' : StandardizedPath}
    (hs : (store.view path').isSome) (hbelow : Below (path :: paths) path') : path' = path ∨
      Below (((store.removeItemAndParent path).2.childSet path).elements ++ paths) path' := by
  induction path' with
  | nil =>
    rcases h.closed [] hs hbelow with hmem | ⟨parent, hp, -⟩
    · rcases List.mem_cons.mp hmem with he | hmem
      · exact Or.inl he
      · exact Or.inr ⟨[], mem_calls.mpr (Or.inr hmem), List.suffix_refl _⟩
    · exact nomatch hp
  | cons name path' ih =>
    rcases h.closed _ hs hbelow with hmem | ⟨parent, hp, hc⟩
    · rcases List.mem_cons.mp hmem with he | hmem
      · exact Or.inl he
      · exact Or.inr ⟨_, mem_calls.mpr (Or.inr hmem), List.suffix_refl _⟩
    obtain rfl : path' = parent := Option.some.inj hp
    by_cases he : path' = path
    · exact Or.inr ⟨_, mem_calls.mpr (Or.inl (he ▸ hc)), List.suffix_refl _⟩
    obtain ⟨-, -, state, hstate⟩ := h.child _ _ hc
    obtain ⟨root, hroot, hsuffix⟩ := hbelow
    rcases List.suffix_cons_iff.mp hsuffix with rfl | hsuffix
    · exact absurd ⟨path', hp, state, hstate⟩ (h.orphan _ hroot)
    · obtain ⟨root, hroot, hsuffix⟩ :=
        (ih (by rw [hstate]; rfl) ⟨root, hroot, hsuffix⟩).resolve_left he
      exact Or.inr ⟨root, hroot, hsuffix.trans (List.suffix_cons _ _)⟩

theorem below_of_below_calls (h : store.Pending (path :: paths)) {path' : StandardizedPath}
    (hbelow : Below (((store.removeItemAndParent path).2.childSet path).elements ++ paths) path') :
    Below (path :: paths) path' := by
  obtain ⟨root, hroot, hsuffix⟩ := hbelow
  rcases mem_calls.mp hroot with hroot | hroot
  · exact ⟨path, List.mem_cons_self, (StandardizedPath.suffix_of_parent
      (h.child _ _ hroot).2.1 (List.suffix_refl _)).trans hsuffix⟩
  · exact ⟨root, List.mem_cons_of_mem _ hroot, hsuffix⟩

/-- **The calls take out what is below them, and nothing else.** -/
theorem removeAll {fuel : ℕ} (h : store.Pending paths)
    (hfuel : store.childCount + paths.length ≤ fuel) :
    (∀ path', (Below paths path' → (removeAll fuel store paths).view path' = none) ∧
      (¬ Below paths path' → (FileTreeMapStore.removeAll fuel store paths).view path' =
        store.view path')) ∧
    ∀ path' child, child ∈ (FileTreeMapStore.removeAll fuel store paths).childSet path' ↔
      child ∈ store.childSet path' ∧ ¬ Below paths path' := by
  induction fuel generalizing store paths with
  | zero =>
    obtain rfl : paths = [] := List.length_eq_zero_iff.mp (by omega)
    simp [FileTreeMapStore.removeAll, Below]
  | succ fuel ih =>
    cases paths with
    | nil => simp [FileTreeMapStore.removeAll, Below]
    | cons path paths =>
      have hcount := store.childCount_removeStep path
      obtain ⟨hview, hset⟩ := ih h.removeStep (by
        rw [List.length_append]
        rw [List.length_cons] at hfuel
        omega)
      rw [removeAll_cons]
      refine ⟨fun path' => ⟨fun hbelow => ?_, fun hbelow => ?_⟩, fun path' child => ?_⟩
      · by_cases hc : Below (((store.removeItemAndParent path).2.childSet path).elements ++ paths)
          path'
        · exact (hview path').1 hc
        · rw [(hview path').2 hc, view_removeStep]
          split
          · rfl
          · rename_i hne
            by_contra hs
            exact hc ((h.below_calls (Option.isSome_iff_ne_none.mpr hs) hbelow).resolve_left hne)
      · rw [(hview path').2 fun hc => hbelow (h.below_of_below_calls hc), view_removeStep,
          if_neg (by
            rintro rfl
            exact hbelow ⟨path', List.mem_cons_self, List.suffix_refl _⟩)]
      · rw [hset, h.mem_childSet_removeStep]
        constructor
        · rintro ⟨⟨hne, hc⟩, hno⟩
          obtain ⟨-, -, state, hstate⟩ := h.child _ _ hc
          exact ⟨hc, fun hbelow =>
            hno ((h.below_calls (by rw [hstate]; rfl) hbelow).resolve_left hne)⟩
        · rintro ⟨hc, hno⟩
          refine ⟨⟨?_, hc⟩, fun hb => hno (h.below_of_below_calls hb)⟩
          rintro rfl
          exact hno ⟨path', List.mem_cons_self, List.suffix_refl _⟩

end Pending

end FileTreeMapStore

/-! ## `remove` -/

namespace FileTreeEntry

variable {tree : FileTreeEntry}

namespace IsTree

/-- An entry below another one is below one of its children. -/
theorem below_child (h : tree.IsTree) {path path' : StandardizedPath} (hp : tree.rootPath <:+ path)
    (hs : (tree.view path').isSome) (hbelow : path <:+ path') (hne : path' ≠ path) :
    ∃ child ∈ tree.childSet path, child <:+ path' := by
  induction path' with
  | nil => exact absurd (List.suffix_nil.mp hbelow).symm hne
  | cons name path' ih =>
    rcases h.closed hs with hroot | ⟨parent, hparent, hdir⟩
    · have hle := hbelow.length_le
      rw [hroot] at hbelow hle hne
      exact absurd (hp.eq_of_length_le hle) hne
    · obtain rfl : path' = parent := Option.some.inj hparent
      have hbelow' : path <:+ path' :=
        (List.suffix_cons_iff.mp hbelow).resolve_left fun he => hne he.symm
      by_cases he : path' = path
      · subst he
        exact ⟨_, (h.child_iff _ _).mpr ⟨hs, rfl, hdir⟩, List.suffix_refl _⟩
      · obtain ⟨state, hstate⟩ := hdir
        obtain ⟨child, hc, hsuffix⟩ := ih (by rw [hstate]; rfl) hbelow' he
        exact ⟨child, hc, hsuffix.trans (List.suffix_cons _ _)⟩

theorem mem_childSet_removeStep (h : tree.IsTree) {path path' child : StandardizedPath} :
    child ∈ (tree.stateMap.removeStep path).childSet path' ↔
      path' ≠ path ∧ child ≠ path ∧ child ∈ tree.childSet path' := by
  rw [FileTreeMapStore.mem_childSet_removeStep]
  constructor
  · rintro ⟨hne, hc, hno⟩
    obtain ⟨-, hp, hd⟩ := (h.child_iff _ _).mp hc
    refine ⟨hne, ?_, hc⟩
    rintro rfl
    exact hno ⟨rfl, hp, hd⟩
  · rintro ⟨hne, hc, hmem⟩
    exact ⟨hne, hmem, fun hand => hc hand.1⟩

/-- After the first call, the calls for the children reach what is below them. -/
theorem pending (h : tree.IsTree) (path : StandardizedPath) :
    (tree.stateMap.removeStep path).Pending
      ((tree.stateMap.removeItemAndParent path).2.childSet path).elements := by
  have hcalls : ∀ child, child ∈ ((tree.stateMap.removeItemAndParent path).2.childSet path).elements
      ↔ child ∈ tree.childSet path := fun _ => FileTreeMapStore.mem_childSet_self
  constructor
  · intro path' child hc
    obtain ⟨hne, hne', hc⟩ := h.mem_childSet_removeStep.mp hc
    obtain ⟨hs, hp, state, hstate⟩ := (h.child_iff _ _).mp hc
    rw [FileTreeMapStore.view_removeStep, if_neg hne']
    exact ⟨hs, hp, state, by rw [FileTreeMapStore.view_removeStep, if_neg hne]; exact hstate⟩
  · rintro path' hs ⟨root, hroot, hsuffix⟩
    rw [FileTreeMapStore.view_removeStep] at hs
    split at hs
    · cases hs
    rename_i hne'
    obtain ⟨-, hparent, state, hstate⟩ := (h.child_iff _ _).mp ((hcalls root).mp hroot)
    rcases h.closed hs with rfl | ⟨parent, hp, hdir⟩
    · have hpath : tree.rootPath <:+ path := h.below_root (by rw [hstate]; rfl)
      exact absurd (hsuffix.trans hpath) (StandardizedPath.not_suffix_parent hparent)
    · have hc : path' ∈ tree.childSet parent := (h.child_iff _ _).mpr ⟨hs, hp, hdir⟩
      by_cases he : parent = path
      · exact Or.inl ((hcalls _).mpr (he ▸ hc))
      · exact Or.inr ⟨parent, hp, h.mem_childSet_removeStep.mpr ⟨he, hne', hc⟩⟩
  · rintro child hc ⟨parent, hp, state, hstate⟩
    have hparent := ((h.child_iff _ _).mp ((hcalls child).mp hc)).2.1
    rw [FileTreeMapStore.view_removeStep,
      if_pos (Option.some.inj (hp.symm.trans hparent))] at hstate
    cases hstate

/-- **`remove` deletes exactly the subtree of its path.** -/
theorem remove (h : tree.IsTree) (path : StandardizedPath) :
    (tree.remove path).IsTree ∧ (tree.remove path).view = tree.view.removed path := by
  have hcount := tree.stateMap.childCount_removeStep path
  obtain ⟨hview, hset⟩ := (h.pending path).removeAll hcount
  have hcalls : (((tree.stateMap.removeItemAndParent path).2.childSet path).elements ++ []) =
      ((tree.stateMap.removeItemAndParent path).2.childSet path).elements := List.append_nil _
  have htree : (tree.remove path).stateMap = FileTreeMapStore.removeAll tree.stateMap.childCount
      (tree.stateMap.removeStep path)
      ((tree.stateMap.removeItemAndParent path).2.childSet path).elements := by
    rw [← hcalls]
    rfl
  have hbelow : ∀ {path'}, FileTreeMapStore.Below
      ((tree.stateMap.removeItemAndParent path).2.childSet path).elements path' ↔
      ∃ child ∈ tree.childSet path, child <:+ path' := by
    intro path'
    exact exists_congr fun child => and_congr_left fun _ => FileTreeMapStore.mem_childSet_self
  have hgone : ∀ {path'}, (tree.view path').isSome → (path' = path ∨ FileTreeMapStore.Below
      ((tree.stateMap.removeItemAndParent path).2.childSet path).elements path' ↔
      path <:+ path' ∧ (tree.view path).isSome) := by
    intro path' hs
    rw [hbelow]
    constructor
    · rintro (rfl | ⟨child, hc, hsuffix⟩)
      · exact ⟨List.suffix_refl _, hs⟩
      · obtain ⟨-, hp, state, hstate⟩ := (h.child_iff _ _).mp hc
        exact ⟨(StandardizedPath.suffix_of_parent hp (List.suffix_refl _)).trans hsuffix,
          by rw [hstate]; rfl⟩
    · rintro ⟨hsuffix, hp⟩
      by_cases he : path' = path
      · exact Or.inl he
      · exact Or.inr (h.below_child (h.below_root hp) hs hsuffix he)
  have hviewEq : (tree.remove path).view = tree.view.removed path := by
    funext path'
    rw [FileTreeEntry.view, htree, FileView.removed]
    cases hs : tree.view path' with
    | none =>
      rw [ite_self]
      by_cases hb : FileTreeMapStore.Below
        ((tree.stateMap.removeItemAndParent path).2.childSet path).elements path'
      · exact (hview path').1 hb
      · rw [(hview path').2 hb, FileTreeMapStore.view_removeStep]
        split
        · rfl
        · exact hs
    | some state =>
      have hiff := hgone (by rw [hs]; rfl)
      split
      · rename_i hpos
        by_cases hb : FileTreeMapStore.Below
          ((tree.stateMap.removeItemAndParent path).2.childSet path).elements path'
        · exact (hview path').1 hb
        · rw [(hview path').2 hb, FileTreeMapStore.view_removeStep,
            if_pos ((hiff.mpr hpos).resolve_right hb)]
      · rename_i hneg
        have hno := hiff.not.mpr hneg
        rw [(hview path').2 fun hb => hno (Or.inr hb), FileTreeMapStore.view_removeStep,
          if_neg fun he => hno (Or.inl he)]
        exact hs
  have hsome : ∀ path', ((tree.view.removed path) path').isSome ↔
      (tree.view path').isSome ∧ ¬ (path <:+ path' ∧ (tree.view path).isSome) := by
    intro path'
    rw [FileView.removed]
    split <;> simp [*]
  have hdir : ∀ path', (tree.view.removed path).IsDirectory path' ↔
      tree.view.IsDirectory path' ∧ ¬ (path <:+ path' ∧ (tree.view path).isSome) := by
    intro path'
    rw [FileView.IsDirectory, FileView.removed]
    split <;> simp [FileView.IsDirectory, *]
  refine ⟨?_, hviewEq⟩
  apply of_view
  · intro path' child
    rw [childSet, htree, hset, h.mem_childSet_removeStep, hviewEq, hsome, hdir]
    constructor
    · rintro ⟨⟨hne, hne', hc⟩, hno⟩
      obtain ⟨hs, hp, state, hstate⟩ := (h.child_iff _ _).mp hc
      have hno' : ¬ (path <:+ path' ∧ (tree.view path).isSome) := fun hand =>
        ((hgone (by rw [hstate]; rfl)).mpr hand).elim hne hno
      refine ⟨⟨hs, fun hand => ?_⟩, hp, ⟨state, hstate⟩, hno'⟩
      rcases (StandardizedPath.suffix_iff_parent hp).mp hand.1 with he | hsuffix
      · exact hne' he.symm
      · exact hno' ⟨hsuffix, hand.2⟩
    · rintro ⟨⟨hs, hno⟩, hp, ⟨state, hstate⟩, hno'⟩
      have hiff := hgone (by rw [hstate]; rfl)
      refine ⟨⟨fun he => hno' (hiff.mp (Or.inl he)), ?_,
        (h.child_iff _ _).mpr ⟨hs, hp, state, hstate⟩⟩, fun hb => hno' (hiff.mp (Or.inr hb))⟩
      rintro rfl
      exact hno ⟨List.suffix_refl _, hs⟩
  · intro path' hs
    rw [hviewEq] at hs ⊢
    obtain ⟨hs, hno⟩ := (hsome _).mp hs
    refine (h.closed hs).imp_right fun hin => ?_
    obtain ⟨parent, hp, hd⟩ := hin
    refine ⟨parent, hp, (hdir _).mpr ⟨hd, ?_⟩⟩
    exact fun hand => hno ⟨StandardizedPath.suffix_of_parent hp hand.1, hand.2⟩
  · intro path' hs
    rw [hviewEq] at hs
    exact h.below_root ((hsome _).mp hs).1
  · intro path' state hs
    rw [hviewEq, FileView.removed] at hs
    split at hs
    · cases hs
    · exact h.stored path' state hs

end IsTree

end FileTreeEntry

end Clinch
