import Clinch.FileTree.Remove

/-!
# Renames in the file tree

`rename_path` moves the entry of a path, and then the entries below it one by one: a state is taken
out under its old path and put under its new one, the child set follows, and last the set of the new
parent gets the new path in the place of the old one.

* `FileView.renamed`: the subtree of the old path at the new one, and nothing else changed;
* `Moving`: the tree while some of the entries have moved and some of them have their new name;
* `Kept`: the same when the two paths are the same;
* **`IsTree.renamePath`**: `rename_path` moves exactly the subtree of the old path.
-/

set_option autoImplicit false

namespace Clinch

namespace StandardizedPath

theorem stripPrefix_append (relative base : StandardizedPath) :
    (relative ++ base).stripPrefix base = some relative := by
  rw [stripPrefix, startsWith, if_pos (List.isSuffixOf_iff_suffix.mpr (List.suffix_append _ _)),
    List.length_append, Nat.add_sub_cancel, List.take_left]

theorem stripPrefix_eq_none {path base : StandardizedPath} (h : ¬ base <:+ path) :
    path.stripPrefix base = none := by
  rw [stripPrefix, startsWith, if_neg (List.isSuffixOf_iff_suffix.not.mpr h)]

/-- The subtrees of two paths have no path in common, if neither path is below the other. -/
theorem append_ne_append {source target : StandardizedPath} (hsource : ¬ source <:+ target)
    (htarget : ¬ target <:+ source) (a b : List String) : a ++ source ≠ b ++ target := by
  intro he
  rcases List.suffix_or_suffix_of_suffix (List.suffix_append a source)
    (he ▸ List.suffix_append b target) with h | h
  · exact hsource h
  · exact htarget h

end StandardizedPath

namespace FileTreeEntryState

@[simp] theorem path_setPath (state : FileTreeEntryState) (path : StandardizedPath) :
    (state.setPath path).path = path := by cases state <;> rfl

@[simp] theorem isSome_asDirectory_setPath (state : FileTreeEntryState) (path : StandardizedPath) :
    (state.setPath path).asDirectory.isSome = state.asDirectory.isSome := by
  cases state <;> rfl

end FileTreeEntryState

namespace FileView

/-- The view after the subtree of a path is moved to a new path. -/
def renamed (view : FileView) (path newPath : StandardizedPath) : FileView := fun path' =>
  match path'.stripPrefix newPath with
  | some relative => (view (path.join relative)).map (·.setPath path')
  | none => if path <:+ path' then none else view path'

section Renamed

variable {view : FileView} {path newPath : StandardizedPath}

theorem renamed_new (relative : StandardizedPath) : view.renamed path newPath (relative ++ newPath) =
    (view (relative ++ path)).map (·.setPath (relative ++ newPath)) := by
  rw [renamed, StandardizedPath.stripPrefix_append]
  rfl

theorem renamed_old (h : ¬ path <:+ newPath) (h' : ¬ newPath <:+ path) (relative : StandardizedPath) :
    view.renamed path newPath (relative ++ path) = none := by
  have hno : ¬ newPath <:+ relative ++ path := fun ⟨relative', he⟩ =>
    StandardizedPath.append_ne_append h h' relative relative' he.symm
  rw [renamed, StandardizedPath.stripPrefix_eq_none hno]
  exact if_pos (List.suffix_append _ _)

theorem renamed_other {path' : StandardizedPath} (h : ¬ path <:+ path') (h' : ¬ newPath <:+ path') :
    view.renamed path newPath path' = view path' := by
  rw [renamed, StandardizedPath.stripPrefix_eq_none h']
  exact if_neg h

theorem isDirectory_renamed_new (relative : StandardizedPath) :
    (view.renamed path newPath).IsDirectory (relative ++ newPath) ↔
      view.IsDirectory (relative ++ path) := by
  rw [isDirectory_iff, isDirectory_iff, renamed_new]
  simp

theorem isDirectory_renamed_other {path' : StandardizedPath} (h : ¬ path <:+ path')
    (h' : ¬ newPath <:+ path') :
    (view.renamed path newPath).IsDirectory path' ↔ view.IsDirectory path' := by
  rw [IsDirectory, renamed_other h h', IsDirectory]

end Renamed

/-- `rename_path`: it needs the entry and the directory it is moved to. -/
def renamePath (view : FileView) (path newPath : StandardizedPath) : FileView :=
  if (view path).isSome ∧ view.InDirectory newPath then view.renamed path newPath else view

end FileView

namespace FileTreeMapStore

variable {store : FileTreeMapStore}

/-! ## The steps of a rename -/

theorem view_insert (path : StandardizedPath) (state : FileTreeEntryState) :
    view { store with stateMap := store.stateMap.insert path state } =
      Function.update store.view path (some state) := by
  funext path'
  rw [Function.update_apply]
  exact HashMap.get_insert _ _ _ _

/-- The child set of a path becomes that of its new path, if there is one. -/
def moveChildren (store : FileTreeMapStore) (path newPath : StandardizedPath) : FileTreeMapStore :=
  match store.parentToChildMap.get path with
  | none => store
  | some children => { store with
      parentToChildMap := (store.parentToChildMap.remove path).insert newPath children }

@[simp] theorem view_moveChildren (path newPath : StandardizedPath) :
    (store.moveChildren path newPath).view = store.view := by
  rw [moveChildren]
  split <;> rfl

theorem mem_childSet_moveChildren {path newPath : StandardizedPath}
    (hfree : newPath ≠ path → ∀ child, child ∉ store.childSet newPath)
    {path' child : StandardizedPath} : child ∈ (store.moveChildren path newPath).childSet path' ↔
      (path' = newPath ∧ child ∈ store.childSet path) ∨
        (path' ≠ newPath ∧ path' ≠ path ∧ child ∈ store.childSet path') := by
  rw [moveChildren]
  split
  · rename_i hnone
    have hempty : child ∉ store.childSet path := by
      rw [childSet, hnone]
      exact HashSet.not_mem_empty
    constructor
    · intro hc
      have hne : path' ≠ path := by
        rintro rfl
        exact hempty hc
      refine Or.inr ⟨?_, hne, hc⟩
      rintro rfl
      exact hfree hne child hc
    · rintro (⟨-, hc⟩ | ⟨-, -, hc⟩)
      · exact absurd hc hempty
      · exact hc
  · rename_i children hsome
    have hset : store.childSet path = children := by rw [childSet, hsome]; rfl
    rw [hset, childSet, HashMap.get_insert]
    by_cases h : path' = newPath
    · simp [h]
    · rw [if_neg h]
      by_cases h' : path' = path
      · subst h'
        rw [HashMap.get_remove_self]
        simp [h]
      · rw [HashMap.get_remove_of_ne _ h']
        simp [h, h', childSet]

/-- The set of a new path's parent gets the new path in the place of the old one. -/
def renameChild (store : FileTreeMapStore) (path newPath : StandardizedPath) : FileTreeMapStore :=
  match newPath.parent with
  | none => store
  | some parent => { store with
      parentToChildMap := store.parentToChildMap.modify parent fun children =>
        (children.remove path).insert newPath }

@[simp] theorem view_renameChild (path newPath : StandardizedPath) :
    (store.renameChild path newPath).view = store.view := by
  rw [renameChild]
  split <;> rfl

theorem mem_childSet_renameChild {path newPath parent : StandardizedPath}
    (hparent : newPath.parent = some parent) (hkey : (store.parentToChildMap.get parent).isSome)
    {path' child : StandardizedPath} : child ∈ (store.renameChild path newPath).childSet path' ↔
      (path' = parent ∧ child = newPath) ∨
        (child ∈ store.childSet path' ∧ ¬ (path' = parent ∧ child = path)) := by
  rw [renameChild, hparent]
  simp only [childSet]
  rw [HashMap.get_modify]
  by_cases h : path' = parent
  · subst h
    obtain ⟨children, hchildren⟩ := Option.isSome_iff_exists.mp hkey
    rw [if_pos rfl, hchildren]
    simp [and_comm]
  · simp [h]

theorem key_of_mem_childSet {path child : StandardizedPath} (h : child ∈ store.childSet path) :
    (store.parentToChildMap.get path).isSome := by
  rw [childSet] at h
  cases hget : store.parentToChildMap.get path with
  | none => exact absurd (hget ▸ h) HashSet.not_mem_empty
  | some children => rfl

/-- One call of `update_paths_recursive`, at an entry that is there. -/
theorem updatePathsRecursive_succ {source target relative : StandardizedPath} (fuel : ℕ)
    {item : FileTreeEntryState} (h : store.view (relative ++ source) = some item) :
    updatePathsRecursive source target (fuel + 1) store (relative ++ source) =
      renameChild ((((store.removeItemAndParent (relative ++ source)).2.childSet
          (relative ++ source)).elements).foldl (updatePathsRecursive source target fuel)
        (moveChildren { (store.removeItemAndParent (relative ++ source)).2 with
          stateMap := (store.removeItemAndParent (relative ++ source)).2.stateMap.insert
            (relative ++ target) (item.setPath (relative ++ target)) }
          (relative ++ source) (relative ++ target)))
        (relative ++ source) (relative ++ target) := by
  have hfst := (store.removeItemAndParent_fst (relative ++ source)).trans h
  rw [updatePathsRecursive, StandardizedPath.stripPrefix_append]
  generalize store.removeItemAndParent (relative ++ source) = removed at hfst
  obtain ⟨_, store'⟩ := removed
  subst hfst
  simp only [StandardizedPath.join, moveChildren, childSet]
  cases store'.parentToChildMap.get (relative ++ source) with
  | none => rfl
  | some children => rfl

theorem le_maxDepth {path : StandardizedPath} (h : (store.view path).isSome) :
    path.length ≤ store.maxDepth := by
  obtain ⟨state, hstate⟩ := Option.isSome_iff_exists.mp h
  have hmem := HashMap.get_eq_some.mp hstate
  rw [maxDepth]
  exact List.le_max_of_le' 0 (List.mem_map.mpr ⟨_, hmem, rfl⟩) le_rfl

/-- The store of a rename before the child set is moved. -/
def startRename (store : FileTreeMapStore) (path newPath parent : StandardizedPath)
    (item : FileTreeEntryState) : FileTreeMapStore :=
  modifyChildren { (store.removeItemAndParent path).2 with
    stateMap := (store.removeItemAndParent path).2.stateMap.insert newPath (item.setPath newPath) }
    parent (·.insert newPath)

theorem view_startRename (path newPath parent : StandardizedPath) (item : FileTreeEntryState) :
    (store.startRename path newPath parent item).view = Function.update
      (Function.update store.view path none) newPath (some (item.setPath newPath)) := by
  rw [startRename, view_modifyChildren, view_insert]
  congr 1
  funext path'
  rw [view_removeItemAndParent, Function.update_apply]

theorem mem_childSet_startRename {path newPath parent path' child : StandardizedPath}
    {item : FileTreeEntryState} : child ∈ (store.startRename path newPath parent item).childSet path' ↔
      (path' = parent ∧ child = newPath) ∨ (child ∈ store.childSet path' ∧
        ¬ (child = path ∧ path.parent = some path' ∧ store.view.IsDirectory path')) := by
  rw [← mem_childSet_removeItemAndParent, startRename, childSet_modifyChildren]
  split
  · rename_i he
    rw [HashSet.mem_insert, and_iff_right he]
    rfl
  · rename_i hne
    rw [or_iff_right fun hand => hne hand.1]
    rfl

/-- `rename_path`, when there is an entry and a directory to move it to. -/
theorem renamePath_eq {path newPath parent : StandardizedPath} {item : FileTreeEntryState}
    (hitem : store.view path = some item) (hparent : newPath.parent = some parent)
    (hdir : store.view.IsDirectory parent) : store.renamePath path newPath =
      (true, if item.asDirectory.isSome then
        ((store.startRename path newPath parent item).childSet path).elements.foldl
          (updatePathsRecursive path newPath (store.maxDepth + 1))
          ((store.startRename path newPath parent item).moveChildren path newPath)
      else store.startRename path newPath parent item) := by
  have hfst := (store.removeItemAndParent_fst path).trans hitem
  have hget : store.get path = some item := hitem
  rw [renamePath, hget, parentDirectory_eq_some.mpr ⟨hparent, hdir⟩, startRename]
  generalize store.removeItemAndParent path = removed at hfst
  obtain ⟨_, store'⟩ := removed
  subst hfst
  rw [moveChildren, childSet]
  cases item with
  | file metadata => rfl
  | directory state =>
    simp only [FileTreeEntryState.setPath, FileTreeEntryState.asDirectory, Option.isSome_some,
      Option.isNone_some, Bool.false_eq_true, if_false, if_true]
    generalize modifyChildren _ parent _ = started
    cases started.parentToChildMap.get path with
    | none => rfl
    | some children => rfl

theorem renamePath_of_not {path newPath : StandardizedPath}
    (h : ¬ ((store.view path).isSome ∧ store.view.InDirectory newPath)) :
    store.renamePath path newPath = (false, store) := by
  rw [renamePath]
  by_cases hs : (store.view path).isSome
  · rw [if_neg (by rw [Option.isNone_iff_eq_none]; exact Option.isSome_iff_ne_none.mp hs),
      parentDirectory_eq_none.mpr fun hd => h ⟨hs, hd⟩]
  · rw [if_pos (by rw [Option.isNone_iff_eq_none]; exact Option.not_isSome_iff_eq_none.mp hs)]

end FileTreeMapStore

/-! ## Moving a subtree -/

namespace FileTreeEntry

variable {tree : FileTreeEntry} {source target : StandardizedPath}

/-- **The store while the subtree of `source` moves to `target`.** Paths are relative to the two:
the entries of `moved` are at their new path, those of `named` have it in their parent's set. -/
structure Moving (tree : FileTreeEntry) (source target : StandardizedPath)
    (moved named : Set (List String)) (store : FileTreeMapStore) : Prop where
  view_moved : ∀ rel ∈ moved, store.view (rel ++ source) = none ∧
    store.view (rel ++ target) = (tree.view (rel ++ source)).map (·.setPath (rel ++ target))
  view_left : ∀ rel ∉ moved, store.view (rel ++ source) = tree.view (rel ++ source) ∧
    store.view (rel ++ target) = none
  view_other : ∀ path, ¬ source <:+ path → ¬ target <:+ path → store.view path = tree.view path
  child_moved : ∀ rel ∈ moved, ∀ child, child ∉ store.childSet (rel ++ source) ∧
    (child ∈ store.childSet (rel ++ target) ↔ ∃ rel', rel' ++ source ∈ tree.childSet (rel ++ source) ∧
      ((rel' ∈ named ∧ child = rel' ++ target) ∨ (rel' ∉ named ∧ child = rel' ++ source)))
  child_left : ∀ rel ∉ moved, ∀ child,
    (child ∈ store.childSet (rel ++ source) ↔ child ∈ tree.childSet (rel ++ source)) ∧
      child ∉ store.childSet (rel ++ target)
  child_other : ∀ path, ¬ source <:+ path → ¬ target <:+ path → ∀ child,
    child ∈ store.childSet path ↔ (target.parent = some path ∧ child = target) ∨
      (child ≠ source ∧ child ∈ tree.childSet path)

/-- The entries at or below some paths, relative to `source`. -/
def Subtrees (tree : FileTreeEntry) (source : StandardizedPath) (paths : List StandardizedPath) :
    Set (List String) :=
  { rel | FileTreeMapStore.Below paths (rel ++ source) ∧ (tree.view (rel ++ source)).isSome }

theorem subtrees_cons (path : StandardizedPath) (paths : List StandardizedPath) :
    tree.Subtrees source (path :: paths) =
      tree.Subtrees source [path] ∪ tree.Subtrees source paths := by
  ext rel
  simp [Subtrees, FileTreeMapStore.Below, or_and_right, exists_or]

theorem subtrees_nil : tree.Subtrees source [] = ∅ := by
  ext rel
  simp [Subtrees, FileTreeMapStore.Below]

/-- The subtree of an entry is the entry and the subtrees of its children. -/
theorem IsTree.subtrees_singleton (h : tree.IsTree) {rel : List String}
    (hs : (tree.view (rel ++ source)).isSome) {children : List StandardizedPath}
    (hchildren : ∀ child, child ∈ children ↔ child ∈ tree.childSet (rel ++ source)) :
    tree.Subtrees source [rel ++ source] = insert rel (tree.Subtrees source children) := by
  ext rel'
  rw [Set.mem_insert_iff]
  constructor
  · rintro ⟨⟨root, hroot, hsuffix⟩, hs'⟩
    obtain rfl := List.mem_singleton.mp hroot
    by_cases he : rel' = rel
    · exact Or.inl he
    · obtain ⟨child, hc, hsuffix'⟩ := h.below_child (h.below_root hs) hs' hsuffix
        fun hh => he (List.append_cancel_right hh)
      exact Or.inr ⟨⟨child, (hchildren child).mpr hc, hsuffix'⟩, hs'⟩
  · rintro (rfl | ⟨⟨child, hc, hsuffix⟩, hs'⟩)
    · exact ⟨⟨_, List.mem_singleton_self _, List.suffix_refl _⟩, hs⟩
    · have hp := ((h.child_iff _ _).mp ((hchildren child).mp hc)).2.1
      exact ⟨⟨_, List.mem_singleton_self _,
        (StandardizedPath.suffix_of_parent hp (List.suffix_refl _)).trans hsuffix⟩, hs'⟩

namespace Moving

variable {moved named : Set (List String)} {store store' : FileTreeMapStore}

/-- The state of one entry is moved, with its child set. -/
theorem moveEntry (hsource : ¬ source <:+ target) (htarget : ¬ target <:+ source)
    (h : Moving tree source target moved named store) {rel : List String} (hrel : rel ∉ moved)
    {item : FileTreeEntryState} (hitem : tree.view (rel ++ source) = some item)
    (hview : store'.view = Function.update (Function.update store.view (rel ++ source) none)
      (rel ++ target) (some (item.setPath (rel ++ target))))
    (hnamed : ∀ rel', rel' ++ source ∈ tree.childSet (rel ++ source) → rel' ∉ named)
    (hchild : ∀ path child, child ∈ store'.childSet path ↔
      (path = rel ++ target ∧ child ∈ store.childSet (rel ++ source)) ∨
        (path ≠ rel ++ target ∧ path ≠ rel ++ source ∧ child ∈ store.childSet path))
    (hrelative : ∀ child ∈ tree.childSet (rel ++ source), ∃ rel', child = rel' ++ source) :
    Moving tree source target (insert rel moved) named store' := by
  have hst : ∀ a b : List String, a ++ source ≠ b ++ target :=
    StandardizedPath.append_ne_append hsource htarget
  have hother : ∀ {path base : StandardizedPath}, ¬ base <:+ path → path ≠ rel ++ base := by
    rintro path base hno rfl
    exact hno (List.suffix_append _ _)
  constructor
  · intro rel' hmem
    rw [hview]
    by_cases he : rel' = rel
    · subst he
      rw [Function.update_of_ne (hst _ _), Function.update_self, Function.update_self, hitem]
      exact ⟨rfl, rfl⟩
    · obtain ⟨hv, hv'⟩ := h.view_moved rel' (hmem.resolve_left he)
      rw [Function.update_of_ne (hst _ _), Function.update_of_ne (by simpa using he), hv,
        Function.update_of_ne (by simpa using he), Function.update_of_ne (hst _ _).symm, hv']
      exact ⟨rfl, rfl⟩
  · intro rel' hmem
    rw [Set.mem_insert_iff, not_or] at hmem
    obtain ⟨hv, hv'⟩ := h.view_left rel' hmem.2
    rw [hview, Function.update_of_ne (hst _ _), Function.update_of_ne (by simpa using hmem.1), hv,
      Function.update_of_ne (by simpa using hmem.1), Function.update_of_ne (hst _ _).symm, hv']
    exact ⟨rfl, rfl⟩
  · intro path hs ht
    rw [hview, Function.update_of_ne (hother ht), Function.update_of_ne (hother hs),
      h.view_other path hs ht]
  · intro rel' hmem child
    rw [hchild, hchild]
    by_cases he : rel' = rel
    · subst he
      refine ⟨by simp [hst], ?_⟩
      rw [(h.child_left rel' hrel child).1]
      constructor
      · rintro (⟨-, hc⟩ | ⟨hne, -⟩)
        · obtain ⟨rel', rfl⟩ := hrelative child hc
          exact ⟨rel', hc, Or.inr ⟨hnamed rel' hc, rfl⟩⟩
        · exact absurd rfl hne
      · rintro ⟨rel', hc, ⟨hn, -⟩ | ⟨-, rfl⟩⟩
        · exact absurd hn (hnamed rel' hc)
        · exact Or.inl ⟨rfl, hc⟩
    · obtain ⟨hc, hc'⟩ := h.child_moved rel' (hmem.resolve_left he) child
      rw [← hc']
      simp [hst, Ne.symm (hst _ _), he, hc]
  · intro rel' hmem child
    rw [Set.mem_insert_iff, not_or] at hmem
    obtain ⟨hc, hc'⟩ := h.child_left rel' hmem.2 child
    rw [hchild, hchild, ← hc]
    simp [hst, Ne.symm (hst _ _), hmem.1, hc']
  · intro path hs ht child
    rw [hchild, ← h.child_other path hs ht child]
    simp [hother hs, hother ht]

/-- An entry gets its new name in the set of its parent. -/
theorem renameChild (htree : tree.IsTree) (hsource : ¬ source <:+ target)
    (htarget : ¬ target <:+ source) (h : Moving tree source target moved named store)
    {name : String} {rel : List String} (hrel : rel ∈ moved) (hname : name :: rel ∉ named)
    (hc : name :: rel ++ source ∈ tree.childSet (rel ++ source)) :
    Moving tree source target moved (insert (name :: rel) named)
      (store.renameChild (name :: rel ++ source) (name :: rel ++ target)) := by
  have hst : ∀ a b : List String, a ++ source ≠ b ++ target :=
    StandardizedPath.append_ne_append hsource htarget
  have hmem : name :: rel ++ source ∈ store.childSet (rel ++ target) :=
    (h.child_moved rel hrel _).2.mpr ⟨_, hc, Or.inr ⟨hname, rfl⟩⟩
  have hchild := fun path' child =>
    @FileTreeMapStore.mem_childSet_renameChild store (name :: rel ++ source) (name :: rel ++ target)
      (rel ++ target) rfl (FileTreeMapStore.key_of_mem_childSet hmem) path' child
  constructor
  · simpa using h.view_moved
  · simpa using h.view_left
  · simpa using h.view_other
  · intro rel' hmem child
    obtain ⟨hno, hiff⟩ := h.child_moved rel' hmem child
    rw [hchild, hchild, hiff]
    refine ⟨by simp [hst, hno], ?_⟩
    by_cases he : rel' = rel
    · subst he
      simp only [true_and, Set.mem_insert_iff]
      constructor
      · rintro (rfl | ⟨⟨rel', hc', ⟨hn, rfl⟩ | ⟨hn, rfl⟩⟩, hne⟩)
        · exact ⟨_, hc, Or.inl ⟨Or.inl rfl, rfl⟩⟩
        · exact ⟨rel', hc', Or.inl ⟨Or.inr hn, rfl⟩⟩
        · exact ⟨rel', hc', Or.inr ⟨not_or.mpr ⟨fun he => hne (he ▸ rfl), hn⟩, rfl⟩⟩
      · rintro ⟨rel', hc', ⟨rfl | hn, rfl⟩ | ⟨hn, rfl⟩⟩
        · exact Or.inl rfl
        · exact Or.inr ⟨⟨rel', hc', Or.inl ⟨hn, rfl⟩⟩, Ne.symm (hst _ _)⟩
        · exact Or.inr ⟨⟨rel', hc', Or.inr ⟨(not_or.mp hn).2, rfl⟩⟩,
            fun he => (not_or.mp hn).1 (List.append_cancel_right he)⟩
    · have hne : ∀ rel'', rel'' ++ source ∈ tree.childSet (rel' ++ source) →
          rel'' ≠ name :: rel := by
        rintro _ hc' rfl
        have hparent := ((htree.child_iff _ _).mp hc').2.1
        exact he (List.append_cancel_right (Option.some.inj hparent)).symm
      have happ : rel' ++ target ≠ rel ++ target := fun hh => he (List.append_cancel_right hh)
      rw [or_iff_right fun hand => happ hand.1, and_iff_left fun hand => happ hand.1]
      refine exists_congr fun rel'' => and_congr_right fun hc' => ?_
      rw [Set.mem_insert_iff, or_iff_right (hne rel'' hc')]
  · intro rel' hleft child
    obtain ⟨hiff, hno⟩ := h.child_left rel' hleft child
    rw [hchild, hchild, ← hiff]
    have hne : rel' ≠ rel := by
      rintro rfl
      exact hleft hrel
    simp [hst, hno, hne]
  · intro path hs ht child
    rw [hchild, ← h.child_other path hs ht child]
    have hne : path ≠ rel ++ target := by
      rintro rfl
      exact ht (List.suffix_append _ _)
    simp [hne]

/-- The children of an entry, one after the other. -/
theorem foldl {rel : List String} {step : FileTreeMapStore → StandardizedPath → FileTreeMapStore}
    (htree : tree.IsTree) (hstep : ∀ {moved named : Set (List String)} {store : FileTreeMapStore}
      {path : StandardizedPath}, Moving tree source target moved named store → rel ∈ moved →
      path ∈ tree.childSet (rel ++ source) →
      (∀ rel', path <:+ rel' ++ source → rel' ∉ moved ∧ rel' ∉ named) →
      Moving tree source target (moved ∪ tree.Subtrees source [path])
        (named ∪ tree.Subtrees source [path]) (step store path)) :
    ∀ {children : List StandardizedPath} {moved named : Set (List String)}
      {store : FileTreeMapStore}, children.Nodup → Moving tree source target moved named store →
      rel ∈ moved → (∀ child ∈ children, child ∈ tree.childSet (rel ++ source)) →
      (∀ child ∈ children, ∀ rel', child <:+ rel' ++ source → rel' ∉ moved ∧ rel' ∉ named) →
      Moving tree source target (moved ∪ tree.Subtrees source children)
        (named ∪ tree.Subtrees source children) (children.foldl step store) := by
  intro children
  induction children with
  | nil =>
    intro moved named store _ h _ _ _
    rw [subtrees_nil, Set.union_empty, Set.union_empty]
    exact h
  | cons child children ih =>
    intro moved named store hnodup h hrel hmem hfresh
    rw [List.nodup_cons] at hnodup
    have hc := hmem child List.mem_cons_self
    rw [subtrees_cons, ← Set.union_assoc, ← Set.union_assoc, List.foldl_cons]
    refine ih hnodup.2 (hstep h hrel hc (hfresh child List.mem_cons_self)) (Or.inl hrel)
      (fun child' hc' => hmem child' (List.mem_cons_of_mem _ hc')) fun child' hc' rel' hsuffix => ?_
    -- two children of one entry have no entry below them in common
    have hother : rel' ∉ tree.Subtrees source [child] := by
      rintro ⟨⟨root, hroot, hsuffix'⟩, -⟩
      obtain rfl := List.mem_singleton.mp hroot
      obtain ⟨name, rfl⟩ := StandardizedPath.parent_eq_some.mp ((htree.child_iff _ _).mp hc).2.1
      obtain ⟨name', rfl⟩ := StandardizedPath.parent_eq_some.mp
        ((htree.child_iff _ _).mp (hmem child' (List.mem_cons_of_mem _ hc'))).2.1
      have he := (List.suffix_of_suffix_length_le hsuffix' hsuffix (by simp)).eq_of_length (by simp)
      exact hnodup.1 (he ▸ hc')
    obtain ⟨hno, hno'⟩ := hfresh child' (List.mem_cons_of_mem _ hc') rel' hsuffix
    exact ⟨not_or.mpr ⟨hno, hother⟩, not_or.mpr ⟨hno', hother⟩⟩

/-- **A call of `update_paths_recursive` moves the subtree of its path.** -/
theorem updatePathsRecursive (htree : tree.IsTree) (hsource : ¬ source <:+ target)
    (htarget : ¬ target <:+ source) {fuel : ℕ} : ∀ {rel : List String}
      {moved named : Set (List String)} {store : FileTreeMapStore} {path : StandardizedPath},
      (∀ path', path <:+ path' → (tree.view path').isSome → path'.length < path.length + fuel) →
      Moving tree source target moved named store → rel ∈ moved →
      path ∈ tree.childSet (rel ++ source) →
      (∀ rel', path <:+ rel' ++ source → rel' ∉ moved ∧ rel' ∉ named) →
      Moving tree source target (moved ∪ tree.Subtrees source [path])
        (named ∪ tree.Subtrees source [path])
        (FileTreeMapStore.updatePathsRecursive source target fuel store path) := by
  induction fuel with
  | zero =>
    intro rel moved named store path hdepth _ _ hc _
    have hs := ((htree.child_iff _ _).mp hc).1
    exact absurd (hdepth path (List.suffix_refl _) hs) (lt_irrefl _)
  | succ fuel ih =>
    intro rel moved named store path hdepth h hrel hc hfresh
    obtain ⟨hs, hparent, hdir⟩ := (htree.child_iff _ _).mp hc
    obtain ⟨name, hname⟩ := StandardizedPath.parent_eq_some.mp hparent
    obtain ⟨rel', hrel', rfl⟩ : ∃ rel', name :: rel = rel' ∧ path = rel' ++ source :=
      ⟨_, rfl, hname⟩
    obtain ⟨item, hitem⟩ := Option.isSome_iff_exists.mp hs
    obtain ⟨hleft, hname⟩ := hfresh rel' (List.suffix_refl _)
    have hview := (h.view_left _ hleft).1.trans hitem
    -- the parent has moved, so that no set loses the path
    have hremoved : ∀ path' child, child ∈
        (store.removeItemAndParent (rel' ++ source)).2.childSet path' ↔
          child ∈ store.childSet path' := by
      intro path' child
      rw [FileTreeMapStore.mem_childSet_removeItemAndParent]
      refine and_iff_left ?_
      rintro ⟨-, hp, state, hstate⟩
      obtain rfl := Option.some.inj (hparent.symm.trans hp)
      rw [(h.view_moved rel hrel).1] at hstate
      cases hstate
    have hchildren : ∀ child, child ∈ ((store.removeItemAndParent (rel' ++ source)).2.childSet
        (rel' ++ source)).elements ↔ child ∈ tree.childSet (rel' ++ source) :=
      fun child => (hremoved _ _).trans (h.child_left _ hleft child).1
    have hbelow : ∀ child ∈ tree.childSet (rel' ++ source),
        ∃ name', child = name' :: rel' ++ source := fun child hc' =>
      StandardizedPath.parent_eq_some.mp ((htree.child_iff _ _).mp hc').2.1
    have hfresh' : ∀ child ∈ tree.childSet (rel' ++ source), ∀ rel'', child <:+ rel'' ++ source →
        rel'' ∉ insert rel' moved ∧ rel'' ∉ named := by
      intro child hc' rel'' hsuffix
      obtain ⟨name', rfl⟩ := hbelow child hc'
      obtain ⟨hno, hno'⟩ := hfresh rel'' ((List.suffix_cons _ _).trans hsuffix)
      refine ⟨not_or.mpr ⟨?_, hno⟩, hno'⟩
      rintro rfl
      exact absurd hsuffix.length_le (by simp)
    have hentry : Moving tree source target (insert rel' moved) named
        (FileTreeMapStore.moveChildren { (store.removeItemAndParent (rel' ++ source)).2 with
          stateMap := (store.removeItemAndParent (rel' ++ source)).2.stateMap.insert
            (rel' ++ target) (item.setPath (rel' ++ target)) } (rel' ++ source) (rel' ++ target)) := by
      refine moveEntry hsource htarget h hleft hitem ?_ ?_ ?_ fun child hc' =>
        (hbelow child hc').imp' (· :: rel') fun name' he => he
      · rw [FileTreeMapStore.view_moveChildren, FileTreeMapStore.view_insert]
        congr 1
        funext path'
        rw [FileTreeMapStore.view_removeItemAndParent, Function.update_apply]
      · exact fun rel'' hc' => (hfresh' _ hc' rel'' (List.suffix_refl _)).2
      · intro path' child
        rw [← hremoved, ← hremoved path']
        refine FileTreeMapStore.mem_childSet_moveChildren fun _ child hc' => ?_
        exact (h.child_left rel' hleft child).2 ((hremoved _ _).mp hc')
    have hdepth' : ∀ child ∈ tree.childSet (rel' ++ source), ∀ path', child <:+ path' →
        (tree.view path').isSome → path'.length < child.length + fuel := by
      intro child hc' path' hsuffix hs'
      obtain ⟨name', rfl⟩ := hbelow child hc'
      have hlt := hdepth path' ((List.suffix_cons _ _).trans hsuffix) hs'
      simp only [List.cons_append, List.length_cons] at hlt ⊢
      omega
    rw [FileTreeMapStore.updatePathsRecursive_succ fuel hview,
      htree.subtrees_singleton hs hchildren, Set.union_insert, Set.union_insert, ← Set.insert_union]
    have hfold := foldl htree
      (fun hm hr hc' => ih (hdepth' _ hc') hm hr hc') (HashSet.nodup _) hentry (Set.mem_insert _ _)
      (fun child hc' => (hchildren child).mp hc')
      (fun child hc' => hfresh' child ((hchildren child).mp hc'))
    subst hrel'
    refine hfold.renameChild htree hsource htarget (Or.inl (Or.inr hrel)) (not_or.mpr ⟨hname, ?_⟩) hc
    rintro ⟨⟨child, hc', hsuffix⟩, -⟩
    obtain ⟨name', rfl⟩ := hbelow child ((hchildren child).mp hc')
    exact absurd hsuffix.length_le (by simp)

/-- **The end of a rename**: all entries have moved, and have their new name. -/
theorem view_eq (hsource : ¬ source <:+ target) (htarget : ¬ target <:+ source)
    (h : Moving tree source target (tree.Subtrees source [source])
      (tree.Subtrees source [source]) store) : store.view = tree.view.renamed source target := by
  have hmem : ∀ rel, rel ∈ tree.Subtrees source [source] ↔ (tree.view (rel ++ source)).isSome :=
    fun rel => and_iff_right ⟨source, List.mem_singleton_self _, List.suffix_append _ _⟩
  funext path
  by_cases ht : target <:+ path
  · obtain ⟨rel, rfl⟩ := ht
    rw [FileView.renamed_new]
    by_cases hs : (tree.view (rel ++ source)).isSome
    · exact (h.view_moved rel ((hmem rel).mpr hs)).2
    · rw [(h.view_left rel ((hmem rel).not.mpr hs)).2, Option.not_isSome_iff_eq_none.mp hs]
      rfl
  · by_cases hs : source <:+ path
    · obtain ⟨rel, rfl⟩ := hs
      rw [FileView.renamed_old hsource htarget]
      by_cases hs : (tree.view (rel ++ source)).isSome
      · exact (h.view_moved rel ((hmem rel).mpr hs)).1
      · rw [(h.view_left rel ((hmem rel).not.mpr hs)).1, Option.not_isSome_iff_eq_none.mp hs]
    · rw [FileView.renamed_other hs ht, h.view_other path hs ht]

theorem isTree (htree : tree.IsTree) (hsource : ¬ source <:+ target) (htarget : ¬ target <:+ source)
    (hs : (tree.view source).isSome) (hdir : tree.view.InDirectory target)
    (h : Moving tree source target (tree.Subtrees source [source])
      (tree.Subtrees source [source]) store) : IsTree ⟨store, tree.rootPath⟩ := by
  have hmem : ∀ rel, rel ∈ tree.Subtrees source [source] ↔ (tree.view (rel ++ source)).isSome :=
    fun rel => and_iff_right ⟨source, List.mem_singleton_self _, List.suffix_append _ _⟩
  have hview : view ⟨store, tree.rootPath⟩ = tree.view.renamed source target :=
    h.view_eq hsource htarget
  obtain ⟨parent, hparent, hparentDir⟩ := hdir
  have hkind : ∀ path : StandardizedPath, (∃ rel, path = rel ++ source) ∨
      (∃ rel, path = rel ++ target) ∨ (¬ source <:+ path ∧ ¬ target <:+ path) := by
    intro path
    by_cases hsp : source <:+ path
    · exact Or.inl (hsp.imp fun _ he => he.symm)
    · by_cases htp : target <:+ path
      · exact Or.inr (Or.inl (htp.imp fun _ he => he.symm))
      · exact Or.inr (Or.inr ⟨hsp, htp⟩)
  have hparentOther : ¬ source <:+ parent ∧ ¬ target <:+ parent :=
    ⟨fun hsp => hsource (StandardizedPath.suffix_of_parent hparent hsp),
      StandardizedPath.not_suffix_parent hparent⟩
  apply IsTree.of_view
  · rw [hview]
    intro path child
    rcases hkind path with ⟨rel, rfl⟩ | ⟨rel, rfl⟩ | ⟨hsp, htp⟩
    · have hno : child ∉ store.childSet (rel ++ source) := by
        by_cases hs : (tree.view (rel ++ source)).isSome
        · exact (h.child_moved rel ((hmem rel).mpr hs) child).1
        · rw [(h.child_left rel ((hmem rel).not.mpr hs) child).1]
          exact htree.not_mem_childSet (fun hex => hs (by
            obtain ⟨state, hstate⟩ := hex
            rw [hstate]
            rfl)) _
      refine iff_of_false hno ?_
      rintro ⟨-, -, state, hstate⟩
      rw [FileView.renamed_old hsource htarget] at hstate
      cases hstate
    · have hiff : child ∈ store.childSet (rel ++ target) ↔
          ∃ rel', rel' ++ source ∈ tree.childSet (rel ++ source) ∧ child = rel' ++ target := by
        by_cases hs : (tree.view (rel ++ source)).isSome
        · rw [(h.child_moved rel ((hmem rel).mpr hs) child).2]
          refine exists_congr fun rel' => and_congr_right fun hc => ?_
          have hs' := (hmem rel').mpr ((htree.child_iff _ _).mp hc).1
          simp [hs']
        · refine iff_of_false (h.child_left rel ((hmem rel).not.mpr hs) child).2 ?_
          rintro ⟨rel', hc, -⟩
          exact htree.not_mem_childSet (fun hex => hs (by
            obtain ⟨state, hstate⟩ := hex
            rw [hstate]
            rfl)) _ hc
      rw [show child ∈ childSet ⟨store, tree.rootPath⟩ (rel ++ target) ↔ _ from hiff,
        FileView.isDirectory_renamed_new]
      constructor
      · rintro ⟨rel', hc, rfl⟩
        obtain ⟨hs', hp, hd⟩ := (htree.child_iff _ _).mp hc
        obtain ⟨name, hname⟩ := StandardizedPath.parent_eq_some.mp hp
        obtain rfl : rel' = name :: rel := List.append_cancel_right hname
        rw [FileView.renamed_new, Option.isSome_map]
        exact ⟨hs', rfl, hd⟩
      · rintro ⟨hs', hp, hd⟩
        obtain ⟨name, rfl⟩ := StandardizedPath.parent_eq_some.mp hp
        rw [← List.cons_append, FileView.renamed_new, Option.isSome_map] at hs'
        exact ⟨name :: rel, (htree.child_iff _ _).mpr ⟨hs', rfl, hd⟩, rfl⟩
    · rw [show child ∈ childSet ⟨store, tree.rootPath⟩ path ↔ _ from h.child_other path hsp htp child,
        FileView.isDirectory_renamed_other hsp htp, htree.child_iff]
      have hnew : (tree.view.renamed source target target).isSome :=
        (congrArg Option.isSome (FileView.renamed_new [])).trans
          (by rw [Option.isSome_map]; exact hs)
      by_cases htc : child = target
      · subst htc
        constructor
        · rintro (⟨hp, -⟩ | ⟨-, -, hp, hd⟩)
          · obtain rfl := Option.some.inj (hparent.symm.trans hp)
            exact ⟨hnew, hp, hparentDir⟩
          · exact ⟨hnew, hp, hd⟩
        · exact fun hand => Or.inl ⟨hand.2.1, rfl⟩
      · rw [or_iff_right fun hand => htc hand.2]
        by_cases hsc : child = source
        · subst hsc
          refine iff_of_false (fun hand => hand.1 rfl) ?_
          rintro ⟨hs', -, -⟩
          rw [show tree.view.renamed child target child = none from
            FileView.renamed_old hsource htarget []] at hs'
          cases hs'
        · rw [and_iff_right hsc]
          refine and_congr_left fun hand => ?_
          obtain ⟨hp, -⟩ := hand
          rw [FileView.renamed_other
            (fun hh => ((StandardizedPath.suffix_iff_parent hp).mp hh).elim (Ne.symm hsc) hsp)
            fun hh => ((StandardizedPath.suffix_iff_parent hp).mp hh).elim (Ne.symm htc) htp]
  · rw [hview]
    intro path hp
    rcases hkind path with ⟨rel, rfl⟩ | ⟨rel, rfl⟩ | ⟨hsp, htp⟩
    · rw [FileView.renamed_old hsource htarget] at hp
      cases hp
    · right
      cases rel with
      | nil => exact ⟨parent, hparent,
          (FileView.isDirectory_renamed_other hparentOther.1 hparentOther.2).mpr hparentDir⟩
      | cons name rel =>
        rw [FileView.renamed_new, Option.isSome_map] at hp
        rcases htree.closed hp with hroot | ⟨parent', hp', hd⟩
        · have hle := (htree.below_root hs).length_le
          rw [← hroot] at hle
          simp only [List.cons_append, List.length_cons, List.length_append] at hle
          omega
        · obtain rfl := Option.some.inj hp'
          exact ⟨rel ++ target, rfl, (FileView.isDirectory_renamed_new rel).mpr hd⟩
    · rw [FileView.renamed_other hsp htp] at hp
      refine (htree.closed hp).imp_right fun hin => ?_
      obtain ⟨parent', hp', hd⟩ := hin
      refine ⟨parent', hp', ?_⟩
      exact (FileView.isDirectory_renamed_other
        (fun hsp' => hsp (StandardizedPath.suffix_of_parent hp' hsp'))
        fun htp' => htp (StandardizedPath.suffix_of_parent hp' htp')).mpr hd
  · rw [hview]
    intro path hp
    rcases hkind path with ⟨rel, rfl⟩ | ⟨rel, rfl⟩ | ⟨hsp, htp⟩
    · rw [FileView.renamed_old hsource htarget] at hp
      cases hp
    · exact (htree.below_root_of_inDirectory ⟨parent, hparent, hparentDir⟩).trans
        (List.suffix_append _ _)
    · rw [FileView.renamed_other hsp htp] at hp
      exact htree.below_root hp
  · rw [hview]
    intro path state hstate
    rcases hkind path with ⟨rel, rfl⟩ | ⟨rel, rfl⟩ | ⟨hsp, htp⟩
    · rw [FileView.renamed_old hsource htarget] at hstate
      cases hstate
    · rw [FileView.renamed_new] at hstate
      obtain ⟨state', -, rfl⟩ := Option.map_eq_some_iff.mp hstate
      exact FileTreeEntryState.path_setPath _ _
    · rw [FileView.renamed_other hsp htp] at hstate
      exact htree.stored path state hstate

/-- The start of a rename: the entry itself has moved, with its child set. -/
theorem start (htree : tree.IsTree) (hsource : ¬ source <:+ target) {item : FileTreeEntryState}
    {parent : StandardizedPath} (hitem : tree.view source = some item)
    (hparent : target.parent = some parent) (hdir : tree.view.IsDirectory parent)
    (hfree : ∀ child, child ∉ tree.childSet target)
    (hview : store.view = Function.update (Function.update tree.view source none) target
      (some (item.setPath target)))
    (hchild : ∀ path child, child ∈ store.childSet path ↔
      (path = target ∧ child ∈ tree.childSet source) ∨ (path ≠ target ∧ path ≠ source ∧
        ((path = parent ∧ child = target) ∨ (child ≠ source ∧ child ∈ tree.childSet path)))) :
    Moving tree source target {[]} {[]} store := by
  have htarget : ¬ target <:+ source := by
    intro hsuffix
    obtain ⟨child, hc, -⟩ := htree.below_child (htree.below_root_of_inDirectory ⟨parent, hparent, hdir⟩)
      (by rw [hitem]; rfl) hsuffix fun he => hsource (he ▸ List.suffix_refl _)
    exact hfree child hc
  have hst := StandardizedPath.append_ne_append hsource htarget
  have hempty : ∀ rel ≠ [], tree.view (rel ++ target) = none := by
    intro rel hrel
    by_contra hs
    obtain ⟨child, hc, -⟩ := htree.below_child (htree.below_root_of_inDirectory ⟨parent, hparent, hdir⟩)
      (Option.isSome_iff_ne_none.mpr hs) (List.suffix_append _ _) (by simpa using hrel)
    exact hfree child hc
  have hne : ∀ {rel base : List String}, rel ≠ [] → rel ++ base ≠ base := by
    intro rel base hrel
    simpa using hrel
  have hst' : ∀ rel, rel ++ source ≠ target := fun rel => hst rel []
  have hts' : ∀ rel, rel ++ target ≠ source := fun rel => (hst [] rel).symm
  have hsourceParent : ∀ rel, rel ++ source ≠ parent := by
    rintro rel rfl
    exact hsource (StandardizedPath.suffix_of_parent hparent (List.suffix_append _ _))
  have htargetParent : ∀ rel, rel ++ target ≠ parent := by
    rintro rel rfl
    exact StandardizedPath.not_suffix_parent hparent (List.suffix_append _ _)
  constructor
  · rintro rel rfl
    rw [hview]
    refine ⟨?_, ?_⟩
    · exact (Function.update_of_ne (hst' []) _ _).trans (Function.update_self _ _ _)
    · exact (Function.update_self _ _ _).trans (congrArg (Option.map _) hitem.symm)
  · intro rel hrel
    rw [hview, Function.update_of_ne (hst' rel), Function.update_of_ne (hne hrel),
      Function.update_of_ne (hne hrel), Function.update_of_ne (hts' rel)]
    exact ⟨rfl, hempty rel hrel⟩
  · intro path hs ht
    rw [hview, Function.update_of_ne, Function.update_of_ne]
    · rintro rfl
      exact hs (List.suffix_refl _)
    · rintro rfl
      exact ht (List.suffix_refl _)
  · rintro rel rfl child
    rw [hchild, hchild]
    refine ⟨?_, ?_⟩
    · simpa using fun he => absurd he (hst' [])
    · simp only [List.nil_append, ne_eq, not_true, false_and, or_false, true_and,
        Set.mem_singleton_iff]
      constructor
      · intro hc
        obtain ⟨name, hname⟩ := StandardizedPath.parent_eq_some.mp ((htree.child_iff _ _).mp hc).2.1
        exact ⟨[name], by simpa [← hname] using hc, Or.inr ⟨by simp, by simpa using hname⟩⟩
      · rintro ⟨rel', hc, ⟨rfl, -⟩ | ⟨-, rfl⟩⟩
        · exact absurd ((htree.child_iff _ _).mp hc).2.1 (by
            intro hp
            exact StandardizedPath.not_suffix_parent hp (List.suffix_refl _))
        · exact hc
  · intro rel hrel child
    rw [hchild, hchild]
    refine ⟨?_, ?_⟩
    · simp only [hst' rel, hne hrel, hsourceParent rel, false_and, false_or, ne_eq, not_false_eq_true,
        true_and]
      refine and_iff_right_of_imp ?_
      rintro hc rfl
      exact StandardizedPath.not_suffix_parent ((htree.child_iff _ _).mp hc).2.1
        (List.suffix_append _ _)
    · simp only [hts' rel, hne hrel, htargetParent rel, false_and, false_or, ne_eq, not_false_eq_true,
        true_and, not_and]
      intro _ hc
      obtain ⟨-, -, state, hstate⟩ := (htree.child_iff _ _).mp hc
      rw [hempty rel hrel] at hstate
      cases hstate
  · intro path hs ht child
    have hps : path ≠ source := by
      rintro rfl
      exact hs (List.suffix_refl _)
    have hpt : path ≠ target := by
      rintro rfl
      exact ht (List.suffix_refl _)
    rw [hchild, hparent, Option.some.injEq]
    simp [hps, hpt, eq_comm]

end Moving

/-! ## A rename to the same path -/

/-- The store while the subtree of a path moves to the same path: the sets of the parents lack the
entries that are on their way. -/
structure Kept (tree : FileTreeEntry) (moving : List StandardizedPath) (store : FileTreeMapStore) :
    Prop where
  view_eq : store.view = tree.view
  child_iff : ∀ path child, child ∈ store.childSet path ↔
    child ∈ tree.childSet path ∧ child ∉ moving
  key : ∀ path child, child ∈ tree.childSet path → (store.parentToChildMap.get path).isSome

namespace Kept

variable {moving : List StandardizedPath} {store : FileTreeMapStore}

theorem isTree (htree : tree.IsTree) (h : Kept tree [] store) : IsTree ⟨store, tree.rootPath⟩ := by
  have hview : view ⟨store, tree.rootPath⟩ = tree.view := h.view_eq
  apply IsTree.of_view
  · intro path child
    rw [hview, ← htree.child_iff]
    exact (h.child_iff path child).trans (and_iff_left List.not_mem_nil)
  · rw [hview]
    exact fun path => htree.closed
  · rw [hview]
    exact fun path => htree.below_root
  · rw [hview]
    exact htree.stored

theorem moveChildren (h : Kept tree moving store) (path : StandardizedPath) :
    Kept tree moving (store.moveChildren path path) := by
  constructor
  · rw [FileTreeMapStore.view_moveChildren, h.view_eq]
  · intro path' child
    rw [FileTreeMapStore.mem_childSet_moveChildren fun hne => absurd rfl hne, ← h.child_iff]
    by_cases he : path' = path <;> simp [he]
  · intro path' child hc
    have hkey := h.key path' child hc
    rw [FileTreeMapStore.moveChildren]
    split
    · exact hkey
    · rw [HashMap.get_insert]
      split
      · rfl
      · rename_i hne
        rw [HashMap.get_remove_of_ne _ hne]
        exact hkey

/-- The state of an entry is taken out and put back. -/
theorem moveEntry (htree : tree.IsTree) (h : Kept tree moving store) {path : StandardizedPath}
    {item : FileTreeEntryState} (hitem : tree.view path = some item) :
    Kept tree (path :: moving) { (store.removeItemAndParent path).2 with
      stateMap := (store.removeItemAndParent path).2.stateMap.insert path (item.setPath path) } := by
  have hset : item.setPath path = item := by
    obtain rfl := htree.stored path item hitem
    cases item <;> rfl
  constructor
  · rw [FileTreeMapStore.view_insert, hset, ← hitem, ← h.view_eq]
    funext path'
    rw [Function.update_apply, FileTreeMapStore.view_removeItemAndParent]
    split
    · rename_i he
      rw [he]
    · rfl
  · intro path' child
    refine FileTreeMapStore.mem_childSet_removeItemAndParent.trans ?_
    rw [h.child_iff, h.view_eq, List.mem_cons, not_or, and_assoc]
    refine and_congr_right fun hc => and_comm.trans (and_congr_left fun _ => not_congr ?_)
    refine and_iff_left_of_imp ?_
    rintro rfl
    exact ((htree.child_iff _ _).mp hc).2
  · intro path' child hc
    have hkey := h.key path' child hc
    rw [FileTreeMapStore.removeItemAndParent]
    split
    · rw [FileTreeMapStore.modifyChildren, HashMap.get_insert]
      split
      · rfl
      · exact hkey
    · exact hkey

theorem renameChild {path parent : StandardizedPath} (h : Kept tree (path :: moving) store)
    (hc : path ∈ tree.childSet parent) (hparent : path.parent = some parent) (hmoving : path ∉ moving)
    (htree : tree.IsTree) : Kept tree moving (store.renameChild path path) := by
  constructor
  · rw [FileTreeMapStore.view_renameChild, h.view_eq]
  · intro path' child
    rw [FileTreeMapStore.mem_childSet_renameChild hparent (h.key _ _ hc), h.child_iff, List.mem_cons]
    by_cases he : child = path
    · subst he
      simp only [true_or, not_true, and_false, false_and, or_false, and_true]
      refine ⟨?_, fun hand => ?_⟩
      · rintro rfl
        exact ⟨hc, hmoving⟩
      · exact Option.some.inj (((htree.child_iff _ _).mp hand.1).2.1.symm.trans hparent)
    · simp [he]
  · intro path' child hc'
    rw [FileTreeMapStore.renameChild, hparent]
    simp only
    rw [HashMap.get_modify]
    split
    · rw [Option.isSome_map]
      exact h.key path' child hc'
    · exact h.key path' child hc'

/-- The first step of a rename puts the path back in the set of its parent. -/
theorem startRename (htree : tree.IsTree) {path parent : StandardizedPath}
    {item : FileTreeEntryState} (hitem : tree.view path = some item)
    (hparent : path.parent = some parent) (hc : path ∈ tree.childSet parent) :
    Kept tree [] (tree.stateMap.startRename path path parent item) := by
  have hkept : Kept tree [] tree.stateMap :=
    ⟨rfl, fun _ _ => (and_iff_left List.not_mem_nil).symm,
      fun _ _ => FileTreeMapStore.key_of_mem_childSet⟩
  have hentry := hkept.moveEntry htree hitem
  constructor
  · exact hentry.view_eq
  · intro path' child
    rw [FileTreeMapStore.startRename, FileTreeMapStore.childSet_modifyChildren,
      and_iff_left List.not_mem_nil]
    split
    · rename_i he
      rw [HashSet.mem_insert, hentry.child_iff, List.mem_singleton, he]
      by_cases hcp : child = path
      · simp [hcp, hc]
      · simp [hcp]
    · rename_i hne
      rw [hentry.child_iff, List.mem_singleton]
      refine and_iff_left_of_imp ?_
      rintro hc' rfl
      exact hne (Option.some.inj (((htree.child_iff _ _).mp hc').2.1.symm.trans hparent))
  · intro path' child hc'
    rw [FileTreeMapStore.startRename, FileTreeMapStore.modifyChildren, HashMap.get_insert]
    split
    · rfl
    · exact hentry.key path' child hc'

theorem foldl {step : FileTreeMapStore → StandardizedPath → FileTreeMapStore}
    {children : List StandardizedPath} (h : Kept tree moving store)
    (hstep : ∀ {store : FileTreeMapStore}, ∀ child ∈ children, Kept tree moving store →
      Kept tree moving (step store child)) : Kept tree moving (children.foldl step store) := by
  induction children generalizing store with
  | nil => exact h
  | cons child children ih =>
    rw [List.foldl_cons]
    exact ih (hstep child List.mem_cons_self h) fun child' hc' h' =>
      hstep child' (List.mem_cons_of_mem _ hc') h'

/-- A call of `update_paths_recursive` changes nothing when the paths stay the same. -/
theorem updatePathsRecursive (htree : tree.IsTree) {fuel : ℕ} : ∀ {moving : List StandardizedPath}
    {store : FileTreeMapStore} {rel : List String} {parent : StandardizedPath},
    Kept tree moving store → rel ++ source ∈ tree.childSet parent → rel ++ source ∉ moving →
    Kept tree moving
      (FileTreeMapStore.updatePathsRecursive source source fuel store (rel ++ source)) := by
  induction fuel with
  | zero => exact fun h _ _ => h
  | succ fuel ih =>
    intro moving store rel parent h hc hmoving
    obtain ⟨hs, hparent, -⟩ := (htree.child_iff _ _).mp hc
    obtain ⟨item, hitem⟩ := Option.isSome_iff_exists.mp hs
    rw [FileTreeMapStore.updatePathsRecursive_succ fuel (by rw [h.view_eq, hitem])]
    have hentry := h.moveEntry htree hitem
    refine renameChild (foldl (hentry.moveChildren _) ?_) hc hparent hmoving htree
    intro store' child hchild h'
    obtain ⟨hc', hno⟩ := (hentry.child_iff _ _).mp hchild
    obtain ⟨name, rfl⟩ := StandardizedPath.parent_eq_some.mp ((htree.child_iff _ _).mp hc').2.1
    rw [← List.cons_append] at hc' hno ⊢
    exact ih h' hc' hno

end Kept

/-! ## `rename_path` -/

namespace IsTree

/-- A rename to the same path changes nothing. -/
theorem renamePath_self (h : tree.IsTree) {path : StandardizedPath}
    (hs : (tree.view path).isSome) (hdir : tree.view.InDirectory path) :
    (tree.renamePath path path).2.IsTree ∧ (tree.renamePath path path).2.view = tree.view := by
  obtain ⟨item, hitem⟩ := Option.isSome_iff_exists.mp hs
  obtain ⟨parent, hparent, hparentDir⟩ := hdir
  have hc : path ∈ tree.childSet parent := (h.child_iff _ _).mpr ⟨hs, hparent, hparentDir⟩
  have hstart := Kept.startRename h hitem hparent hc
  have hstore := congrArg Prod.snd
    (FileTreeMapStore.renamePath_eq hitem hparent hparentDir)
  have hkept : Kept tree [] (tree.stateMap.renamePath path path).2 := by
    rw [hstore]
    split
    · refine (hstart.moveChildren path).foldl fun child hchild h' => ?_
      have hc' := ((hstart.child_iff _ _).mp hchild).1
      obtain ⟨name, rfl⟩ := StandardizedPath.parent_eq_some.mp ((h.child_iff _ _).mp hc').2.1
      exact @Kept.updatePathsRecursive _ _ h _ _ _ [name] _ h' hc' List.not_mem_nil
    · exact hstart
  exact ⟨hkept.isTree h, hkept.view_eq⟩

theorem renamed_self (h : tree.IsTree) (path : StandardizedPath) :
    tree.view.renamed path path = tree.view := by
  funext path'
  by_cases hsuffix : path <:+ path'
  · obtain ⟨rel, rfl⟩ := hsuffix
    rw [FileView.renamed_new]
    cases hstate : tree.view (rel ++ path) with
    | none => rfl
    | some state =>
      rw [Option.map_some, ← h.stored _ _ hstate]
      cases state <;> rfl
  · exact FileView.renamed_other hsuffix hsuffix

/-- **`rename_path` moves exactly the subtree of the old path**: the new path is in no subtree that
moves, and has no children. -/
theorem renamePath (h : tree.IsTree) {path newPath : StandardizedPath}
    (hpath : (tree.view path).isSome → tree.view.InDirectory newPath →
      newPath = path ∨ (¬ path <:+ newPath ∧ ∀ child, child ∉ tree.childSet newPath)) :
    (tree.renamePath path newPath).2.IsTree ∧
      (tree.renamePath path newPath).2.view = tree.view.renamePath path newPath := by
  rw [FileView.renamePath]
  by_cases hboth : (tree.view path).isSome ∧ tree.view.InDirectory newPath
  swap
  · rw [if_neg hboth, FileTreeEntry.renamePath, mapStore,
      FileTreeMapStore.renamePath_of_not hboth]
    exact ⟨h, rfl⟩
  obtain ⟨hs, hdir⟩ := hboth
  rw [if_pos ⟨hs, hdir⟩]
  rcases hpath hs hdir with rfl | ⟨hsource, hfree⟩
  · rw [h.renamed_self]
    exact h.renamePath_self hs hdir
  obtain ⟨item, hitem⟩ := Option.isSome_iff_exists.mp hs
  obtain ⟨parent, hparent, hparentDir⟩ := hdir
  have htarget : ¬ newPath <:+ path := by
    intro hsuffix
    obtain ⟨child, hc, -⟩ := h.below_child
      (h.below_root_of_inDirectory ⟨parent, hparent, hparentDir⟩) hs hsuffix
      fun he => hsource (he ▸ List.suffix_refl _)
    exact hfree child hc
  have hne : parent ≠ newPath := by
    rintro rfl
    exact StandardizedPath.not_suffix_parent hparent (List.suffix_refl _)
  have hne' : parent ≠ path := by
    rintro rfl
    exact hsource (StandardizedPath.suffix_of_parent hparent (List.suffix_refl _))
  have hset : ∀ path' child, child ∈ (tree.stateMap.startRename path newPath parent item).childSet
      path' ↔ (path' = parent ∧ child = newPath) ∨ (child ≠ path ∧ child ∈ tree.childSet path') := by
    intro path' child
    rw [FileTreeMapStore.mem_childSet_startRename]
    refine or_congr_right (and_comm.trans (and_congr_left fun hc => not_congr ?_))
    refine and_iff_left_of_imp ?_
    rintro rfl
    exact ((h.child_iff _ _).mp hc).2
  have hview := tree.stateMap.view_startRename path newPath parent item
  have hstore := congrArg Prod.snd
    (FileTreeMapStore.renamePath_eq hitem hparent hparentDir)
  have hmoving : Moving tree path newPath (tree.Subtrees path [path]) (tree.Subtrees path [path])
      (tree.stateMap.renamePath path newPath).2 := by
    rw [hstore]
    split
    · rename_i hd
      have hchildren : ∀ child, child ∈ ((tree.stateMap.startRename path newPath parent item).childSet
          path).elements ↔ child ∈ tree.childSet ([] ++ path) := by
        intro child
        rw [HashSet.mem_elements, hset, or_iff_right fun hand => hne' hand.1.symm]
        refine and_iff_right_of_imp ?_
        rintro hc rfl
        exact StandardizedPath.not_suffix_parent ((h.child_iff _ _).mp hc).2.1 (List.suffix_refl _)
      have hsub : tree.Subtrees path [path] = _ :=
        @IsTree.subtrees_singleton _ _ h [] hs _ hchildren
      have hstart : Moving tree path newPath {[]} {[]}
          ((tree.stateMap.startRename path newPath parent item).moveChildren path newPath) := by
        refine Moving.start h hsource hitem hparent hparentDir hfree
          ((FileTreeMapStore.view_moveChildren _ _).trans hview) fun path' child => ?_
        rw [FileTreeMapStore.mem_childSet_moveChildren, hset path', ← HashSet.mem_elements, hchildren]
        · rfl
        · intro _ child' hc'
          rcases (hset _ _).mp hc' with ⟨he, -⟩ | ⟨-, hc'⟩
          · exact hne he.symm
          · exact hfree child' hc'
      have hfold := hstart.foldl h (fun hm hr hc => Moving.updatePathsRecursive h hsource
          htarget (fun path' _ hs' => Nat.lt_of_lt_of_le (Nat.lt_succ_of_le
            (FileTreeMapStore.le_maxDepth hs')) (Nat.le_add_left _ _)) hm hr hc)
        (HashSet.nodup _) rfl (fun child hc => (hchildren child).mp hc) ?_
      · rw [hsub, Set.insert_eq]
        exact hfold
      · intro child hc rel hsuffix
        obtain ⟨name, rfl⟩ := StandardizedPath.parent_eq_some.mp
          ((h.child_iff _ _).mp ((hchildren child).mp hc)).2.1
        have hrel : rel ∉ ({[]} : Set (List String)) := by
          rintro rfl
          exact absurd hsuffix.length_le (by simp)
        exact ⟨hrel, hrel⟩
    · rename_i hfile
      have hnone : ∀ child, child ∉ tree.childSet path := by
        refine h.not_mem_childSet fun hd => hfile ?_
        obtain ⟨state, hstate⟩ := hd
        obtain rfl := Option.some.inj (hitem.symm.trans hstate)
        rfl
      have hsub : tree.Subtrees path [path] = {[]} := by
        refine (@IsTree.subtrees_singleton _ _ h [] hs [] fun child => ?_).trans ?_
        · exact iff_of_false List.not_mem_nil (hnone child)
        · rw [subtrees_nil]
          exact LawfulSingleton.insert_empty_eq []
      rw [hsub]
      refine Moving.start h hsource hitem hparent hparentDir hfree hview fun path' child => ?_
      rw [hset]
      by_cases he : path' = newPath
      · subst he
        simp [hne.symm, hfree, hnone]
      · by_cases he' : path' = path
        · subst he'
          simp [hne'.symm, hnone]
        · simp [he, he']
  exact ⟨hmoving.isTree h hsource htarget hs ⟨parent, hparent, hparentDir⟩,
    hmoving.view_eq hsource htarget⟩

end IsTree

end FileTreeEntry

end Clinch
