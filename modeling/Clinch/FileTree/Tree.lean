import Clinch.FileTree.Store

/-!
# The file tree store is a tree

What a file tree says is its view: the state of each path, if it has one. The two maps of the store
keep one tree when the child sets are the ones that the view gives.

* `FileView`: the abstract file tree, and its operations;
* `FileTreeEntry.IsTree`: child sets and states agree, and every entry is reachable from the root;
* `IsTree.insertChildState`, `IsTree.applyNode`, `IsTree.ensureParentDirectoriesExist`: the
  insertions keep the tree, and act on the view alone.
-/

set_option autoImplicit false

namespace Clinch

namespace StandardizedPath

theorem parent_eq_some {path parent : StandardizedPath} :
    path.parent = some parent ↔ ∃ name, path = name :: parent := by
  cases path with
  | nil => simp [StandardizedPath.parent]
  | cons name path => simp [StandardizedPath.parent]

theorem suffix_of_parent {path parent base : StandardizedPath} (hp : path.parent = some parent)
    (h : base <:+ parent) : base <:+ path := by
  obtain ⟨name, rfl⟩ := parent_eq_some.mp hp
  exact h.trans (List.suffix_cons name parent)

/-- A path below `base` is `base`, or its parent is below `base`. -/
theorem suffix_iff_parent {path parent base : StandardizedPath} (hp : path.parent = some parent) :
    base <:+ path ↔ base = path ∨ base <:+ parent := by
  obtain ⟨name, rfl⟩ := parent_eq_some.mp hp
  exact List.suffix_cons_iff

theorem not_suffix_parent {path parent : StandardizedPath} (hp : path.parent = some parent) :
    ¬ path <:+ parent := by
  obtain ⟨name, rfl⟩ := parent_eq_some.mp hp
  exact fun h => absurd h.length_le (by simp)

end StandardizedPath

/-- The abstract file tree: the state of each path. -/
abbrev FileView := StandardizedPath → Option FileTreeEntryState

namespace FileView

/-- The path has a directory. -/
def IsDirectory (view : FileView) (path : StandardizedPath) : Prop :=
  ∃ state, view path = some (.directory state)

instance (view : FileView) (path : StandardizedPath) : Decidable (view.IsDirectory path) :=
  match h : view path with
  | none => isFalse fun ⟨_, hs⟩ => nomatch h.symm.trans hs
  | some (.file _) => isFalse fun ⟨_, hs⟩ => nomatch h.symm.trans hs
  | some (.directory state) => isTrue ⟨state, h⟩

/-- The directory that a path is in, if it is there. -/
def InDirectory (view : FileView) (path : StandardizedPath) : Prop :=
  ∃ parent, path.parent = some parent ∧ view.IsDirectory parent

instance (view : FileView) (path : StandardizedPath) : Decidable (view.InDirectory path) :=
  match h : path.parent with
  | none => isFalse fun ⟨_, hp, _⟩ => nomatch h.symm.trans hp
  | some parent => decidable_of_iff (view.IsDirectory parent)
      ⟨fun hd => ⟨parent, h, hd⟩, fun ⟨_, hp, hd⟩ => Option.some.inj (h.symm.trans hp) ▸ hd⟩

/-- The view after a state is put at its path. -/
def put (view : FileView) (state : FileTreeEntryState) : FileView :=
  Function.update view state.path (some state)

theorem put_self (view : FileView) (state : FileTreeEntryState) :
    view.put state state.path = some state := Function.update_self ..

theorem put_of_ne (view : FileView) {state : FileTreeEntryState} {path : StandardizedPath}
    (h : path ≠ state.path) : view.put state path = view path := Function.update_of_ne h _ _

/-- The view after the subtree of an entry is taken out. -/
def removed (view : FileView) (path : StandardizedPath) : FileView :=
  fun path' => if path <:+ path' ∧ (view path).isSome then none else view path'

end FileView

namespace FileTreeMapStore

/-- What the store says. -/
def view (store : FileTreeMapStore) : FileView := store.get

variable {store : FileTreeMapStore}

theorem getAsDirectory_isSome {path : StandardizedPath} :
    (store.getAsDirectory path).isSome = true ↔ store.view.IsDirectory path := by
  rw [getAsDirectory, FileView.IsDirectory, view]
  cases h : store.get path with
  | none => simp
  | some state => cases state <;> simp [FileTreeEntryState.asDirectory]

theorem parentDirectory_eq_some {path parent : StandardizedPath} :
    store.parentDirectory path = some parent ↔
      path.parent = some parent ∧ store.view.IsDirectory parent := by
  rw [parentDirectory, Option.filter_eq_some_iff, getAsDirectory_isSome]

theorem parentDirectory_eq_none {path : StandardizedPath} :
    store.parentDirectory path = none ↔ ¬ store.view.InDirectory path := by
  rw [Option.eq_none_iff_forall_ne_some]
  exact ⟨fun h ⟨parent, hp⟩ => h parent (parentDirectory_eq_some.mpr hp),
    fun h parent hp => h ⟨parent, parentDirectory_eq_some.mp hp⟩⟩

@[simp] theorem view_modifyChildren {parent : StandardizedPath}
    {f : HashSet StandardizedPath → HashSet StandardizedPath} :
    (store.modifyChildren parent f).view = store.view := rfl

theorem childSet_modifyChildren (parent : StandardizedPath)
    (f : HashSet StandardizedPath → HashSet StandardizedPath) (path : StandardizedPath) :
    (store.modifyChildren parent f).childSet path =
      if path = parent then f (store.childSet path) else store.childSet path := by
  rw [modifyChildren, childSet, HashMap.get_insert]
  split
  · rename_i h
    rw [h]
    rfl
  · rfl

/-- `insert_child` below a directory. -/
theorem insertChild_eq {parent : StandardizedPath} (h : store.view.IsDirectory parent)
    (child : FileTreeEntryState) : store.insertChild parent child =
      modifyChildren { store with stateMap := store.stateMap.insert child.path child } parent
        (·.insert child.path) := by
  rw [insertChild]
  rw [← getAsDirectory_isSome, Option.isSome_iff_exists] at h
  obtain ⟨state, h⟩ := h
  rw [h]

theorem insertChild_of_not {parent : StandardizedPath} (h : ¬ store.view.IsDirectory parent)
    (child : FileTreeEntryState) : store.insertChild parent child = store := by
  rw [insertChild]
  rw [← getAsDirectory_isSome, Option.not_isSome_iff_eq_none] at h
  rw [h]

theorem view_insertChild {parent : StandardizedPath} (h : store.view.IsDirectory parent)
    (child : FileTreeEntryState) : (store.insertChild parent child).view = store.view.put child := by
  rw [insertChild_eq h]
  funext path
  rw [view_modifyChildren, view, get, HashMap.get_insert, FileView.put, Function.update_apply]
  rfl

theorem childSet_insertChild {parent : StandardizedPath} (h : store.view.IsDirectory parent)
    (child : FileTreeEntryState) (path : StandardizedPath) :
    (store.insertChild parent child).childSet path =
      if path = parent then (store.childSet path).insert child.path else store.childSet path := by
  rw [insertChild_eq h, childSet_modifyChildren]
  rfl

end FileTreeMapStore

namespace FileTreeEntry

def view (tree : FileTreeEntry) : FileView := tree.stateMap.view

/-- The child set of a path. -/
def childSet (tree : FileTreeEntry) (path : StandardizedPath) : HashSet StandardizedPath :=
  tree.stateMap.childSet path

/-- The entries that are reached from the root through the child sets. -/
inductive Reachable (tree : FileTreeEntry) : StandardizedPath → Prop
  | root : (tree.view tree.rootPath).isSome → Reachable tree tree.rootPath
  | child {path child : StandardizedPath} : Reachable tree path → child ∈ tree.childSet path →
    Reachable tree child

/-- **The store is one tree.** -/
structure IsTree (tree : FileTreeEntry) : Prop where
  child_iff : ∀ path child, child ∈ tree.childSet path ↔
    (tree.view child).isSome ∧ child.parent = some path ∧ tree.view.IsDirectory path
  reachable : ∀ path, (tree.view path).isSome → tree.Reachable path
  stored : ∀ path state, tree.view path = some state → state.path = path

variable {tree : FileTreeEntry}

namespace IsTree

/-- Every entry but the root is in a directory. -/
theorem closed (h : tree.IsTree) {path : StandardizedPath} (hp : (tree.view path).isSome) :
    path = tree.rootPath ∨ tree.view.InDirectory path := by
  cases h.reachable path hp with
  | root => exact Or.inl rfl
  | child _ hc =>
    obtain ⟨-, hparent, hdir⟩ := (h.child_iff _ _).mp hc
    exact Or.inr ⟨_, hparent, hdir⟩

theorem below_root (h : tree.IsTree) {path : StandardizedPath} (hp : (tree.view path).isSome) :
    tree.rootPath <:+ path := by
  induction h.reachable path hp with
  | root => exact List.suffix_refl _
  | child _ hc ih =>
    obtain ⟨-, hparent, state, hstate⟩ := (h.child_iff _ _).mp hc
    exact StandardizedPath.suffix_of_parent hparent (ih (by rw [hstate]; rfl))

/-- A tree is given by its view. -/
theorem of_view (hchild : ∀ path child, child ∈ tree.childSet path ↔
      (tree.view child).isSome ∧ child.parent = some path ∧ tree.view.IsDirectory path)
    (hclosed : ∀ path, (tree.view path).isSome →
      path = tree.rootPath ∨ tree.view.InDirectory path)
    (hbelow : ∀ path, (tree.view path).isSome → tree.rootPath <:+ path)
    (hstored : ∀ path state, tree.view path = some state → state.path = path) : tree.IsTree where
  child_iff := hchild
  stored := hstored
  reachable path hp := by
    induction path with
    | nil =>
      have hroot : tree.rootPath = [] := List.suffix_nil.mp (hbelow _ hp)
      rw [← hroot] at hp ⊢
      exact .root hp
    | cons name path ih =>
      rcases hclosed _ hp with hroot | ⟨parent, hparent, hdir⟩
      · rw [hroot] at hp ⊢
        exact .root hp
      · obtain rfl : path = parent := Option.some.inj hparent
        obtain ⟨state, hstate⟩ := hdir
        exact .child (ih (by rw [hstate]; rfl)) ((hchild _ _).mpr ⟨hp, rfl, state, hstate⟩)

theorem not_mem_childSet (h : tree.IsTree) {path : StandardizedPath}
    (hp : ¬ tree.view.IsDirectory path) (child : StandardizedPath) :
    child ∉ tree.childSet path := fun hc => hp ((h.child_iff _ _).mp hc).2.2

/-- The root is in no directory of the tree. -/
theorem root_not_inDirectory (h : tree.IsTree) : ¬ tree.view.InDirectory tree.rootPath := by
  rintro ⟨parent, hparent, state, hstate⟩
  exact StandardizedPath.not_suffix_parent hparent (h.below_root (by rw [hstate]; rfl))

theorem below_root_of_inDirectory (h : tree.IsTree) {path : StandardizedPath}
    (hp : tree.view.InDirectory path) : tree.rootPath <:+ path := by
  obtain ⟨parent, hparent, state, hstate⟩ := hp
  exact StandardizedPath.suffix_of_parent hparent (h.below_root (by rw [hstate]; rfl))

/-! ## Insertions -/

/-- A new state takes its place in the tree, unless it is a file in the place of a directory that
has children. -/
theorem insertChildState (h : tree.IsTree) {parent : StandardizedPath} {child : FileTreeEntryState}
    (hdir : tree.view.IsDirectory parent) (hparent : child.path.parent = some parent)
    (hfile : child.asDirectory = none → ∀ path, path ∉ tree.childSet child.path) :
    (tree.insertChildState parent child).IsTree := by
  have hget : (tree.insertChildState parent child).view = tree.view.put child :=
    FileTreeMapStore.view_insertChild hdir child
  have hne : parent ≠ child.path := by
    rintro rfl
    exact StandardizedPath.not_suffix_parent hparent (List.suffix_refl _)
  -- the directories stay directories, except where a file takes the place of one
  have hkeep : ∀ path, path ≠ child.path →
      ((tree.view.put child).IsDirectory path ↔ tree.view.IsDirectory path) := fun path hp => by
    rw [FileView.IsDirectory, FileView.put_of_ne _ hp, FileView.IsDirectory]
  apply of_view
  · intro path child'
    have hset : (tree.insertChildState parent child).childSet path =
        if path = parent then (tree.childSet path).insert child.path else tree.childSet path :=
      FileTreeMapStore.childSet_insertChild hdir child path
    have hold : child' ∈ (tree.insertChildState parent child).childSet path ↔
        (path = parent ∧ child' = child.path) ∨ child' ∈ tree.childSet path := by
      rw [hset]
      split <;> simp [*]
    rw [hold, hget]
    by_cases hc : child' = child.path
    · subst hc
      rw [FileView.put_self, hparent]
      constructor
      · rintro (⟨rfl, -⟩ | hmem)
        · exact ⟨rfl, rfl, (hkeep _ hne).mpr hdir⟩
        · obtain ⟨-, hp, hd⟩ := (h.child_iff _ _).mp hmem
          obtain rfl : parent = path := Option.some.inj (hparent.symm.trans hp)
          exact ⟨rfl, rfl, (hkeep _ hne).mpr hd⟩
      · rintro ⟨-, hp, -⟩
        exact Or.inl ⟨(Option.some.inj hp).symm, rfl⟩
    · rw [FileView.put_of_ne _ hc, or_iff_right fun hand => hc hand.2, h.child_iff]
      refine and_congr_right fun hsome => and_congr_right fun hp => ?_
      by_cases hpath : path = child.path
      · subst hpath
        constructor
        · intro hd
          cases hchild : child.asDirectory with
          | none => exact absurd ((h.child_iff _ _).mpr ⟨hsome, hp, hd⟩) (hfile hchild _)
          | some state =>
            cases child with
            | file metadata => exact nomatch hchild
            | directory state => exact ⟨state, FileView.put_self _ _⟩
        · intro hd
          -- an entry below the path is in a directory of the old tree
          rcases h.closed hsome with rfl | ⟨parent', hp', hd'⟩
          · refine absurd (h.below_root_of_inDirectory ⟨parent, hparent, hdir⟩) ?_
            exact StandardizedPath.not_suffix_parent hp
          · exact Option.some.inj (hp'.symm.trans hp) ▸ hd'
      · exact (hkeep path hpath).symm
  · intro path hp
    rw [hget] at hp ⊢
    by_cases hc : path = child.path
    · exact Or.inr ⟨parent, hc ▸ hparent, (hkeep _ hne).mpr hdir⟩
    · rw [FileView.put_of_ne _ hc] at hp
      rcases h.closed hp with hroot | ⟨parent', hp', hd'⟩
      · exact Or.inl hroot
      · refine Or.inr ⟨parent', hp', ?_⟩
        by_cases hpath : parent' = child.path
        · subst hpath
          cases hchild : child.asDirectory with
          | none => exact absurd ((h.child_iff _ _).mpr ⟨hp, hp', hd'⟩) (hfile hchild _)
          | some state =>
            cases child with
            | file metadata => exact nomatch hchild
            | directory state => exact ⟨state, FileView.put_self _ _⟩
        · exact (hkeep _ hpath).mpr hd'
  · intro path hp
    rw [hget] at hp
    by_cases hc : path = child.path
    · exact hc ▸ h.below_root_of_inDirectory ⟨parent, hparent, hdir⟩
    · rw [FileView.put_of_ne _ hc] at hp
      exact h.below_root hp
  · intro path state hs
    rw [hget] at hs
    by_cases hc : path = child.path
    · rw [hc, FileView.put_self, Option.some.injEq] at hs
      rw [← hs, hc]
    · rw [FileView.put_of_ne _ hc] at hs
      exact h.stored path state hs

end IsTree

end FileTreeEntry

/-! ## Updates -/

namespace FileTreeEntryState

@[simp] theorem path_setIgnored (state : FileTreeEntryState) (ignored : Bool) :
    (state.setIgnored ignored).path = state.path := by cases state <;> rfl

theorem isSome_asDirectory_setIgnored (state : FileTreeEntryState) (ignored : Bool) :
    (state.setIgnored ignored).asDirectory.isSome = state.asDirectory.isSome := by
  cases state <;> rfl

end FileTreeEntryState

namespace FileView

theorem isDirectory_iff {view : FileView} {path : StandardizedPath} :
    view.IsDirectory path ↔ ∃ state, view path = some state ∧ state.asDirectory.isSome := by
  constructor
  · rintro ⟨state, hs⟩
    exact ⟨_, hs, rfl⟩
  · rintro ⟨state, hs, hd⟩
    cases state with
    | file metadata => exact nomatch hd
    | directory state => exact ⟨state, hs⟩

/-- The view after the state of a path is changed, if there is one. -/
def modify (view : FileView) (path : StandardizedPath)
    (f : FileTreeEntryState → FileTreeEntryState) : FileView :=
  fun path' => if path' = path then (view path').map f else view path'

/-- One node of an update. -/
def applyNode (view : FileView) : RepoNodeMetadata → FileView
  | .directory path ignored loaded =>
    if view.InDirectory path then view.put (.directory { path, ignored, loaded }) else view
  | .file path extension ignored =>
    if (view path).isSome then view.modify path (·.setIgnored ignored)
    else if view.InDirectory path then view.put (.file { path, extension, ignored }) else view

/-- The directories that are missing on the way to a path. -/
def ensureDirectories (view : FileView) : List StandardizedPath → FileView
  | [] => view
  | ancestor :: ancestors =>
    match view ancestor with
    | some (.directory _) => ensureDirectories view ancestors
    | some (.file _) => view
    | none => ensureDirectories (view.put (.directory (.unloaded ancestor))) ancestors

/-- The paths from below the root down to the target. -/
def pathsTo (rootPath target : StandardizedPath) : List StandardizedPath :=
  (target.ancestors.takeWhile (· ≠ rootPath)).reverse

def ensureParentDirectoriesExist (view : FileView) (rootPath targetParent : StandardizedPath) :
    FileView :=
  if rootPath <:+ targetParent ∧ view.IsDirectory rootPath then
    view.ensureDirectories (pathsTo rootPath targetParent)
  else view

def applyEntryUpdate (rootPath : StandardizedPath) (view : FileView)
    (update : FileTreeEntryUpdate) : FileView :=
  update.subtreeMetadata.foldl applyNode
    (view.ensureParentDirectoriesExist rootPath update.parentPathToReplace)

/-- Every path of the list is directly below the one before it. -/
def Descends : StandardizedPath → List StandardizedPath → Prop
  | _, [] => True
  | path, child :: children => child.parent = some path ∧ Descends child children

theorem descends_append_singleton {path last : StandardizedPath} {paths : List StandardizedPath} :
    Descends path (paths ++ [last]) ↔
      Descends path paths ∧ last.parent = some (paths.getLast?.getD path) := by
  induction paths generalizing path with
  | nil => simp [Descends]
  | cons child paths ih =>
    rw [List.cons_append, Descends, Descends, ih, and_assoc, List.getLast?_cons]
    rfl

theorem pathsTo_self (rootPath : StandardizedPath) : pathsTo rootPath rootPath = [] := by
  rw [pathsTo, StandardizedPath.ancestors]
  cases rootPath <;> simp

theorem pathsTo_cons {rootPath path : StandardizedPath} (h : rootPath <:+ path) (name : String) :
    pathsTo rootPath (name :: path) = pathsTo rootPath path ++ [name :: path] := by
  have hne : name :: path ≠ rootPath := by
    rintro rfl
    exact absurd h.length_le (by simp)
  rw [pathsTo, StandardizedPath.ancestors, List.tails_cons, List.takeWhile_cons,
    if_pos (by simpa using hne), List.reverse_cons]
  rfl

/-- The paths to a target descend from the root, and the target is the last of them. -/
theorem pathsTo_spec {rootPath : StandardizedPath} : ∀ {target : StandardizedPath},
    rootPath <:+ target → Descends rootPath (pathsTo rootPath target) ∧
      (pathsTo rootPath target).getLast?.getD rootPath = target
  | [], h => by
    rw [List.suffix_nil.mp h, pathsTo_self]
    exact ⟨trivial, rfl⟩
  | name :: path, h => by
    rcases List.suffix_cons_iff.mp h with rfl | h
    · rw [pathsTo_self]
      exact ⟨trivial, rfl⟩
    · obtain ⟨hd, hlast⟩ := pathsTo_spec h
      rw [pathsTo_cons h, descends_append_singleton, hlast, List.getLast?_concat]
      exact ⟨⟨hd, rfl⟩, rfl⟩

end FileView

namespace FileTreeMapStore

theorem view_modify (store : FileTreeMapStore) (path : StandardizedPath)
    (f : FileTreeEntryState → FileTreeEntryState) :
    view { store with stateMap := store.stateMap.modify path f } = store.view.modify path f := by
  funext path'
  exact HashMap.get_modify _ _ _ _

end FileTreeMapStore

namespace FileTreeEntry

variable {tree : FileTreeEntry}

@[simp] theorem rootPath_mapStore (f : FileTreeMapStore → FileTreeMapStore) :
    (tree.mapStore f).rootPath = tree.rootPath := rfl

theorem rootPath_applyNode (tree : FileTreeEntry) (node : RepoNodeMetadata) :
    (tree.applyNode node).rootPath = tree.rootPath := by
  cases node with
  | directory path ignored loaded =>
    rw [applyNode]
    split <;> rfl
  | file path extension ignored =>
    rw [applyNode]
    split
    · rfl
    · split <;> rfl

namespace IsTree

theorem modify (h : tree.IsTree) (path : StandardizedPath)
    {f : FileTreeEntryState → FileTreeEntryState} (hpath : ∀ state, (f state).path = state.path)
    (hdir : ∀ state, (f state).asDirectory.isSome = state.asDirectory.isSome) :
    (tree.modify path f).IsTree := by
  have hview : (tree.modify path f).view = tree.view.modify path f :=
    FileTreeMapStore.view_modify _ _ _
  have hsome : ∀ path', ((tree.view.modify path f) path').isSome = (tree.view path').isSome := by
    intro path'
    rw [FileView.modify]
    split <;> simp
  have hd : ∀ path', (tree.view.modify path f).IsDirectory path' ↔ tree.view.IsDirectory path' := by
    intro path'
    rw [FileView.isDirectory_iff, FileView.isDirectory_iff, FileView.modify]
    split <;> simp [hdir]
  have hset : ∀ path', (tree.modify path f).childSet path' = tree.childSet path' := fun _ => rfl
  apply of_view
  · intro path' child
    rw [hset, h.child_iff, hview, hsome, hd]
  · intro path' hp
    rw [hview, hsome] at hp
    rw [hview]
    exact (h.closed hp).imp_right fun ⟨parent, hparent, hdir⟩ => ⟨parent, hparent, (hd _).mpr hdir⟩
  · intro path' hp
    rw [hview, hsome] at hp
    exact h.below_root hp
  · intro path' state hs
    rw [hview, FileView.modify] at hs
    split at hs
    · obtain ⟨state', hs', rfl⟩ := Option.map_eq_some_iff.mp hs
      rw [hpath, h.stored path' state' hs']
    · exact h.stored path' state hs

theorem applyNode (h : tree.IsTree) (node : RepoNodeMetadata) :
    (tree.applyNode node).IsTree ∧ (tree.applyNode node).view = tree.view.applyNode node := by
  have hfind : ∀ path parent, tree.findParentDirectory path = some parent ↔
      path.parent = some parent ∧ tree.view.IsDirectory parent :=
    fun _ _ => FileTreeMapStore.parentDirectory_eq_some
  have hnone : ∀ path, tree.findParentDirectory path = none ↔ ¬ tree.view.InDirectory path :=
    fun _ => FileTreeMapStore.parentDirectory_eq_none
  cases node with
  | directory path ignored loaded =>
    rw [FileTreeEntry.applyNode, FileView.applyNode]
    split
    · rename_i parent hp
      obtain ⟨hparent, hdir⟩ := (hfind _ _).mp hp
      rw [if_pos ⟨parent, hparent, hdir⟩]
      exact ⟨h.insertChildState hdir hparent (fun hd => by cases hd),
        FileTreeMapStore.view_insertChild hdir _⟩
    · rename_i hp
      rw [if_neg ((hnone _).mp hp)]
      exact ⟨h, rfl⟩
  | file path extension ignored =>
    have hget : tree.get path = tree.view path := rfl
    rw [FileTreeEntry.applyNode, FileView.applyNode, hget]
    split
    · exact ⟨h.modify path (fun _ => FileTreeEntryState.path_setIgnored _ _)
        fun _ => FileTreeEntryState.isSome_asDirectory_setIgnored _ _,
        FileTreeMapStore.view_modify _ _ _⟩
    · rename_i hno
      split
      · rename_i parent hp
        obtain ⟨hparent, hdir⟩ := (hfind _ _).mp hp
        rw [if_pos ⟨parent, hparent, hdir⟩]
        refine ⟨h.insertChildState hdir hparent fun _ => h.not_mem_childSet ?_,
          FileTreeMapStore.view_insertChild hdir _⟩
        rintro ⟨state, hs⟩
        exact hno (by rw [show tree.view path = _ from hs]; rfl)
      · rename_i hp
        rw [if_neg ((hnone _).mp hp)]
        exact ⟨h, rfl⟩

theorem ensureDirectories (h : tree.IsTree) : ∀ {ancestors : List StandardizedPath}
    {current : FileTreeDirectoryEntryState}, tree.view.IsDirectory current.path →
    FileView.Descends current.path ancestors →
    (tree.ensureDirectories current ancestors).IsTree ∧
      (tree.ensureDirectories current ancestors).view = tree.view.ensureDirectories ancestors ∧
      (tree.ensureDirectories current ancestors).rootPath = tree.rootPath := by
  intro ancestors
  induction ancestors generalizing tree with
  | nil => exact fun _ _ => ⟨h, rfl, rfl⟩
  | cons ancestor ancestors ih =>
    intro current hdir ⟨hparent, hdesc⟩
    have hcontains : tree.stateMap.containsChild current.path ancestor = true ↔
        (tree.view ancestor).isSome := by
      rw [FileTreeMapStore.containsChild, Bool.and_eq_true, decide_eq_true_iff,
        FileTreeMapStore.getAsDirectory_isSome]
      rw [show (ancestor ∈ tree.stateMap.childSet current.path) = _ from
        propext (h.child_iff current.path ancestor)]
      exact ⟨fun hand => hand.2.1, fun hs => ⟨hdir, hs, hparent, hdir⟩⟩
    rw [FileTreeEntry.ensureDirectories, findOrInsertDirectory, FileView.ensureDirectories]
    by_cases hs : (tree.view ancestor).isSome
    · rw [if_pos (hcontains.mpr hs), show tree.get ancestor = tree.view ancestor from rfl]
      obtain ⟨state, hstate⟩ := Option.isSome_iff_exists.mp hs
      have hpath := h.stored ancestor state hstate
      rw [hstate]
      cases state with
      | file metadata => exact ⟨h, rfl, rfl⟩
      | directory state =>
        obtain rfl : state.path = ancestor := hpath
        exact ih h ⟨state, hstate⟩ hdesc
    · rw [if_neg (hcontains.not.mpr hs)]
      have hnew := h.insertChildState hdir
        (show (FileTreeEntryState.directory (.unloaded ancestor)).path.parent = some current.path from
          hparent) (fun hd => nomatch hd)
      have hview := FileTreeMapStore.view_insertChild hdir
        (.directory (.unloaded ancestor))
      have hget : (tree.insertChildState current.path (.directory (.unloaded ancestor))).get
          ancestor = some (.directory (.unloaded ancestor)) :=
        (congrFun hview ancestor).trans
          (FileView.put_self _ (.directory (.unloaded ancestor)))
      simp only [hget, Option.not_isSome_iff_eq_none.mp hs]
      obtain ⟨htree, hv, hroot⟩ := @ih _ hnew (.unloaded ancestor) ⟨_, hget⟩ hdesc
      exact ⟨htree, hv.trans (congrArg (FileView.ensureDirectories · ancestors) hview), hroot⟩

theorem ensureParentDirectoriesExist (h : tree.IsTree) (targetParent : StandardizedPath) :
    (tree.ensureParentDirectoriesExist targetParent).IsTree ∧
      (tree.ensureParentDirectoriesExist targetParent).view =
        tree.view.ensureParentDirectoriesExist tree.rootPath targetParent ∧
      (tree.ensureParentDirectoriesExist targetParent).rootPath = tree.rootPath := by
  rw [FileTreeEntry.ensureParentDirectoriesExist, FileView.ensureParentDirectoriesExist,
    StandardizedPath.startsWith]
  by_cases hb : tree.rootPath <:+ targetParent
  · rw [if_pos (List.isSuffixOf_iff_suffix.mpr hb)]
    cases hroot : tree.get tree.rootPath with
    | none =>
      have hd : ¬ tree.view.IsDirectory tree.rootPath := by
        rintro ⟨state, hs⟩
        exact nomatch hroot.symm.trans hs
      rw [if_neg fun hand => hd hand.2]
      exact ⟨h, rfl, rfl⟩
    | some state =>
      cases state with
      | file metadata =>
        have hd : ¬ tree.view.IsDirectory tree.rootPath := by
          rintro ⟨state, hs⟩
          exact nomatch hroot.symm.trans hs
        rw [if_neg fun hand => hd hand.2]
        exact ⟨h, rfl, rfl⟩
      | directory state =>
        have hpath : state.path = tree.rootPath := h.stored _ _ hroot
        rw [if_pos ⟨hb, state, hroot⟩]
        simp only [hpath]
        exact h.ensureDirectories (by rw [hpath]; exact ⟨state, hroot⟩)
          (by rw [hpath]; exact (FileView.pathsTo_spec hb).1)
  · rw [if_neg (List.isSuffixOf_iff_suffix.not.mpr hb), if_neg fun hand => hb hand.1]
    exact ⟨h, rfl, rfl⟩

/-- An update of a tree acts on its view alone. -/
theorem applyEntryUpdate (h : tree.IsTree) (update : FileTreeEntryUpdate) :
    (tree.applyEntryUpdate update).IsTree ∧
      (tree.applyEntryUpdate update).view =
        FileView.applyEntryUpdate tree.rootPath tree.view update ∧
      (tree.applyEntryUpdate update).rootPath = tree.rootPath := by
  obtain ⟨htree, hview, hroot⟩ := h.ensureParentDirectoriesExist update.parentPathToReplace
  rw [FileTreeEntry.applyEntryUpdate, FileView.applyEntryUpdate, ← hview, ← hroot]
  generalize tree.ensureParentDirectoriesExist update.parentPathToReplace = t at htree
  induction update.subtreeMetadata generalizing t with
  | nil => exact ⟨htree, rfl, rfl⟩
  | cons node nodes ih =>
    obtain ⟨htree', hview'⟩ := htree.applyNode node
    have hroot' : (t.applyNode node).rootPath = t.rootPath := rootPath_applyNode t node
    rw [List.foldl_cons, List.foldl_cons, ← hview', ← hroot']
    exact ih _ htree'

end IsTree

end FileTreeEntry

end Clinch
