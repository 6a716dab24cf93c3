import Clinch.FileTree.Mutations
import Clinch.FileTree.Run

/-!
# The mirror of the file tree

The client applies the removals of an update first and then its entries, the server takes the
mutations in their order. The two views stay equal as long as no removal undoes an addition of its
own batch, and a subtree that is added says all that the client needs to know.

* `FileView.removed_applyEntryUpdate`: a removal and an addition that do not meet commute;
* `Entry.WellFormed.foldl_applyNode`: the nodes of a subtree put the subtree into the view;
* `FileTreeMutation.Mirrors`: the condition on a mutation, in the state of the server before it;
* **`FileTreeEntry.batches_mirror`**: the client mirrors the server after every batch.
-/

set_option autoImplicit false

namespace Clinch

namespace FileView

variable {view : FileView} {path : StandardizedPath}

/-! ## Removals and additions commute -/

theorem removed_of_not_suffix {path' : StandardizedPath} (h : ¬ path <:+ path') :
    view.removed path path' = view path' := if_neg fun hand => h hand.1

theorem removed_of_none (h : view path = none) : view.removed path = view := by
  funext path'
  exact if_neg fun hand => absurd hand.2 (by rw [h]; exact Bool.false_ne_true)

theorem isDirectory_removed {path' : StandardizedPath} (h : ¬ path <:+ path') :
    (view.removed path).IsDirectory path' ↔ view.IsDirectory path' := by
  rw [IsDirectory, removed_of_not_suffix h, IsDirectory]

theorem inDirectory_removed {path' : StandardizedPath} (h : ¬ path <:+ path') :
    (view.removed path).InDirectory path' ↔ view.InDirectory path' :=
  exists_congr fun _ => and_congr_right fun hp =>
    isDirectory_removed fun hsuffix => h (StandardizedPath.suffix_of_parent hp hsuffix)

theorem removed_put {state : FileTreeEntryState} (h : ¬ path <:+ state.path) :
    (view.put state).removed path = (view.removed path).put state := by
  funext path'
  have hne : path ≠ state.path := by
    rintro rfl
    exact h (List.suffix_refl _)
  by_cases he : path' = state.path
  · rw [he, put_self, removed_of_not_suffix h, put_self]
  · rw [put_of_ne _ he, removed, removed, put_of_ne _ hne, put_of_ne _ he]

theorem removed_modify {path' : StandardizedPath} {f : FileTreeEntryState → FileTreeEntryState}
    (h : ¬ path <:+ path') : (view.modify path' f).removed path = (view.removed path).modify path' f := by
  funext path''
  have hne : path ≠ path' := by
    rintro rfl
    exact h (List.suffix_refl _)
  rw [removed, modify, if_neg hne, modify, modify]
  by_cases he : path'' = path'
  · subst he
    rw [if_neg fun hand => h hand.1, if_pos rfl, if_pos rfl, removed_of_not_suffix h]
  · rw [if_neg he, if_neg he]
    rfl

theorem removed_applyNode {node : RepoNodeMetadata} (h : ¬ path <:+ node.path) :
    (view.applyNode node).removed path = (view.removed path).applyNode node := by
  cases node with
  | directory path' ignored loaded =>
    change ¬ path <:+ path' at h
    simp only [applyNode, inDirectory_removed h]
    split
    · exact removed_put h
    · rfl
  | file path' extension ignored =>
    change ¬ path <:+ path' at h
    simp only [applyNode, inDirectory_removed h, removed_of_not_suffix h]
    split
    · exact removed_modify h
    · split
      · exact removed_put h
      · rfl

theorem removed_ensureDirectories {ancestors : List StandardizedPath}
    (h : ∀ ancestor ∈ ancestors, ¬ path <:+ ancestor) :
    (view.ensureDirectories ancestors).removed path =
      (view.removed path).ensureDirectories ancestors := by
  induction ancestors generalizing view with
  | nil => rfl
  | cons ancestor ancestors ih =>
    have htail : ∀ ancestor' ∈ ancestors, ¬ path <:+ ancestor' :=
      fun ancestor' hmem => h ancestor' (List.mem_cons_of_mem _ hmem)
    have hhead := h ancestor List.mem_cons_self
    rw [ensureDirectories, ensureDirectories, removed_of_not_suffix hhead]
    split
    · exact ih htail
    · rfl
    · rw [ih htail, removed_put hhead]

theorem suffix_of_mem_pathsTo {rootPath target ancestor : StandardizedPath}
    (h : ancestor ∈ pathsTo rootPath target) : ancestor <:+ target :=
  (List.mem_tails ..).mp (List.takeWhile_prefix _ |>.subset (List.mem_reverse.mp h))

theorem removed_ensureParentDirectoriesExist {rootPath targetParent : StandardizedPath}
    (h : ¬ path <:+ targetParent) :
    (view.ensureParentDirectoriesExist rootPath targetParent).removed path =
      (view.removed path).ensureParentDirectoriesExist rootPath targetParent := by
  rw [ensureParentDirectoriesExist, ensureParentDirectoriesExist]
  by_cases hroot : rootPath <:+ targetParent
  · simp only [isDirectory_removed fun hsuffix => h (hsuffix.trans hroot)]
    split
    · exact removed_ensureDirectories fun ancestor hmem hsuffix =>
        h (hsuffix.trans (suffix_of_mem_pathsTo hmem))
    · rfl
  · rw [if_neg fun hand => hroot hand.1, if_neg fun hand => hroot hand.1]

/-- **A removal commutes with an addition that is not at or below its path.** -/
theorem removed_applyEntryUpdate {rootPath : StandardizedPath} {update : FileTreeEntryUpdate}
    (hparent : ¬ path <:+ update.parentPathToReplace)
    (hnodes : ∀ node ∈ update.subtreeMetadata, ¬ path <:+ node.path) :
    (applyEntryUpdate rootPath view update).removed path =
      applyEntryUpdate rootPath (view.removed path) update := by
  rw [applyEntryUpdate, applyEntryUpdate, ← removed_ensureParentDirectoriesExist hparent]
  generalize view.ensureParentDirectoriesExist rootPath update.parentPathToReplace = view'
  generalize update.subtreeMetadata = nodes at hnodes
  induction nodes generalizing view' with
  | nil => rfl
  | cons node nodes ih =>
    rw [List.foldl_cons, List.foldl_cons, ← removed_applyNode (hnodes node List.mem_cons_self)]
    exact ih _ fun node' hmem => hnodes node' (List.mem_cons_of_mem _ hmem)

/-! ## Additions keep what is there -/

theorem isSome_applyNode {node : RepoNodeMetadata} (h : (view path).isSome) :
    (view.applyNode node path).isSome := by
  have hput : ∀ state : FileTreeEntryState, (view.put state path).isSome := by
    intro state
    by_cases he : path = state.path
    · rw [he, put_self]
      rfl
    · rwa [put_of_ne _ he]
  cases node with
  | directory path' ignored loaded =>
    rw [applyNode]
    split
    · exact hput _
    · exact h
  | file path' extension ignored =>
    rw [applyNode]
    split
    · rw [modify]
      split
      · rwa [Option.isSome_map]
      · exact h
    · split
      · exact hput _
      · exact h

theorem ensureDirectories_of_isSome (ancestors : List StandardizedPath) (h : (view path).isSome) :
    view.ensureDirectories ancestors path = view path := by
  induction ancestors generalizing view with
  | nil => rfl
  | cons ancestor ancestors ih =>
    rw [ensureDirectories]
    cases hget : view ancestor with
    | none =>
      have hput : view.put (.directory (.unloaded ancestor)) path = view path := by
        refine put_of_ne _ ?_
        rintro rfl
        rw [show view _ = none from hget] at h
        cases h
      exact (ih (by rw [hput]; exact h)).trans hput
    | some state =>
      cases state with
      | file metadata => rfl
      | directory state => exact ih h

theorem ensureDirectories_of_not_mem {ancestors : List StandardizedPath} (h : path ∉ ancestors) :
    view.ensureDirectories ancestors path = view path := by
  induction ancestors generalizing view with
  | nil => rfl
  | cons ancestor ancestors ih =>
    rw [List.mem_cons, not_or] at h
    rw [ensureDirectories]
    cases view ancestor with
    | none => exact (ih h.2).trans (put_of_ne _ h.1)
    | some state =>
      cases state with
      | file metadata => rfl
      | directory state => exact ih h.2

theorem ensureParentDirectoriesExist_of_isSome {rootPath targetParent : StandardizedPath}
    (h : (view path).isSome) :
    view.ensureParentDirectoriesExist rootPath targetParent path = view path := by
  rw [ensureParentDirectoriesExist]
  split
  · exact ensureDirectories_of_isSome _ h
  · rfl

theorem ensureParentDirectoriesExist_of_not_suffix {rootPath targetParent : StandardizedPath}
    (h : ¬ path <:+ targetParent) :
    view.ensureParentDirectoriesExist rootPath targetParent path = view path := by
  rw [ensureParentDirectoriesExist]
  split
  · exact ensureDirectories_of_not_mem fun hmem => h (suffix_of_mem_pathsTo hmem)
  · rfl

theorem isSome_applyEntryUpdate {rootPath : StandardizedPath} {update : FileTreeEntryUpdate}
    (h : (view path).isSome) : (applyEntryUpdate rootPath view update path).isSome := by
  rw [applyEntryUpdate]
  have hparent : (view.ensureParentDirectoriesExist rootPath
      update.parentPathToReplace path).isSome := by
    rwa [ensureParentDirectoriesExist_of_isSome h]
  generalize view.ensureParentDirectoriesExist rootPath update.parentPathToReplace = view' at hparent
  induction update.subtreeMetadata generalizing view' with
  | nil => exact hparent
  | cons node nodes ih => exact ih _ (isSome_applyNode hparent)

/-! ## Missing parents -/

/-- Every entry but the root is in a directory, and all are below the root. -/
structure Closed (rootPath : StandardizedPath) (view : FileView) : Prop where
  closed : ∀ path, (view path).isSome → path = rootPath ∨ view.InDirectory path
  below_root : ∀ path, (view path).isSome → rootPath <:+ path

/-- There is nothing below a missing path. -/
theorem Closed.eq_none {rootPath missing : StandardizedPath} (h : Closed rootPath view)
    (hroot : rootPath <:+ missing) (hnone : view missing = none) {path : StandardizedPath}
    (hsuffix : missing <:+ path) : view path = none := by
  induction path with
  | nil => rwa [List.suffix_nil.mp hsuffix] at hnone
  | cons name path ih =>
    rcases List.suffix_cons_iff.mp hsuffix with he | hsuffix'
    · exact he ▸ hnone
    · by_contra hs
      rcases h.closed _ (Option.isSome_iff_ne_none.mpr hs) with hr | ⟨parent, hp, state, hstate⟩
      · have hle := (hroot.trans hsuffix').length_le
        rw [← hr, List.length_cons] at hle
        omega
      · obtain rfl := Option.some.inj hp
        rw [ih hsuffix'] at hstate
        cases hstate

theorem Descends.suffix {ancestors : List StandardizedPath} {current path : StandardizedPath}
    (h : Descends current ancestors) (hmem : path ∈ ancestors) :
    current <:+ path ∧ path ≠ current := by
  induction ancestors generalizing current with
  | nil => exact absurd hmem List.not_mem_nil
  | cons ancestor ancestors ih =>
    obtain ⟨hp, hdesc⟩ := h
    have hsuffix := StandardizedPath.suffix_of_parent hp (List.suffix_refl _)
    rcases List.mem_cons.mp hmem with rfl | hmem
    · refine ⟨hsuffix, ?_⟩
      rintro rfl
      exact StandardizedPath.not_suffix_parent hp (List.suffix_refl _)
    · obtain ⟨hs, -⟩ := ih hdesc hmem
      refine ⟨hsuffix.trans hs, ?_⟩
      rintro rfl
      exact StandardizedPath.not_suffix_parent hp hs

/-- Directories that are all missing are all created. -/
theorem isDirectory_ensureDirectories {ancestors : List StandardizedPath}
    {current : StandardizedPath} (hdesc : Descends current ancestors)
    (hdir : view.IsDirectory current) (hnone : ∀ ancestor ∈ ancestors, view ancestor = none) :
    (view.ensureDirectories ancestors).IsDirectory (ancestors.getLast?.getD current) := by
  induction ancestors generalizing view current with
  | nil => exact hdir
  | cons ancestor ancestors ih =>
    rw [ensureDirectories, hnone ancestor List.mem_cons_self, List.getLast?_cons]
    refine ih hdesc.2 ⟨.unloaded ancestor, put_self _ (.directory (.unloaded ancestor))⟩ ?_
    intro ancestor' hmem
    rw [put_of_ne _ (hdesc.2.suffix hmem).2]
    exact hnone ancestor' (List.mem_cons_of_mem _ hmem)

/-- The missing directories are created, or nothing is. -/
theorem Closed.ensureDirectories {rootPath : StandardizedPath} (h : Closed rootPath view)
    {ancestors : List StandardizedPath} {current : StandardizedPath}
    (hdesc : Descends current ancestors) (hdir : view.IsDirectory current) :
    (view.ensureDirectories ancestors).IsDirectory (ancestors.getLast?.getD current) ∨
      view.ensureDirectories ancestors = view := by
  induction ancestors generalizing current with
  | nil => exact Or.inr rfl
  | cons ancestor ancestors ih =>
    cases hget : view ancestor with
    | some state =>
      rw [FileView.ensureDirectories, hget, List.getLast?_cons]
      cases state with
      | file metadata => exact Or.inr rfl
      | directory state => exact ih hdesc.2 ⟨state, hget⟩
    | none =>
      obtain ⟨state, hstate⟩ := hdir
      have hroot : rootPath <:+ ancestor :=
        StandardizedPath.suffix_of_parent hdesc.1 (h.below_root _ (by rw [hstate]; rfl))
      refine Or.inl (isDirectory_ensureDirectories hdesc ⟨state, hstate⟩ fun ancestor' hmem => ?_)
      rcases List.mem_cons.mp hmem with rfl | hmem
      · exact hget
      · exact h.eq_none hroot hget (hdesc.2.suffix hmem).1

theorem Closed.ensureParentDirectoriesExist {rootPath : StandardizedPath} (h : Closed rootPath view)
    (targetParent : StandardizedPath) :
    (view.ensureParentDirectoriesExist rootPath targetParent).IsDirectory targetParent ∨
      view.ensureParentDirectoriesExist rootPath targetParent = view := by
  rw [FileView.ensureParentDirectoriesExist]
  split
  · rename_i hboth
    obtain ⟨hdesc, hlast⟩ := pathsTo_spec hboth.1
    have hor := h.ensureDirectories hdesc hboth.2
    rwa [hlast] at hor
  · exact Or.inr rfl

end FileView

/-! ## The nodes of a subtree -/

namespace Entry

/-- The first node of a subtree is that of its own path. -/
theorem exists_node (entry : Entry) :
    ∃ node ∈ entry.flattenEntryMetadata, node.path = entry.path := by
  cases entry with
  | file path extension ignored => exact ⟨_, List.mem_cons_self, rfl⟩
  | directory path children ignored loaded => exact ⟨_, List.mem_cons_self, rfl⟩

/-- The files that a subtree has are not there, or are there with their extension. -/
def FilesFit (entryView view : FileView) : Prop :=
  ∀ path metadata, entryView path = some (.file metadata) → (view path).isSome →
    ∃ old, view path = some (.file old) ∧ old.path = path ∧ old.extension = metadata.extension

/-- A list of trees of entries in one directory says what each of them says. -/
theorem viewOf_of_mem {children : List Entry} {parent : StandardizedPath}
    (hwell : ∀ child ∈ children, child.WellFormed)
    (hparent : ∀ child ∈ children, child.path.parent = some parent)
    (hnodup : (children.map Entry.path).Nodup) {child : Entry} (hc : child ∈ children)
    {path : StandardizedPath} {state : FileTreeEntryState} (hstate : child.view path = some state) :
    viewOf children path = some state := by
  induction children with
  | nil => exact absurd hc List.not_mem_nil
  | cons first children ih =>
    rw [List.map_cons, List.nodup_cons] at hnodup
    rw [viewOf_cons]
    rcases List.mem_cons.mp hc with rfl | hc'
    · rw [hstate]
      rfl
    · have hfirst : first ∈ first :: children := List.mem_cons_self
      rw [(hwell first hfirst).view_eq_none_of_sibling (hparent first hfirst) (hparent child hc)
        (fun he => hnodup.1 (List.mem_map.mpr ⟨child, hc', he⟩))
        ((hwell child hc).suffix_of_view (by rw [hstate]; rfl)), Option.none_or]
      exact ih (fun c hmem => hwell c (List.mem_cons_of_mem _ hmem))
        (fun c hmem => hparent c (List.mem_cons_of_mem _ hmem)) hnodup.2 hc'

theorem WellFormed.foldl_applyNodes {children : List Entry} {parent : StandardizedPath}
    (hchild : ∀ child ∈ children, ∀ {view : FileView}, view.InDirectory child.path →
      FilesFit child.view view →
      child.flattenEntryMetadata.foldl FileView.applyNode view = view.inserted child)
    (hwell : ∀ child ∈ children, child.WellFormed)
    (hparent : ∀ child ∈ children, child.path.parent = some parent)
    (hnodup : (children.map Entry.path).Nodup) : ∀ {view : FileView}, view.IsDirectory parent →
    (∀ child ∈ children, FilesFit child.view view) →
    (flattenEntriesMetadata children).foldl FileView.applyNode view =
      fun path => (viewOf children path).or (view path) := by
  induction children with
  | nil => exact fun _ _ => rfl
  | cons child children ih =>
    intro view hdir hfiles
    rw [List.map_cons, List.nodup_cons] at hnodup
    have hc : child ∈ child :: children := List.mem_cons_self
    have hcons : ∀ child' ∈ children, child' ∈ child :: children :=
      fun _ hc' => List.mem_cons_of_mem _ hc'
    -- two children are about different paths
    have hother : ∀ child' ∈ children, ∀ path, (child'.view path).isSome →
        child.view path = none := fun child' hc' path hs =>
      (hwell child hc).view_eq_none_of_sibling (hparent child hc) (hparent child' (hcons child' hc'))
        (fun he => hnodup.1 (List.mem_map.mpr ⟨child', hc', he⟩))
        ((hwell child' (hcons child' hc')).suffix_of_view hs)
    rw [flattenEntriesMetadata, List.foldl_append,
      hchild child hc ⟨parent, hparent child hc, hdir⟩ (hfiles child hc)]
    rw [ih (fun c hc' => hchild c (hcons c hc')) (fun c hc' => hwell c (hcons c hc'))
      (fun c hc' => hparent c (hcons c hc')) hnodup.2]
    · funext path
      rw [viewOf_cons, FileView.inserted]
      by_cases hs : (viewOf children path).isSome
      · obtain ⟨child', hc', hs'⟩ := viewOf_isSome hs
        rw [hother child' hc' path hs']
        rfl
      · rw [Option.not_isSome_iff_eq_none.mp hs, Option.or_none]
        rfl
    · rw [FileView.IsDirectory, FileView.inserted,
        (hwell child hc).view_eq_none (StandardizedPath.not_suffix_parent (hparent child hc))]
      exact hdir
    · intro child' hc' path metadata hmeta
      rw [FileView.inserted, hother child' hc' path (by rw [hmeta]; rfl)]
      exact hfiles child' (hcons child' hc') path metadata hmeta

/-- **The nodes of a subtree put the subtree into the view.** -/
theorem WellFormed.foldl_applyNode {entry : Entry} (h : entry.WellFormed) : ∀ {view : FileView},
    view.InDirectory entry.path → FilesFit entry.view view →
    entry.flattenEntryMetadata.foldl FileView.applyNode view = view.inserted entry := by
  induction h with
  | @file path extension ignored _ =>
    intro view hdir hfiles
    change view.InDirectory path at hdir
    funext path'
    rw [flattenEntryMetadata, List.foldl_cons, List.foldl_nil, FileView.applyNode,
      FileView.inserted, view_file]
    by_cases hs : (view path).isSome
    · obtain ⟨old, hold, hpath, hext⟩ := hfiles path { path, extension, ignored }
        ((view_file ..).trans (if_pos rfl)) hs
      rw [if_pos hs, FileView.modify]
      split
      · rename_i he
        rw [he, hold]
        simp [FileTreeEntryState.setIgnored, Entry.state, ← hpath, hext]
      · rfl
    · rw [if_neg hs, if_pos hdir]
      split
      · rename_i he
        rw [he]
        exact FileView.put_self _ (.file { path, extension, ignored })
      · rename_i hne
        exact FileView.put_of_ne _ hne
  | @directory path children ignored loaded hwell hparent hnodup ih =>
    intro view hdir hfiles
    change view.InDirectory path at hdir
    have hput : ∀ path', path' ≠ path →
        view.put (.directory { path, ignored, loaded }) path' = view path' := fun path' hne =>
      FileView.put_of_ne _ hne
    rw [flattenEntryMetadata, List.foldl_cons, FileView.applyNode, if_pos hdir,
      foldl_applyNodes ih hwell hparent hnodup]
    · funext path'
      rw [FileView.inserted, ← viewOf_or (.directory hwell hparent hnodup), Option.or_assoc]
      congr 1
      by_cases he : path' = path
      · rw [if_pos he, he]
        exact FileView.put_self _ (.directory { path, ignored, loaded })
      · rw [if_neg he, hput path' he]
        rfl
    · exact ⟨_, FileView.put_self _ (.directory { path, ignored, loaded })⟩
    · intro child hc path' metadata hmeta
      have hne : path' ≠ path := by
        rintro rfl
        exact StandardizedPath.not_suffix_parent (hparent child hc)
          ((hwell child hc).suffix_of_view (by rw [hmeta]; rfl))
      rw [hput path' hne]
      refine hfiles path' metadata ?_
      rw [view_directory, if_neg hne]
      exact viewOf_of_mem hwell hparent hnodup hc hmeta

end Entry

/-! ## One mutation -/

/-- **The condition on a mutation**, in the state of the server before it, with the updates that
its batch has sent so far. -/
def FileTreeMutation.Mirrors {PathBuf : Type} (tryFromLocal : PathBuf → Option StandardizedPath)
    (lazyLoad : Bool) (tree : FileTreeEntry) (sent : List FileTreeEntryUpdate) :
    FileTreeMutation PathBuf → Prop
  -- a removal of an entry takes out nothing that the batch has added
  | .remove path => ∀ stdPath, tryFromLocal path = some stdPath → (tree.view stdPath).isSome →
    ∀ update ∈ sent, ∀ node ∈ update.subtreeMetadata, ¬ stdPath <:+ node.path
  -- a subtree that is added lists all that is there already, with the same kinds and extensions
  | .addDirectorySubtree dirPath subtree => ∀ stdDir parent, tryFromLocal dirPath = some stdDir →
    stdDir.parent = some parent → (lazyLoad = true → tree.isParentLoadedInEntry stdDir = true) →
    (tree.view.ensureParentDirectoriesExist tree.rootPath parent).IsDirectory parent →
    subtree.path = stdDir ∧ subtree.WellFormed ∧
      (∃ state, tree.view parent = some (.directory state) ∧ state.loaded = true) ∧
      (∀ path, stdDir <:+ path → (tree.view path).isSome → (subtree.view path).isSome) ∧
      ∀ path metadata, subtree.view path = some (.file metadata) → (tree.view path).isSome →
        ∃ old, tree.view path = some (.file old) ∧ old.extension = metadata.extension
  | _ => True

namespace FileTreeEntry

variable {tree : FileTreeEntry}

theorem IsTree.viewClosed (h : tree.IsTree) : FileView.Closed tree.rootPath tree.view :=
  ⟨fun _ => h.closed, fun _ => h.below_root⟩

/-- The server after a part of a batch: what its update makes of the view before the batch. -/
structure Mirrored (before : FileView) (rootPath : StandardizedPath) (tree : FileTreeEntry)
    (update : RepoMetadataUpdate) : Prop where
  isTree : tree.IsTree
  rootPath_eq : tree.rootPath = rootPath
  view_eq : tree.view = update.updateEntries.foldl (FileView.applyEntryUpdate rootPath)
    (update.removeEntries.foldl FileView.removed before)
  rooted : ∀ entryUpdate ∈ update.updateEntries, ∃ node ∈ entryUpdate.subtreeMetadata,
    entryUpdate.parentPathToReplace <:+ node.path

namespace Mirrored

variable {before : FileView} {rootPath : StandardizedPath} {update : RepoMetadataUpdate}
  {tree' : FileTreeEntry}

theorem same (h : Mirrored before rootPath tree update) (htree : tree'.IsTree)
    (hroot : tree'.rootPath = tree.rootPath) (hview : tree'.view = tree.view) :
    Mirrored before rootPath tree' ⟨update.removeEntries ++ [], update.updateEntries ++ []⟩ := by
  simp only [List.append_nil]
  exact ⟨htree, hroot.trans h.rootPath_eq, hview.trans h.view_eq, h.rooted⟩

/-- An addition that the client makes in the same way. -/
theorem add (h : Mirrored before rootPath tree update) {entryUpdate : FileTreeEntryUpdate}
    (htree : tree'.IsTree) (hroot : tree'.rootPath = tree.rootPath)
    (hview : tree'.view = FileView.applyEntryUpdate rootPath tree.view entryUpdate)
    (hrooted : ∃ node ∈ entryUpdate.subtreeMetadata,
      entryUpdate.parentPathToReplace <:+ node.path) : Mirrored before rootPath tree'
      ⟨update.removeEntries ++ [], update.updateEntries ++ [entryUpdate]⟩ := by
  refine ⟨htree, hroot.trans h.rootPath_eq, ?_, fun entryUpdate' hmem => ?_⟩
  · rw [hview, h.view_eq, List.append_nil, List.foldl_append]
    rfl
  · rcases List.mem_append.mp hmem with hmem | hmem
    · exact h.rooted entryUpdate' hmem
    · exact List.mem_singleton.mp hmem ▸ hrooted

/-- A removal that the client makes before its additions. -/
theorem remove (h : Mirrored before rootPath tree update) {path : StandardizedPath}
    (hsent : (tree.view path).isSome → ∀ entryUpdate ∈ update.updateEntries,
      ∀ node ∈ entryUpdate.subtreeMetadata, ¬ path <:+ node.path) :
    Mirrored before rootPath (tree.remove path)
      ⟨update.removeEntries ++ [path], update.updateEntries ++ []⟩ := by
  obtain ⟨htree, hview⟩ := h.isTree.remove path
  rw [List.append_nil]
  refine ⟨htree, h.rootPath_eq, ?_, h.rooted⟩
  have hrooted := h.rooted
  rw [hview, List.foldl_append, List.foldl_cons, List.foldl_nil]
  rw [h.view_eq] at hsent ⊢
  generalize update.removeEntries.foldl FileView.removed before = view at hsent ⊢
  generalize update.updateEntries = updates at hsent hrooted ⊢
  by_cases hs : (updates.foldl (FileView.applyEntryUpdate rootPath) view path).isSome
  · have hno := hsent hs
    clear hsent hs
    induction updates generalizing view with
    | nil => rfl
    | cons entryUpdate updates ih =>
      have hnodes := hno entryUpdate List.mem_cons_self
      obtain ⟨node, hnode, hparent⟩ := hrooted entryUpdate List.mem_cons_self
      rw [List.foldl_cons, List.foldl_cons, ← FileView.removed_applyEntryUpdate
        (fun hsuffix => hnodes node hnode (hsuffix.trans hparent)) hnodes]
      exact ih _ (fun u hmem => hrooted u (List.mem_cons_of_mem _ hmem))
        fun u hmem => hno u (List.mem_cons_of_mem _ hmem)
  · -- what is not there after the additions was not there before them
    have hkeep : (view path).isSome →
        (updates.foldl (FileView.applyEntryUpdate rootPath) view path).isSome := by
      clear hsent hs hrooted
      induction updates generalizing view with
      | nil => exact id
      | cons entryUpdate updates ih => exact fun hs => ih _ (FileView.isSome_applyEntryUpdate hs)
    rw [FileView.removed_of_none (Option.not_isSome_iff_eq_none.mp hs),
      FileView.removed_of_none (Option.not_isSome_iff_eq_none.mp fun hs' => hs (hkeep hs'))]

/-- The addition of one node below a directory that is there, or is created. -/
theorem addNode (h : Mirrored before rootPath tree update) {parent : StandardizedPath}
    {node : RepoNodeMetadata} (hparent : node.path.parent = some parent) :
    Mirrored before rootPath ((tree.ensureParentDirectoriesExist parent).applyNode node)
      ⟨update.removeEntries ++ [], update.updateEntries ++ [⟨parent, [node]⟩]⟩ := by
  obtain ⟨htree, hview, hroot⟩ := h.isTree.applyEntryUpdate ⟨parent, [node]⟩
  refine h.add htree hroot ?_ ⟨node, List.mem_singleton_self _,
    StandardizedPath.suffix_of_parent hparent (List.suffix_refl _)⟩
  rw [← h.rootPath_eq]
  exact hview

/-- When the parent is no directory in the end, no directory has been created. -/
theorem noParent (h : Mirrored before rootPath tree update) {path parent : StandardizedPath}
    (hparent : path.parent = some parent)
    (hnone : (tree.ensureParentDirectoriesExist parent).findParentDirectory path = none) :
    Mirrored before rootPath (tree.ensureParentDirectoriesExist parent)
      ⟨update.removeEntries ++ [], update.updateEntries ++ []⟩ := by
  obtain ⟨htree, hview, hroot⟩ := h.isTree.ensureParentDirectoriesExist parent
  refine h.same htree hroot (hview.trans ?_)
  refine (h.isTree.viewClosed.ensureParentDirectoriesExist parent).resolve_left fun hdir => ?_
  rw [← hview] at hdir
  exact FileTreeMapStore.parentDirectory_eq_none.mp hnone ⟨parent, hparent, hdir⟩

end Mirrored

/-- The view of the server after a subtree is added, which the client gets from the nodes. -/
theorem IsTree.addSubtree (h : tree.IsTree) {dir parent : StandardizedPath} {subtree : Entry}
    (hparent : dir.parent = some parent) (hpath : subtree.path = dir) (hw : subtree.WellFormed)
    (hloaded : ∃ state, tree.view parent = some (.directory state) ∧ state.loaded = true)
    (hlisted : ∀ path, dir <:+ path → (tree.view path).isSome → (subtree.view path).isSome)
    (hfiles : ∀ path metadata, subtree.view path = some (.file metadata) → (tree.view path).isSome →
      ∃ old, tree.view path = some (.file old) ∧ old.extension = metadata.extension) :
    ((((tree.ensureParentDirectoriesExist parent).setLoaded parent).remove
      subtree.path).insertEntryAtPath subtree.path subtree).IsTree ∧
    ((((tree.ensureParentDirectoriesExist parent).setLoaded parent).remove
      subtree.path).insertEntryAtPath subtree.path subtree).view =
        FileView.applyEntryUpdate tree.rootPath tree.view ⟨parent, subtree.flattenEntryMetadata⟩ := by
  subst hpath
  obtain ⟨htree, hview, hroot⟩ := h.ensureParentDirectoriesExist parent
  obtain ⟨parentState, hparentState, hparentLoaded⟩ := hloaded
  -- nothing changes at or below the path of the subtree, nor at its parent
  have hbelow : ∀ path, subtree.path <:+ path →
      tree.view.ensureParentDirectoriesExist tree.rootPath parent path = tree.view path :=
    fun path hsuffix => FileView.ensureParentDirectoriesExist_of_not_suffix fun hsuffix' =>
      StandardizedPath.not_suffix_parent hparent (hsuffix.trans hsuffix')
  have hparentView : (tree.ensureParentDirectoriesExist parent).view parent =
      some (.directory parentState) := by
    rw [hview, FileView.ensureParentDirectoriesExist_of_isSome (by rw [hparentState]; rfl),
      hparentState]
  generalize htree' : tree.ensureParentDirectoriesExist parent = created at *
  have hloadedView : (created.setLoaded parent).view = created.view := by
    rw [show (created.setLoaded parent).view = created.view.modify parent _ from
      FileTreeMapStore.view_modify _ _ _]
    funext path
    rw [FileView.modify]
    split
    · rename_i he
      rw [he, hparentView, Option.map_some, ← hparentLoaded]
    · rfl
  have hloadedTree : (created.setLoaded parent).IsTree := by
    refine htree.modify parent ?_ ?_ <;> intro state <;> cases state <;> rfl
  obtain ⟨hremoved, hremovedView⟩ := hloadedTree.remove subtree.path
  rw [hloadedView] at hremovedView
  have hin : created.view.InDirectory subtree.path := ⟨parent, hparent, parentState, hparentView⟩
  have hgone : ∀ path, subtree.path <:+ path → created.view.removed subtree.path path = none := by
    intro path hsuffix
    rw [FileView.removed]
    split
    · rfl
    · rename_i hno
      have hnone : created.view subtree.path = none :=
        Option.not_isSome_iff_eq_none.mp fun hs => hno ⟨hsuffix, hs⟩
      exact htree.viewClosed.eq_none (htree.below_root_of_inDirectory hin) hnone hsuffix
  have hfits : ((created.setLoaded parent).remove subtree.path).view.Fits
      ((created.setLoaded parent).remove subtree.path).rootPath subtree.path subtree := by
    rw [hremovedView]
    refine ⟨hw, Or.inr (Or.inr ⟨rfl, parent, hparent, parentState, ?_⟩), Or.inr (Or.inl ?_), ?_⟩
    · rw [FileView.removed_of_not_suffix (StandardizedPath.not_suffix_parent hparent), hparentView]
    · rw [subtree.view_self]
      rfl
    · intro old oldParent hold _ hp hs
      rw [hgone old (StandardizedPath.suffix_of_parent hp (hw.suffix_of_view hs))] at hold
      cases hold
  refine ⟨hremoved.insertEntryAtPath hfits, ?_⟩
  have hfilesFit : Entry.FilesFit subtree.view created.view := by
    intro path metadata hmeta hs
    have hsame := hbelow path (hw.suffix_of_view (by rw [hmeta]; rfl))
    rw [hview, hsame] at hs ⊢
    obtain ⟨old, hold, hext⟩ := hfiles path metadata hmeta hs
    exact ⟨old, hold, h.stored path _ hold, hext⟩
  rw [view_insertEntryAtPath hw, hremovedView, FileView.applyEntryUpdate, ← hview,
    hw.foldl_applyNode hin hfilesFit]
  funext path
  rw [FileView.inserted, FileView.inserted]
  cases hsub : subtree.view path with
  | some state => rfl
  | none =>
    rw [Option.none_or, Option.none_or]
    by_cases hsuffix : subtree.path <:+ path
    · rw [hgone path hsuffix, hview, hbelow path hsuffix]
      by_contra hs
      have hlist := hlisted path hsuffix (Option.isSome_iff_ne_none.mpr (Ne.symm hs))
      rw [hsub] at hlist
      cases hlist
    · exact FileView.removed_of_not_suffix hsuffix

/-- **One mutation**: the client gets from the update what the server has done. -/
theorem Mirrored.applyMutation {PathBuf : Type} {tryFromLocal : PathBuf → Option StandardizedPath}
    {lazyLoad : Bool} {before : FileView} {rootPath : StandardizedPath} {update : RepoMetadataUpdate}
    (h : Mirrored before rootPath tree update) {mutation : FileTreeMutation PathBuf}
    (hmirrors : mutation.Mirrors tryFromLocal lazyLoad tree update.updateEntries) :
    Mirrored before rootPath (tree.applyMutation tryFromLocal lazyLoad mutation).1
      ⟨update.removeEntries ++ (tree.applyMutation tryFromLocal lazyLoad mutation).2.removeEntries,
        update.updateEntries ++
          (tree.applyMutation tryFromLocal lazyLoad mutation).2.updateEntries⟩ := by
  have hsame := h.same h.isTree rfl rfl
  cases mutation with
  | remove path =>
    rw [FileTreeEntry.applyMutation]
    cases hstd : tryFromLocal path with
    | none => exact hsame
    | some stdPath => exact h.remove (hmirrors stdPath hstd)
  | addFile path isIgnored extension =>
    rw [FileTreeEntry.applyMutation]
    cases hstd : tryFromLocal path with
    | none => exact hsame
    | some stdPath =>
      simp only
      split
      · exact hsame
      cases hparent : stdPath.parent with
      | none => exact hsame
      | some parent =>
        have hadd := h.addNode (show (RepoNodeMetadata.file stdPath extension isIgnored).path.parent =
          some parent from hparent)
        simp only
        cases hfind : (tree.ensureParentDirectoriesExist parent).findParentDirectory stdPath with
        | none => exact h.noParent hparent hfind
        | some parentDir =>
          rw [FileTreeEntry.applyNode, hfind] at hadd
          exact hadd
  | addUnloadedDirectory path isIgnored =>
    rw [FileTreeEntry.applyMutation]
    cases hstd : tryFromLocal path with
    | none => exact hsame
    | some stdPath =>
      simp only
      split
      · exact hsame
      cases hparent : stdPath.parent with
      | none => exact hsame
      | some parent =>
        have hadd := h.addNode (show (RepoNodeMetadata.directory stdPath isIgnored false).path.parent =
          some parent from hparent)
        simp only
        cases hfind : (tree.ensureParentDirectoriesExist parent).findParentDirectory stdPath with
        | none => exact h.noParent hparent hfind
        | some parentDir =>
          rw [FileTreeEntry.applyNode, hfind] at hadd
          exact hadd
  | addDirectorySubtree dirPath subtree =>
    rw [FileTreeEntry.applyMutation]
    cases hstd : tryFromLocal dirPath with
    | none => exact hsame
    | some stdDir =>
      simp only
      split
      · exact hsame
      rename_i hlazy
      cases hparent : stdDir.parent with
      | none =>
        have hnone : tree.findParentDirectory stdDir = none :=
          FileTreeMapStore.parentDirectory_eq_none.mpr (by
            rintro ⟨parent, hp, -⟩
            cases hparent.symm.trans hp)
        simp only [hnone]
        exact hsame
      | some parent =>
        simp only
        cases hfind : (tree.ensureParentDirectoriesExist parent).findParentDirectory stdDir with
        | none => exact h.noParent hparent hfind
        | some parentDir =>
          obtain ⟨hp, hdir⟩ := FileTreeMapStore.parentDirectory_eq_some.mp hfind
          obtain rfl := Option.some.inj (hparent.symm.trans hp)
          obtain ⟨-, hview, hroot⟩ := h.isTree.ensureParentDirectoriesExist parent
          have hloaded : lazyLoad = true → tree.isParentLoadedInEntry stdDir = true := by
            intro hl
            rw [hl, Bool.true_and, Bool.not_eq_true', Bool.not_eq_false] at hlazy
            exact hlazy
          obtain ⟨hpath, hw, hparentLoaded, hlisted, hfiles⟩ :=
            hmirrors stdDir parent hstd hparent hloaded (hview ▸ hdir)
          obtain ⟨htree', hview'⟩ :=
            h.isTree.addSubtree hparent hpath hw hparentLoaded hlisted hfiles
          rw [h.rootPath_eq] at hview'
          obtain ⟨node, hnode, hnodePath⟩ := subtree.exists_node
          refine h.add htree' hroot (by simpa [hparent] using hview') ⟨node, hnode, ?_⟩
          rw [hnodePath, hpath]
          exact StandardizedPath.suffix_of_parent hparent (List.suffix_refl _)

/-! ## Batches -/

section Batches

variable {PathBuf : Type} (tryFromLocal : PathBuf → Option StandardizedPath)

/-- Every mutation of a batch meets the condition, in the state of the server before it. -/
def BatchMirrors (lazyLoad : Bool) (tree : FileTreeEntry) (sent : List FileTreeEntryUpdate) :
    List (FileTreeMutation PathBuf) → Prop
  | [] => True
  | mutation :: mutations => mutation.Mirrors tryFromLocal lazyLoad tree sent ∧
    BatchMirrors lazyLoad (tree.applyMutation tryFromLocal lazyLoad mutation).1
      (sent ++ (tree.applyMutation tryFromLocal lazyLoad mutation).2.updateEntries) mutations

/-- A batch: the server's loading mode, and its mutations. -/
abbrev Batch (PathBuf : Type) := Bool × List (FileTreeMutation PathBuf)

/-- Every batch of a run meets the condition. -/
def BatchesMirror (server : FileTreeEntry) : List (Batch PathBuf) → Prop
  | [] => True
  | (lazyLoad, mutations) :: batches => server.BatchMirrors tryFromLocal lazyLoad [] mutations ∧
    BatchesMirror (server.applyFileTreeMutations tryFromLocal lazyLoad mutations true).1 batches

/-- Two trees are the same: the states of all paths, and the child sets. -/
structure Same (tree tree' : FileTreeEntry) : Prop where
  rootPath_eq : tree.rootPath = tree'.rootPath
  view_eq : tree.view = tree'.view
  childSet_iff : ∀ path child, child ∈ tree.childSet path ↔ child ∈ tree'.childSet path

/-- **After every batch the client has the tree of the server.** -/
def StaysMirrored (server client : FileTreeEntry) : List (Batch PathBuf) → Prop
  | [] => True
  | (lazyLoad, mutations) :: batches =>
    let (server, update) := server.applyFileTreeMutations tryFromLocal lazyLoad mutations true
    ∀ sent ∈ update, server.Same (client.applyRepoMetadataUpdate sent) ∧
      StaysMirrored server (client.applyRepoMetadataUpdate sent) batches

variable {tryFromLocal}

theorem Mirrored.applyMutations {lazyLoad : Bool} {before : FileView} {rootPath : StandardizedPath}
    {update : RepoMetadataUpdate} (h : Mirrored before rootPath tree update)
    {mutations : List (FileTreeMutation PathBuf)}
    (hmirrors : tree.BatchMirrors tryFromLocal lazyLoad update.updateEntries mutations) :
    Mirrored before rootPath (tree.applyMutations tryFromLocal lazyLoad update mutations).1
      (tree.applyMutations tryFromLocal lazyLoad update mutations).2 := by
  induction mutations generalizing tree update with
  | nil => exact h
  | cons mutation mutations ih => exact ih (h.applyMutation hmirrors.1) hmirrors.2

/-- **The client mirrors the server after every batch** whose mutations meet the condition. -/
theorem batches_mirror {server client : FileTreeEntry} (hserver : server.IsTree)
    (hclient : client.IsTree) (hroot : server.rootPath = client.rootPath)
    (hview : server.view = client.view) (batches : List (Batch PathBuf))
    (hmirrors : server.BatchesMirror tryFromLocal batches) :
    StaysMirrored tryFromLocal server client batches := by
  induction batches generalizing server client with
  | nil => trivial
  | cons batch batches ih =>
    obtain ⟨lazyLoad, mutations⟩ := batch
    have hstart : Mirrored server.view server.rootPath server ⟨[], []⟩ :=
      ⟨hserver, rfl, rfl, fun _ hmem => absurd hmem List.not_mem_nil⟩
    have hend := hstart.applyMutations hmirrors.1
    intro sent hsent
    obtain rfl := Option.some.inj hsent
    obtain ⟨htree, hsentView, hsentRoot⟩ := hclient.applyRepoMetadataUpdate
      (server.applyMutations tryFromLocal lazyLoad ⟨[], []⟩ mutations).2
    rw [← hroot, ← hview, ← hend.view_eq] at hsentView
    have hrootEq := hend.rootPath_eq.trans (hroot.trans hsentRoot.symm)
    refine ⟨⟨hrootEq, hsentView.symm, fun path child => ?_⟩,
      ih hend.isTree htree hrootEq hsentView.symm hmirrors.2⟩
    rw [hend.isTree.child_iff, htree.child_iff, hsentView]

end Batches

/-- A directory is added with its file, and later the file is removed and another one added. -/
theorem batches_mirror_sample : StaysMirrored (fun path : List String => some path.reverse) sample
    sample [(false, [.addDirectorySubtree ["repo", "e"] (.directory ["e", "repo"]
      [.file ["y.rs", "e", "repo"] (some "rs") false] false true)]),
      (true, [.remove ["repo", "e", "y.rs"], .addFile ["repo", "z.md"] true (some "md")])] := by
  refine batches_mirror sample_sound.isTree sample_sound.isTree rfl rfl _
    ⟨⟨?_, trivial⟩, ⟨fun _ _ _ _ hmem => absurd hmem List.not_mem_nil, trivial, trivial⟩, trivial⟩
  intro stdDir parent hstd hparent _ _
  obtain rfl := Option.some.inj hstd
  obtain rfl := Option.some.inj hparent
  have hnone : ∀ path, ["e", "repo"] <:+ path → sample.view path = none := fun path hsuffix =>
    sample_sound.isTree.viewClosed.eq_none (by decide) (by decide) hsuffix
  have hw : (Entry.directory ["e", "repo"] [.file ["y.rs", "e", "repo"] (some "rs") false]
      false true).WellFormed := by
    refine .directory ?_ (by decide) (by decide)
    simp only [List.forall_mem_cons]
    exact ⟨.file (by decide), fun _ h => nomatch h⟩
  refine ⟨rfl, hw, ⟨⟨["repo"], false, true⟩, by decide, rfl⟩, fun path hsuffix hs => ?_,
    fun path metadata hmeta hs => ?_⟩
  · rw [hnone path hsuffix] at hs
    exact nomatch hs
  · rw [hnone path (hw.suffix_of_view (by rw [hmeta]; rfl))] at hs
    exact nomatch hs

/-- A directory that is added over an existing one keeps its old file on the client, and a removal
after an addition in its batch is made before it there. -/
theorem addDirectorySubtree_stale :
    ¬ StaysMirrored (fun path : List String => some path.reverse) sample sample
      [(false, [.addDirectorySubtree ["repo", "d"] (.directory ["d", "repo"] [] false true)])] ∧
    ¬ StaysMirrored (fun path : List String => some path.reverse) sample sample
      [(false, [.addFile ["repo", "d", "y.rs"] false (some "rs"), .remove ["repo", "d"]])] := by
  constructor
  · intro h
    have hsame := congrFun (h _ rfl).1.view_eq ["x.txt", "d", "repo"]
    exact absurd hsame (by decide)
  · intro h
    have hsame := congrFun (h _ rfl).1.view_eq ["d", "repo"]
    exact absurd hsame (by decide)

end FileTreeEntry

end Clinch
