import Clinch.FileTree.Rename
import Clinch.FileTree.InsertEntry

/-!
# Runs of the file tree

* `FileTreeOp`, `FileTreeEntry.apply`: the operations on a file tree;
* `FileTreeEntry.Sound`: the store is one tree, and every file has the extension of its path;
* `FileTreeOp.KeepsTree`: the condition on an operation, in the state before it;
* **`FileTreeEntry.run_sound`**: a run whose operations meet it is sound in every state.
-/

set_option autoImplicit false

namespace Clinch

/-- The operations on a file tree. -/
inductive FileTreeOp
  | insertChildState (parentPath : StandardizedPath) (childState : FileTreeEntryState)
  | insertEntryAtPath (path : StandardizedPath) (entry : Entry)
  | renamePath (path newPath : StandardizedPath)
  | remove (path : StandardizedPath)
  | applyRepoMetadataUpdate (update : RepoMetadataUpdate)

namespace FileTreeEntryState

/-- A file has the extension of its path. -/
def HasExtension : FileTreeEntryState → Prop
  | .file metadata => metadata.extension = metadata.path.extension
  | .directory _ => True

end FileTreeEntryState

/-- A file has the extension of its path. -/
def RepoNodeMetadata.HasExtension : RepoNodeMetadata → Prop
  | .file path extension _ => extension = path.extension
  | .directory .. => True

namespace FileView

/-- Every file has the extension of its path. -/
def Extensions (view : FileView) : Prop :=
  ∀ path metadata, view path = some (.file metadata) → metadata.extension = path.extension

/-- No entry is directly below the path. -/
def Childless (view : FileView) (path : StandardizedPath) : Prop :=
  ∀ child : StandardizedPath, child.parent = some path → view child = none

namespace Extensions

variable {view : FileView}

theorem put (h : view.Extensions) {state : FileTreeEntryState} (hstate : state.HasExtension) :
    (view.put state).Extensions := by
  intro path metadata hget
  by_cases he : path = state.path
  · rw [he, put_self] at hget
    obtain rfl := Option.some.inj hget
    exact he ▸ hstate
  · rw [put_of_ne _ he] at hget
    exact h path metadata hget

theorem removed (h : view.Extensions) (path : StandardizedPath) :
    (view.removed path).Extensions := by
  intro path' metadata hget
  rw [FileView.removed] at hget
  split at hget
  · cases hget
  · exact h path' metadata hget

theorem renamed (h : view.Extensions) {path newPath : StandardizedPath}
    (hfile : ∀ metadata, view path = some (.file metadata) → newPath.extension = path.extension) :
    (view.renamed path newPath).Extensions := by
  intro path' metadata hget
  by_cases hnew : newPath <:+ path'
  · obtain ⟨rel, rfl⟩ := hnew
    rw [renamed_new] at hget
    obtain ⟨state, hstate, he⟩ := Option.map_eq_some_iff.mp hget
    cases state with
    | directory state => cases he
    | file metadata' =>
      obtain rfl := FileTreeEntryState.file.inj he
      have hext := h _ metadata' hstate
      cases rel with
      | nil => exact hext.trans (hfile metadata' hstate).symm
      | cons name rel => exact hext
  · by_cases hold : path <:+ path'
    · rw [FileView.renamed, StandardizedPath.stripPrefix_eq_none hnew] at hget
      simp only [if_pos hold] at hget
      cases hget
    · rw [renamed_other hold hnew] at hget
      exact h path' metadata hget

theorem inserted (h : view.Extensions) {entry : Entry} (hentry : entry.view.Extensions) :
    (view.inserted entry).Extensions := by
  intro path metadata hget
  rw [FileView.inserted] at hget
  rcases Option.or_eq_some_iff.mp hget with hnew | ⟨-, hold⟩
  · exact hentry path metadata hnew
  · exact h path metadata hold

theorem applyNode (h : view.Extensions) {node : RepoNodeMetadata} (hnode : node.HasExtension) :
    (view.applyNode node).Extensions := by
  cases node with
  | directory path ignored loaded =>
    rw [FileView.applyNode]
    split
    · exact h.put trivial
    · exact h
  | file path extension ignored =>
    rw [FileView.applyNode]
    split
    · intro path' metadata hget
      rw [FileView.modify] at hget
      split at hget
      · obtain ⟨state, hstate, he⟩ := Option.map_eq_some_iff.mp hget
        cases state with
        | directory state => cases he
        | file metadata' =>
          obtain rfl := FileTreeEntryState.file.inj he
          exact h path' metadata' hstate
      · exact h path' metadata hget
    · split
      · exact h.put hnode
      · exact h

theorem ensureDirectories (h : view.Extensions) (ancestors : List StandardizedPath) :
    (view.ensureDirectories ancestors).Extensions := by
  induction ancestors generalizing view with
  | nil => exact h
  | cons ancestor ancestors ih =>
    rw [FileView.ensureDirectories]
    split
    · exact ih h
    · exact h
    · exact ih (h.put trivial)

theorem applyEntryUpdate (h : view.Extensions) (rootPath : StandardizedPath)
    {update : FileTreeEntryUpdate} (hnodes : ∀ node ∈ update.subtreeMetadata, node.HasExtension) :
    (view.applyEntryUpdate rootPath update).Extensions := by
  have hparent : (view.ensureParentDirectoriesExist rootPath
      update.parentPathToReplace).Extensions := by
    rw [FileView.ensureParentDirectoriesExist]
    split
    · exact h.ensureDirectories _
    · exact h
  rw [FileView.applyEntryUpdate]
  generalize view.ensureParentDirectoriesExist rootPath update.parentPathToReplace = view' at hparent
  generalize update.subtreeMetadata = nodes at hnodes
  induction nodes generalizing view' with
  | nil => exact hparent
  | cons node nodes ih =>
    exact ih _ (hparent.applyNode (hnodes node List.mem_cons_self))
      fun node' hn => hnodes node' (List.mem_cons_of_mem _ hn)

end Extensions

end FileView

theorem Entry.WellFormed.extensions {entry : Entry} (h : entry.WellFormed) :
    entry.view.Extensions := by
  induction h with
  | file hext =>
    intro path metadata hget
    rw [Entry.view_file] at hget
    split at hget
    · rename_i he
      obtain rfl := FileTreeEntryState.file.inj (Option.some.inj hget)
      exact he ▸ hext
    · exact nomatch hget
  | @directory path children ignored loaded _ _ _ ih =>
    intro path' metadata hget
    rw [Entry.view_directory] at hget
    split at hget
    · exact nomatch hget
    · obtain ⟨child, hc, hget⟩ := Entry.viewOf_eq_some hget
      exact ih child hc path' metadata hget

namespace FileTreeEntry

variable {tree : FileTreeEntry}

/-- **The store is one tree, and every file has the extension of its path.** -/
structure Sound (tree : FileTreeEntry) : Prop where
  isTree : tree.IsTree
  extensions : tree.view.Extensions

/-- The tree after an operation. -/
def apply (tree : FileTreeEntry) : FileTreeOp → FileTreeEntry
  | .insertChildState parentPath childState => tree.insertChildState parentPath childState
  | .insertEntryAtPath path entry => tree.insertEntryAtPath path entry
  | .renamePath path newPath => (tree.renamePath path newPath).2
  | .remove path => tree.remove path
  | .applyRepoMetadataUpdate update => tree.applyRepoMetadataUpdate update

/-- An update acts on the view alone: the removals first, and then the entries. -/
theorem IsTree.applyRepoMetadataUpdate (h : tree.IsTree) (update : RepoMetadataUpdate) :
    (tree.applyRepoMetadataUpdate update).IsTree ∧
      (tree.applyRepoMetadataUpdate update).view = update.updateEntries.foldl
        (FileView.applyEntryUpdate tree.rootPath)
        (update.removeEntries.foldl FileView.removed tree.view) ∧
      (tree.applyRepoMetadataUpdate update).rootPath = tree.rootPath := by
  have hremove : ∀ (paths : List StandardizedPath) {tree : FileTreeEntry}, tree.IsTree →
      (paths.foldl FileTreeEntry.remove tree).IsTree ∧
        (paths.foldl FileTreeEntry.remove tree).view = paths.foldl FileView.removed tree.view ∧
        (paths.foldl FileTreeEntry.remove tree).rootPath = tree.rootPath := by
    intro paths
    induction paths with
    | nil => exact fun h => ⟨h, rfl, rfl⟩
    | cons path paths ih =>
      intro tree h
      obtain ⟨htree, hview⟩ := h.remove path
      obtain ⟨htree', hview', hroot'⟩ := ih htree
      exact ⟨htree', hview'.trans (congrArg (paths.foldl FileView.removed) hview), hroot'⟩
  have hentries : ∀ (updates : List FileTreeEntryUpdate) {tree : FileTreeEntry}, tree.IsTree →
      (updates.foldl FileTreeEntry.applyEntryUpdate tree).IsTree ∧ (updates.foldl FileTreeEntry.applyEntryUpdate tree).view =
          updates.foldl (FileView.applyEntryUpdate tree.rootPath) tree.view ∧
        (updates.foldl FileTreeEntry.applyEntryUpdate tree).rootPath = tree.rootPath := by
    intro updates
    induction updates with
    | nil => exact fun h => ⟨h, rfl, rfl⟩
    | cons update updates ih =>
      intro tree h
      obtain ⟨htree, hview, hroot⟩ := h.applyEntryUpdate update
      obtain ⟨htree', hview', hroot'⟩ := ih htree
      refine ⟨htree', ?_, hroot'.trans hroot⟩
      rw [hroot, hview] at hview'
      exact hview'
  obtain ⟨htree, hview, hroot⟩ := hremove update.removeEntries h
  obtain ⟨htree', hview', hroot'⟩ := hentries update.updateEntries htree
  rw [hview, hroot] at hview'
  exact ⟨htree', hview', hroot'.trans hroot⟩

end FileTreeEntry

namespace FileTreeOp

/-- What a removal and a rename do to the entries. -/
def Moves (tree tree' : FileTreeEntry) : FileTreeOp → Prop
  | .remove path => tree'.view = tree.view.removed path
  | .renamePath path newPath => tree'.view = tree.view.renamePath path newPath
  | _ => True

/-- **The condition on an operation**, in the state before it. -/
def KeepsTree (tree : FileTreeEntry) : FileTreeOp → Prop
  | .insertChildState parentPath childState => tree.view.IsDirectory parentPath →
    childState.path.parent = some parentPath ∧ childState.HasExtension ∧
      (childState.asDirectory = none → tree.view.Childless childState.path)
  | .insertEntryAtPath path entry => tree.view.Fits tree.rootPath path entry
  | .renamePath path newPath => (tree.view path).isSome → tree.view.InDirectory newPath →
    newPath = path ∨ (¬ path <:+ newPath ∧ tree.view.Childless newPath ∧
      ∀ metadata, tree.view path = some (.file metadata) → newPath.extension = path.extension)
  | .remove _ => True
  | .applyRepoMetadataUpdate update => ∀ entryUpdate ∈ update.updateEntries,
    ∀ node ∈ entryUpdate.subtreeMetadata, node.HasExtension

end FileTreeOp

namespace FileTreeEntry

variable {tree : FileTreeEntry}

theorem IsTree.not_mem_childSet_of_childless (h : tree.IsTree) {path : StandardizedPath}
    (hc : tree.view.Childless path) (child : StandardizedPath) : child ∉ tree.childSet path := by
  intro hmem
  obtain ⟨hs, hp, -⟩ := (h.child_iff _ _).mp hmem
  rw [hc child hp] at hs
  exact nomatch hs

/-- One operation. -/
theorem Sound.apply (h : tree.Sound) {op : FileTreeOp} (hop : op.KeepsTree tree) :
    (tree.apply op).Sound ∧ op.Moves tree (tree.apply op) := by
  obtain ⟨htree, hext⟩ := h
  cases op with
  | insertChildState parentPath childState =>
    refine ⟨?_, trivial⟩
    by_cases hdir : tree.view.IsDirectory parentPath
    · obtain ⟨hparent, hstate, hfile⟩ := hop hdir
      refine ⟨htree.insertChildState hdir hparent fun hf =>
        htree.not_mem_childSet_of_childless (hfile hf), ?_⟩
      rw [show (tree.apply (.insertChildState parentPath childState)).view =
        tree.view.put childState from FileTreeMapStore.view_insertChild hdir childState]
      exact hext.put hstate
    · have hsame : tree.apply (.insertChildState parentPath childState) = tree :=
        congrArg (fun store => { tree with stateMap := store })
          (FileTreeMapStore.insertChild_of_not hdir childState)
      rw [hsame]
      exact ⟨htree, hext⟩
  | insertEntryAtPath path entry =>
    refine ⟨⟨htree.insertEntryAtPath hop, ?_⟩, trivial⟩
    rw [show (tree.apply (.insertEntryAtPath path entry)).view = tree.view.inserted entry from
      view_insertEntryAtPath hop.wellFormed path]
    exact hext.inserted hop.wellFormed.extensions
  | renamePath path newPath =>
    obtain ⟨htree', hview⟩ := htree.renamePath fun hs hdir =>
      (hop hs hdir).imp_right fun hno => ⟨hno.1, htree.not_mem_childSet_of_childless hno.2.1⟩
    refine ⟨⟨htree', ?_⟩, hview⟩
    rw [show (tree.apply (.renamePath path newPath)).view = tree.view.renamePath path newPath from
      hview, FileView.renamePath]
    split
    · rename_i hboth
      rcases hop hboth.1 hboth.2 with rfl | ⟨-, -, hfile⟩
      · rw [htree.renamed_self]
        exact hext
      · exact hext.renamed hfile
    · exact hext
  | remove path =>
    obtain ⟨htree', hview⟩ := htree.remove path
    exact ⟨⟨htree', (congrArg FileView.Extensions hview).mpr (hext.removed path)⟩, hview⟩
  | applyRepoMetadataUpdate update =>
    obtain ⟨htree', hview, -⟩ := htree.applyRepoMetadataUpdate update
    refine ⟨⟨htree', ?_⟩, trivial⟩
    rw [show (tree.apply (.applyRepoMetadataUpdate update)).view = _ from hview]
    have hremoved : (update.removeEntries.foldl FileView.removed tree.view).Extensions := by
      generalize update.removeEntries = paths
      clear htree hview htree'
      generalize tree.view = view at hext
      induction paths generalizing view with
      | nil => exact hext
      | cons path paths ih => exact ih _ (hext.removed path)
    generalize update.removeEntries.foldl FileView.removed tree.view = view at hremoved
    have hnodes : ∀ entryUpdate ∈ update.updateEntries,
      ∀ node ∈ entryUpdate.subtreeMetadata, node.HasExtension := hop
    generalize update.updateEntries = updates at hnodes
    induction updates generalizing view with
    | nil => exact hremoved
    | cons entryUpdate updates ih =>
      exact ih _ (hremoved.applyEntryUpdate _ (hnodes entryUpdate List.mem_cons_self))
        fun entryUpdate' hmem => hnodes entryUpdate' (List.mem_cons_of_mem _ hmem)

/-! ## Runs -/

/-- Every operation of a run meets the condition, in the state before it. -/
def KeepsTreeRun (tree : FileTreeEntry) : List FileTreeOp → Prop
  | [] => True
  | op :: ops => op.KeepsTree tree ∧ KeepsTreeRun (tree.apply op) ops

/-- **A sound run**: every state is sound, and every removal and rename does what it says. -/
def SoundRun (tree : FileTreeEntry) : List FileTreeOp → Prop
  | [] => tree.Sound
  | op :: ops => tree.Sound ∧ op.Moves tree (tree.apply op) ∧ SoundRun (tree.apply op) ops

/-- **A run from one tree is sound**, when its operations keep the tree. -/
theorem run_sound (h : tree.Sound) (ops : List FileTreeOp) (hops : tree.KeepsTreeRun ops) :
    tree.SoundRun ops := by
  induction ops generalizing tree with
  | nil => exact h
  | cons op ops ih =>
    obtain ⟨hsound, hmoves⟩ := h.apply hops.1
    exact ⟨h, hmoves, ih hsound hops.2⟩

/-- A path without a child set has no entry directly below it. -/
theorem Sound.childless (h : tree.Sound) {path : StandardizedPath}
    (hroot : tree.rootPath.parent ≠ some path) (hset : (tree.childSet path).elements = []) :
    tree.view.Childless path := by
  intro child hp
  by_contra hs
  have hsome := Option.isSome_iff_ne_none.mpr hs
  rcases h.isTree.closed hsome with rfl | ⟨parent, hp', hdir⟩
  · exact hroot hp
  · obtain rfl := Option.some.inj (hp'.symm.trans hp)
    have hmem : child ∈ tree.childSet parent := (h.isTree.child_iff _ _).mpr ⟨hsome, hp, hdir⟩
    exact absurd (hset ▸ HashSet.mem_elements.mpr hmem) List.not_mem_nil

/-- `/repo` with a file `a.txt` and a directory `d` that has a file `x.txt`. -/
def sampleEntry : Entry :=
  .directory ["repo"] [.file ["a.txt", "repo"] (some "txt") false,
    .directory ["d", "repo"] [.file ["x.txt", "d", "repo"] (some "txt") false] false true] false true

theorem sampleEntry_wellFormed : sampleEntry.WellFormed := by
  refine .directory ?_ (by decide) (by decide)
  simp only [List.forall_mem_cons]
  refine ⟨.file (by decide), .directory ?_ (by decide) (by decide), fun _ h => nomatch h⟩
  simp only [List.forall_mem_cons]
  exact ⟨.file (by decide), fun _ h => nomatch h⟩

def sample : FileTreeEntry := ofEntry sampleEntry

theorem sample_sound : sample.Sound := by
  obtain ⟨htree, -, hview⟩ := ofEntry_spec sampleEntry_wellFormed
  exact ⟨htree, (congrArg FileView.Extensions hview).mpr sampleEntry_wellFormed.extensions⟩

/-- A file moves into a directory, and the directory is removed. -/
theorem run_sound_sample : sample.SoundRun
    [.renamePath ["a.txt", "repo"] ["b.txt", "d", "repo"], .remove ["d", "repo"]] := by
  refine run_sound sample_sound _ ⟨fun _ _ => Or.inr ⟨by decide, ?_, fun _ _ => by decide⟩,
    trivial, trivial⟩
  exact sample_sound.childless (by decide) (by decide)

/-- A renamed file keeps the extension of its old path, and a file in the place of a directory
leaves an entry behind that nothing reaches. -/
theorem renamePath_extension : sample.Sound ∧
    ¬ sample.SoundRun [.renamePath ["a.txt", "repo"] ["b.rs", "repo"]] ∧
    ¬ sample.SoundRun [.insertChildState ["repo"]
      (.file { path := ["d", "repo"], extension := none, ignored := false })] := by
  refine ⟨sample_sound, fun h => ?_, fun h => ?_⟩
  · have hext := h.2.2.extensions ["b.rs", "repo"]
      { path := ["b.rs", "repo"], extension := some "txt", ignored := false } (by decide)
    exact absurd hext (by decide)
  · have hclosed := @FileTreeEntry.IsTree.closed _ h.2.2.isTree ["x.txt", "d", "repo"] (by decide)
    exact absurd hclosed (by decide)

end FileTreeEntry

end Clinch
