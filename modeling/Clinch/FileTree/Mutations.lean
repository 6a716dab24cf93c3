import Clinch.FileTree.Store

/-!
# File tree mutations and their wire updates

`apply_file_tree_mutations` of `crates/repo_metadata/src/local_model.rs`, and the flattened entries
of `crates/repo_metadata/src/file_tree_update.rs`. The server changes its own tree and collects the
update for the client.

* `Entry.flattenEntryMetadata`;
* `FileTreeMutation`, `FileTreeEntry.applyMutation`, `FileTreeEntry.applyFileTreeMutations`.
-/

set_option autoImplicit false

namespace Clinch

namespace Entry

mutual

/-- `flatten_entry_metadata`: depth first, a directory before its children. -/
def flattenEntryMetadata : Entry → List RepoNodeMetadata
  | .file path extension ignored => [.file path extension ignored]
  | .directory path children ignored loaded =>
    .directory path ignored loaded :: flattenEntriesMetadata children

def flattenEntriesMetadata : List Entry → List RepoNodeMetadata
  | [] => []
  | child :: children => flattenEntryMetadata child ++ flattenEntriesMetadata children

end

end Entry

/-- `FileTreeMutation`. `PathBuf` is a path of the operating system. -/
inductive FileTreeMutation (PathBuf : Type)
  | remove (path : PathBuf)
  | addFile (path : PathBuf) (isIgnored : Bool) (extension : Option String)
  | addDirectorySubtree (dirPath : PathBuf) (subtree : Entry)
  | addUnloadedDirectory (path : PathBuf) (isIgnored : Bool)

namespace FileTreeEntry

/-- `is_parent_loaded_in_entry`. -/
def isParentLoadedInEntry (tree : FileTreeEntry) (path : StandardizedPath) : Bool :=
  match path.parent with
  | none => true
  | some parent => (tree.get parent).any FileTreeEntryState.loaded

/-- `directory.loaded = true`, of a directory. -/
def setLoaded (tree : FileTreeEntry) (path : StandardizedPath) : FileTreeEntry :=
  tree.modify path fun
    | .file metadata => .file metadata
    | .directory state => .directory { state with loaded := true }

/-- What one mutation adds to the update: the removals and the entries. -/
structure Emitted where
  removeEntries : List StandardizedPath
  updateEntries : List FileTreeEntryUpdate

variable {PathBuf : Type} (tryFromLocal : PathBuf → Option StandardizedPath) (lazyLoad : Bool)

/-- One round of the loop of `apply_file_tree_mutations`. -/
def applyMutation (tree : FileTreeEntry) :
    FileTreeMutation PathBuf → FileTreeEntry × Emitted
  | .remove path =>
    match tryFromLocal path with
    | none => (tree, ⟨[], []⟩)
    | some stdPath => (tree.remove stdPath, ⟨[stdPath], []⟩)
  | .addFile path isIgnored extension =>
    match tryFromLocal path with
    | none => (tree, ⟨[], []⟩)
    | some stdPath =>
      if lazyLoad && !tree.isParentLoadedInEntry stdPath then (tree, ⟨[], []⟩)
      else
        match stdPath.parent with
        | none => (tree, ⟨[], []⟩)
        | some parent =>
          let tree := tree.ensureParentDirectoriesExist parent
          match tree.findParentDirectory stdPath with
          | none => (tree, ⟨[], []⟩)
          | some parentDir =>
            (if (tree.get stdPath).isSome then tree.modify stdPath (·.setIgnored isIgnored)
              else tree.insertChildState parentDir
                (.file { path := stdPath, extension, ignored := isIgnored }),
              ⟨[], [⟨parent, [.file stdPath extension isIgnored]⟩]⟩)
  | .addDirectorySubtree dirPath subtree =>
    match tryFromLocal dirPath with
    | none => (tree, ⟨[], []⟩)
    | some stdDir =>
      if lazyLoad && !tree.isParentLoadedInEntry stdDir then (tree, ⟨[], []⟩)
      else
        let tree := match stdDir.parent with
          | none => tree
          | some parent => tree.ensureParentDirectoriesExist parent
        match tree.findParentDirectory stdDir with
        | none => (tree, ⟨[], []⟩)
        | some parentPath =>
          (((tree.setLoaded parentPath).remove subtree.path).insertEntryAtPath subtree.path subtree,
            ⟨[], [⟨stdDir.parent.getD stdDir, subtree.flattenEntryMetadata⟩]⟩)
  | .addUnloadedDirectory path isIgnored =>
    match tryFromLocal path with
    | none => (tree, ⟨[], []⟩)
    | some stdPath =>
      if lazyLoad && !tree.isParentLoadedInEntry stdPath then (tree, ⟨[], []⟩)
      else
        match stdPath.parent with
        | none => (tree, ⟨[], []⟩)
        | some parent =>
          let tree := tree.ensureParentDirectoriesExist parent
          match tree.findParentDirectory stdPath with
          | none => (tree, ⟨[], []⟩)
          | some parentDir =>
            (tree.insertChildState parentDir
              (.directory { path := stdPath, ignored := isIgnored, loaded := false }),
              ⟨[], [⟨parent, [.directory stdPath isIgnored false]⟩]⟩)

/-- The loop of `apply_file_tree_mutations`, from an update that has been collected so far. -/
def applyMutations (tree : FileTreeEntry) (update : RepoMetadataUpdate) :
    List (FileTreeMutation PathBuf) → FileTreeEntry × RepoMetadataUpdate
  | [] => (tree, update)
  | mutation :: mutations =>
    let (tree, emitted) := tree.applyMutation tryFromLocal lazyLoad mutation
    applyMutations tree ⟨update.removeEntries ++ emitted.removeEntries,
      update.updateEntries ++ emitted.updateEntries⟩ mutations

/-- `LocalRepoMetadataModel::apply_file_tree_mutations`. -/
def applyFileTreeMutations (tree : FileTreeEntry) (mutations : List (FileTreeMutation PathBuf))
    (emitUpdates : Bool) : FileTreeEntry × Option RepoMetadataUpdate :=
  let (tree, update) := tree.applyMutations tryFromLocal lazyLoad ⟨[], []⟩ mutations
  (tree, if emitUpdates then some update else none)

end FileTreeEntry

end Clinch
