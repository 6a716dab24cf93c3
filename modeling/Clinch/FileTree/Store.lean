import Clinch.HashMap

/-!
# The file tree store

`crates/repo_metadata/src/file_tree_store.rs` and `file_tree_store/file_tree_state.rs`. A
`StandardizedPath` is absolute and normalized, so it is the list of its names; the innermost name
comes first here. File ids are left out: nothing here reads them.

* `StandardizedPath`, `FileTreeEntryState`, `Entry`, `FileTreeMapStore`, `FileTreeEntry`;
* `FileTreeMapStore.remove`, `insertChild`, `insertEntryAtPath`, `renamePath`;
* `FileTreeEntry.ensureParentDirectoriesExist`, `applyRepoMetadataUpdate`.
-/

set_option autoImplicit false

namespace Clinch

/-- A `StandardizedPath`: its names from the innermost one outwards. -/
abbrev StandardizedPath := List String

namespace StandardizedPath

def parent : StandardizedPath → Option StandardizedPath
  | [] => none
  | _ :: path => some path

/-- `starts_with`: whole names are compared. -/
def startsWith (path base : StandardizedPath) : Bool := base.isSuffixOf path

/-- `ancestors`: the path itself first. -/
def ancestors : StandardizedPath → List StandardizedPath := List.tails

/-- `strip_prefix`: the names of the relative rest. -/
def stripPrefix (path base : StandardizedPath) : Option (List String) :=
  if path.startsWith base then some (path.take (path.length - base.length)) else none

def join (path : StandardizedPath) (segment : List String) : StandardizedPath := segment ++ path

/-- The extension of a file name: what follows its last dot, if the dot is not its first
character. -/
def extensionOf (name : String) : Option String :=
  let after := (name.toList.reverse.takeWhile (· ≠ '.')).reverse
  let before := name.toList.take (name.length - after.length - 1)
  if '.' ∉ name.toList ∨ before = [] then none else some (String.ofList after)

def extension : StandardizedPath → Option String
  | [] => none
  | name :: _ => extensionOf name

end StandardizedPath

structure FileTreeFileMetadata where
  path : StandardizedPath
  extension : Option String
  ignored : Bool
  deriving DecidableEq

structure FileTreeDirectoryEntryState where
  path : StandardizedPath
  ignored : Bool
  loaded : Bool
  deriving DecidableEq

/-- The directory that `find_or_insert_directory` creates. -/
def FileTreeDirectoryEntryState.unloaded (path : StandardizedPath) :
    FileTreeDirectoryEntryState := { path, ignored := false, loaded := false }

inductive FileTreeEntryState
  | file (metadata : FileTreeFileMetadata)
  | directory (state : FileTreeDirectoryEntryState)
  deriving DecidableEq

namespace FileTreeEntryState

def asDirectory : FileTreeEntryState → Option FileTreeDirectoryEntryState
  | .file _ => none
  | .directory state => some state

def path : FileTreeEntryState → StandardizedPath
  | .file metadata => metadata.path
  | .directory state => state.path

def setIgnored (ignored : Bool) : FileTreeEntryState → FileTreeEntryState
  | .file metadata => .file { metadata with ignored }
  | .directory state => .directory { state with ignored }

def loaded : FileTreeEntryState → Bool
  | .file _ => true
  | .directory state => state.loaded

/-- `f.path = path`, `d.path = path`. -/
def setPath (path : StandardizedPath) : FileTreeEntryState → FileTreeEntryState
  | .file metadata => .file { metadata with path }
  | .directory state => .directory { state with path }

end FileTreeEntryState

/-- `Entry`, with the fields of `FileMetadata` and `DirectoryEntry`. -/
inductive Entry
  | file (path : StandardizedPath) (extension : Option String) (ignored : Bool)
  | directory (path : StandardizedPath) (children : List Entry) (ignored loaded : Bool)

namespace Entry

def path : Entry → StandardizedPath
  | .file path .. => path
  | .directory path .. => path

/-- The state of the entry itself: `From<FileMetadata>`, or the directory's flags. -/
def state : Entry → FileTreeEntryState
  | .file path extension ignored => .file { path, extension, ignored }
  | .directory path _ ignored loaded => .directory { path, ignored, loaded }

end Entry

structure FileTreeMapStore where
  stateMap : HashMap StandardizedPath FileTreeEntryState
  parentToChildMap : HashMap StandardizedPath (HashSet StandardizedPath)

namespace FileTreeMapStore

/-- `FileTreeMapStore::new_for_entry`. -/
def newForEntry (entry : FileTreeEntryState) : FileTreeMapStore :=
  ⟨HashMap.empty.insert entry.path entry, HashMap.empty⟩

def get (store : FileTreeMapStore) (path : StandardizedPath) : Option FileTreeEntryState :=
  store.stateMap.get path

/-- What `parent_to_child_map` has for a path. -/
def childSet (store : FileTreeMapStore) (path : StandardizedPath) : HashSet StandardizedPath :=
  (store.parentToChildMap.get path).getD HashSet.empty

def getAsDirectory (store : FileTreeMapStore) (path : StandardizedPath) :
    Option FileTreeDirectoryEntryState :=
  (store.get path).bind FileTreeEntryState.asDirectory

/-- `FileTreeMapStore::parent_directory`. -/
def parentDirectory (store : FileTreeMapStore) (path : StandardizedPath) :
    Option StandardizedPath :=
  path.parent.filter fun parentDir => (store.getAsDirectory parentDir).isSome

/-- `FileTreeMapStore::contains_child`. -/
def containsChild (store : FileTreeMapStore) (parentPath child : StandardizedPath) : Bool :=
  (store.getAsDirectory parentPath).isSome && child ∈ store.childSet parentPath

/-- `self.parent_to_child_map.entry(parent).or_default()`, changed. -/
def modifyChildren (store : FileTreeMapStore) (parent : StandardizedPath)
    (f : HashSet StandardizedPath → HashSet StandardizedPath) : FileTreeMapStore :=
  { store with
    parentToChildMap := store.parentToChildMap.insert parent (f (store.childSet parent)) }

/-- `FileTreeMapStore::remove_item_and_parent`. -/
def removeItemAndParent (store : FileTreeMapStore) (path : StandardizedPath) :
    Option FileTreeEntryState × FileTreeMapStore :=
  let removed := store.stateMap.get path
  let store := { store with stateMap := store.stateMap.remove path }
  match store.parentDirectory path with
  | some parent => (removed, store.modifyChildren parent (·.remove path))
  | none => (removed, store)

/-- The recursion of `FileTreeMapStore::remove`: the calls that are still to be made, in order. -/
def removeAll : ℕ → FileTreeMapStore → List StandardizedPath → FileTreeMapStore
  | 0, store, _ => store
  | _ + 1, store, [] => store
  | fuel + 1, store, path :: paths =>
    let (_, store) := store.removeItemAndParent path
    removeAll fuel { store with parentToChildMap := store.parentToChildMap.remove path }
      ((store.childSet path).elements ++ paths)

/-- The number of children in all sets: every call after the first takes one out of them. -/
def childCount (store : FileTreeMapStore) : ℕ :=
  store.parentToChildMap.sum fun children => children.elements.length

/-- `FileTreeMapStore::remove`. -/
def remove (store : FileTreeMapStore) (path : StandardizedPath) :
    Option FileTreeEntryState × FileTreeMapStore :=
  ((store.removeItemAndParent path).1, removeAll (store.childCount + 1) store [path])

/-- `FileTreeMapStore::insert_child`. -/
def insertChild (store : FileTreeMapStore) (parentPath : StandardizedPath)
    (child : FileTreeEntryState) : FileTreeMapStore :=
  match store.getAsDirectory parentPath with
  | none => store
  | some _ => modifyChildren { store with stateMap := store.stateMap.insert child.path child }
    parentPath (·.insert child.path)

mutual

/-- `FileTreeMapStore::append_entry`. -/
def appendEntry (store : FileTreeMapStore) (parentPath : StandardizedPath) :
    Entry → FileTreeMapStore
  | .file path extension ignored =>
    store.insertChild parentPath (Entry.file path extension ignored).state
  | .directory path children ignored loaded =>
    appendEntries (store.insertChild parentPath (Entry.directory path [] ignored loaded).state)
      path children

def appendEntries (store : FileTreeMapStore) (parentPath : StandardizedPath) :
    List Entry → FileTreeMapStore
  | [] => store
  | child :: children => appendEntries (appendEntry store parentPath child) parentPath children

end

/-- `From<Entry> for FileTreeMapStore`. -/
def ofEntry : Entry → FileTreeMapStore
  | .file path extension ignored => newForEntry (Entry.file path extension ignored).state
  | .directory path children ignored loaded =>
    appendEntries (newForEntry (Entry.directory path [] ignored loaded).state) path children

/-- `FileTreeMapStore::insert_entry_at_path`. -/
def insertEntryAtPath (store : FileTreeMapStore) (path : StandardizedPath) (entry : Entry) :
    FileTreeMapStore :=
  let childStore := ofEntry entry
  let store : FileTreeMapStore :=
    { stateMap := store.stateMap.extend childStore.stateMap
      parentToChildMap := store.parentToChildMap.extend childStore.parentToChildMap }
  match store.parentDirectory path with
  | some parent => store.modifyChildren parent (·.insert path)
  | none => store

/-- `FileTreeMapStore::update_paths_recursive`. -/
def updatePathsRecursive (source target : StandardizedPath) :
    ℕ → FileTreeMapStore → StandardizedPath → FileTreeMapStore
  | 0, store, _ => store
  | fuel + 1, store, path =>
    match path.stripPrefix source with
    | none => store
    | some relative =>
      let newChildPath := target.join relative
      match store.removeItemAndParent path with
      | (none, store) => store
      | (some item, store) =>
        let store := { store with
          stateMap := store.stateMap.insert newChildPath (item.setPath newChildPath) }
        let store := match store.parentToChildMap.get path with
          | none => store
          | some children =>
            children.elements.foldl (updatePathsRecursive source target fuel) { store with
              parentToChildMap :=
                (store.parentToChildMap.remove path).insert newChildPath children }
        match newChildPath.parent with
        | none => store
        | some parent => { store with
            parentToChildMap := store.parentToChildMap.modify parent fun children =>
              (children.remove path).insert newChildPath }

/-- The length of the longest path: no chain of descendants is longer. -/
def maxDepth (store : FileTreeMapStore) : ℕ :=
  (store.stateMap.entries.map fun e => e.1.length).foldr max 0

/-- `FileTreeMapStore::rename_path`. -/
def renamePath (store : FileTreeMapStore) (path newPath : StandardizedPath) :
    Bool × FileTreeMapStore :=
  if (store.get path).isNone then (false, store)
  else
    match store.parentDirectory newPath with
    | none => (false, store)
    | some newParentPath =>
      match store.removeItemAndParent path with
      | (none, store) => (false, store)
      | (some item, store') =>
        let item := item.setPath newPath
        let store' := modifyChildren { store' with
          stateMap := store'.stateMap.insert newPath item } newParentPath (·.insert newPath)
        match item.asDirectory, store'.parentToChildMap.get path with
        | some _, some children =>
          let store' := { store' with
            parentToChildMap := (store'.parentToChildMap.remove path).insert newPath children }
          (true, children.elements.foldl (updatePathsRecursive path newPath (store.maxDepth + 1)) store')
        | _, _ => (true, store')

end FileTreeMapStore

/-! ## The file tree entry -/

structure FileTreeEntry where
  stateMap : FileTreeMapStore
  rootPath : StandardizedPath

/-- `RepoNodeMetadata`, with the fields of `DirectoryNodeMetadata` and `FileNodeMetadata`. -/
inductive RepoNodeMetadata
  | directory (path : StandardizedPath) (ignored loaded : Bool)
  | file (path : StandardizedPath) (extension : Option String) (ignored : Bool)

def RepoNodeMetadata.path : RepoNodeMetadata → StandardizedPath
  | .directory path .. => path
  | .file path .. => path

structure FileTreeEntryUpdate where
  parentPathToReplace : StandardizedPath
  subtreeMetadata : List RepoNodeMetadata

/-- `RepoMetadataUpdate`, without what only standing queries read. -/
structure RepoMetadataUpdate where
  removeEntries : List StandardizedPath
  updateEntries : List FileTreeEntryUpdate

namespace FileTreeEntry

/-- `From<Entry> for FileTreeEntry`. -/
def ofEntry (entry : Entry) : FileTreeEntry := ⟨FileTreeMapStore.ofEntry entry, entry.path⟩

def get (tree : FileTreeEntry) (path : StandardizedPath) : Option FileTreeEntryState :=
  tree.stateMap.get path

/-- A change to the store. -/
def mapStore (tree : FileTreeEntry) (f : FileTreeMapStore → FileTreeMapStore) : FileTreeEntry :=
  { tree with stateMap := f tree.stateMap }

def remove (tree : FileTreeEntry) (path : StandardizedPath) : FileTreeEntry :=
  tree.mapStore fun store => (store.remove path).2

def renamePath (tree : FileTreeEntry) (path newPath : StandardizedPath) : Bool × FileTreeEntry :=
  ((tree.stateMap.renamePath path newPath).1,
    tree.mapStore fun store => (store.renamePath path newPath).2)

def insertEntryAtPath (tree : FileTreeEntry) (path : StandardizedPath) (entry : Entry) :
    FileTreeEntry := tree.mapStore (·.insertEntryAtPath path entry)

def insertChildState (tree : FileTreeEntry) (parentPath : StandardizedPath)
    (childState : FileTreeEntryState) : FileTreeEntry :=
  tree.mapStore (·.insertChild parentPath childState)

/-- `if let Some(entry) = self.get_mut(path) { .. }`. -/
def modify (tree : FileTreeEntry) (path : StandardizedPath)
    (f : FileTreeEntryState → FileTreeEntryState) : FileTreeEntry :=
  tree.mapStore fun store => { store with stateMap := store.stateMap.modify path f }

def findParentDirectory (tree : FileTreeEntry) (path : StandardizedPath) :
    Option StandardizedPath := tree.stateMap.parentDirectory path

/-- `FileTreeEntry::find_or_insert_directory`. -/
def findOrInsertDirectory (tree : FileTreeEntry) (parentPath targetPath : StandardizedPath) :
    Option FileTreeEntryState × FileTreeEntry :=
  if tree.stateMap.containsChild parentPath targetPath then (tree.get targetPath, tree)
  else
    let tree := tree.insertChildState parentPath (.directory (.unloaded targetPath))
    (tree.get targetPath, tree)

/-- The loop of `FileTreeEntry::ensure_parent_directories_exist`. -/
def ensureDirectories (tree : FileTreeEntry) (currentParent : FileTreeDirectoryEntryState) :
    List StandardizedPath → FileTreeEntry
  | [] => tree
  | ancestor :: ancestors =>
    match tree.findOrInsertDirectory currentParent.path ancestor with
    | (some (.directory state), tree) => ensureDirectories tree state ancestors
    | (some (.file _), tree) => tree
    | (none, tree) => tree

/-- `FileTreeEntry::ensure_parent_directories_exist`. -/
def ensureParentDirectoriesExist (tree : FileTreeEntry) (targetParent : StandardizedPath) :
    FileTreeEntry :=
  if targetParent.startsWith tree.rootPath then
    match tree.get tree.rootPath with
    | some (.directory rootDirectory) => tree.ensureDirectories rootDirectory
        (targetParent.ancestors.takeWhile (· ≠ rootDirectory.path)).reverse
    | _ => tree
  else tree

/-- One node of `FileTreeEntry::apply_entry_update`. -/
def applyNode (tree : FileTreeEntry) : RepoNodeMetadata → FileTreeEntry
  | .directory path ignored loaded =>
    match tree.findParentDirectory path with
    | some parent => tree.insertChildState parent (.directory { path, ignored, loaded })
    | none => tree
  | .file path extension ignored =>
    if (tree.get path).isSome then tree.modify path (·.setIgnored ignored)
    else
      match tree.findParentDirectory path with
      | some parent => tree.insertChildState parent (.file { path, extension, ignored })
      | none => tree

/-- `FileTreeEntry::apply_entry_update`. -/
def applyEntryUpdate (tree : FileTreeEntry) (update : FileTreeEntryUpdate) : FileTreeEntry :=
  update.subtreeMetadata.foldl applyNode
    (tree.ensureParentDirectoriesExist update.parentPathToReplace)

/-- `FileTreeEntry::apply_repo_metadata_update`. -/
def applyRepoMetadataUpdate (tree : FileTreeEntry) (update : RepoMetadataUpdate) : FileTreeEntry :=
  update.updateEntries.foldl applyEntryUpdate (update.removeEntries.foldl remove tree)

end FileTreeEntry

end Clinch
