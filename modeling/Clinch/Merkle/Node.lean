import Clinch.FileTree.Store

/-!
# The Merkle tree of a codebase

`crates/ai/src/index/full_source_code_embedding/merkle_tree/node.rs` and `tree.rs`. Hashes are of
any linearly ordered type, and the two hash functions are parameters. What the file system and the
chunker answer for a path is an oracle. What the functions say of the metadata of the fragments is in
`Clinch.Merkle.Metadata`.

* `LocalFileSystem`, `NodeId`, `MerkleNode`, `MerkleNode.new`;
* `NodeMask`, `ChildrenPath`, `resortChildren`;
* `MerkleNode.removeFiles`, `entriesToCreate`, `MerkleNode.upsertFiles`;
* `MerkleNode.nodesFromMask`, `MerkleNode.treeRemoveFiles`, `MerkleNode.treeUpsertFiles`.
-/

set_option autoImplicit false

namespace Clinch

/-- A `Fragment` of the chunker. -/
structure Fragment where
  content : String
  startLine : ℕ
  endLine : ℕ
  startByteIndex : ℕ
  endByteIndex : ℕ

/-- What a file node says of its file. -/
structure FileInfo where
  fileSize : ℕ
  fsModifiedTime : ℤ
  fileContentsHash : String
  deriving DecidableEq

/-- The file system, with the chunker: `readFile` is the file's metadata and its chunks, for a file
that `is_file_parsable` accepts and that can be read. -/
structure LocalFileSystem where
  pathExists : StandardizedPath → Bool
  isDir : StandardizedPath → Bool
  readFile : StandardizedPath → Option (FileInfo × List Fragment)
  isDir_exists : ∀ path, isDir path = true → pathExists path = true
  isDir_parent : ∀ name path, pathExists (name :: path) = true → isDir path = true
  readFile_file : ∀ path, (readFile path).isSome → pathExists path = true ∧ isDir path = false

inductive NodeId
  | file (absolutePath : StandardizedPath) (info : FileInfo)
  | directory (absolutePath : StandardizedPath)
  | fragment (absolutePath : StandardizedPath) (contentStart contentEnd : ℕ)
  deriving DecidableEq

/-- `NodeId::absolute_path`. -/
def NodeId.absolutePath : NodeId → StandardizedPath
  | .file absolutePath _ => absolutePath
  | .directory absolutePath => absolutePath
  | .fragment absolutePath .. => absolutePath

inductive MerkleNode (H : Type)
  | mk (hash : H) (children : List (MerkleNode H)) (nodeId : NodeId)

inductive UpdateFileResult
  | deleted
  | updated
  | noChange
  deriving DecidableEq

/-- `NodeMask`, with its `ChildrenPath`: `none` stands for `All`. -/
inductive NodeMask
  | mk (index : ℕ) (children : Option (List NodeMask))

/-- `ChildrenPath`. -/
abbrev ChildrenPath := Option (List NodeMask)

namespace NodeMask

def index : NodeMask → ℕ
  | .mk index _ => index

def children : NodeMask → ChildrenPath
  | .mk _ children => children

end NodeMask

namespace MerkleNode

variable {H : Type}

def hash : MerkleNode H → H
  | .mk hash _ _ => hash

def children : MerkleNode H → List (MerkleNode H)
  | .mk _ children _ => children

def nodeId : MerkleNode H → NodeId
  | .mk _ _ nodeId => nodeId

/-- `MerkleNode::absolute_path`. -/
def absolutePath (node : MerkleNode H) : StandardizedPath := node.nodeId.absolutePath

variable (fromHashes : List H → H) (fromFragment : String → H) (fs : LocalFileSystem)

/-- `MerkleNode::new` of a fragment. -/
def newFragment (path : StandardizedPath) (fragment : Fragment) : Option (MerkleNode H) :=
  if fragment.content.isEmpty then none
  else some (.mk (fromFragment fragment.content) []
    (.fragment path fragment.startByteIndex fragment.endByteIndex))

/-- `MerkleNode::new` of a file. -/
def newFile (path : StandardizedPath) : Option (MerkleNode H) :=
  match fs.readFile path with
  | none => none
  | some (info, fragments) =>
    let children := fragments.filterMap (newFragment fromFragment path)
    if children.isEmpty then none
    else some (.mk (fromHashes (children.map hash)) children (.file path info))

variable [LinearOrder H]

/-- The order of the children of a directory. -/
def sortChildren (children : List (MerkleNode H)) : List (MerkleNode H) :=
  children.mergeSort fun a b => a.hash ≤ b.hash

mutual

/-- `MerkleNode::new` of an entry. -/
def new : Entry → Option (MerkleNode H)
  | .file path _ _ => newFile fromHashes fromFragment fs path
  | .directory path children _ _ =>
    match newAll children with
    | [] => none
    | child :: children =>
      let children := sortChildren (child :: children)
      some (.mk (fromHashes (children.map hash)) children (.directory path))

def newAll : List Entry → List (MerkleNode H)
  | [] => []
  | entry :: entries =>
    match new entry with
    | none => newAll entries
    | some child => child :: newAll entries

end

/-- The children are sorted, and those that were updated add their mask with their new index.
`updated_idx` is kept beside the children. -/
def resortChildren (children : List (MerkleNode H × Option ChildrenPath)) :
    List (MerkleNode H) × ChildrenPath :=
  let sorted := children.mergeSort fun a b => a.1.hash ≤ b.1.hash
  let masks := sorted.zipIdx.filterMap fun ((_, mask), newIdx) => mask.map (NodeMask.mk newIdx)
  (sorted.map Prod.fst, if masks.isEmpty then none else some masks)

end MerkleNode

/-- `filter_paths_under_directory`: the paths under the directory, and the others. -/
def filterPathsUnderDirectory (paths : HashSet StandardizedPath) (currPath : StandardizedPath) :
    HashSet StandardizedPath × HashSet StandardizedPath :=
  (paths.filter (·.startsWith currPath), paths.filter (! ·.startsWith currPath))

namespace MerkleNode

variable {H : Type} [LinearOrder H] (fromHashes : List H → H)

mutual

/-- `MerkleNode::remove_files`: the result, the node, the paths that are left, and the mask. -/
def removeFiles : MerkleNode H → HashSet StandardizedPath →
    UpdateFileResult × MerkleNode H × HashSet StandardizedPath × ChildrenPath
  | .mk hash children (.directory absolutePath), paths =>
    let (under, others) := filterPathsUnderDirectory paths absolutePath
    if under.isEmpty then (.noChange, .mk hash children (.directory absolutePath), others, none)
    else
      let (kept, _) := removeFromChildren children under
      if kept.isEmpty then (.deleted, .mk hash [] (.directory absolutePath), others, none)
      else
        let (children, mask) := resortChildren kept
        (.updated, .mk (fromHashes (children.map MerkleNode.hash)) children (.directory absolutePath),
          others, mask)
  | .mk hash children (.file absolutePath info), paths =>
    if absolutePath ∈ paths then
      (.deleted, .mk hash children (.file absolutePath info), paths.remove absolutePath, none)
    else (.noChange, .mk hash children (.file absolutePath info), paths, none)
  | .mk hash children (.fragment absolutePath contentStart contentEnd), paths =>
    (.noChange, .mk hash children (.fragment absolutePath contentStart contentEnd), paths, none)

/-- The loop over the children: those that are kept, with the masks of the updated ones. -/
def removeFromChildren : List (MerkleNode H) → HashSet StandardizedPath →
    List (MerkleNode H × Option ChildrenPath) × HashSet StandardizedPath
  | [], paths => ([], paths)
  | child :: children, paths =>
    let (result, child, paths, mask) := removeFiles child paths
    let (kept, paths) := if paths.isEmpty then (children.map (·, none), paths)
      else removeFromChildren children paths
    match result with
    | .deleted => (kept, paths)
    | .updated => ((child, some mask) :: kept, paths)
    | .noChange => ((child, none) :: kept, paths)

end

end MerkleNode

/-! ## New entries -/

/-- `created_dirs` and `entries_to_create`. -/
structure CreatedEntries where
  createdDirs : HashMap StandardizedPath (List Entry)
  entriesToCreate : List Entry

/-- The ancestors of a path up to but not including `absolutePath`, if it is reached. -/
def ancestorsBelow (absolutePath : StandardizedPath) :
    StandardizedPath → Option (List StandardizedPath)
  | [] => if [] = absolutePath then some [] else none
  | _ :: parent =>
    if parent = absolutePath then some [] else (ancestorsBelow absolutePath parent).map (parent :: ·)

namespace CreatedEntries

/-- `FileMetadata::new`. -/
def newFileEntry (path : StandardizedPath) : Entry := .file path path.extension false

/-- The first pass: the file of a path goes to its directory. -/
def addPath (fs : LocalFileSystem) (absolutePath : StandardizedPath) (created : CreatedEntries)
    (path : StandardizedPath) : CreatedEntries :=
  if fs.isDir path || !fs.pathExists path then created
  else
    match ancestorsBelow absolutePath path with
    | none => created
    | some ancestors =>
      let createdDirs := ancestors.reverse.foldl (fun dirs ancestor =>
        if (dirs.get ancestor).isSome then dirs else dirs.insert ancestor []) created.createdDirs
      match path.parent with
      | none => { created with createdDirs }
      | some parentPath =>
        if parentPath ≠ absolutePath then
          { created with createdDirs := createdDirs.modify parentPath (· ++ [newFileEntry path]) }
        else
          { createdDirs, entriesToCreate := created.entriesToCreate ++ [newFileEntry path] }

/-- The second pass: a directory goes to its parent. -/
def attachDir (absolutePath : StandardizedPath) (created : CreatedEntries)
    (dirPath : StandardizedPath) : CreatedEntries :=
  match dirPath.parent with
  | none => created
  | some parentPath =>
    match created.createdDirs.get dirPath with
    | none => created
    | some children =>
      let createdDirs := created.createdDirs.remove dirPath
      if parentPath ≠ absolutePath then
        { created with createdDirs :=
            createdDirs.modify parentPath (· ++ [.directory dirPath children false false]) }
      else
        { createdDirs
          entriesToCreate := created.entriesToCreate ++ [.directory dirPath children false false] }

end CreatedEntries

/-- The entries that are to be created for the paths that no child has taken. -/
def entriesToCreate (fs : LocalFileSystem) (absolutePath : StandardizedPath)
    (paths : HashSet StandardizedPath) : List Entry :=
  let created := paths.elements.foldl (CreatedEntries.addPath fs absolutePath) ⟨HashMap.empty, []⟩
  let dirPaths := created.createdDirs.keys.mergeSort fun a b => b.length ≤ a.length
  (dirPaths.foldl (CreatedEntries.attachDir absolutePath) created).entriesToCreate

namespace MerkleNode

variable {H : Type} [LinearOrder H] (fromHashes : List H → H) (fromFragment : String → H)
  (fs : LocalFileSystem)

mutual

/-- `MerkleNode::upsert_files`: the result, the node, the paths that are left, and the mask. -/
def upsertFiles : MerkleNode H → HashSet StandardizedPath →
    UpdateFileResult × MerkleNode H × HashSet StandardizedPath × ChildrenPath
  | .mk hash children (.directory absolutePath), paths =>
    let (under, others) := filterPathsUnderDirectory paths absolutePath
    if under.isEmpty then (.noChange, .mk hash children (.directory absolutePath), others, none)
    else
      let (kept, remaining) := upsertChildren children under
      if kept.isEmpty && remaining.isEmpty then
        (.deleted, .mk hash [] (.directory absolutePath), others, none)
      else
        let created := (entriesToCreate fs absolutePath remaining).filterMap
          (new fromHashes fromFragment fs)
        let (children, mask) := resortChildren (kept ++ created.map (·, some none))
        (.updated, .mk (fromHashes (children.map MerkleNode.hash)) children (.directory absolutePath),
          others, mask)
  | .mk hash children (.file absolutePath info), paths =>
    if absolutePath ∈ paths then
      let paths := paths.remove absolutePath
      if !fs.pathExists absolutePath then
        (.deleted, .mk hash children (.file absolutePath info), paths, none)
      else
        match new fromHashes fromFragment fs (CreatedEntries.newFileEntry absolutePath) with
        | none => (.deleted, .mk hash children (.file absolutePath info), paths, none)
        | some newNode => (.updated, newNode, paths, none)
    else (.noChange, .mk hash children (.file absolutePath info), paths, none)
  | .mk hash children (.fragment absolutePath contentStart contentEnd), paths =>
    (.noChange, .mk hash children (.fragment absolutePath contentStart contentEnd), paths, none)

/-- The loop over the children: those that are kept, with the masks of the updated ones. -/
def upsertChildren : List (MerkleNode H) → HashSet StandardizedPath →
    List (MerkleNode H × Option ChildrenPath) × HashSet StandardizedPath
  | [], paths => ([], paths)
  | child :: children, paths =>
    let (result, child, paths, mask) := upsertFiles child paths
    let (kept, paths) := if paths.isEmpty then (children.map (·, none), paths)
      else upsertChildren children paths
    match result with
    | .deleted => (kept, paths)
    | .updated => ((child, some mask) :: kept, paths)
    | .noChange => ((child, none) :: kept, paths)

end

/-! ## The nodes of a mask -/

omit [LinearOrder H] in
mutual

/-- The number of nodes of a tree. -/
def size : MerkleNode H → ℕ
  | .mk _ children _ => 1 + sizeAll children

def sizeAll : List (MerkleNode H) → ℕ
  | [] => 0
  | child :: children => size child + sizeAll children

end

mutual

/-- The number of nodes that a mask names below a node. -/
def maskWeight (parent : MerkleNode H) : NodeMask → ℕ
  | .mk index none => (parent.children[index]?.map size).getD 0
  | .mk index (some masks) =>
    (parent.children[index]?.map fun child => 1 + masksWeight child masks).getD 0

def masksWeight (parent : MerkleNode H) : List NodeMask → ℕ
  | [] => 0
  | mask :: masks => maskWeight parent mask + masksWeight parent masks

end

/-- The number of nodes that a path names, with the node itself. -/
def pathWeight (node : MerkleNode H) : ChildrenPath → ℕ
  | none => node.size
  | some masks => 1 + masksWeight node masks

/-- The error of an index that is out of range. -/
inductive NodesFromMaskError
  | invalidChildIndex (index countChildren : ℕ)
  deriving DecidableEq

/-- The children that a mask names, with their masks. -/
def namedChildren (node : MerkleNode H) :
    List NodeMask → Except NodesFromMaskError (List (MerkleNode H × ChildrenPath))
  | [] => .ok []
  | .mk index path :: masks =>
    match node.children[index]? with
    | none => .error (.invalidChildIndex index node.children.length)
    | some child => (namedChildren node masks).map ((child, path) :: ·)

/-- The loop of `nodes_from_mask`; the result is collected from its end. -/
def nodesFromQueue : ℕ → List (MerkleNode H × ChildrenPath) → List (MerkleNode H) →
    Except NodesFromMaskError (List (MerkleNode H))
  | 0, _, result => .ok result
  | _ + 1, [], result => .ok result
  | fuel + 1, (currentNode, path) :: queue, result =>
    match path with
    | none => nodesFromQueue fuel (queue ++ currentNode.children.map (·, none)) (currentNode :: result)
    | some childrenPath =>
      match namedChildren currentNode childrenPath with
      | .error e => .error e
      | .ok named => nodesFromQueue fuel (queue ++ named) (currentNode :: result)

/-- `MerkleTree::nodes_from_mask`. -/
def nodesFromMask (root : MerkleNode H) (nodeMask : ChildrenPath) :
    Except NodesFromMaskError (List (MerkleNode H)) :=
  nodesFromQueue (pathWeight root nodeMask) [(root, nodeMask)] []

end MerkleNode

/-- What `MerkleTree::upsert_files` and `remove_files` return: the new root, and the nodes. -/
structure TreeUpdateResult (H : Type) where
  root : MerkleNode H
  nodeLens : Except MerkleNode.NodesFromMaskError (List (MerkleNode H))

namespace MerkleNode

variable {H : Type} [LinearOrder H] (fromHashes : List H → H) (fromFragment : String → H)
  (fs : LocalFileSystem)

/-- The nodes of an update of the root. -/
def updateNodes (result : UpdateFileResult × MerkleNode H × HashSet StandardizedPath × ChildrenPath) :
    TreeUpdateResult H where
  root := result.2.1
  nodeLens := if result.1 = .noChange then .ok [result.2.1] else nodesFromMask result.2.1 result.2.2.2

/-- `MerkleTree::remove_files`. -/
def treeRemoveFiles (root : MerkleNode H) (paths : HashSet StandardizedPath) : TreeUpdateResult H :=
  updateNodes (removeFiles fromHashes root paths)

/-- `MerkleTree::upsert_files`. -/
def treeUpsertFiles (root : MerkleNode H) (paths : HashSet StandardizedPath) : TreeUpdateResult H :=
  updateNodes (upsertFiles fromHashes fromFragment fs root paths)

end MerkleNode

end Clinch
