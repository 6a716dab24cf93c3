import Clinch.Merkle.Tracked

/-!
# Snapshots

`merkle_tree/serialized_tree.rs`, and `from_serialized` in `node.rs` and `tree.rs`: a fragment is saved
with the location that the mapping has for it, and its path is that of its file.

* `SerializedMerkleNode`, `SerializedMerkleNode.new`, `MerkleNode.fromSerialized`,
  `MerkleNode.fromSerializedTree`;
* **`roundTrips`**: a tree that the mapping mirrors is saved and loaded as it is, and so is the
  mapping.
-/

set_option autoImplicit false

namespace Clinch

inductive SerializedFilesystemInfo
  | directory (absolutePath : StandardizedPath)
  | file (absolutePath : StandardizedPath) (info : FileInfo)
  | fragment (location : FragmentLocation)

inductive SerializedMerkleNode (H : Type)
  | mk (hash : H) (children : List (SerializedMerkleNode H)) (fsInfo : SerializedFilesystemInfo)

/-- `SerializedMerkleNode::absolute_path`. -/
def SerializedMerkleNode.absolutePath {H : Type} : SerializedMerkleNode H → Option StandardizedPath
  | .mk _ _ (.directory absolutePath) => some absolutePath
  | .mk _ _ (.file absolutePath _) => some absolutePath
  | .mk _ _ (.fragment _) => none

section Save

variable {H : Type} [DecidableEq H]

/-- `node_to_filesystem_info`. -/
def nodeToFilesystemInfo (hash : H) (metadata : LeafToFragmentMetadata H) :
    NodeId → Except String SerializedFilesystemInfo
  | .directory absolutePath => .ok (.directory absolutePath)
  | .file absolutePath info => .ok (.file absolutePath info)
  | .fragment absolutePath contentStart contentEnd =>
    match metadata.mapping.get hash with
    | none => .error "did not find hash in fragment metadata mapping"
    | some mapping =>
      match mapping.find? fun fragment => fragment.absolutePath = absolutePath ∧
          fragment.location.byteStart = contentStart ∧ fragment.location.byteEnd = contentEnd with
      | none => .error "did not find fragment metadata with matching path and content range"
      | some fragment => .ok (.fragment fragment.location)

mutual

/-- `SerializedMerkleNode::new`. -/
def SerializedMerkleNode.new (metadata : LeafToFragmentMetadata H) :
    MerkleNode H → Except String (SerializedMerkleNode H)
  | .mk hash children nodeId => do
    let fsInfo ← nodeToFilesystemInfo hash metadata nodeId
    let children ← newAll metadata children
    return .mk hash children fsInfo

def SerializedMerkleNode.newAll (metadata : LeafToFragmentMetadata H) :
    List (MerkleNode H) → Except String (List (SerializedMerkleNode H))
  | [] => return []
  | child :: children => do
    let child ← new metadata child
    let children ← newAll metadata children
    return child :: children

end

end Save

namespace MerkleNode

variable {H : Type} [LinearOrder H]

/-- The node's own part of `from_serialized`. -/
def nodeFromSerialized (hash : H) (parentPath : StandardizedPath) :
    SerializedFilesystemInfo → NodeId × LeafToFragmentMetadataUpdates H
  | .directory absolutePath => (.directory absolutePath, .empty)
  | .file absolutePath info => (.file absolutePath info, .empty)
  | .fragment location => (.fragment parentPath location.byteStart location.byteEnd,
      ⟨HashMap.empty, HashMap.empty.extendAt hash [⟨parentPath, location⟩]⟩)

mutual

/-- `MerkleNode::from_serialized`. -/
def fromSerialized : SerializedMerkleNode H → StandardizedPath →
    MerkleNode H × LeafToFragmentMetadataUpdates H
  | .mk hash children fsInfo, parentPath =>
    let (nodeId, updates) := nodeFromSerialized hash parentPath fsInfo
    let (children, updates) := fromSerializedAll children nodeId.absolutePath updates
    (.mk hash children nodeId, updates)

def fromSerializedAll : List (SerializedMerkleNode H) → StandardizedPath →
    LeafToFragmentMetadataUpdates H → List (MerkleNode H) × LeafToFragmentMetadataUpdates H
  | [], _, updates => ([], updates)
  | child :: children, absolutePath, updates =>
    let (childNode, newFragments) := fromSerialized child absolutePath
    let (children, updates) := fromSerializedAll children absolutePath (updates.merge newFragments)
    (childNode :: children, updates)

end

/-- `MerkleTree::from_serialized_tree`. -/
def fromSerializedTree (serialized : SerializedMerkleNode H) :
    Except String (MerkleNode H × LeafToFragmentMetadata H) :=
  match serialized.absolutePath with
  | none => .error "root node should never be a fragment"
  | some rootPath =>
    let (root, updates) := fromSerialized serialized rootPath
    .ok (root, .new updates)

/-! ## What is saved is loaded -/

variable {metadata : LeafToFragmentMetadata H}

/-- The updates have no metadata but that of the mapping. -/
def From (metadata : LeafToFragmentMetadata H) (updates : LeafToFragmentMetadataUpdates H) : Prop :=
  ∀ hash, updates.toInsert.getAll hash ⊆ metadata.mapping.getAll hash

/-- **What the node and its metadata are saved as is loaded as they are.** -/
def RoundTrips (metadata : LeafToFragmentMetadata H) (parentPath : StandardizedPath)
    (node : MerkleNode H) : Prop :=
  ∃ serialized, SerializedMerkleNode.new metadata node = .ok serialized ∧
    (fromSerialized serialized parentPath).1 = node ∧
    Inserted (leaves node) .empty (fromSerialized serialized parentPath).2 ∧
    From metadata (fromSerialized serialized parentPath).2

/-- A fragment of which the mapping has the metadata. -/
theorem roundTrips_fragment {path : StandardizedPath} {node : MerkleNode H}
    (h : IsFragmentOf path node)
    (hmem : node.nodeId ∈ (metadata.mapping.getAll node.hash).map FragmentMetadata.nodeId) :
    RoundTrips metadata path node := by
  obtain ⟨hash, contentStart, contentEnd, rfl⟩ := h
  obtain ⟨fragment, hfragment, hid⟩ := List.mem_map.mp hmem
  have hmatch : ∀ fragment : FragmentMetadata, (fragment.absolutePath = path ∧
      fragment.location.byteStart = contentStart ∧ fragment.location.byteEnd = contentEnd) ↔
        fragment.nodeId = .fragment path contentStart contentEnd := fun fragment => by
    rw [FragmentMetadata.nodeId, NodeId.fragment.injEq]
  obtain ⟨mapping, hget⟩ : ∃ mapping, metadata.mapping.get hash = some mapping := by
    cases hget : metadata.mapping.get hash with
    | some mapping => exact ⟨mapping, rfl⟩
    | none =>
      rw [HashMap.getAll, MerkleNode.hash, hget] at hfragment
      cases hfragment
  have hall : metadata.mapping.getAll hash = mapping := by rw [HashMap.getAll, hget]; rfl
  obtain ⟨found, hfind⟩ : ∃ found, mapping.find? (fun fragment => decide (fragment.absolutePath =
      path ∧ fragment.location.byteStart = contentStart ∧
        fragment.location.byteEnd = contentEnd)) = some found :=
    Option.isSome_iff_exists.mp (List.find?_isSome.mpr
      ⟨fragment, hall ▸ hfragment, decide_eq_true ((hmatch fragment).mpr hid)⟩)
  have hfound : found.absolutePath = path ∧ found.location.byteStart = contentStart ∧
      found.location.byteEnd = contentEnd := by simpa using List.find?_some hfind
  have hsaved : SerializedMerkleNode.new metadata
      (.mk hash [] (.fragment path contentStart contentEnd)) =
        .ok (.mk hash [] (.fragment found.location)) := by
    rw [SerializedMerkleNode.new, nodeToFilesystemInfo, hget]
    simp only [hfind]
    rw [SerializedMerkleNode.newAll]
    rfl
  have hlocated : (⟨path, found.location⟩ : FragmentMetadata) = found := by
    obtain ⟨absolutePath, location⟩ := found
    rw [← hfound.1]
  have hloaded : fromSerialized (.mk hash [] (.fragment found.location)) path =
      (.mk hash [] (.fragment path contentStart contentEnd),
        ⟨HashMap.empty, HashMap.empty.insert hash [found]⟩) := by
    rw [fromSerialized, nodeFromSerialized]
    dsimp only
    rw [fromSerializedAll, hlocated, hfound.2.1, hfound.2.2]
    rfl
  refine ⟨_, hsaved, ?_⟩
  rw [hloaded, leaves, ← (hmatch found).mp hfound]
  refine ⟨rfl, inserted_single hash found, fun hash' => ?_⟩
  rw [HashMap.getAll_insert]
  split
  · rename_i he
    rw [he, hall]
    exact List.cons_subset.mpr ⟨List.mem_of_find?_eq_some hfind, List.nil_subset _⟩
  · exact List.nil_subset _

theorem From.merge {updates updates' : LeafToFragmentMetadataUpdates H} (h : From metadata updates)
    (h' : From metadata updates') : From metadata (updates.merge updates') := fun hash => by
  rw [LeafToFragmentMetadataUpdates.merge, HashMap.getAll_extendAll]
  exact List.append_subset.mpr ⟨h hash, h' hash⟩

/-- The children. -/
theorem roundTrips_all {path : StandardizedPath} {children : List (MerkleNode H)}
    (h : ∀ child ∈ children, RoundTrips metadata path child) :
    ∃ serialized, SerializedMerkleNode.newAll metadata children = .ok serialized ∧
      ∀ updates, From metadata updates →
        (fromSerializedAll serialized path updates).1 = children ∧
        Inserted (children.flatMap leaves) updates (fromSerializedAll serialized path updates).2 ∧
        From metadata (fromSerializedAll serialized path updates).2 := by
  induction children with
  | nil =>
    refine ⟨[], by rw [SerializedMerkleNode.newAll]; rfl, fun updates hfrom => ?_⟩
    rw [fromSerializedAll]
    exact ⟨rfl, .refl updates, hfrom⟩
  | cons child children ih =>
    obtain ⟨hchild, hchildren⟩ := List.forall_mem_cons.mp h
    obtain ⟨serialized, hsaved, hloaded, hinserted, hfrom⟩ := hchild
    obtain ⟨rest, hrest, hall⟩ := ih hchildren
    refine ⟨serialized :: rest, ?_, fun updates hupdates => ?_⟩
    · rw [SerializedMerkleNode.newAll, hsaved, hrest]
      rfl
    · obtain ⟨hloadedAll, hinsertedAll, hfromAll⟩ := hall _ (hupdates.merge hfrom)
      rw [fromSerializedAll, List.flatMap_cons]
      exact ⟨congrArg₂ List.cons hloaded hloadedAll, (hinserted.merge updates).trans hinsertedAll,
        hfromAll⟩

/-- A node that is not a fragment, with its children. -/
theorem roundTrips_mk {hash : H} {children : List (MerkleNode H)} {nodeId : NodeId}
    {fsInfo : SerializedFilesystemInfo} (parentPath : StandardizedPath)
    (hsave : nodeToFilesystemInfo hash metadata nodeId = .ok fsInfo)
    (hload : nodeFromSerialized hash parentPath fsInfo = (nodeId, .empty))
    (hleaves : leaves (.mk hash children nodeId) = children.flatMap leaves)
    (h : ∀ child ∈ children, RoundTrips metadata nodeId.absolutePath child) :
    RoundTrips metadata parentPath (.mk hash children nodeId) := by
  obtain ⟨serialized, hsaved, hall⟩ := roundTrips_all h
  obtain ⟨hloaded, hinserted, hfrom⟩ := hall .empty fun hash => List.nil_subset _
  refine ⟨.mk hash serialized fsInfo, ?_, ?_⟩
  · rw [SerializedMerkleNode.new, hsave, hsaved]
    rfl
  · rw [fromSerialized, hload, hleaves]
    exact ⟨congrArg (MerkleNode.mk hash · nodeId) hloaded, hinserted, hfrom⟩

/-- **A tree of which the mapping has the fragments is saved and loaded as it is.** -/
theorem roundTrips {apart : Prop} {node : MerkleNode H} (h : Placed apart node) :
    (∀ hash nodeId, (hash, nodeId) ∈ leaves node →
      nodeId ∈ (metadata.mapping.getAll hash).map FragmentMetadata.nodeId) →
    ∀ parentPath, RoundTrips metadata parentPath node := by
  induction h with
  | @file hash children path info hchildren hnodup =>
    intro hmem parentPath
    refine roundTrips_mk parentPath rfl rfl (leaves_file ..) fun child hc => ?_
    refine roundTrips_fragment (hchildren child hc) (hmem _ _ ?_)
    rw [leaves_file, flatMap_leaves hchildren]
    exact List.mem_map_of_mem hc
  | @directory hash children path hplaced hparent hnodup ih =>
    intro hmem parentPath
    refine roundTrips_mk parentPath rfl rfl (leaves_directory ..) fun child hc => ?_
    refine ih child hc (fun hash nodeId hleaf => hmem hash nodeId ?_) _
    rw [leaves_directory]
    exact List.mem_flatMap.mpr ⟨child, hc, hleaf⟩

/-! ## The mapping of the loaded tree -/

omit [LinearOrder H] in
/-- The fragments of a tree are different nodes. -/
theorem Placed.nodup {apart : Prop} {node : MerkleNode H} (h : Placed apart node) (ha : apart) :
    ((leaves node).map Prod.snd).Nodup := by
  induction h with
  | file hchildren hnodup =>
    rw [leaves_file, flatMap_leaves hchildren, List.map_map]
    exact hnodup ha
  | @directory hash children path hplaced hparent hnodup ih =>
    rw [leaves_directory, List.map_flatMap, List.nodup_flatMap]
    refine ⟨ih, (Placed.disjoint hplaced hparent hnodup).imp_of_mem fun {a b} ha hb hdisjoint => ?_⟩
    intro nodeId hma hmb
    obtain ⟨leaf, hleaf, rfl⟩ := List.mem_map.mp hma
    obtain ⟨leaf', hleaf', he⟩ := List.mem_map.mp hmb
    exact hdisjoint ((hplaced a ha).leaf hleaf) (he ▸ (hplaced b hb).leaf hleaf')

/-- **The mapping of the loaded tree is the one that was saved**, where the fragments are apart. -/
theorem Mirrors.perm {apart : Prop} {root : MerkleNode H} {updates : LeafToFragmentMetadataUpdates H}
    (hmirrors : Mirrors metadata root) (hloaded : Mirrors (.new updates) root)
    (hfrom : From metadata updates) (h : Placed apart root) (ha : apart) (hash : H) :
    (updates.toInsert.getAll hash).Perm (metadata.mapping.getAll hash) := by
  have hnodup : (fragmentsAt hash (MerkleNode.leaves root)).Nodup :=
    (h.nodup ha).sublist (List.filter_sublist.map Prod.snd)
  have hperm := (hloaded.leaves hash).trans (hmirrors.leaves hash).symm
  have hsub : (updates.toInsert.getAll hash).Subperm (metadata.mapping.getAll hash) :=
    List.Nodup.subperm (.of_map _ ((hloaded.leaves hash).nodup_iff.mpr hnodup)) (hfrom hash)
  refine hsub.perm_of_length_le (le_of_eq ?_)
  have hlength := hperm.length_eq
  rw [List.length_map, List.length_map] at hlength
  exact hlength.symm

end MerkleNode

end Clinch
