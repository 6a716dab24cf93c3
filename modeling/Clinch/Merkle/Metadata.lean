import Clinch.MultiMap
import Clinch.Merkle.Update

/-!
# The metadata of the fragments

`crates/ai/src/index/full_source_code_embedding/fragment_metadata.rs`, and what the functions of the
Merkle tree say of the metadata. `MerkleNode::new` returns the updates beside the node, and
`remove_files` and `upsert_files` change those that they are given.

* `FragmentMetadata`, `LeafToFragmentMetadata`, `LeafToFragmentMetadataUpdates`;
* `applyUpdate`, **`getAll_applyUpdate`**: what is left of a leaf, and what is new;
* `MerkleNode.newUpdates`, `MerkleNode.removeUpdates`, `MerkleNode.upsertUpdates`.
-/

set_option autoImplicit false

namespace Clinch

/-- `FragmentLocation`, and `SerializedFragmentLocation`, which has the same fields. -/
structure FragmentLocation where
  startLine : ℕ
  endLine : ℕ
  byteStart : ℕ
  byteEnd : ℕ
  deriving DecidableEq

structure FragmentMetadata where
  absolutePath : StandardizedPath
  location : FragmentLocation
  deriving DecidableEq

/-- `FragmentMetadata::from` of a fragment of the file. -/
def FragmentMetadata.ofFragment (path : StandardizedPath) (fragment : Fragment) :
    FragmentMetadata where
  absolutePath := path
  location := ⟨fragment.startLine, fragment.endLine, fragment.startByteIndex, fragment.endByteIndex⟩

/-- The fragment node that the metadata is of: its path and byte range. -/
def FragmentMetadata.nodeId (metadata : FragmentMetadata) : NodeId :=
  .fragment metadata.absolutePath metadata.location.byteStart metadata.location.byteEnd

structure LeafToFragmentMetadata (H : Type) where
  mapping : HashMap H (List FragmentMetadata)

structure LeafToFragmentMetadataUpdates (H : Type) where
  toRemove : HashMap StandardizedPath (List H)
  toInsert : HashMap H (List FragmentMetadata)

namespace LeafToFragmentMetadataUpdates

variable {H : Type}

def empty : LeafToFragmentMetadataUpdates H := ⟨HashMap.empty, HashMap.empty⟩

/-- The hashes of a file that are to be removed. -/
def remove (updates : LeafToFragmentMetadataUpdates H) (path : StandardizedPath)
    (hashes : List H) : LeafToFragmentMetadataUpdates H :=
  { updates with toRemove := updates.toRemove.insert path hashes }

variable [DecidableEq H]

/-- `LeafToFragmentMetadataUpdates::merge`. -/
def merge (updates other : LeafToFragmentMetadataUpdates H) : LeafToFragmentMetadataUpdates H where
  toRemove := updates.toRemove.extendAll other.toRemove
  toInsert := updates.toInsert.extendAll other.toInsert

/-- The metadata of the file at this leaf is removed. -/
def Removes (updates : LeafToFragmentMetadataUpdates H) (path : StandardizedPath) (hash : H) :
    Prop := hash ∈ updates.toRemove.getAll path

instance (updates : LeafToFragmentMetadataUpdates H) (path : StandardizedPath) (hash : H) :
    Decidable (updates.Removes path hash) := inferInstanceAs (Decidable (_ ∈ _))

omit [DecidableEq H] in
theorem removes_empty (path : StandardizedPath) (hash : H) :
    ¬ (empty : LeafToFragmentMetadataUpdates H).Removes path hash := List.not_mem_nil

theorem removes_merge (updates other : LeafToFragmentMetadataUpdates H) (path : StandardizedPath)
    (hash : H) :
    (updates.merge other).Removes path hash ↔ updates.Removes path hash ∨ other.Removes path hash := by
  rw [Removes, merge, HashMap.getAll_extendAll, List.mem_append]
  rfl

end LeafToFragmentMetadataUpdates

namespace LeafToFragmentMetadata

variable {H : Type} [DecidableEq H]

/-- `LeafToFragmentMetadata::new`. -/
def new (updates : LeafToFragmentMetadataUpdates H) : LeafToFragmentMetadata H := ⟨updates.toInsert⟩

/-- The loop of `apply_update` over the hashes of a file. -/
def removeHashes (path : StandardizedPath) (mapping : HashMap H (List FragmentMetadata))
    (hashes : List H) : HashMap H (List FragmentMetadata) :=
  hashes.foldl (fun mapping hash =>
    mapping.retainAt hash fun metadata => metadata.absolutePath ≠ path) mapping

/-- `LeafToFragmentMetadata::apply_update`. -/
def applyUpdate (metadata : LeafToFragmentMetadata H) (updates : LeafToFragmentMetadataUpdates H) :
    LeafToFragmentMetadata H :=
  ⟨(updates.toRemove.entries.foldl (fun mapping e => removeHashes e.1 mapping e.2)
    metadata.mapping).extendAll updates.toInsert⟩

theorem getAll_removeHashes (path : StandardizedPath) (hash : H) : ∀ (hashes : List H)
    (mapping : HashMap H (List FragmentMetadata)),
    (removeHashes path mapping hashes).getAll hash =
      (mapping.getAll hash).filter fun metadata =>
        ¬ (metadata.absolutePath = path ∧ hash ∈ hashes) := by
  intro hashes
  induction hashes with
  | nil => simp [removeHashes]
  | cons hash' hashes ih =>
    intro mapping
    rw [removeHashes, List.foldl_cons]
    change (removeHashes path _ hashes).getAll hash = _
    rw [ih, HashMap.getAll_retainAt]
    split
    · rename_i h
      rw [h, List.filter_filter]
      refine List.filter_congr fun metadata _ => ?_
      simp only [List.mem_cons, true_or, and_true]
      by_cases hp : metadata.absolutePath = path <;> simp [hp]
    · rename_i h
      simp only [List.mem_cons, h, false_or]

theorem getAll_removeAll (hash : H) : ∀ (es : List (StandardizedPath × List H))
    (mapping : HashMap H (List FragmentMetadata)),
    (es.foldl (fun mapping e => removeHashes e.1 mapping e.2) mapping).getAll hash =
      (mapping.getAll hash).filter fun metadata =>
        ¬ ∃ e ∈ es, e.1 = metadata.absolutePath ∧ hash ∈ e.2 := by
  intro es
  induction es with
  | nil => simp
  | cons e es ih =>
    intro mapping
    rw [List.foldl_cons, ih, getAll_removeHashes, List.filter_filter]
    refine List.filter_congr fun metadata _ => ?_
    rw [← Bool.decide_and]
    refine decide_eq_decide.mpr ?_
    rw [← not_or, not_iff_not, List.exists_mem_cons_iff, eq_comm, or_comm]

/-- **What an update leaves of a leaf, and what is new.** -/
theorem getAll_applyUpdate (metadata : LeafToFragmentMetadata H)
    (updates : LeafToFragmentMetadataUpdates H) (hash : H) :
    (metadata.applyUpdate updates).mapping.getAll hash =
      ((metadata.mapping.getAll hash).filter fun m => ¬ updates.Removes m.absolutePath hash) ++
        updates.toInsert.getAll hash := by
  rw [applyUpdate, HashMap.getAll_extendAll, getAll_removeAll]
  congr 1
  refine List.filter_congr fun m _ => decide_eq_decide.mpr (not_congr ?_)
  rw [LeafToFragmentMetadataUpdates.Removes, HashMap.mem_getAll]
  constructor
  · rintro ⟨⟨path, hashes⟩, hmem, rfl, hhash⟩
    exact ⟨hashes, hmem, hhash⟩
  · rintro ⟨hashes, hmem, hhash⟩
    exact ⟨_, hmem, rfl, hhash⟩

theorem noEmpty_applyUpdate {metadata : LeafToFragmentMetadata H}
    {updates : LeafToFragmentMetadataUpdates H} (h : metadata.mapping.NoEmpty)
    (hinsert : updates.toInsert.NoEmpty) : (metadata.applyUpdate updates).mapping.NoEmpty := by
  have hhashes : ∀ (path : StandardizedPath) (hashes : List H)
      (mapping : HashMap H (List FragmentMetadata)), mapping.NoEmpty →
      (removeHashes path mapping hashes).NoEmpty := by
    intro path hashes
    induction hashes with
    | nil => exact fun _ h => h
    | cons hash hashes ih => exact fun mapping h => ih _ (h.retainAt _ _)
  have hall : ∀ (es : List (StandardizedPath × List H))
      (mapping : HashMap H (List FragmentMetadata)), mapping.NoEmpty →
      (es.foldl (fun mapping e => removeHashes e.1 mapping e.2) mapping).NoEmpty := by
    intro es
    induction es with
    | nil => exact fun _ h => h
    | cons e es ih => exact fun mapping h => ih _ (hhashes _ _ _ h)
  exact (hall _ _ h).extendAll hinsert

end LeafToFragmentMetadata

/-! ## The updates of the tree's functions -/

namespace MerkleNode

variable {H : Type} [LinearOrder H] (fromHashes : List H → H) (fromFragment : String → H)
  (fs : LocalFileSystem)

/-- The updates of `MerkleNode::new` of a fragment. -/
def newFragmentUpdates (path : StandardizedPath) (fragment : Fragment) :
    Option (LeafToFragmentMetadataUpdates H) :=
  if fragment.content.isEmpty then none
  else some ⟨HashMap.empty, HashMap.empty.insert (fromFragment fragment.content)
    [.ofFragment path fragment]⟩

/-- The updates of `MerkleNode::new` of a file. -/
def newFileUpdates (path : StandardizedPath) : LeafToFragmentMetadataUpdates H :=
  match fs.readFile path with
  | none => .empty
  | some (_, fragments) => (fragments.filterMap (newFragmentUpdates fromFragment path)).foldl
      LeafToFragmentMetadataUpdates.merge .empty

mutual

/-- The updates that `MerkleNode::new` returns with a node. -/
def newUpdates : Entry → LeafToFragmentMetadataUpdates H
  | .file path _ _ => newFileUpdates fromFragment fs path
  | .directory _ children _ _ => newAllUpdates children .empty

/-- The updates of the entries that have a node are merged. -/
def newAllUpdates : List Entry → LeafToFragmentMetadataUpdates H → LeafToFragmentMetadataUpdates H
  | [], updates => updates
  | entry :: entries, updates =>
    match new fromHashes fromFragment fs entry with
    | none => newAllUpdates entries updates
    | some _ => newAllUpdates entries (updates.merge (newUpdates entry))

end

mutual

/-- `node_to_fragment_updates` after `MerkleNode::remove_files`. -/
def removeUpdates : MerkleNode H → HashSet StandardizedPath →
    LeafToFragmentMetadataUpdates H → LeafToFragmentMetadataUpdates H
  | .mk _ children (.directory absolutePath), paths, updates =>
    let (under, _) := filterPathsUnderDirectory paths absolutePath
    if under.isEmpty then updates else removeChildrenUpdates children under updates
  | .mk _ children (.file absolutePath _), paths, updates =>
    if absolutePath ∈ paths then updates.remove absolutePath (children.map hash) else updates
  | .mk _ _ (.fragment ..), _, updates => updates

def removeChildrenUpdates : List (MerkleNode H) → HashSet StandardizedPath →
    LeafToFragmentMetadataUpdates H → LeafToFragmentMetadataUpdates H
  | [], _, updates => updates
  | child :: children, paths, updates =>
    let updates := removeUpdates child paths updates
    let (_, _, paths, _) := removeFiles fromHashes child paths
    if paths.isEmpty then updates else removeChildrenUpdates children paths updates

end

mutual

/-- `leaf_node_to_fragment_updates` after `MerkleNode::upsert_files`. -/
def upsertUpdates : MerkleNode H → HashSet StandardizedPath →
    LeafToFragmentMetadataUpdates H → LeafToFragmentMetadataUpdates H
  | .mk _ children (.directory absolutePath), paths, updates =>
    let (under, _) := filterPathsUnderDirectory paths absolutePath
    if under.isEmpty then updates
    else
      let updates := upsertChildrenUpdates children under updates
      let (kept, remaining) := upsertChildren fromHashes fromFragment fs children under
      if kept.isEmpty && remaining.isEmpty then updates
      else newAllUpdates fromHashes fromFragment fs (entriesToCreate fs absolutePath remaining)
        updates
  | .mk _ children (.file absolutePath _), paths, updates =>
    if absolutePath ∈ paths then
      let updates := updates.remove absolutePath (children.map hash)
      if !fs.pathExists absolutePath then updates
      else
        match new fromHashes fromFragment fs (CreatedEntries.newFileEntry absolutePath) with
        | none => updates
        | some _ => updates.merge (newUpdates fromHashes fromFragment fs
            (CreatedEntries.newFileEntry absolutePath))
    else updates
  | .mk _ _ (.fragment ..), _, updates => updates

def upsertChildrenUpdates : List (MerkleNode H) → HashSet StandardizedPath →
    LeafToFragmentMetadataUpdates H → LeafToFragmentMetadataUpdates H
  | [], _, updates => updates
  | child :: children, paths, updates =>
    let updates := upsertUpdates child paths updates
    let (_, _, paths, _) := upsertFiles fromHashes fromFragment fs child paths
    if paths.isEmpty then updates else upsertChildrenUpdates children paths updates

end

end MerkleNode

end Clinch
