import Clinch.Merkle.Batch
import Clinch.Merkle.Snapshot

/-!
# The tree and the metadata of an index

The Merkle tree of a codebase beside the metadata of its fragments, as `codebase_index.rs` keeps them:
each removal and upsert returns updates, which are applied, and those of one incremental sync are
merged first.

* `CodebaseIndex`, `IndexStep`, `CodebaseIndex.step`, `CodebaseIndex.run`;
* `CodebaseIndex.Valid`: the tree is placed, and the mapping mirrors it; `Valid.step`;
* **`metadata_mirrors`**: after every run the mapping has exactly the fragments of the tree, and a
  snapshot is loaded as it was.
-/

set_option autoImplicit false

namespace Clinch

/-- The Merkle tree and the fragment metadata of a `CodebaseIndex`. -/
structure CodebaseIndex (H : Type) where
  tree : MerkleNode H
  leafNodeToFragmentMetadatas : LeafToFragmentMetadata H

/-- What is done to an index. The file system is as an upsert finds it. -/
inductive IndexStep
  | removeFiles (paths : HashSet StandardizedPath)
  | upsertFiles (fs : LocalFileSystem) (paths : HashSet StandardizedPath)
  | incrementalSync (fs : LocalFileSystem) (deletions upsertions : HashSet StandardizedPath)
  | reload

/-- The chunks that the step reads are apart. -/
def IndexStep.ChunksApart : IndexStep → Prop
  | .removeFiles _ => True
  | .upsertFiles fs _ => MerkleNode.ChunksApart fs
  | .incrementalSync fs _ _ => MerkleNode.ChunksApart fs
  | .reload => True

/-- The tree after an update, and the updates, if it returns them. -/
abbrev UpdateOutcome (H : Type) :=
  MerkleNode H × Except MerkleNode.NodesFromMaskError (LeafToFragmentMetadataUpdates H)

namespace MerkleNode

variable {H : Type} [LinearOrder H] (fromHashes : List H → H) (fromFragment : String → H)

/-- `MerkleTree::remove_files`, with its `leaf_to_fragment_meta_updates`. -/
def removeOutcome (root : MerkleNode H) (paths : HashSet StandardizedPath) : UpdateOutcome H :=
  let result := treeRemoveFiles fromHashes root paths
  (result.root, result.nodeLens.map fun _ => removeUpdates fromHashes root paths .empty)

/-- `MerkleTree::upsert_files`, with its `leaf_to_fragment_meta_updates`. -/
def upsertOutcome (fs : LocalFileSystem) (root : MerkleNode H) (paths : HashSet StandardizedPath) :
    UpdateOutcome H :=
  let result := treeUpsertFiles fromHashes fromFragment fs root paths
  (result.root, result.nodeLens.map fun _ =>
    upsertUpdates fromHashes fromFragment fs root paths .empty)

/-- The incremental sync: the deletions, and then the upsertions. -/
def incrementalOutcome (fs : LocalFileSystem) (tree : MerkleNode H)
    (deletions upsertions : HashSet StandardizedPath) : UpdateOutcome H :=
  let (tree, updates) :=
    if deletions.isEmpty then (tree, .ok .empty)
    else
      let (tree, updates) := removeOutcome fromHashes tree deletions
      (tree, updates.map LeafToFragmentMetadataUpdates.empty.merge)
  match updates with
  | .error e => (tree, .error e)
  | .ok updates =>
    if upsertions.isEmpty then (tree, .ok updates)
    else
      let (tree, upsertUpdates) := upsertOutcome fromHashes fromFragment fs tree upsertions
      (tree, upsertUpdates.map updates.merge)

end MerkleNode

namespace CodebaseIndex

variable {H : Type} [LinearOrder H] (fromHashes : List H → H) (fromFragment : String → H)

/-- `MerkleTree::try_new`. -/
def new (fs : LocalFileSystem) (entry : Entry) : Option (CodebaseIndex H) :=
  (MerkleNode.new fromHashes fromFragment fs entry).map fun root =>
    ⟨root, .new (MerkleNode.newUpdates fromHashes fromFragment fs entry)⟩

/-- The updates are applied, if they are returned. -/
def process (index : CodebaseIndex H) (outcome : UpdateOutcome H) : CodebaseIndex H :=
  match outcome.2 with
  | .error _ => { index with tree := outcome.1 }
  | .ok updates => ⟨outcome.1, index.leafNodeToFragmentMetadatas.applyUpdate updates⟩

/-- `generate_snapshot` and `deserialize_snapshot`. -/
def reload (index : CodebaseIndex H) : Except String (CodebaseIndex H) := do
  let serialized ← SerializedMerkleNode.new index.leafNodeToFragmentMetadatas index.tree
  let (tree, metadata) ← MerkleNode.fromSerializedTree serialized
  return ⟨tree, metadata⟩

def step (index : CodebaseIndex H) : IndexStep → Except String (CodebaseIndex H)
  | .removeFiles paths => .ok (index.process (index.tree.removeOutcome fromHashes paths))
  | .upsertFiles fs paths =>
    .ok (index.process (index.tree.upsertOutcome fromHashes fromFragment fs paths))
  | .incrementalSync fs deletions upsertions =>
    .ok (index.process (index.tree.incrementalOutcome fromHashes fromFragment fs deletions
      upsertions))
  | .reload => index.reload

def run (index : CodebaseIndex H) (steps : List IndexStep) : Except String (CodebaseIndex H) :=
  steps.foldlM (step fromHashes fromFragment) index

/-! ## The invariant -/

/-- **The tree is a placed directory, and the mapping mirrors it.** -/
structure Valid (apart : Prop) (index : CodebaseIndex H) : Prop where
  placed : index.tree.Placed apart
  directory : ∃ path, index.tree.nodeId = .directory path
  mirrors : MerkleNode.Mirrors index.leafNodeToFragmentMetadatas index.tree

end CodebaseIndex

namespace MerkleNode

variable {H : Type} [LinearOrder H] (fromHashes : List H → H) (fromFragment : String → H)
  {apart : Prop} {root : MerkleNode H}

/-- **The root after an update**, and the updates, of a tree whose root is a directory. -/
structure RootOutcome (apart : Prop) (root : MerkleNode H) (tree : MerkleNode H)
    (updates : LeafToFragmentMetadataUpdates H) : Prop where
  placed : tree.Placed apart
  directory : ∃ path, tree.nodeId = .directory path
  tracked : ∃ taken own, Tracked (leaves root) (leaves tree) taken own .empty updates

/-- An update that keeps the root, or leaves it without children. -/
theorem rootOutcome {update : MerkleNode H → HashSet StandardizedPath → Updated H}
    {track : MerkleNode H → HashSet StandardizedPath → LeafToFragmentMetadataUpdates H →
      LeafToFragmentMetadataUpdates H} {paths : HashSet StandardizedPath}
    (hdir : ∃ path, root.nodeId = .directory path)
    (hstays : StaysPlaced apart root (update root paths)) (htracks : Tracks update track root)
    (hdeleted : (update root paths).1 = .deleted →
      ∃ hash path, (update root paths).2.1 = .mk hash [] (.directory path)) :
    RootOutcome apart root (update root paths).2.1 (track root paths .empty) := by
  obtain ⟨taken, own, htracked, -⟩ := htracks paths .empty
  by_cases h : (update root paths).1 = .deleted
  · obtain ⟨hash, path, hnode⟩ := hdeleted h
    rw [keptLeaves, if_pos h] at htracked
    rw [hnode]
    refine ⟨.directory (fun _ h => by cases h) (fun _ h => by cases h) List.nodup_nil, ⟨path, rfl⟩,
      taken, own, ?_⟩
    rw [leaves_directory]
    exact htracked
  · obtain ⟨hplaced, hslot⟩ := hstays h
    rw [keptLeaves, if_neg h] at htracked
    refine ⟨hplaced, ?_, taken, own, htracked⟩
    obtain ⟨path, hpath⟩ := hdir
    have hfile : (update root paths).2.1.isFile = false := by
      rw [show (update root paths).2.1.isFile = root.isFile from congrArg Prod.fst hslot, isFile,
        hpath]
    generalize (update root paths).2.1 = tree at hplaced hfile
    cases hplaced with
    | file _ _ => cases hfile
    | directory _ _ _ => exact ⟨_, rfl⟩

omit [LinearOrder H] in
theorem exists_directory (hdir : ∃ path, root.nodeId = .directory path) :
    ∃ hash children path, root = .mk hash children (.directory path) := by
  obtain ⟨hash, children, nodeId⟩ := root
  obtain ⟨path, rfl⟩ := hdir
  exact ⟨hash, children, path, rfl⟩

/-- **A removal returns its updates.** -/
theorem removeOutcome_eq (hplaced : root.Placed apart) (hdir : ∃ path, root.nodeId = .directory path)
    (paths : HashSet StandardizedPath) :
    (removeOutcome fromHashes root paths).2 =
      .ok (removeUpdates fromHashes root paths .empty) ∧
    RootOutcome apart root (removeOutcome fromHashes root paths).1
      (removeUpdates fromHashes root paths .empty) := by
  obtain ⟨nodes, addresses, hok, -⟩ := updateNodes_spec (removeFiles_mask fromHashes root paths)
  refine ⟨?_, ?_⟩
  · rw [removeOutcome, treeRemoveFiles, hok]
    rfl
  · refine rootOutcome hdir (placed_removeFiles fromHashes hplaced paths)
      (removeUpdates_tracked fromHashes hplaced) fun h => ?_
    obtain ⟨hash, children, path, rfl⟩ := exists_directory hdir
    exact ⟨hash, path, removeFiles_deleted h⟩

/-- **An upsert returns its updates.** -/
theorem upsertOutcome_eq {fs : LocalFileSystem} (hapart : apart → ChunksApart fs)
    (hplaced : root.Placed apart) (hdir : ∃ path, root.nodeId = .directory path)
    (paths : HashSet StandardizedPath) :
    (upsertOutcome fromHashes fromFragment fs root paths).2 =
      .ok (upsertUpdates fromHashes fromFragment fs root paths .empty) ∧
    RootOutcome apart root (upsertOutcome fromHashes fromFragment fs root paths).1
      (upsertUpdates fromHashes fromFragment fs root paths .empty) := by
  obtain ⟨nodes, addresses, hok, -⟩ :=
    updateNodes_spec (upsertFiles_mask fromHashes fromFragment fs root paths)
  refine ⟨?_, ?_⟩
  · rw [upsertOutcome, treeUpsertFiles, hok]
    rfl
  · refine rootOutcome hdir (placed_upsertFiles fromHashes fromFragment hapart hplaced paths)
      (upsertUpdates_tracked fromHashes fromFragment fs hplaced) fun h => ?_
    obtain ⟨hash, children, path, rfl⟩ := exists_directory hdir
    cases hunder : (filterPathsUnderDirectory paths path).1.isEmpty with
    | true =>
      rw [upsertFiles] at h
      simp only [hunder, if_true] at h
      cases h
    | false =>
      rw [upsertFiles_directory hunder] at h ⊢
      dsimp only at h ⊢
      split at h
      · rename_i hnone
        rw [if_pos hnone]
        exact ⟨hash, path, rfl⟩
      · cases h

end MerkleNode

namespace CodebaseIndex

open MerkleNode

variable {H : Type} [LinearOrder H] {fromHashes : List H → H} {fromFragment : String → H}
  {apart : Prop} {index : CodebaseIndex H}

/-- Updates that are returned are applied. -/
theorem Valid.process (h : Valid apart index) {outcome : UpdateOutcome H}
    {updates : LeafToFragmentMetadataUpdates H} (hok : outcome.2 = .ok updates)
    (houtcome : RootOutcome apart index.tree outcome.1 updates) :
    Valid apart (index.process outcome) := by
  obtain ⟨taken, own, htracked⟩ := houtcome.tracked
  rw [CodebaseIndex.process, hok]
  exact ⟨houtcome.placed, houtcome.directory, h.mirrors.apply htracked⟩

/-- The deletions of an incremental sync. -/
theorem Valid.deletions (h : Valid apart index) (paths : HashSet StandardizedPath) :
    let updates := LeafToFragmentMetadataUpdates.empty.merge
      (removeUpdates fromHashes index.tree paths .empty)
    Valid apart ⟨(index.tree.removeOutcome fromHashes paths).1,
      index.leafNodeToFragmentMetadatas.applyUpdate updates⟩ ∧ updates.toInsert = HashMap.empty := by
  obtain ⟨-, hplaced, hdir, taken, own, htracked⟩ :=
    removeOutcome_eq fromHashes h.placed h.directory paths
  have hmirrors := (h.mirrors.apply (.refl _ .empty)).apply htracked
  refine ⟨⟨hplaced, hdir, hmirrors.apply_merge rfl h.mirrors.noEmpty (htracked.noEmpty .empty)⟩, ?_⟩
  rw [LeafToFragmentMetadataUpdates.merge, removeUpdates_toInsert]
  rfl

/-- **The upsertions of an incremental sync are merged with updates that insert nothing.** -/
theorem Valid.upsertions {tree : MerkleNode H} {metadata : LeafToFragmentMetadata H}
    {updates : LeafToFragmentMetadataUpdates H} {fs : LocalFileSystem}
    (h : Valid apart ⟨tree, metadata.applyUpdate updates⟩) (hempty : metadata.mapping.NoEmpty)
    (hinsert : updates.toInsert = HashMap.empty) (hapart : apart → ChunksApart fs)
    (paths : HashSet StandardizedPath) :
    Valid apart ⟨(tree.upsertOutcome fromHashes fromFragment fs paths).1, metadata.applyUpdate
      (updates.merge (upsertUpdates fromHashes fromFragment fs tree paths .empty))⟩ := by
  obtain ⟨-, hplaced, hdir, taken, own, htracked⟩ :=
    upsertOutcome_eq fromHashes fromFragment hapart h.placed h.directory paths
  exact ⟨hplaced, hdir,
    (h.mirrors.apply htracked).apply_merge hinsert hempty (htracked.noEmpty .empty)⟩

/-- **The merged updates of an incremental sync.** -/
theorem Valid.incrementalSync (h : Valid apart index) {fs : LocalFileSystem}
    (hapart : apart → ChunksApart fs) (deletions upsertions : HashSet StandardizedPath) :
    Valid apart (index.process (index.tree.incrementalOutcome fromHashes fromFragment fs deletions
      upsertions)) := by
  -- the tree and the updates after the deletions
  have hfirst : ∃ tree updates, (if deletions.isEmpty then (index.tree, .ok .empty) else
      ((index.tree.removeOutcome fromHashes deletions).1,
        (index.tree.removeOutcome fromHashes deletions).2.map
          LeafToFragmentMetadataUpdates.empty.merge) : UpdateOutcome H) = (tree, .ok updates) ∧
      Valid apart ⟨tree, index.leafNodeToFragmentMetadatas.applyUpdate updates⟩ ∧
      updates.toInsert = HashMap.empty := by
    by_cases hnone : deletions.isEmpty = true
    · exact ⟨_, _, if_pos hnone, ⟨h.placed, h.directory, h.mirrors.apply (.refl _ .empty)⟩, rfl⟩
    · obtain ⟨hvalid, hinsert⟩ := h.deletions deletions
      have hok := (removeOutcome_eq fromHashes h.placed h.directory deletions).1
      exact ⟨_, _, by rw [if_neg hnone, hok]; rfl, hvalid, hinsert⟩
  obtain ⟨tree, updates, hfirst, hvalid, hinsert⟩ := hfirst
  rw [incrementalOutcome]
  simp only [hfirst]
  by_cases hnone : upsertions.isEmpty = true
  · simp only [hnone, if_true]
    exact hvalid
  · simp only [if_neg hnone, (upsertOutcome_eq fromHashes fromFragment hapart hvalid.placed
      hvalid.directory upsertions).1]
    exact hvalid.upsertions h.mirrors.noEmpty hinsert hapart upsertions

/-- **A snapshot is loaded as it was.** -/
theorem Valid.reload (h : Valid apart index) :
    ∃ loaded, index.reload = .ok loaded ∧ loaded.tree = index.tree ∧ Valid apart loaded ∧
      (apart → ∀ hash, (loaded.leafNodeToFragmentMetadatas.mapping.getAll hash).Perm
        (index.leafNodeToFragmentMetadatas.mapping.getAll hash)) := by
  obtain ⟨path, hpath⟩ := h.directory
  have hmem : ∀ hash nodeId, (hash, nodeId) ∈ leaves index.tree → nodeId ∈
      (index.leafNodeToFragmentMetadatas.mapping.getAll hash).map FragmentMetadata.nodeId :=
    fun hash nodeId hleaf => (h.mirrors.leaves hash).mem_iff.mpr (mem_fragmentsAt.mpr hleaf)
  obtain ⟨serialized, hsaved, hloaded, hinserted, hfrom⟩ := roundTrips h.placed hmem path
  have hroot : serialized.absolutePath = some path := by
    obtain ⟨hash, children, fsInfo⟩ := serialized
    rw [← hloaded, fromSerialized] at hpath
    cases fsInfo with
    | directory absolutePath => exact congrArg some (NodeId.directory.inj hpath)
    | file absolutePath info => cases hpath
    | fragment location => cases hpath
  refine ⟨⟨index.tree, .new (fromSerialized serialized path).2⟩, ?_, rfl,
    ⟨h.placed, h.directory, .new hinserted⟩, fun ha => ?_⟩
  · rw [CodebaseIndex.reload, hsaved]
    change (fromSerializedTree serialized >>= _) = _
    rw [fromSerializedTree, hroot, ← hloaded]
    rfl
  · exact h.mirrors.perm (.new hinserted) hfrom h.placed ha

/-- A fresh index. -/
theorem Valid.new {fs : LocalFileSystem} {entry : Entry} {rootPath : StandardizedPath}
    (hroot : entry.IsDirectoryAt rootPath) (hwell : entry.WellFormed)
    (hapart : apart → ChunksApart fs)
    (hnew : CodebaseIndex.new fromHashes fromFragment fs entry = some index) :
    Valid apart index := by
  obtain ⟨root, hnode, rfl⟩ := Option.map_eq_some_iff.mp hnew
  refine ⟨placed_new fromHashes fromFragment hwell hapart hnode, ?_,
    .new (newUpdates_inserted fromHashes fromFragment fs hwell hnode)⟩
  obtain ⟨children, ignored, loaded, rfl⟩ := hroot
  rw [MerkleNode.new] at hnode
  split at hnode
  · cases hnode
  · cases hnode
    exact ⟨rootPath, rfl⟩

/-- **Every step keeps the invariant.** -/
theorem Valid.step (h : Valid apart index) {step : IndexStep} (hapart : apart → step.ChunksApart) :
    ∃ index', index.step fromHashes fromFragment step = .ok index' ∧ Valid apart index' := by
  cases step with
  | removeFiles paths =>
    obtain ⟨hok, houtcome⟩ := removeOutcome_eq fromHashes h.placed h.directory paths
    exact ⟨_, rfl, h.process hok houtcome⟩
  | upsertFiles fs paths =>
    obtain ⟨hok, houtcome⟩ := upsertOutcome_eq fromHashes fromFragment hapart h.placed h.directory
      paths
    exact ⟨_, rfl, h.process hok houtcome⟩
  | incrementalSync fs deletions upsertions =>
    exact ⟨_, rfl, h.incrementalSync hapart deletions upsertions⟩
  | reload =>
    obtain ⟨loaded, hok, -, hvalid, -⟩ := h.reload
    exact ⟨loaded, hok, hvalid⟩

/-- Every run keeps the invariant. -/
theorem Valid.run (h : Valid apart index) {steps : List IndexStep}
    (hapart : apart → ∀ step ∈ steps, step.ChunksApart) :
    ∃ index', index.run fromHashes fromFragment steps = .ok index' ∧ Valid apart index' := by
  induction steps generalizing index with
  | nil => exact ⟨index, rfl, h⟩
  | cons step steps ih =>
    obtain ⟨next, hok, hnext⟩ := h.step fun ha => hapart ha step List.mem_cons_self
    obtain ⟨index', hrun, hvalid⟩ := ih hnext fun ha step hmem =>
      hapart ha step (List.mem_cons_of_mem _ hmem)
    refine ⟨index', ?_, hvalid⟩
    rw [CodebaseIndex.run, List.foldlM_cons, hok]
    exact hrun

/-- **After every run of removals, upserts, incremental syncs and reloads, the mapping has exactly the
fragments of the tree**, and a snapshot is loaded with the same tree and a mapping of the same
fragments; it is the same mapping, with its lines, where no two chunks of a file have one range. -/
theorem metadata_mirrors {fs : LocalFileSystem} {entry : Entry} {rootPath : StandardizedPath}
    (hroot : entry.IsDirectoryAt rootPath) (hwell : entry.WellFormed) {start : CodebaseIndex H}
    (hnew : CodebaseIndex.new fromHashes fromFragment fs entry = some start)
    (steps : List IndexStep) :
    ∃ index, start.run fromHashes fromFragment steps = .ok index ∧
      Mirrors index.leafNodeToFragmentMetadatas index.tree ∧
      ∃ loaded, index.reload = .ok loaded ∧ loaded.tree = index.tree ∧
        Mirrors loaded.leafNodeToFragmentMetadatas loaded.tree ∧
        (ChunksApart fs ∧ (∀ step ∈ steps, step.ChunksApart) → ∀ hash,
          (loaded.leafNodeToFragmentMetadatas.mapping.getAll hash).Perm
            (index.leafNodeToFragmentMetadatas.mapping.getAll hash)) := by
  have hstart : Valid (ChunksApart fs ∧ ∀ step ∈ steps, step.ChunksApart) start :=
    .new hroot hwell And.left hnew
  obtain ⟨index, hrun, hvalid⟩ := hstart.run And.right
  obtain ⟨loaded, hok, htree, hloaded, hperm⟩ := hvalid.reload
  exact ⟨index, hrun, hvalid.mirrors, loaded, hok, htree, hloaded.mirrors, hperm⟩

/-- Two files whose fragments have one hash, of which one is removed. -/
theorem metadata_mirrors_emptied :
    ∃ start, CodebaseIndex.new List.sum String.length emptiedFiles emptied = some start ∧
      ∃ index, start.run List.sum String.length [.removeFiles ⟨[["x", "d"]], by decide⟩, .reload] =
          .ok index ∧
        Mirrors index.leafNodeToFragmentMetadatas index.tree ∧
        ∃ loaded, index.reload = .ok loaded ∧ loaded.tree = index.tree ∧
          Mirrors loaded.leafNodeToFragmentMetadatas loaded.tree := by
  obtain ⟨root, hroot⟩ := emptied_new
  have hnew : CodebaseIndex.new List.sum String.length emptiedFiles emptied =
      some ⟨root, .new (MerkleNode.newUpdates List.sum String.length emptiedFiles emptied)⟩ := by
    rw [CodebaseIndex.new, hroot]
    rfl
  obtain ⟨index, hrun, hmirrors, loaded, hok, htree, hloaded, -⟩ :=
    metadata_mirrors ⟨_, _, _, rfl⟩ emptied_wellFormed.1 hnew
      [.removeFiles ⟨[["x", "d"]], by decide⟩, .reload]
  exact ⟨_, hnew, index, hrun, hmirrors, loaded, hok, htree, hloaded⟩

end CodebaseIndex

end Clinch
