import Clinch.Merkle.Metadata
import Clinch.Merkle.Placed

/-!
# The metadata after an update

What `new`, `remove_files` and `upsert_files` put into the updates, against what they do to the
fragments of the tree.

* `Tracked`: the files that an update takes lose their metadata, and the new fragments bring theirs;
  `Tracked.append`;
* `Inserted`, **`newUpdates_inserted`**;
* **`removeUpdates_tracked`**, **`upsertUpdates_tracked`**;
* `Mirrors`: **the mapping has exactly the fragments of the tree**; `Mirrors.apply`,
  `Mirrors.apply_merge`.
-/

set_option autoImplicit false

namespace Clinch

@[simp] theorem FragmentMetadata.absolutePath_nodeId (metadata : FragmentMetadata) :
    metadata.nodeId.absolutePath = metadata.absolutePath := rfl

namespace MerkleNode

variable {H : Type} [LinearOrder H]

/-- The fragments with this hash. -/
def fragmentsAt (hash : H) (leaves : List (H × NodeId)) : List NodeId :=
  (leaves.filter fun leaf => leaf.1 = hash).map Prod.snd

theorem fragmentsAt_append (hash : H) (leaves leaves' : List (H × NodeId)) :
    fragmentsAt hash (leaves ++ leaves') = fragmentsAt hash leaves ++ fragmentsAt hash leaves' := by
  rw [fragmentsAt, List.filter_append, List.map_append]
  rfl

theorem fragmentsAt_perm (hash : H) {leaves leaves' : List (H × NodeId)} (h : leaves.Perm leaves') :
    (fragmentsAt hash leaves).Perm (fragmentsAt hash leaves') := (h.filter _).map _

theorem mem_fragmentsAt {hash : H} {leaves : List (H × NodeId)} {nodeId : NodeId} :
    nodeId ∈ fragmentsAt hash leaves ↔ (hash, nodeId) ∈ leaves := by
  rw [fragmentsAt, List.mem_map]
  constructor
  · rintro ⟨⟨hash', nodeId'⟩, hmem, rfl⟩
    rw [List.mem_filter, decide_eq_true_eq] at hmem
    exact hmem.2 ▸ hmem.1
  · exact fun h => ⟨_, List.mem_filter.mpr ⟨h, decide_eq_true rfl⟩, rfl⟩

/-- **What an update does to the fragments is what it does to the updates**, where it takes the files
`taken` and inserts `own`. -/
structure Tracked (before after : List (H × NodeId)) (taken : StandardizedPath → Bool)
    (own : H → List FragmentMetadata) (updates updates' : LeafToFragmentMetadataUpdates H) :
    Prop where
  removed : ∀ path, taken path = true → ∀ hash,
    updates'.Removes path hash ↔ ∃ nodeId, (hash, nodeId) ∈ before ∧ nodeId.absolutePath = path
  others : ∀ path, taken path = false →
    updates'.toRemove.getAll path = updates.toRemove.getAll path
  inserted : ∀ hash, updates'.toInsert.getAll hash = updates.toInsert.getAll hash ++ own hash
  noEmpty : updates.toInsert.NoEmpty → updates'.toInsert.NoEmpty
  leaves : ∀ hash, (fragmentsAt hash after).Perm
    ((fragmentsAt hash before).filter (fun nodeId => ! taken nodeId.absolutePath) ++
      (own hash).map FragmentMetadata.nodeId)

variable {before after before' after' : List (H × NodeId)} {taken taken' : StandardizedPath → Bool}
  {own own' : H → List FragmentMetadata} {updates updates' updates'' : LeafToFragmentMetadataUpdates H}

/-- Nothing is taken, and nothing inserted. -/
theorem Tracked.refl (before : List (H × NodeId)) (updates : LeafToFragmentMetadataUpdates H) :
    Tracked before before (fun _ => false) (fun _ => []) updates updates where
  removed path h := nomatch h
  others path _ := rfl
  inserted hash := (List.append_nil _).symm
  noEmpty h := h
  leaves hash := by simp

theorem Tracked.perm (h : Tracked before after taken own updates updates')
    (hperm : after'.Perm after) : Tracked before after' taken own updates updates' :=
  { h with leaves := fun hash => (fragmentsAt_perm hash hperm).trans (h.leaves hash) }

/-- What keeps only files that are not taken. -/
theorem filter_not_taken {hash : H} (h : ∀ leaf ∈ before, taken leaf.2.absolutePath = false) :
    (fragmentsAt hash before).filter (fun nodeId => ! (taken nodeId.absolutePath ||
      taken' nodeId.absolutePath)) =
      (fragmentsAt hash before).filter fun nodeId => ! taken' nodeId.absolutePath := by
  refine List.filter_congr fun nodeId hmem => ?_
  rw [h (hash, nodeId) (mem_fragmentsAt.mp hmem), Bool.false_or]

/-- **Updates of different files, one after the other.** -/
theorem Tracked.append (h : Tracked before after taken own updates updates')
    (h' : Tracked before' after' taken' own' updates' updates'')
    (hbefore : ∀ leaf ∈ before, taken' leaf.2.absolutePath = false)
    (hbefore' : ∀ leaf ∈ before', taken leaf.2.absolutePath = false)
    (htaken : ∀ path, taken path = true → taken' path = false) :
    Tracked (before ++ before') (after ++ after') (fun path => taken path || taken' path)
      (fun hash => own hash ++ own' hash) updates updates'' where
  removed path hpath hash := by
    simp only [List.mem_append]
    by_cases ht : taken path = true
    · rw [LeafToFragmentMetadataUpdates.Removes, h'.others path (htaken path ht)]
      refine (h.removed path ht hash).trans (exists_congr fun nodeId => ?_)
      refine and_congr_left fun he => (or_iff_left fun hmem => ?_).symm
      have := hbefore' _ hmem
      rw [he, ht] at this
      cases this
    · have ht' : taken' path = true := by simpa [ht] using hpath
      refine (h'.removed path ht' hash).trans (exists_congr fun nodeId => ?_)
      refine and_congr_left fun he => (or_iff_right fun hmem => ?_).symm
      have := hbefore _ hmem
      rw [he, ht'] at this
      cases this
  others path hpath := by
    rw [Bool.or_eq_false_iff] at hpath
    rw [h'.others path hpath.2, h.others path hpath.1]
  inserted hash := by rw [h'.inserted, h.inserted, List.append_assoc]
  noEmpty hempty := h'.noEmpty (h.noEmpty hempty)
  leaves hash := by
    have hleft : (fragmentsAt hash before).filter (fun nodeId => ! (taken nodeId.absolutePath ||
        taken' nodeId.absolutePath)) =
        (fragmentsAt hash before).filter fun nodeId => ! taken nodeId.absolutePath := by
      simp only [Bool.or_comm (taken _)]
      exact filter_not_taken hbefore
    rw [fragmentsAt_append, fragmentsAt_append, List.filter_append, hleft,
      filter_not_taken hbefore', List.map_append]
    refine ((h.leaves hash).append (h'.leaves hash)).trans ?_
    rw [List.append_assoc, List.append_assoc]
    refine List.Perm.append_left _ ?_
    rw [← List.append_assoc, ← List.append_assoc]
    exact List.perm_append_comm.append_right _

/-! ## New fragments -/

/-- The fragments are new, and the updates have their metadata. -/
def Inserted (leaves : List (H × NodeId)) (updates updates' : LeafToFragmentMetadataUpdates H) :
    Prop := ∃ own, Tracked [] leaves (fun _ => false) own updates updates'

theorem Inserted.refl (updates : LeafToFragmentMetadataUpdates H) : Inserted [] updates updates :=
  ⟨_, .refl [] updates⟩

theorem Inserted.trans {leaves leaves' : List (H × NodeId)} (h : Inserted leaves updates updates')
    (h' : Inserted leaves' updates' updates'') :
    Inserted (leaves ++ leaves') updates updates'' := by
  obtain ⟨own, h⟩ := h
  obtain ⟨own', h'⟩ := h'
  exact ⟨_, h.append h' (fun _ hmem => nomatch hmem) (fun _ hmem => nomatch hmem) fun _ _ => rfl⟩

theorem Inserted.perm {leaves leaves' : List (H × NodeId)} (h : Inserted leaves updates updates')
    (hperm : leaves'.Perm leaves) : Inserted leaves' updates updates' :=
  h.imp fun _ h => h.perm hperm

/-- What was inserted into nothing is merged. -/
theorem Inserted.merge {leaves : List (H × NodeId)} (h : Inserted leaves .empty updates')
    (updates : LeafToFragmentMetadataUpdates H) :
    Inserted leaves updates (updates.merge updates') := by
  obtain ⟨own, h⟩ := h
  refine ⟨own, fun path ht => (nomatch ht), fun path ht => ?_, fun hash => ?_, ?_, h.leaves⟩
  · rw [LeafToFragmentMetadataUpdates.merge, HashMap.getAll_extendAll, h.others path ht]
    exact List.append_nil _
  · rw [LeafToFragmentMetadataUpdates.merge, HashMap.getAll_extendAll, h.inserted hash]
    rfl
  · exact fun hempty => hempty.extendAll (h.noEmpty .empty)

variable (fromHashes : List H → H) (fromFragment : String → H) (fs : LocalFileSystem)

/-- The updates of one fragment. -/
theorem inserted_single (hash : H) (metadata : FragmentMetadata) :
    Inserted [(hash, metadata.nodeId)] .empty
      ⟨HashMap.empty, HashMap.empty.insert hash [metadata]⟩ := by
  refine ⟨fun hash' => if hash' = hash then [metadata] else [], fun path h => (by cases h),
    fun _ _ => rfl, fun hash' => HashMap.getAll_insert .., fun _ hash' hget => ?_, fun hash' => ?_⟩
  · rw [HashMap.get_insert] at hget
    split at hget <;> cases hget
  · rw [fragmentsAt, List.filter_cons]
    by_cases he : hash = hash'
    · rw [decide_eq_true he, if_pos he.symm]
      exact .refl _
    · rw [decide_eq_false he, if_neg (Ne.symm he)]
      exact .refl _

theorem newFragmentUpdates_inserted {path : StandardizedPath} {fragment : Fragment}
    (hcontent : fragment.content.isEmpty = false) :
    ∃ fragmentUpdates, newFragmentUpdates fromFragment path fragment = some fragmentUpdates ∧
      Inserted [(fromFragment fragment.content,
        .fragment path fragment.startByteIndex fragment.endByteIndex)] .empty fragmentUpdates :=
  ⟨_, if_neg (by simp [hcontent]), inserted_single _ (.ofFragment path fragment)⟩

/-- The metadata of a file. -/
theorem newFileUpdates_inserted {path : StandardizedPath} {node : MerkleNode H}
    (h : newFile fromHashes fromFragment fs path = some node) :
    Inserted (leaves node) .empty (newFileUpdates fromFragment fs path) := by
  obtain ⟨hash, info, fragments, hread, rfl⟩ := newFile_eq_some fromHashes fromFragment h
  have hfold : ∀ (fragments : List Fragment) (updates : LeafToFragmentMetadataUpdates H),
      Inserted ((fragments.filterMap (newFragment fromFragment path)).flatMap leaves) updates
        ((fragments.filterMap (newFragmentUpdates fromFragment path)).foldl
          LeafToFragmentMetadataUpdates.merge updates) := by
    intro fragments
    induction fragments with
    | nil => exact fun updates => .refl updates
    | cons fragment fragments ih =>
      intro updates
      cases hcontent : fragment.content.isEmpty with
      | true =>
        have hnode : newFragment fromFragment path fragment = none := if_pos hcontent
        have hupdates : newFragmentUpdates fromFragment path fragment = none := if_pos hcontent
        rw [List.filterMap_cons_none hnode, List.filterMap_cons_none hupdates]
        exact ih updates
      | false =>
        obtain ⟨fragmentUpdates, hsome, hinserted⟩ :=
          @newFragmentUpdates_inserted _ _ fromFragment path _ hcontent
        rw [List.filterMap_cons_some hsome, List.foldl_cons, List.filterMap_cons_some
          ((newFragment_eq_some fromFragment).mpr ⟨hcontent, rfl⟩), List.flatMap_cons, leaves]
        exact (hinserted.merge updates).trans (ih _)
  rw [newFileUpdates, hread, leaves_file]
  exact hfold fragments .empty

variable {fromHashes fromFragment fs} in
/-- The metadata of the entries that have a node. -/
theorem newAllUpdates_inserted {entries : List Entry} (h : ∀ entry ∈ entries, ∀ node,
    new fromHashes fromFragment fs entry = some node →
      Inserted (leaves node) .empty (newUpdates fromHashes fromFragment fs entry)) :
    ∀ updates, Inserted ((entries.filterMap (new fromHashes fromFragment fs)).flatMap leaves) updates
      (newAllUpdates fromHashes fromFragment fs entries updates) := by
  induction entries with
  | nil =>
    intro updates
    rw [newAllUpdates]
    exact .refl updates
  | cons entry entries ih =>
    intro updates
    obtain ⟨hentry, hentries⟩ := List.forall_mem_cons.mp h
    rw [newAllUpdates]
    cases hnode : new fromHashes fromFragment fs entry with
    | none =>
      rw [List.filterMap_cons_none hnode]
      exact ih hentries updates
    | some node =>
      rw [List.filterMap_cons_some hnode, List.flatMap_cons]
      exact ((hentry node hnode).merge updates).trans (ih hentries _)

/-- **The updates of a new tree have the metadata of its fragments.** -/
theorem newUpdates_inserted {entry : Entry} (hwell : entry.WellFormed) :
    ∀ {node}, new fromHashes fromFragment fs entry = some node →
      Inserted (leaves node) .empty (newUpdates fromHashes fromFragment fs entry) := by
  induction hwell with
  | file _ =>
    intro node h
    rw [new] at h
    rw [newUpdates]
    exact newFileUpdates_inserted fromHashes fromFragment fs h
  | @directory path children ignored loaded hwell hparent hnodup ih =>
    intro node h
    have hall := newAllUpdates_inserted (fun entry hentry node hnode => ih entry hentry hnode)
      LeafToFragmentMetadataUpdates.empty
    rw [new, newAll_eq] at h
    rw [newUpdates]
    split at h
    · cases h
    · rename_i child nodes hnodes
      cases h
      rw [hnodes] at hall
      rw [leaves_directory]
      exact hall.perm ((perm_sortChildren _).flatMap_right _)

/-! ## The loop over the children -/

/-- The updates of the loop over the children of a directory, without the early end. -/
def trackChildren (update : MerkleNode H → HashSet StandardizedPath → Updated H)
    (track : MerkleNode H → HashSet StandardizedPath → LeafToFragmentMetadataUpdates H →
      LeafToFragmentMetadataUpdates H) :
    List (MerkleNode H) → HashSet StandardizedPath → LeafToFragmentMetadataUpdates H →
      LeafToFragmentMetadataUpdates H
  | [], _, updates => updates
  | child :: children, paths, updates =>
    trackChildren update track children (update child paths).2.2.1 (track child paths updates)

omit [LinearOrder H] in
/-- With no path the updates stay. -/
theorem trackChildren_empty {update : MerkleNode H → HashSet StandardizedPath → Updated H}
    {track : MerkleNode H → HashSet StandardizedPath → LeafToFragmentMetadataUpdates H →
      LeafToFragmentMetadataUpdates H} (hidle : Idle update)
    (htrack : ∀ node updates, track node HashSet.empty updates = updates)
    (children : List (MerkleNode H)) : ∀ updates,
    trackChildren update track children HashSet.empty updates = updates := by
  induction children with
  | nil => exact fun _ => rfl
  | cons child children ih =>
    intro updates
    rw [trackChildren, htrack, hidle child]
    exact ih updates

omit [LinearOrder H] in
/-- To stop when no path is left is to go on. -/
theorem trackChildren_stop {update : MerkleNode H → HashSet StandardizedPath → Updated H}
    {track : MerkleNode H → HashSet StandardizedPath → LeafToFragmentMetadataUpdates H →
      LeafToFragmentMetadataUpdates H} (hidle : Idle update)
    (htrack : ∀ node updates, track node HashSet.empty updates = updates)
    (children : List (MerkleNode H)) (paths : HashSet StandardizedPath)
    (updates : LeafToFragmentMetadataUpdates H) :
    (if paths.isEmpty then updates else trackChildren update track children paths updates) =
      trackChildren update track children paths updates := by
  split
  · rename_i he
    rw [HashSet.eq_empty he, trackChildren_empty hidle htrack]
  · rfl

/-- The fragments of what an update keeps. -/
def keptLeaves (updated : Updated H) : List (H × NodeId) :=
  if updated.1 = .deleted then [] else leaves updated.2.1

/-- **The updates of a node say what happens to its fragments.** -/
def Tracks (update : MerkleNode H → HashSet StandardizedPath → Updated H)
    (track : MerkleNode H → HashSet StandardizedPath → LeafToFragmentMetadataUpdates H →
      LeafToFragmentMetadataUpdates H) (node : MerkleNode H) : Prop :=
  ∀ paths updates, ∃ taken own,
    Tracked (leaves node) (keptLeaves (update node paths)) taken own updates
      (track node paths updates) ∧
    ∀ path, taken path = true → path ∈ filePaths node

omit [LinearOrder H] in
/-- The fragments that the loop keeps. -/
theorem leaves_updateChildren (update : MerkleNode H → HashSet StandardizedPath → Updated H)
    (child : MerkleNode H) (children : List (MerkleNode H)) (paths : HashSet StandardizedPath) :
    ((updateChildren update (child :: children) paths).1.map Prod.fst).flatMap leaves =
      keptLeaves (update child paths) ++ ((updateChildren update children
        (update child paths).2.2.1).1.map Prod.fst).flatMap leaves := by
  rw [updateChildren, keptLeaves]
  obtain ⟨result, node, rest, mask⟩ := update child paths
  cases result <;> rfl

/-- **The updates of the loop say what happens to the fragments of the children.** -/
theorem tracks_children {apart : Prop}
    {update : MerkleNode H → HashSet StandardizedPath → Updated H}
    {track : MerkleNode H → HashSet StandardizedPath → LeafToFragmentMetadataUpdates H →
      LeafToFragmentMetadataUpdates H} :
    ∀ {children : List (MerkleNode H)}, (∀ child ∈ children, Placed apart child) →
    children.Pairwise (fun a b => (filePaths a).Disjoint (filePaths b)) →
    (∀ child ∈ children, Tracks update track child) → ∀ paths updates, ∃ taken own,
    Tracked (children.flatMap leaves)
      (((updateChildren update children paths).1.map Prod.fst).flatMap leaves) taken own updates
      (trackChildren update track children paths updates) ∧
    ∀ path, taken path = true → path ∈ children.flatMap filePaths := by
  intro children
  induction children with
  | nil => exact fun _ _ _ paths updates => ⟨_, _, .refl [] updates, fun _ h => nomatch h⟩
  | cons child children ih =>
    intro hplaced hdisjoint htracks paths updates
    obtain ⟨hplacedChild, hplaced⟩ := List.forall_mem_cons.mp hplaced
    obtain ⟨hdisjointChild, hdisjoint⟩ := List.pairwise_cons.mp hdisjoint
    obtain ⟨htracksChild, htracks⟩ := List.forall_mem_cons.mp htracks
    obtain ⟨taken, own, htracked, htaken⟩ := htracksChild paths updates
    obtain ⟨taken', own', htracked', htaken'⟩ := ih hplaced hdisjoint htracks
      (update child paths).2.2.1 (track child paths updates)
    have hapart : ∀ path, path ∈ filePaths child → path ∉ children.flatMap filePaths := by
      intro path hmem hmem'
      obtain ⟨other, hother, hmem'⟩ := List.mem_flatMap.mp hmem'
      exact hdisjointChild other hother hmem hmem'
    have hleaf : ∀ leaf ∈ leaves child, taken' leaf.2.absolutePath = false := fun leaf hleaf =>
      Bool.eq_false_iff.mpr fun ht => hapart _ (hplacedChild.leaf hleaf) (htaken' _ ht)
    have hleaf' : ∀ leaf ∈ children.flatMap leaves, taken leaf.2.absolutePath = false := by
      intro leaf hmem
      obtain ⟨other, hother, hmem⟩ := List.mem_flatMap.mp hmem
      refine Bool.eq_false_iff.mpr fun ht => hapart _ (htaken _ ht) ?_
      exact List.mem_flatMap.mpr ⟨other, hother, (hplaced other hother).leaf hmem⟩
    have happend := htracked.append htracked' hleaf hleaf' fun path ht =>
      Bool.eq_false_iff.mpr fun ht' => hapart path (htaken path ht) (htaken' path ht')
    rw [leaves_updateChildren, List.flatMap_cons, List.flatMap_cons, trackChildren]
    refine ⟨_, _, happend, fun path hpath => List.mem_append.mpr ?_⟩
    rcases (Bool.or_eq_true _ _).mp hpath with ht | ht
    · exact Or.inl (htaken path ht)
    · exact Or.inr (htaken' path ht)

/-- The loop that resorts what is kept. -/
theorem leaves_resortChildren (kept : List (MerkleNode H × Option ChildrenPath)) :
    ((resortChildren kept).1.flatMap leaves).Perm ((kept.map Prod.fst).flatMap leaves) :=
  (resortChildren_perm kept).flatMap_right _

/-! ## Removals and upserts -/

theorem removeUpdates_empty (node : MerkleNode H) (updates : LeafToFragmentMetadataUpdates H) :
    removeUpdates fromHashes node HashSet.empty updates = updates := by
  obtain ⟨hash, children, nodeId⟩ := node
  cases nodeId with
  | directory absolutePath => rw [removeUpdates]; rfl
  | file absolutePath info => rw [removeUpdates, if_neg HashSet.not_mem_empty]
  | fragment absolutePath contentStart contentEnd => rw [removeUpdates]

theorem removeChildrenUpdates_eq (children : List (MerkleNode H)) : ∀ paths updates,
    removeChildrenUpdates fromHashes children paths updates =
      trackChildren (removeFiles fromHashes) (removeUpdates fromHashes) children paths updates := by
  induction children with
  | nil => exact fun _ _ => by rw [removeChildrenUpdates]; rfl
  | cons child children ih =>
    intro paths updates
    rw [removeChildrenUpdates, trackChildren]
    simp only [ih]
    exact trackChildren_stop (idle_removeFiles fromHashes) (removeUpdates_empty fromHashes) _ _ _

theorem upsertUpdates_empty (node : MerkleNode H) (updates : LeafToFragmentMetadataUpdates H) :
    upsertUpdates fromHashes fromFragment fs node HashSet.empty updates = updates := by
  obtain ⟨hash, children, nodeId⟩ := node
  cases nodeId with
  | directory absolutePath => rw [upsertUpdates]; rfl
  | file absolutePath info => rw [upsertUpdates, if_neg HashSet.not_mem_empty]
  | fragment absolutePath contentStart contentEnd => rw [upsertUpdates]

theorem upsertChildrenUpdates_eq (children : List (MerkleNode H)) : ∀ paths updates,
    upsertChildrenUpdates fromHashes fromFragment fs children paths updates =
      trackChildren (upsertFiles fromHashes fromFragment fs)
        (upsertUpdates fromHashes fromFragment fs) children paths updates := by
  induction children with
  | nil => exact fun _ _ => by rw [upsertChildrenUpdates]; rfl
  | cons child children ih =>
    intro paths updates
    rw [upsertChildrenUpdates, trackChildren]
    simp only [ih]
    exact trackChildren_stop (idle_upsertFiles fromHashes fromFragment fs)
      (upsertUpdates_empty fromHashes fromFragment fs) _ _ _

/-- The metadata of a file is removed. -/
theorem tracked_remove {path : StandardizedPath} {children : List (MerkleNode H)}
    (hchildren : ∀ child ∈ children, IsFragmentOf path child)
    (updates : LeafToFragmentMetadataUpdates H) :
    Tracked (children.flatMap leaves) [] (fun path' => decide (path' = path)) (fun _ => []) updates
      (updates.remove path (children.map hash)) where
  removed path' hpath hash := by
    obtain rfl := of_decide_eq_true hpath
    rw [LeafToFragmentMetadataUpdates.Removes, LeafToFragmentMetadataUpdates.remove,
      HashMap.getAll_insert, if_pos rfl, flatMap_leaves hchildren, List.mem_map]
    constructor
    · rintro ⟨child, hc, rfl⟩
      obtain ⟨hash, contentStart, contentEnd, rfl⟩ := hchildren child hc
      exact ⟨_, List.mem_map_of_mem hc, rfl⟩
    · rintro ⟨nodeId, hmem, -⟩
      obtain ⟨child, hc, he⟩ := List.mem_map.mp hmem
      exact ⟨child, hc, congrArg Prod.fst he⟩
  others path' hpath := by
    rw [LeafToFragmentMetadataUpdates.remove, HashMap.getAll_insert,
      if_neg (of_decide_eq_false hpath)]
  inserted hash := (List.append_nil _).symm
  noEmpty h := h
  leaves hash := by
    have hnone : (fragmentsAt hash (children.flatMap leaves)).filter
        (fun nodeId => ! decide (nodeId.absolutePath = path)) = [] := by
      rw [List.filter_eq_nil_iff]
      intro nodeId hmem
      rw [mem_fragmentsAt, flatMap_leaves hchildren] at hmem
      obtain ⟨child, hc, he⟩ := List.mem_map.mp hmem
      obtain ⟨hash', contentStart, contentEnd, rfl⟩ := hchildren child hc
      obtain rfl := congrArg Prod.snd he
      simp [nodeId, NodeId.absolutePath]
    rw [hnone]
    exact .refl _

/-- **The updates of a removal.** -/
theorem removeUpdates_tracked {apart : Prop} {node : MerkleNode H} (h : Placed apart node) :
    Tracks (removeFiles fromHashes) (removeUpdates fromHashes) node := by
  induction h with
  | @file hash children path info hchildren hnodup =>
    intro paths updates
    rw [removeFiles, removeUpdates, leaves_file, filePaths_file]
    split
    · refine ⟨_, _, tracked_remove hchildren updates, fun path' hpath => ?_⟩
      exact List.mem_singleton.mpr (of_decide_eq_true hpath)
    · rw [keptLeaves, if_neg (by simp), leaves_file]
      exact ⟨_, _, .refl _ updates, fun _ h => by cases h⟩
  | @directory hash children path hplaced hparent hnodup ih =>
    intro paths updates
    rw [removeFiles, removeUpdates, leaves_directory, filePaths_directory]
    simp only [removeFromChildren_eq, removeChildrenUpdates_eq]
    split
    · rw [keptLeaves, if_neg (by simp), leaves_directory]
      exact ⟨_, _, .refl _ updates, fun _ h => by cases h⟩
    · obtain ⟨taken, own, htracked, htaken⟩ := tracks_children hplaced
        (Placed.disjoint hplaced hparent hnodup) ih (filterPathsUnderDirectory paths path).1 updates
      refine ⟨taken, own, ?_, htaken⟩
      split
      · rename_i hnone
        rw [List.isEmpty_iff.mp hnone] at htracked
        exact htracked
      · rw [keptLeaves, if_neg (by simp), leaves_directory]
        exact htracked.perm (leaves_resortChildren _)

/-- **The updates of an upsert.** -/
theorem upsertUpdates_tracked {apart : Prop} {node : MerkleNode H} (h : Placed apart node) :
    Tracks (upsertFiles fromHashes fromFragment fs) (upsertUpdates fromHashes fromFragment fs)
      node := by
  induction h with
  | @file hash children path info hchildren hnodup =>
    intro paths updates
    rw [upsertFiles, upsertUpdates, leaves_file, filePaths_file]
    split
    · have hremoved := tracked_remove hchildren updates
      have htaken : ∀ path', decide (path' = path) = true → path' ∈ [path] := fun path' hpath =>
        List.mem_singleton.mpr (of_decide_eq_true hpath)
      dsimp only
      split
      · exact ⟨_, _, hremoved, htaken⟩
      · cases hnew : new fromHashes fromFragment fs (CreatedEntries.newFileEntry path) with
        | none => exact ⟨_, _, hremoved, htaken⟩
        | some newNode =>
          obtain ⟨own, hinserted⟩ := (newUpdates_inserted fromHashes fromFragment fs (.file rfl)
            hnew).merge (updates.remove path (children.map MerkleNode.hash))
          have happend := hremoved.append hinserted (fun _ _ => rfl) (fun _ h => by cases h)
            fun _ _ => rfl
          rw [List.append_nil] at happend
          exact ⟨_, _, happend, fun path' hpath => htaken path' ((Bool.or_false _).symm.trans hpath)⟩
    · rw [keptLeaves, if_neg (by simp), leaves_file]
      exact ⟨_, _, .refl _ updates, fun _ h => by cases h⟩
  | @directory hash children path hplaced hparent hnodup ih =>
    intro paths updates
    rw [leaves_directory, filePaths_directory, upsertUpdates]
    simp only [upsertChildrenUpdates_eq, upsertChildren_eq]
    cases hunder : (filterPathsUnderDirectory paths path).1.isEmpty with
    | true =>
      rw [upsertFiles]
      simp only [hunder, if_true]
      rw [keptLeaves, if_neg (by simp), leaves_directory]
      exact ⟨_, _, .refl _ updates, fun _ h => by cases h⟩
    | false =>
      rw [upsertFiles_directory hunder]
      obtain ⟨taken, own, htracked, htaken⟩ := tracks_children hplaced
        (Placed.disjoint hplaced hparent hnodup) ih (filterPathsUnderDirectory paths path).1 updates
      simp only [Bool.false_eq_true, if_false]
      split
      · rename_i hnone
        rw [Bool.and_eq_true, List.isEmpty_iff] at hnone
        rw [hnone.1] at htracked
        exact ⟨taken, own, htracked, htaken⟩
      · obtain ⟨hwell, -⟩ := entriesToCreate_spec fs path (updateChildren
          (upsertFiles fromHashes fromFragment fs) children (filterPathsUnderDirectory paths path).1).2
        have hentries : ∀ entry ∈ entriesToCreate fs path (updateChildren
            (upsertFiles fromHashes fromFragment fs) children
            (filterPathsUnderDirectory paths path).1).2, entry.WellFormed := by
          cases hwell with
          | directory hw _ _ => exact hw
        obtain ⟨own', hinserted⟩ := newAllUpdates_inserted (fun entry hentry node hnode =>
          newUpdates_inserted fromHashes fromFragment fs (hentries entry hentry) hnode)
          (trackChildren (upsertFiles fromHashes fromFragment fs)
            (upsertUpdates fromHashes fromFragment fs) children
            (filterPathsUnderDirectory paths path).1 updates)
        have happend := htracked.append hinserted (fun _ _ => rfl) (fun _ h => by cases h)
          fun _ _ => rfl
        rw [List.append_nil] at happend
        rw [keptLeaves, if_neg (by simp), leaves_directory]
        refine ⟨_, _, happend.perm ((leaves_resortChildren _).trans (List.Perm.of_eq ?_)),
          fun path' hpath => htaken path' ((Bool.or_false _).symm.trans hpath)⟩
        rw [List.map_append, List.flatMap_append, List.map_map]
        exact congrArg (_ ++ List.flatMap leaves ·) (List.map_id _)

/-- A removal inserts nothing. -/
theorem removeUpdates_toInsert (node : MerkleNode H) : ∀ paths updates,
    (removeUpdates fromHashes node paths updates).toInsert = updates.toInsert := by
  induction node using MerkleNode.induction with
  | step hash children nodeId ih =>
    intro paths updates
    have hloop : ∀ paths updates, (trackChildren (removeFiles fromHashes)
        (removeUpdates fromHashes) children paths updates).toInsert = updates.toInsert := by
      induction children with
      | nil => exact fun _ _ => rfl
      | cons child children ihChildren =>
        intro paths updates
        obtain ⟨hchild, hchildren⟩ := List.forall_mem_cons.mp ih
        rw [trackChildren, ihChildren hchildren, hchild]
    cases nodeId with
    | directory absolutePath =>
      rw [removeUpdates]
      simp only [removeChildrenUpdates_eq]
      split
      · rfl
      · exact hloop _ _
    | file absolutePath info =>
      rw [removeUpdates]
      split <;> rfl
    | fragment absolutePath contentStart contentEnd => rw [removeUpdates]

/-! ## The mapping -/

/-- **The mapping has exactly the fragments of the tree**, by their hashes. -/
structure Mirrors (metadata : LeafToFragmentMetadata H) (root : MerkleNode H) : Prop where
  noEmpty : metadata.mapping.NoEmpty
  leaves : ∀ hash, ((metadata.mapping.getAll hash).map FragmentMetadata.nodeId).Perm
    (fragmentsAt hash (leaves root))

variable {metadata metadata' : LeafToFragmentMetadata H} {root root' : MerkleNode H}

/-- The metadata that comes with a new tree. -/
theorem Mirrors.new (h : Inserted (MerkleNode.leaves root) .empty updates) :
    Mirrors (.new updates) root := by
  obtain ⟨own, h⟩ := h
  refine ⟨h.noEmpty .empty, fun hash => ?_⟩
  rw [LeafToFragmentMetadata.new, h.inserted hash]
  exact (h.leaves hash).symm

/-- **Applying the updates of an update keeps the mapping.** -/
theorem Mirrors.apply (h : Mirrors metadata root)
    (htracked : Tracked (MerkleNode.leaves root) (MerkleNode.leaves root') taken own .empty updates) :
    Mirrors (metadata.applyUpdate updates) root' where
  noEmpty := LeafToFragmentMetadata.noEmpty_applyUpdate h.noEmpty (htracked.noEmpty .empty)
  leaves hash := by
    have hfilter : ((fragmentsAt hash (MerkleNode.leaves root)).filter fun nodeId =>
        ¬ updates.Removes nodeId.absolutePath hash) =
        (fragmentsAt hash (MerkleNode.leaves root)).filter fun nodeId =>
          ! taken nodeId.absolutePath := by
      refine List.filter_congr fun nodeId hmem => ?_
      cases ht : taken nodeId.absolutePath with
      | true => simpa using (htracked.removed _ ht hash).mpr ⟨nodeId, mem_fragmentsAt.mp hmem, rfl⟩
      | false =>
        have hnone : ¬ updates.Removes nodeId.absolutePath hash := by
          rw [LeafToFragmentMetadataUpdates.Removes, htracked.others _ ht]
          exact LeafToFragmentMetadataUpdates.removes_empty _ _
        simp [hnone]
    rw [LeafToFragmentMetadata.getAll_applyUpdate, htracked.inserted hash, List.map_append]
    refine List.Perm.trans (List.Perm.append_right _ ?_) (htracked.leaves hash).symm
    have hmap : ((metadata.mapping.getAll hash).filter fun m =>
        ¬ updates.Removes m.absolutePath hash).map FragmentMetadata.nodeId =
        ((metadata.mapping.getAll hash).map FragmentMetadata.nodeId).filter fun nodeId =>
          ¬ updates.Removes nodeId.absolutePath hash := by
      rw [List.filter_map]
      rfl
    rw [← hfilter, hmap]
    exact (h.leaves hash).filter _

theorem Mirrors.congr (h : Mirrors metadata root) (hempty : metadata'.mapping.NoEmpty)
    (hall : ∀ hash, metadata'.mapping.getAll hash = metadata.mapping.getAll hash) :
    Mirrors metadata' root := ⟨hempty, fun hash => hall hash ▸ h.leaves hash⟩

/-- **Updates that insert nothing may be merged with the next ones.** -/
theorem Mirrors.apply_merge (h : Mirrors ((metadata.applyUpdate updates).applyUpdate updates') root)
    (hinsert : updates.toInsert = HashMap.empty) (hempty : metadata.mapping.NoEmpty)
    (hinsert' : updates'.toInsert.NoEmpty) :
    Mirrors (metadata.applyUpdate (updates.merge updates')) root := by
  have hnone : updates.toInsert.NoEmpty := hinsert ▸ HashMap.NoEmpty.empty
  refine h.congr (LeafToFragmentMetadata.noEmpty_applyUpdate hempty
    (hnone.extendAll hinsert')) fun hash => ?_
  have hall : (updates.merge updates').toInsert.getAll hash = updates'.toInsert.getAll hash := by
    rw [LeafToFragmentMetadataUpdates.merge, HashMap.getAll_extendAll, hinsert]
    rfl
  rw [LeafToFragmentMetadata.getAll_applyUpdate, LeafToFragmentMetadata.getAll_applyUpdate,
    LeafToFragmentMetadata.getAll_applyUpdate, hall, hinsert, HashMap.getAll_empty, List.append_nil,
    List.filter_filter]
  congr 1
  refine List.filter_congr fun m _ => ?_
  simp [LeafToFragmentMetadataUpdates.removes_merge, Bool.and_comm]

end MerkleNode

end Clinch
