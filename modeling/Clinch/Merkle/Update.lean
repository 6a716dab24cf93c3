import Clinch.Merkle.Lens

/-!
# The loop over the children, and its masks

`remove_files` and `upsert_files` go over the children of a directory in one way. The loop may stop
when no path is left: an update with no path changes nothing.

* `updateChildren`, `removeFromChildren_eq`, `upsertChildren_eq`;
* `Takes`: the paths that a node takes out of the set; `removeFiles_rest`, `upsertFiles_rest`;
* `MaskCovers`, **`removeFiles_mask`**, **`upsertFiles_mask`**: the mask of an update is valid, and
  names every node whose hash is new.
-/

set_option autoImplicit false

namespace Clinch

theorem HashSet.eq_empty {K : Type} [DecidableEq K] {s : HashSet K} (h : s.isEmpty = true) :
    s = HashSet.empty := by
  obtain ⟨elements, hnodup⟩ := s
  obtain rfl := List.isEmpty_iff.mp h
  rfl

theorem StandardizedPath.startsWith_iff {path base : StandardizedPath} :
    path.startsWith base = true ↔ base <:+ path := List.isSuffixOf_iff_suffix

namespace MerkleNode

variable {H : Type}

/-- An induction over the nodes of a tree. -/
theorem induction {motive : MerkleNode H → Prop} (step : ∀ hash children nodeId,
    (∀ child ∈ children, motive child) → motive (.mk hash children nodeId)) :
    ∀ node, motive node
  | .mk hash children nodeId => step hash children nodeId fun child _ => induction step child

/-- What an update returns. -/
abbrev Updated (H : Type) := UpdateFileResult × MerkleNode H × HashSet StandardizedPath × ChildrenPath

/-! ## The loop -/

/-- The loop over the children of a directory, without the early end. -/
def updateChildren (update : MerkleNode H → HashSet StandardizedPath → Updated H) :
    List (MerkleNode H) → HashSet StandardizedPath →
    List (MerkleNode H × Option ChildrenPath) × HashSet StandardizedPath
  | [], paths => ([], paths)
  | child :: children, paths =>
    let (result, child, paths, mask) := update child paths
    let (kept, paths) := updateChildren update children paths
    match result with
    | .deleted => (kept, paths)
    | .updated => ((child, some mask) :: kept, paths)
    | .noChange => ((child, none) :: kept, paths)

/-- An update with no path changes nothing. -/
def Idle (update : MerkleNode H → HashSet StandardizedPath → Updated H) : Prop :=
  ∀ node, update node HashSet.empty = (.noChange, node, HashSet.empty, none)

theorem Idle.updateChildren {update : MerkleNode H → HashSet StandardizedPath → Updated H}
    (h : Idle update) (children : List (MerkleNode H)) :
    updateChildren update children HashSet.empty = (children.map (·, none), HashSet.empty) := by
  induction children with
  | nil => rfl
  | cons child children ih =>
    rw [MerkleNode.updateChildren, h child]
    simp only [ih]
    rfl

/-- To stop when no path is left is to go on. -/
theorem Idle.stop {update : MerkleNode H → HashSet StandardizedPath → Updated H}
    (h : Idle update) (children : List (MerkleNode H)) (paths : HashSet StandardizedPath) :
    (if paths.isEmpty then (children.map (·, none), paths)
      else MerkleNode.updateChildren update children paths) =
      MerkleNode.updateChildren update children paths := by
  split
  · rename_i he
    rw [HashSet.eq_empty he, h.updateChildren]
  · rfl

variable [LinearOrder H] (fromHashes : List H → H) (fromFragment : String → H) (fs : LocalFileSystem)

theorem idle_removeFiles : Idle (removeFiles fromHashes) := by
  rintro ⟨hash, children, nodeId⟩
  cases nodeId with
  | directory absolutePath => rw [removeFiles]; rfl
  | file absolutePath info => rw [removeFiles, if_neg HashSet.not_mem_empty]
  | fragment absolutePath contentStart contentEnd => rw [removeFiles]

theorem idle_upsertFiles : Idle (upsertFiles fromHashes fromFragment fs) := by
  rintro ⟨hash, children, nodeId⟩
  cases nodeId with
  | directory absolutePath => rw [upsertFiles]; rfl
  | file absolutePath info => rw [upsertFiles, if_neg HashSet.not_mem_empty]
  | fragment absolutePath contentStart contentEnd => rw [upsertFiles]

theorem removeFromChildren_eq (children : List (MerkleNode H)) : ∀ paths,
    removeFromChildren fromHashes children paths =
      updateChildren (removeFiles fromHashes) children paths := by
  induction children with
  | nil => exact fun _ => by rw [removeFromChildren]; rfl
  | cons child children ih =>
    intro paths
    rw [removeFromChildren, updateChildren]
    obtain ⟨result, node, rest, mask⟩ := removeFiles fromHashes child paths
    cases result <;> simp only [ih, (idle_removeFiles fromHashes).stop]

theorem upsertChildren_eq (children : List (MerkleNode H)) : ∀ paths,
    upsertChildren fromHashes fromFragment fs children paths =
      updateChildren (upsertFiles fromHashes fromFragment fs) children paths := by
  induction children with
  | nil => exact fun _ => by rw [upsertChildren]; rfl
  | cons child children ih =>
    intro paths
    rw [upsertChildren, updateChildren]
    obtain ⟨result, node, rest, mask⟩ := upsertFiles fromHashes fromFragment fs child paths
    cases result <;> simp only [ih, (idle_upsertFiles fromHashes fromFragment fs).stop]

/-! ## The paths that are left -/

omit [LinearOrder H] in
/-- The paths that a node takes out of the set. -/
def Takes (node : MerkleNode H) (path : StandardizedPath) : Prop :=
  match node.nodeId with
  | .directory absolutePath => absolutePath <:+ path
  | .file absolutePath _ => path = absolutePath
  | .fragment .. => False

omit [LinearOrder H] in
theorem Takes.below {node : MerkleNode H} {path : StandardizedPath} (h : node.Takes path) :
    node.absolutePath <:+ path := by
  obtain ⟨hash, children, nodeId⟩ := node
  cases nodeId with
  | directory absolutePath => exact h
  | file absolutePath info => exact (show path = absolutePath from h) ▸ List.suffix_refl _
  | fragment absolutePath contentStart contentEnd => exact h.elim

omit [LinearOrder H] in
/-- An update leaves the paths that the node does not take. -/
def Leaves (update : MerkleNode H → HashSet StandardizedPath → Updated H) : Prop :=
  ∀ node paths path, path ∈ (update node paths).2.2.1 ↔ path ∈ paths ∧ ¬ node.Takes path

theorem mem_under {paths : HashSet StandardizedPath} {base path : StandardizedPath} :
    path ∈ (filterPathsUnderDirectory paths base).1 ↔ path ∈ paths ∧ base <:+ path := by
  rw [filterPathsUnderDirectory, HashSet.mem_filter, StandardizedPath.startsWith_iff]

theorem mem_others {paths : HashSet StandardizedPath} {base path : StandardizedPath} :
    path ∈ (filterPathsUnderDirectory paths base).2 ↔ path ∈ paths ∧ ¬ base <:+ path := by
  rw [filterPathsUnderDirectory, HashSet.mem_filter, Bool.not_eq_true', ← Bool.not_eq_true,
    StandardizedPath.startsWith_iff]

theorem removeFiles_rest : Leaves (removeFiles fromHashes) := by
  rintro ⟨hash, children, nodeId⟩ paths path
  cases nodeId with
  | directory absolutePath =>
    rw [removeFiles]
    refine Iff.trans ?_ mem_others
    dsimp only
    split
    · rfl
    · split <;> rfl
  | file absolutePath info =>
    rw [removeFiles]
    split
    · exact HashSet.mem_remove.trans and_comm
    · rename_i hno
      exact ⟨fun h => ⟨h, fun he => hno ((show path = absolutePath from he) ▸ h)⟩, And.left⟩
  | fragment absolutePath contentStart contentEnd =>
    rw [removeFiles]
    exact ⟨fun h => ⟨h, id⟩, And.left⟩

theorem upsertFiles_rest : Leaves (upsertFiles fromHashes fromFragment fs) := by
  rintro ⟨hash, children, nodeId⟩ paths path
  cases nodeId with
  | directory absolutePath =>
    rw [upsertFiles]
    refine Iff.trans ?_ mem_others
    dsimp only
    split
    · rfl
    · split <;> rfl
  | file absolutePath info =>
    rw [upsertFiles]
    split
    · refine Iff.trans ?_ (HashSet.mem_remove.trans and_comm)
      dsimp only
      split
      · rfl
      · split <;> rfl
    · rename_i hno
      exact ⟨fun h => ⟨h, fun he => hno ((show path = absolutePath from he) ▸ h)⟩, And.left⟩
  | fragment absolutePath contentStart contentEnd =>
    rw [upsertFiles]
    exact ⟨fun h => ⟨h, id⟩, And.left⟩

omit [LinearOrder H] in
/-- The loop leaves the paths that no child takes. -/
theorem Leaves.updateChildren {update : MerkleNode H → HashSet StandardizedPath → Updated H}
    (h : Leaves update) (children : List (MerkleNode H)) : ∀ paths path,
    path ∈ (updateChildren update children paths).2 ↔
      path ∈ paths ∧ ∀ child ∈ children, ¬ child.Takes path := by
  induction children with
  | nil => exact fun paths path => ⟨fun h => ⟨h, fun _ hc => nomatch hc⟩, And.left⟩
  | cons child children ih =>
    intro paths path
    have hrest : path ∈ (MerkleNode.updateChildren update (child :: children) paths).2 ↔
        path ∈ (MerkleNode.updateChildren update children (update child paths).2.2.1).2 := by
      rw [MerkleNode.updateChildren]
      dsimp only
      split <;> rfl
    rw [hrest, ih, h, List.forall_mem_cons, and_assoc]

/-! ## The masks -/

omit [LinearOrder H] in
/-- A node of the tree has this hash. -/
def HasHash (node : MerkleNode H) (hash : H) : Prop :=
  ∃ address node', node.nodeAt address = some node' ∧ node'.hash = hash

omit [LinearOrder H] in
theorem HasHash.of_child {hash : H} {children : List (MerkleNode H)} {nodeId : NodeId}
    {child : MerkleNode H} (hc : child ∈ children) {hash' : H} (h : child.HasHash hash') :
    (MerkleNode.mk hash children nodeId).HasHash hash' := by
  obtain ⟨address, node, hnode, rfl⟩ := h
  obtain ⟨index, hget⟩ := List.mem_iff_getElem?.mp hc
  refine ⟨index :: address, node, ?_, rfl⟩
  change children[index]?.bind _ = _
  rw [hget]
  exact hnode

omit [LinearOrder H] in
/-- **The mask is valid, and names every node whose hash is new.** -/
structure MaskCovers (before after : MerkleNode H) (mask : ChildrenPath) : Prop where
  valid : ValidPath after mask
  names : ∀ address node, after.nodeAt address = some node → ¬ before.HasHash node.hash →
    Named mask address

omit [LinearOrder H] in
theorem MaskCovers.all (before after : MerkleNode H) : MaskCovers before after none :=
  ⟨.all after, fun address _ _ _ => .all address⟩

omit [LinearOrder H] in
/-- A child that is kept is as it was, or its mask covers it. -/
def KeptChild (before : MerkleNode H) (entry : MerkleNode H × Option ChildrenPath) : Prop :=
  match entry.2 with
  | none => ∀ hash, entry.1.HasHash hash → before.HasHash hash
  | some mask => MaskCovers before entry.1 mask

/-- **Sorted children keep their masks.** -/
theorem maskCovers_resortChildren {before : MerkleNode H}
    {kept : List (MerkleNode H × Option ChildrenPath)} (h : ∀ entry ∈ kept, KeptChild before entry)
    (hash : H) (nodeId : NodeId) : MaskCovers before
      (.mk hash (resortChildren kept).1 nodeId) (resortChildren kept).2 := by
  rw [resortChildren]
  have hperm : (kept.mergeSort fun a b => a.1.hash ≤ b.1.hash).Perm kept := List.mergeSort_perm ..
  generalize kept.mergeSort (fun a b => a.1.hash ≤ b.1.hash) = sorted at hperm ⊢
  have h : ∀ entry ∈ sorted, KeptChild before entry := fun entry he => h entry (hperm.mem_iff.mp he)
  dsimp only
  split
  · exact .all _ _
  rename_i hne
  generalize hmasks : (sorted.zipIdx.filterMap fun e => e.1.2.map (NodeMask.mk e.2)) = masks at hne ⊢
  have hmem : ∀ index path, NodeMask.mk index path ∈ masks ↔
      ∃ child, sorted[index]? = some (child, some path) := fun index path => by
    rw [← hmasks, List.mem_filterMap]
    constructor
    · rintro ⟨⟨⟨child, mask⟩, newIdx⟩, hzip, hmask⟩
      obtain ⟨path', rfl, hpath⟩ := Option.map_eq_some_iff.mp hmask
      obtain ⟨rfl, rfl⟩ := NodeMask.mk.inj hpath
      exact ⟨child, List.mem_zipIdx_iff_getElem?.mp hzip⟩
    · rintro ⟨child, hget⟩
      exact ⟨((child, some path), index), List.mem_zipIdx_iff_getElem?.mpr hget, rfl⟩
  constructor
  · refine .specific ?_ ?_ ?_
    · rw [← hmasks, List.Nodup, List.pairwise_map, List.pairwise_filterMap]
      refine (List.pairwise_map.mp (List.nodup_zipIdx_map_snd sorted)).imp fun {a b} hab => ?_
      rintro mask hmask mask' hmask'
      obtain ⟨path, -, rfl⟩ := Option.map_eq_some_iff.mp hmask
      obtain ⟨path', -, rfl⟩ := Option.map_eq_some_iff.mp hmask'
      exact hab
    · rintro ⟨index, path⟩ hmask
      obtain ⟨child, hget⟩ := (hmem index path).mp hmask
      change index < (sorted.map Prod.fst).length
      rw [List.length_map]
      exact (List.getElem?_eq_some_iff.mp hget).1
    · rintro ⟨index, path⟩ hmask child hchild
      obtain ⟨child', hget⟩ := (hmem index path).mp hmask
      change (sorted.map Prod.fst)[index]? = some child at hchild
      rw [List.getElem?_map, hget] at hchild
      cases hchild
      exact (h _ (List.mem_of_getElem? hget) : MaskCovers ..).valid
  · intro address node hnode hnew
    cases address with
    | nil => exact .here _
    | cons index address =>
      change (sorted.map Prod.fst)[index]?.bind _ = _ at hnode
      obtain ⟨child, hchild, hrest⟩ := Option.bind_eq_some_iff.mp hnode
      rw [List.getElem?_map] at hchild
      obtain ⟨⟨child, mask⟩, hget, rfl⟩ := Option.map_eq_some_iff.mp hchild
      have hkept := h _ (List.mem_of_getElem? hget)
      cases mask with
      | none => exact absurd (hkept node.hash ⟨address, node, hrest, rfl⟩) hnew
      | some path =>
        exact .child ((hmem index path).mpr ⟨child, hget⟩)
          ((hkept : MaskCovers ..).names address node hrest hnew)

omit [LinearOrder H] in
/-- What an update says of its mask. -/
def MaskSpec (before : MerkleNode H) (updated : Updated H) : Prop :=
  if updated.1 = .noChange then updated.2.1 = before
  else MaskCovers before updated.2.1 updated.2.2.2

omit [LinearOrder H] in
/-- The children that the loop keeps. -/
theorem keptChild_updateChildren {update : MerkleNode H → HashSet StandardizedPath → Updated H}
    {hash : H} {children : List (MerkleNode H)} {nodeId : NodeId} : ∀ {children' paths},
    children' ⊆ children → (∀ child ∈ children', ∀ paths, MaskSpec child (update child paths)) →
    ∀ entry ∈ (updateChildren update children' paths).1,
      KeptChild (.mk hash children nodeId) entry := by
  intro children'
  induction children' with
  | nil => exact fun _ _ _ he => nomatch he
  | cons child children' ih =>
    intro paths hsub h entry he
    obtain ⟨hc, hsub⟩ := List.cons_subset.mp hsub
    obtain ⟨hspec, h⟩ := List.forall_mem_cons.mp h
    have hspec := hspec paths
    rw [updateChildren] at he
    generalize update child paths = updated at he hspec
    obtain ⟨result, node, rest, mask⟩ := updated
    have ih := @ih rest hsub h entry
    cases result with
    | deleted => exact ih he
    | updated =>
      rcases List.mem_cons.mp he with rfl | he
      · have hcovers : MaskCovers child node mask := hspec
        exact ⟨hcovers.valid, fun address node hnode hnew =>
          hcovers.names address node hnode fun hh => hnew (hh.of_child hc)⟩
      · exact ih he
    | noChange =>
      rcases List.mem_cons.mp he with rfl | he
      · obtain rfl : node = child := hspec
        exact fun hash hh => hh.of_child hc
      · exact ih he

theorem removeFiles_mask (node : MerkleNode H) : ∀ paths,
    MaskSpec node (removeFiles fromHashes node paths) := by
  induction node using induction with
  | step hash children nodeId ih =>
    intro paths
    cases nodeId with
    | directory absolutePath =>
      rw [removeFiles]
      dsimp only
      split
      · rfl
      · split
        · exact MaskCovers.all _ _
        · refine maskCovers_resortChildren ?_ _ _
          rw [removeFromChildren_eq]
          exact keptChild_updateChildren (List.Subset.refl _) ih
    | file absolutePath info =>
      rw [removeFiles]
      split
      · exact MaskCovers.all _ _
      · rfl
    | fragment absolutePath contentStart contentEnd =>
      rw [removeFiles]
      rfl

theorem upsertFiles_mask (node : MerkleNode H) : ∀ paths,
    MaskSpec node (upsertFiles fromHashes fromFragment fs node paths) := by
  induction node using induction with
  | step hash children nodeId ih =>
    intro paths
    cases nodeId with
    | directory absolutePath =>
      rw [upsertFiles]
      dsimp only
      split
      · rfl
      · split
        · exact MaskCovers.all _ _
        · refine maskCovers_resortChildren (fun entry he => ?_) _ _
          rcases List.mem_append.mp he with he | he
          · rw [upsertChildren_eq] at he
            exact keptChild_updateChildren (List.Subset.refl _) ih entry he
          · obtain ⟨created, -, rfl⟩ := List.mem_map.mp he
            exact MaskCovers.all _ _
    | file absolutePath info =>
      rw [upsertFiles]
      split
      · dsimp only
        split
        · exact MaskCovers.all _ _
        · split <;> exact MaskCovers.all _ _
      · rfl
    | fragment absolutePath contentStart contentEnd =>
      rw [upsertFiles]
      rfl

/-- **The nodes that an update returns** are nodes of the new tree, with every one whose hash is new,
children before parents. -/
structure NewNodes (before after : MerkleNode H) (nodes : List (MerkleNode H))
    (addresses : List (List ℕ)) : Prop extends ListedAt after addresses nodes where
  complete : ∀ address node, after.nodeAt address = some node → ¬ before.HasHash node.hash →
    address ∈ addresses

omit [LinearOrder H] in
theorem updateNodes_spec {before : MerkleNode H} {updated : Updated H} (h : MaskSpec before updated) :
    ∃ nodes addresses, (updateNodes updated).nodeLens = .ok nodes ∧
      NewNodes before (updateNodes updated).root nodes addresses := by
  rw [updateNodes]
  rw [MaskSpec] at h
  split at h
  · rename_i he
    refine ⟨[updated.2.1], [[]], if_pos he, ⟨rfl, List.pairwise_singleton _ _⟩, ?_⟩
    intro address node hnode hnew
    exact absurd ⟨address, node, h ▸ hnode, rfl⟩ hnew
  · rename_i he
    obtain ⟨nodes, addresses, hok, hlisted, hnamed⟩ := nodesFromMask_spec h.valid
    refine ⟨nodes, addresses, (if_neg he).trans hok, hlisted, fun address node hnode hnew => ?_⟩
    exact hnamed address (h.names address node hnode hnew) (by rw [hnode]; rfl)

end MerkleNode

end Clinch
