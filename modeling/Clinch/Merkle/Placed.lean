import Clinch.Merkle.Outcome

/-!
# Where the nodes of a tree are

What holds of every tree, whatever the file system has answered: a node is where its path says, and
the fragments of a file are of that file.

* `leaves`, `filePaths`: the fragments and the files of a tree;
* `Placed`: the children of a directory are right below it, and two with one path are a file and a
  directory;
* **`Placed.disjoint`**: two children of a directory have no file in common;
* **`placed_new`**, **`placed_removeFiles`**, **`placed_upsertFiles`**.
-/

set_option autoImplicit false

namespace Clinch.MerkleNode

variable {H : Type}

mutual

/-- The fragments of a tree, with their hashes. -/
def leaves : MerkleNode H → List (H × NodeId)
  | .mk hash _ (.fragment absolutePath contentStart contentEnd) =>
    [(hash, .fragment absolutePath contentStart contentEnd)]
  | .mk _ children (.directory _) => leavesAll children
  | .mk _ children (.file _ _) => leavesAll children

def leavesAll : List (MerkleNode H) → List (H × NodeId)
  | [] => []
  | child :: children => leaves child ++ leavesAll children

end

mutual

/-- The paths of the files of a tree. -/
def filePaths : MerkleNode H → List StandardizedPath
  | .mk _ children (.directory _) => filePathsAll children
  | .mk _ _ (.file absolutePath _) => [absolutePath]
  | .mk _ _ (.fragment ..) => []

def filePathsAll : List (MerkleNode H) → List StandardizedPath
  | [] => []
  | child :: children => filePaths child ++ filePathsAll children

end

theorem leavesAll_eq (children : List (MerkleNode H)) :
    leavesAll children = children.flatMap leaves := by
  induction children with
  | nil => rw [leavesAll]; rfl
  | cons child children ih => rw [leavesAll, ih, List.flatMap_cons]

theorem filePathsAll_eq (children : List (MerkleNode H)) :
    filePathsAll children = children.flatMap filePaths := by
  induction children with
  | nil => rw [filePathsAll]; rfl
  | cons child children ih => rw [filePathsAll, ih, List.flatMap_cons]

@[simp] theorem leaves_directory (hash : H) (children : List (MerkleNode H))
    (path : StandardizedPath) :
    leaves (.mk hash children (.directory path)) = children.flatMap leaves := by
  rw [leaves, leavesAll_eq]

@[simp] theorem leaves_file (hash : H) (children : List (MerkleNode H)) (path : StandardizedPath)
    (info : FileInfo) :
    leaves (.mk hash children (.file path info)) = children.flatMap leaves := by
  rw [leaves, leavesAll_eq]

@[simp] theorem filePaths_directory (hash : H) (children : List (MerkleNode H))
    (path : StandardizedPath) :
    filePaths (.mk hash children (.directory path)) = children.flatMap filePaths := by
  rw [filePaths, filePathsAll_eq]

@[simp] theorem filePaths_file (hash : H) (children : List (MerkleNode H)) (path : StandardizedPath)
    (info : FileInfo) : filePaths (.mk hash children (.file path info)) = [path] := by
  rw [filePaths]

/-! ## Placed nodes -/

def isFile (node : MerkleNode H) : Bool :=
  match node.nodeId with
  | .file .. => true
  | _ => false

/-- Where a node is among the children of a directory. -/
def slot (node : MerkleNode H) : Bool × StandardizedPath := (node.isFile, node.absolutePath)

/-- A fragment node of the file. -/
def IsFragmentOf (path : StandardizedPath) (node : MerkleNode H) : Prop :=
  ∃ hash contentStart contentEnd, node = .mk hash [] (.fragment path contentStart contentEnd)

/-- **A placed node**; if `apart`, the fragments of each file have different ranges. -/
inductive Placed (apart : Prop) : MerkleNode H → Prop
  | file {hash : H} {children : List (MerkleNode H)} {path : StandardizedPath} {info : FileInfo} :
    (∀ child ∈ children, IsFragmentOf path child) → (apart → (children.map nodeId).Nodup) →
    Placed apart (.mk hash children (.file path info))
  | directory {hash : H} {children : List (MerkleNode H)} {path : StandardizedPath} :
    (∀ child ∈ children, Placed apart child) →
    (∀ child ∈ children, child.absolutePath.parent = some path) → (children.map slot).Nodup →
    Placed apart (.mk hash children (.directory path))

variable {apart : Prop} {node : MerkleNode H} {path : StandardizedPath}

theorem IsFragmentOf.leaves_eq (h : IsFragmentOf path node) :
    leaves node = [(node.hash, node.nodeId)] := by
  obtain ⟨hash, contentStart, contentEnd, rfl⟩ := h
  rw [leaves]
  rfl

/-- The leaves of a file. -/
theorem flatMap_leaves {children : List (MerkleNode H)}
    (h : ∀ child ∈ children, IsFragmentOf path child) :
    children.flatMap leaves = children.map fun child => (child.hash, child.nodeId) := by
  rw [List.flatMap_congr fun child hc => (h child hc).leaves_eq, ← List.map_eq_flatMap]

/-- The files of a node are below it, and only a file is one itself. -/
theorem Placed.filePath (h : Placed apart node) : ∀ {path'}, path' ∈ filePaths node →
    node.absolutePath <:+ path' ∧ (node.isFile = true ↔ path' = node.absolutePath) := by
  induction h with
  | file _ _ =>
    intro path' hmem
    rw [filePaths_file, List.mem_singleton] at hmem
    exact ⟨hmem ▸ List.suffix_refl _, fun _ => hmem, fun _ => rfl⟩
  | @directory hash children path _ hparent _ ih =>
    intro path' hmem
    rw [filePaths_directory, List.mem_flatMap] at hmem
    obtain ⟨child, hc, hmem⟩ := hmem
    have hbelow := (ih child hc hmem).1
    refine ⟨(StandardizedPath.suffix_of_parent (hparent child hc) (List.suffix_refl _)).trans
      hbelow, fun h => (nomatch h), fun he => ?_⟩
    exact absurd ((show path' = path from he) ▸ hbelow) (StandardizedPath.not_suffix_parent (hparent child hc))

/-- A node takes the paths of its files. -/
theorem Placed.takes (h : Placed apart node) {path' : StandardizedPath}
    (hmem : path' ∈ filePaths node) : node.Takes path' := by
  have hpath := h.filePath hmem
  cases h with
  | file _ _ => exact hpath.2.mp rfl
  | directory _ _ _ => exact hpath.1

/-- A leaf is of a file of the tree. -/
theorem Placed.leaf (h : Placed apart node) : ∀ {leaf}, leaf ∈ leaves node →
    leaf.2.absolutePath ∈ filePaths node := by
  induction h with
  | file hchildren _ =>
    intro leaf hmem
    rw [leaves_file, flatMap_leaves hchildren, List.mem_map] at hmem
    obtain ⟨child, hc, rfl⟩ := hmem
    obtain ⟨hash, contentStart, contentEnd, rfl⟩ := hchildren child hc
    rw [filePaths_file]
    exact List.mem_singleton_self _
  | directory _ _ _ ih =>
    intro leaf hmem
    rw [leaves_directory, List.mem_flatMap] at hmem
    obtain ⟨child, hc, hmem⟩ := hmem
    rw [filePaths_directory, List.mem_flatMap]
    exact ⟨child, hc, ih child hc hmem⟩

/-- Nodes right below one directory that have a file in common are in one slot. -/
theorem Placed.slot_eq {a b : MerkleNode H} (ha : Placed apart a) (hb : Placed apart b)
    (hpa : a.absolutePath.parent = some path) (hpb : b.absolutePath.parent = some path)
    {path' : StandardizedPath} (hma : path' ∈ filePaths a) (hmb : path' ∈ filePaths b) :
    a.slot = b.slot := by
  have hpath := StandardizedPath.eq_of_parent hpa hpb (ha.filePath hma).1 (hb.filePath hmb).1
  have hfile : a.isFile = b.isFile := by
    rw [Bool.eq_iff_iff, (ha.filePath hma).2, (hb.filePath hmb).2, hpath]
  exact Prod.ext hfile hpath

/-- **Two children of a directory have no file in common.** -/
theorem Placed.disjoint {children : List (MerkleNode H)}
    (hplaced : ∀ child ∈ children, Placed apart child)
    (hparent : ∀ child ∈ children, child.absolutePath.parent = some path)
    (hnodup : (children.map slot).Nodup) :
    children.Pairwise fun a b => (filePaths a).Disjoint (filePaths b) := by
  rw [List.Nodup, List.pairwise_map] at hnodup
  refine hnodup.imp_of_mem fun {a b} ha hb hne path' hma hmb => hne ?_
  exact (hplaced a ha).slot_eq (hplaced b hb) (hparent a ha) (hparent b hb) hma hmb

/-- What is said of the children does not depend on their order. -/
theorem Placed.perm {hash hash' : H} {children children' : List (MerkleNode H)}
    (h : Placed apart (.mk hash children (.directory path))) (hperm : children'.Perm children) :
    Placed apart (.mk hash' children' (.directory path)) := by
  cases h with
  | directory hplaced hparent hnodup =>
    exact .directory (fun child hc => hplaced child (hperm.mem_iff.mp hc))
      (fun child hc => hparent child (hperm.mem_iff.mp hc))
      ((hperm.map slot).nodup_iff.mpr hnodup)

/-! ## New nodes -/

variable (fromHashes : List H → H) (fromFragment : String → H) {fs : LocalFileSystem}

/-- The chunks of a file that have content have different ranges. -/
def ChunksApart (fs : LocalFileSystem) : Prop :=
  ∀ path info fragments, fs.readFile path = some (info, fragments) →
    (fragments.filter fun fragment => ! fragment.content.isEmpty).Pairwise fun a b =>
      (a.startByteIndex, a.endByteIndex) ≠ (b.startByteIndex, b.endByteIndex)

/-- The fragment nodes of a file. -/
theorem newFragment_eq_some {fragment : Fragment} :
    newFragment fromFragment path fragment = some node ↔ fragment.content.isEmpty = false ∧
      node = .mk (fromFragment fragment.content) []
        (.fragment path fragment.startByteIndex fragment.endByteIndex) := by
  rw [newFragment]
  split
  · rename_i h
    simp [h]
  · rename_i h
    simp [h, eq_comm]

theorem filterMap_newFragment (fragments : List Fragment) :
    fragments.filterMap (newFragment fromFragment path) =
      (fragments.filter fun fragment => ! fragment.content.isEmpty).map fun fragment =>
        .mk (fromFragment fragment.content) []
          (.fragment path fragment.startByteIndex fragment.endByteIndex) := by
  induction fragments with
  | nil => rfl
  | cons fragment fragments ih =>
    rw [List.filterMap_cons, List.filter_cons, newFragment]
    cases fragment.content.isEmpty with
    | true => exact ih
    | false => exact congrArg _ ih

/-- A file's node. -/
theorem newFile_eq_some (h : newFile fromHashes fromFragment fs path = some node) :
    ∃ hash info fragments, fs.readFile path = some (info, fragments) ∧
      node = .mk hash (fragments.filterMap (newFragment fromFragment path)) (.file path info) := by
  rw [newFile] at h
  cases hread : fs.readFile path with
  | none => rw [hread] at h; cases h
  | some read =>
    obtain ⟨info, fragments⟩ := read
    simp only [hread] at h
    split at h
    · cases h
    · exact ⟨_, info, fragments, rfl, (Option.some.inj h).symm⟩

theorem placed_newFile (hapart : apart → ChunksApart fs)
    (h : newFile fromHashes fromFragment fs path = some node) : Placed apart node := by
  obtain ⟨hash, info, fragments, hread, rfl⟩ := newFile_eq_some fromHashes fromFragment h
  refine .file (fun child hc => ?_) fun ha => ?_
  · obtain ⟨fragment, -, hfragment⟩ := List.mem_filterMap.mp hc
    exact ⟨_, _, _, ((newFragment_eq_some _).mp hfragment).2⟩
  · rw [filterMap_newFragment, List.map_map, List.Nodup, List.pairwise_map]
    refine (hapart ha path info fragments hread).imp fun hne he => hne ?_
    simpa [nodeId] using he

variable [LinearOrder H]

/-- The kind of the node of an entry. -/
theorem slot_new {entry : Entry} (h : new fromHashes fromFragment fs entry = some node) :
    node.slot = (match entry with | .file .. => true | .directory .. => false, entry.path) := by
  cases entry with
  | file path extension ignored =>
    rw [new] at h
    obtain ⟨hash, info, fragments, -, rfl⟩ := newFile_eq_some fromHashes fromFragment h
    rfl
  | directory path children ignored loaded =>
    rw [new] at h
    split at h
    · cases h
    · cases h
      rfl

/-- **A new tree is placed.** -/
theorem placed_new {entry : Entry} (hwell : entry.WellFormed) (hapart : apart → ChunksApart fs) :
    ∀ {node}, new fromHashes fromFragment fs entry = some node → Placed apart node := by
  induction hwell with
  | file _ =>
    intro node h
    rw [new] at h
    exact placed_newFile fromHashes fromFragment hapart h
  | @directory path children ignored loaded hwell hparent hnodup ih =>
    intro node h
    have hpath : ∀ entry ∈ children, ∀ node, new fromHashes fromFragment fs entry = some node →
        node.absolutePath = entry.path := fun entry _ node hnode =>
      congrArg Prod.snd (slot_new fromHashes fromFragment hnode)
    have hslots : ((children.filterMap (new fromHashes fromFragment fs)).map slot).Nodup := by
      refine List.Nodup.of_map Prod.snd ?_
      rw [List.map_map]
      exact (map_absolutePath_filterMap hpath).nodup hnodup
    have hplaced : Placed apart (.mk (fromHashes []) (children.filterMap
        (new fromHashes fromFragment fs)) (.directory path)) := by
      refine .directory (fun child hc => ?_) (fun child hc => ?_) hslots
      · obtain ⟨entry, hentry, hnode⟩ := List.mem_filterMap.mp hc
        exact ih entry hentry hnode
      · obtain ⟨entry, hentry, hnode⟩ := List.mem_filterMap.mp hc
        rw [hpath entry hentry child hnode, hparent entry hentry]
    rw [new, newAll_eq] at h
    cases hnodes : children.filterMap (new fromHashes fromFragment fs) with
    | nil => rw [hnodes] at h; cases h
    | cons child nodes =>
      rw [hnodes] at h hplaced
      cases h
      exact hplaced.perm (perm_sortChildren _)

/-! ## Updates -/

/-- What an update keeps of a node is placed, in the same slot. -/
def StaysPlaced (apart : Prop) (node : MerkleNode H) (updated : Updated H) : Prop :=
  updated.1 ≠ .deleted → Placed apart updated.2.1 ∧ updated.2.1.slot = node.slot

omit [LinearOrder H] in
/-- The children that are kept. -/
theorem placed_updateChildren {update : MerkleNode H → HashSet StandardizedPath → Updated H} :
    ∀ {children : List (MerkleNode H)}, (∀ child ∈ children, ∀ paths,
      StaysPlaced apart child (update child paths)) → ∀ paths,
    (∀ entry ∈ (updateChildren update children paths).1, Placed apart entry.1) ∧
      ((updateChildren update children paths).1.map fun entry => entry.1.slot).Sublist
        (children.map slot) := by
  intro children
  induction children with
  | nil => exact fun _ paths => ⟨fun _ h => (nomatch h), .slnil⟩
  | cons child children ih =>
    intro h paths
    obtain ⟨hchild, hchildren⟩ := List.forall_mem_cons.mp h
    have hstays := hchild paths
    rw [updateChildren]
    generalize update child paths = updated at hstays
    obtain ⟨result, node, rest, mask⟩ := updated
    obtain ⟨hplaced, hsub⟩ := ih hchildren rest
    cases result with
    | deleted => exact ⟨hplaced, hsub.cons _⟩
    | updated =>
      obtain ⟨hnode, hslot⟩ := hstays (by simp)
      refine ⟨List.forall_mem_cons.mpr ⟨hnode, hplaced⟩, ?_⟩
      rw [List.map_cons, List.map_cons]
      exact (show node.slot = child.slot from hslot) ▸ hsub.cons_cons _
    | noChange =>
      obtain ⟨hnode, hslot⟩ := hstays (by simp)
      refine ⟨List.forall_mem_cons.mpr ⟨hnode, hplaced⟩, ?_⟩
      rw [List.map_cons, List.map_cons]
      exact (show node.slot = child.slot from hslot) ▸ hsub.cons_cons _

omit [LinearOrder H] in
/-- The directory of the children that are kept. -/
theorem placed_kept {update : MerkleNode H → HashSet StandardizedPath → Updated H} {hash : H}
    {children : List (MerkleNode H)} (h : Placed apart (.mk hash children (.directory path)))
    (hstays : ∀ child ∈ children, ∀ paths, StaysPlaced apart child (update child paths))
    (hash' : H) (paths : HashSet StandardizedPath) :
    Placed apart (.mk hash' ((updateChildren update children paths).1.map Prod.fst)
      (.directory path)) := by
  cases h with
  | directory _ hparent hnodup =>
    obtain ⟨hplaced, hsub⟩ := placed_updateChildren hstays paths
    have hmap : ((updateChildren update children paths).1.map Prod.fst).map slot =
        (updateChildren update children paths).1.map fun entry => entry.1.slot := List.map_map
    refine .directory (fun child hc => ?_) (fun child hc => ?_) (hmap ▸ hsub.nodup hnodup)
    · obtain ⟨entry, hentry, rfl⟩ := List.mem_map.mp hc
      exact hplaced entry hentry
    · have hslot := hsub.subset (hmap ▸ List.mem_map_of_mem (f := slot) hc)
      obtain ⟨old, hold, he⟩ := List.mem_map.mp hslot
      rw [← show old.absolutePath = child.absolutePath from congrArg Prod.snd he]
      exact hparent old hold

/-- The children in their new order. -/
theorem resortChildren_perm (kept : List (MerkleNode H × Option ChildrenPath)) :
    (resortChildren kept).1.Perm (kept.map Prod.fst) := (List.mergeSort_perm ..).map Prod.fst

/-- **What `remove_files` keeps is placed.** -/
theorem placed_removeFiles (h : Placed apart node) :
    ∀ paths, StaysPlaced apart node (removeFiles fromHashes node paths) := by
  induction h with
  | @file hash children path info hchildren hnodup =>
    intro paths
    rw [removeFiles]
    split
    · exact fun h => absurd rfl h
    · exact fun _ => ⟨.file hchildren hnodup, rfl⟩
  | @directory hash children path hplaced hparent hnodup ih =>
    intro paths
    rw [removeFiles]
    simp only [removeFromChildren_eq]
    split
    · exact fun _ => ⟨.directory hplaced hparent hnodup, rfl⟩
    · split
      · exact fun h => absurd rfl h
      · have hdir : Placed apart (.mk hash children (.directory path)) :=
          .directory hplaced hparent hnodup
        exact fun _ => ⟨(placed_kept hdir ih hash _).perm (resortChildren_perm _), rfl⟩

/-! ## Created nodes -/

omit [LinearOrder H] in
/-- Nodes in one slot take the same paths. -/
theorem Placed.takes_of_slot {a b : MerkleNode H} (hb : Placed apart b) (hslot : a.slot = b.slot)
    {path' : StandardizedPath} (h : a.Takes path') : b.Takes path' := by
  have hfile : a.isFile = b.isFile := congrArg Prod.fst hslot
  have hpath : a.absolutePath = b.absolutePath := congrArg Prod.snd hslot
  have hbelow : b.absolutePath <:+ path' := hpath ▸ h.below
  cases hb with
  | directory _ _ _ => exact hbelow
  | @file _ _ path info _ _ =>
    obtain ⟨hash, children, nodeId⟩ := a
    cases nodeId with
    | file absolutePath info' =>
      exact (show path' = absolutePath from h).trans (show absolutePath = path from hpath)
    | directory absolutePath => exact nomatch hfile
    | fragment absolutePath contentStart contentEnd => exact nomatch hfile

/-- A created node takes a path that was left. -/
theorem exists_remaining {entry : Entry} {remaining : HashSet StandardizedPath}
    (hentry : entry ∈ entriesToCreate fs path remaining)
    (h : new fromHashes fromFragment fs entry = some node) : ∃ path' ∈ remaining, node.Takes path' := by
  obtain ⟨hwell, hfiles⟩ := entriesToCreate_spec fs path remaining
  have hentryWell : entry.WellFormed := by
    cases hwell with
    | directory hw _ _ => exact hw entry hentry
  have hspec := canonical_new fromHashes fromFragment fs hentryWell
  rw [h] at hspec
  obtain ⟨path', hs, hsuffix⟩ :=
    hspec.1.exists_file (FileNodes.consistent_ofEntry _ _ _ hentryWell)
  obtain ⟨metadata, hview⟩ := FileNodes.ofEntry_isSome hs
  refine ⟨path', ((hfiles path').mp ⟨entry, hentry, metadata, hview⟩).1, ?_⟩
  cases entry with
  | file filePath extension ignored =>
    rw [new] at h
    obtain ⟨hash, info, fragments, -, rfl⟩ := newFile_eq_some fromHashes fromFragment h
    rw [Entry.view_file] at hview
    split at hview
    · rename_i he
      exact he
    · cases hview
  | directory dirPath children ignored loaded =>
    rw [new] at h
    split at h
    · cases h
    · cases h
      exact hsuffix

/-- The directory with its created children. -/
theorem placed_created {hash : H} {children kept : List (MerkleNode H)}
    {remaining : HashSet StandardizedPath} (hapart : apart → ChunksApart fs)
    (hplaced : ∀ child ∈ children, Placed apart child)
    (hkept : Placed apart (.mk hash kept (.directory path)))
    (hslots : ∀ child ∈ kept, child.slot ∈ children.map slot)
    (hleft : ∀ path' ∈ remaining, ∀ child ∈ children, ¬ child.Takes path') (hash' : H) :
    Placed apart (.mk hash' (kept ++ Directory.createdNodes fromHashes fromFragment fs path
      remaining) (.directory path)) := by
  obtain ⟨hwell, -⟩ := entriesToCreate_spec fs path remaining
  cases hwell with
  | directory hw hp hn =>
  cases hkept with
  | directory hkeptPlaced hkeptParent hkeptNodup =>
  have hcreated : ∀ child ∈ Directory.createdNodes fromHashes fromFragment fs path remaining,
      ∃ entry ∈ entriesToCreate fs path remaining,
        new fromHashes fromFragment fs entry = some child := fun child hc => by
    obtain ⟨entry, hentry, hnode⟩ := List.mem_filterMap.mp hc
    exact ⟨entry, hentry, hnode⟩
  have hpath : ∀ entry ∈ entriesToCreate fs path remaining, ∀ node,
      new fromHashes fromFragment fs entry = some node → node.absolutePath = entry.path :=
    fun entry _ node hnode => congrArg Prod.snd (slot_new fromHashes fromFragment hnode)
  have hnodup : ((Directory.createdNodes fromHashes fromFragment fs path remaining).map
      slot).Nodup := by
    refine List.Nodup.of_map Prod.snd ?_
    rw [List.map_map]
    exact (map_absolutePath_filterMap hpath).nodup hn
  refine .directory (fun child hc => ?_) (fun child hc => ?_) ?_
  · rcases List.mem_append.mp hc with hc | hc
    · exact hkeptPlaced child hc
    · obtain ⟨entry, hentry, hnode⟩ := hcreated child hc
      exact placed_new fromHashes fromFragment (hw entry hentry) hapart hnode
  · rcases List.mem_append.mp hc with hc | hc
    · exact hkeptParent child hc
    · obtain ⟨entry, hentry, hnode⟩ := hcreated child hc
      rw [hpath entry hentry child hnode, hp entry hentry]
  · rw [List.map_append, List.nodup_append]
    refine ⟨hkeptNodup, hnodup, fun a ha b hb hab => ?_⟩
    obtain ⟨child, hc, rfl⟩ := List.mem_map.mp ha
    obtain ⟨node, hmem, rfl⟩ := List.mem_map.mp hb
    -- the old child in that slot would have taken the path that the created node is for
    obtain ⟨entry, hentry, hnode⟩ := hcreated node hmem
    obtain ⟨path', hremaining, htakes⟩ := exists_remaining fromHashes fromFragment hentry hnode
    obtain ⟨old, hold, he⟩ := List.mem_map.mp (hslots child hc)
    exact hleft path' hremaining old hold
      ((hplaced old hold).takes_of_slot (hab.symm.trans he.symm) htakes)

/-- **What `upsert_files` keeps is placed.** -/
theorem placed_upsertFiles (hapart : apart → ChunksApart fs) (h : Placed apart node) :
    ∀ paths, StaysPlaced apart node (upsertFiles fromHashes fromFragment fs node paths) := by
  induction h with
  | @file hash children path info hchildren hnodup =>
    intro paths
    rw [upsertFiles]
    split
    · dsimp only
      split
      · exact fun h => absurd rfl h
      · split
        · exact fun h => absurd rfl h
        · rename_i newNode hnew
          rw [CreatedEntries.newFileEntry, new] at hnew
          refine fun _ => ⟨placed_newFile fromHashes fromFragment hapart hnew, ?_⟩
          obtain ⟨hash, info, fragments, -, rfl⟩ := newFile_eq_some fromHashes fromFragment hnew
          rfl
    · exact fun _ => ⟨.file hchildren hnodup, rfl⟩
  | @directory hash children path hplaced hparent hnodup ih =>
    intro paths
    have hdir : Placed apart (.mk hash children (.directory path)) :=
      .directory hplaced hparent hnodup
    cases hunder : (filterPathsUnderDirectory paths path).1.isEmpty with
    | true =>
      rw [upsertFiles]
      simp only [hunder, if_true]
      exact fun _ => ⟨hdir, rfl⟩
    | false =>
      rw [upsertFiles_directory hunder]
      dsimp only
      split
      · exact fun h => absurd rfl h
      · refine fun _ => ⟨?_, rfl⟩
        have hkept := placed_kept hdir ih hash (filterPathsUnderDirectory paths path).1
        have hslots : ∀ child ∈ (updateChildren (upsertFiles fromHashes fromFragment fs) children
            (filterPathsUnderDirectory paths path).1).1.map Prod.fst,
            child.slot ∈ children.map slot := fun child hc => by
          obtain ⟨entry, hentry, rfl⟩ := List.mem_map.mp hc
          exact (placed_updateChildren ih _).2.subset (List.mem_map_of_mem hentry)
        have hleft := fun path' hmem => (((upsertFiles_rest fromHashes fromFragment
          fs).updateChildren children (filterPathsUnderDirectory paths path).1 path').mp hmem).2
        refine (placed_created fromHashes fromFragment hapart hplaced hkept hslots hleft hash).perm
          ((resortChildren_perm _).trans (List.Perm.of_eq ?_))
        rw [List.map_append, List.map_map]
        exact congrArg _ (List.map_id _)

end Clinch.MerkleNode
