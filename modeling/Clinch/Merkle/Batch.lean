import Clinch.Merkle.Outcome

/-!
# A batch of changes

The tree was built from a directory entry. Later the removed paths of a batch are given to
`remove_files`, and then the upserted ones to `upsert_files`.

* `Batch`: the batch has every difference between the files then and now;
* `Maintained`: the tree is what a fresh one would be, and the returned nodes have every new hash;
* `Ready`: no directory that loses its files has a path that is upserted in vain;
* **`maintained_iff_ready`**: the tree is maintained exactly by such batches.
-/

set_option autoImplicit false

namespace Clinch

/-- The entry is of the directory of this path. -/
def Entry.IsDirectoryAt (entry : Entry) (rootPath : StandardizedPath) : Prop :=
  ∃ children ignored loaded, entry = .directory rootPath children ignored loaded

namespace MerkleNode

variable {H : Type} [LinearOrder H]

/-- What a node says of its children. -/
def Hashed (fromHashes : List H → H) (node : MerkleNode H) : Prop :=
  match node.nodeId with
  | .fragment .. => True
  | .file .. => node.hash = fromHashes (node.children.map hash)
  | .directory _ => node.hash = fromHashes (node.children.map hash) ∧
      node.children.Pairwise fun a b => a.hash ≤ b.hash

/-- **Every node has the hash of its children, and directories are sorted.** -/
def WellHashed (fromHashes : List H → H) (node : MerkleNode H) : Prop :=
  ∀ address node', node.nodeAt address = some node' → Hashed fromHashes node'

variable (fromHashes : List H → H) (fromFragment : String → H) (fsOld fsNew : LocalFileSystem)

/-- The files of the directory that the tree was built from, and those of the later one. -/
structure Batch (rootPath : StandardizedPath) (entryOld entryNew : Entry)
    (removed upserted : HashSet StandardizedPath) : Prop where
  rootOld : entryOld.IsDirectoryAt rootPath
  rootNew : entryNew.IsDirectoryAt rootPath
  wellFormedOld : entryOld.WellFormed
  wellFormedNew : entryNew.WellFormed
  /-- Every file that is not as it was is removed or upserted. -/
  covers : ∀ path,
    FileNodes.ofEntry fromHashes fromFragment fsOld entryOld path ≠
      FileNodes.ofEntry fromHashes fromFragment fsNew entryNew path →
    path ∈ removed ∨ path ∈ upserted
  /-- The removed files are gone, if they are not upserted as well. -/
  gone : ∀ path ∈ removed, path ∉ upserted →
    FileNodes.ofEntry fromHashes fromFragment fsNew entryNew path = none
  /-- The upserted files that can be read are in the new entry. -/
  listed : ∀ path ∈ upserted, rootPath <:+ path → (fsNew.readFile path).isSome →
    entryNew.HasFile path

/-- **The batch is taken over.** -/
structure Maintained (root : MerkleNode H) (entryNew : Entry)
    (removed upserted : HashSet StandardizedPath) : Prop where
  fresh : ∃ fresh, new fromHashes fromFragment fsNew entryNew = some fresh ∧
    Same (treeUpsertFiles fromHashes fromFragment fsNew
      (treeRemoveFiles fromHashes root removed).root upserted).root fresh
  wellHashed : WellHashed fromHashes (treeUpsertFiles fromHashes fromFragment fsNew
    (treeRemoveFiles fromHashes root removed).root upserted).root
  removeNodes : ∃ nodes addresses, (treeRemoveFiles fromHashes root removed).nodeLens = .ok nodes ∧
    NewNodes root (treeRemoveFiles fromHashes root removed).root nodes addresses
  upsertNodes : ∃ nodes addresses, (treeUpsertFiles fromHashes fromFragment fsNew
      (treeRemoveFiles fromHashes root removed).root upserted).nodeLens = .ok nodes ∧
    NewNodes (treeRemoveFiles fromHashes root removed).root
      (treeUpsertFiles fromHashes fromFragment fsNew
        (treeRemoveFiles fromHashes root removed).root upserted).root nodes addresses

omit [LinearOrder H] in
/-- The files that are not removed. -/
def FileNodes.without (files : FileNodes H) (removed : HashSet StandardizedPath) : FileNodes H :=
  fun path => if path ∈ removed then none else files path

omit [LinearOrder H] in
/-- **When a batch is taken over**: a file is there, and each directory that still has files of the
tree after the removals has a new file below it, or is upserted at such files alone. -/
structure Ready (rootPath : StandardizedPath) (entryOld entryNew : Entry)
    (removed upserted : HashSet StandardizedPath) : Prop where
  hasFile : ∃ path, (FileNodes.ofEntry fromHashes fromFragment fsNew entryNew path).isSome
  settled : ∀ path, rootPath <:+ path → path ≠ rootPath →
    HasFileBelow ((FileNodes.ofEntry fromHashes fromFragment fsOld entryOld).without removed) path →
    Settled ((FileNodes.ofEntry fromHashes fromFragment fsOld entryOld).without removed)
      (FileNodes.ofEntry fromHashes fromFragment fsNew entryNew) upserted path

variable {fromHashes fromFragment fsOld fsNew} {files : FileNodes H}

/-! ## What is in a canonical tree -/

omit [LinearOrder H] in
/-- The children of a file node are fragments without children. -/
theorem newFile_nodeAt {fs : LocalFileSystem} {path : StandardizedPath} {node : MerkleNode H}
    (h : newFile fromHashes fromFragment fs path = some node) {address : List ℕ}
    {node' : MerkleNode H} (hnode : node.nodeAt address = some node') :
    (∃ info, node'.nodeId = .file path info ∧ node'.hash = fromHashes (node'.children.map hash)) ∨
      ∃ contentStart contentEnd, node'.nodeId = .fragment path contentStart contentEnd := by
  rw [newFile] at h
  cases hread : fs.readFile path with
  | none => rw [hread] at h; cases h
  | some read =>
    obtain ⟨info, fragments⟩ := read
    simp only [hread] at h
    split at h
    · cases h
    cases h
    cases address with
    | nil =>
      cases hnode
      exact .inl ⟨info, rfl, rfl⟩
    | cons index address =>
      obtain ⟨child, hchild, hrest⟩ := Option.bind_eq_some_iff.mp hnode
      obtain ⟨fragment, -, hfragment⟩ := List.mem_filterMap.mp (List.mem_of_getElem? hchild)
      rw [newFragment] at hfragment
      split at hfragment
      · cases hfragment
      cases hfragment
      cases address with
      | nil =>
        cases hrest
        exact .inr ⟨_, _, rfl⟩
      | cons index' address => cases hrest

/-- A canonical tree of files as they are read is hashed. -/
theorem Canonical.wellHashed {fs : LocalFileSystem} {node : MerkleNode H}
    (hread : ∀ path node, files path = some node →
      newFile fromHashes fromFragment fs path = some node)
    (h : Canonical fromHashes files node) : WellHashed fromHashes node := by
  induction h with
  | file hnode =>
    intro address node' hat
    rw [Hashed]
    rcases newFile_nodeAt (hread _ _ hnode) hat with ⟨info, hid, hhash⟩ | ⟨_, _, hid⟩
    · rw [hid]
      exact hhash
    · rw [hid]
      trivial
  | directory _ _ _ hsorted ih =>
    intro address node' hat
    cases address with
    | nil =>
      cases hat
      exact ⟨rfl, hsorted⟩
    | cons index address =>
      obtain ⟨child, hchild, hrest⟩ := Option.bind_eq_some_iff.mp hat
      exact ih child (List.mem_of_getElem? hchild) address node' hrest

/-- A directory of a canonical tree has a file below it. -/
theorem Canonical.hasFileBelow (hfiles : files.Consistent) {fs : LocalFileSystem} {node : MerkleNode H}
    (hread : ∀ path node, files path = some node →
      newFile fromHashes fromFragment fs path = some node)
    (h : Canonical fromHashes files node) {path : StandardizedPath}
    (hpath : node.HasNode (.directory path)) : HasFileBelow files path := by
  induction h with
  | file hnode =>
    obtain ⟨address, node', hat, hid⟩ := hpath
    rcases newFile_nodeAt (hread _ _ hnode) hat with ⟨info, hid', -⟩ | ⟨_, _, hid'⟩
    · rw [hid] at hid'
      exact nomatch hid'
    · rw [hid] at hid'
      exact nomatch hid'
  | directory hcanonical hchildren hne _ ih =>
    obtain ⟨address, node', hat, hid⟩ := hpath
    cases address with
    | nil =>
      cases hat
      cases hid
      exact Canonical.exists_file_below hfiles hcanonical hchildren hne
    | cons index address =>
      obtain ⟨child, hchild, hrest⟩ := Option.bind_eq_some_iff.mp hat
      exact ih child (List.mem_of_getElem? hchild) ⟨address, node', hrest, hid⟩

omit [LinearOrder H] in
/-- Trees that are the same have the same nodes. -/
theorem Same.hasNode {a : MerkleNode H} : ∀ {b : MerkleNode H}, Same a b → ∀ {nodeId : NodeId},
    a.HasNode nodeId → b.HasNode nodeId := by
  induction a using induction with
  | step hash children nodeId ih =>
    intro b hsame nodeId' h
    cases hsame with
    | refl => exact h
    | directory _ hperm hforall =>
      obtain ⟨address, node, hat, hid⟩ := h
      cases address with
      | nil =>
        cases hat
        exact ⟨[], _, rfl, hid⟩
      | cons index address =>
        obtain ⟨child, hchild, hrest⟩ := Option.bind_eq_some_iff.mp hat
        obtain ⟨hlt, hget⟩ := List.getElem?_eq_some_iff.mp hchild
        have hlt' := hforall.length_eq ▸ hlt
        have hchild' := hforall.get hlt hlt'
        rw [show children.get ⟨index, hlt⟩ = child from hget] at hchild'
        have hnode := ih child (List.mem_of_getElem? hchild) hchild' ⟨address, node, hrest, hid⟩
        exact hnode.of_child (hperm.mem_iff.mp (List.getElem_mem hlt'))

/-! ## The root -/

/-- The root of a tree that may have lost its children. -/
structure RootSpec (fromHashes : List H → H) (files : FileNodes H) (rootPath : StandardizedPath)
    (hash' : H) (children : List (MerkleNode H)) : Prop where
  consistent : files.Consistent
  notFile : files rootPath = none
  canonical : ∀ child ∈ children, Canonical fromHashes files child
  childrenOf : ChildrenOf files rootPath children
  self : children ≠ [] → Canonical fromHashes files (.mk hash' children (.directory rootPath))

omit [LinearOrder H] in
theorem FileNodes.without_isSome {removed : HashSet StandardizedPath} {path : StandardizedPath}
    (h : (files.without removed path).isSome) : (files path).isSome := by
  rw [without] at h
  split at h
  · exact nomatch h
  · exact h

omit [LinearOrder H] in
theorem FileNodes.Consistent.without (h : files.Consistent) (removed : HashSet StandardizedPath) :
    (files.without removed).Consistent where
  nodeId path node hnode := by
    rw [FileNodes.without] at hnode
    split at hnode
    · exact nomatch hnode
    · exact h.nodeId path node hnode
  below path path' hs hs' :=
    h.below path path' (FileNodes.without_isSome hs) (FileNodes.without_isSome hs')

/-- A canonical node that is no file is a directory. -/
theorem Canonical.rootSpec (hfiles : files.Consistent) {node : MerkleNode H}
    (h : Canonical fromHashes files node) (hself : files node.absolutePath = none) :
    ∃ hash' children, node = .mk hash' children (.directory node.absolutePath) ∧
      RootSpec fromHashes files node.absolutePath hash' children := by
  cases h with
  | file hnode =>
    rw [hfiles.absolutePath_eq hnode, hnode] at hself
    exact nomatch hself
  | directory hcanonical hchildren hne hsorted =>
    exact ⟨_, _, rfl, hfiles, hself, hcanonical, hchildren, fun _ =>
      .directory hcanonical hchildren hne hsorted⟩

/-- A directory that `remove_files` deletes has no children left. -/
theorem removeFiles_deleted {hash' : H} {children : List (MerkleNode H)} {path : StandardizedPath}
    {paths : HashSet StandardizedPath} (h : (removeFiles fromHashes
      (.mk hash' children (.directory path)) paths).1 = .deleted) :
    (removeFiles fromHashes (.mk hash' children (.directory path)) paths).2.1 =
      .mk hash' [] (.directory path) := by
  rw [removeFiles] at h ⊢
  dsimp only at h ⊢
  split at h
  · cases h
  · rename_i hunder
    rw [if_neg hunder]
    split at h
    · rename_i hempty
      rw [if_pos hempty]
    · cases h

/-- The root after the removals. -/
theorem rootSpec_removeFiles (hfiles : files.Consistent) {root : MerkleNode H}
    (h : Canonical fromHashes files root) (hself : files root.absolutePath = none)
    (removed : HashSet StandardizedPath) : ∃ hash' children,
      (treeRemoveFiles fromHashes root removed).root =
        .mk hash' children (.directory root.absolutePath) ∧
      RootSpec fromHashes (files.without removed) root.absolutePath hash' children := by
  have houtcome : Outcome fromHashes (files.without removed) root
      (removeFiles fromHashes root removed) := removeFiles_outcome hfiles h removed fun _ _ => rfl
  have hself' : files.without removed root.absolutePath = none := by
    rw [FileNodes.without, hself, ite_self]
  change ∃ hash' children, (removeFiles fromHashes root removed).2.1 = _ ∧ _
  rw [Outcome] at houtcome
  split at houtcome
  · rename_i hdeleted
    obtain ⟨hash', children, hroot, -⟩ := h.rootSpec hfiles hself
    have hnone : ∀ path, root.absolutePath <:+ path → files.without removed path = none :=
      fun path hsuffix => houtcome path (by rw [hroot]; exact hsuffix)
    rw [hroot] at hdeleted
    refine ⟨hash', [], ?_, hfiles.without removed, hself', fun _ hc => (nomatch hc),
      ⟨fun _ hc => (nomatch hc), List.nodup_nil, fun path hs hsuffix _ => ?_⟩, fun hne =>
        absurd rfl hne⟩
    · rw [hroot]
      exact removeFiles_deleted hdeleted
    · rw [hnone path hsuffix] at hs
      exact nomatch hs
  · obtain ⟨hash', children, hroot, hspec⟩ := houtcome.canonical.rootSpec (hfiles.without removed)
      (houtcome.absolutePath ▸ hself')
    rw [houtcome.absolutePath] at hroot hspec
    exact ⟨hash', children, hroot, hspec⟩

/-- **The root after the upserts**, when every directory below it can be updated. -/
theorem RootSpec.upsertFiles {fs : LocalFileSystem} {files' : FileNodes H} {rootPath : StandardizedPath}
    {hash' : H} {children : List (MerkleNode H)} (h : RootSpec fromHashes files rootPath hash' children)
    (hfiles' : files'.Consistent) {paths : HashSet StandardizedPath}
    (hafter : UpsertsTo fromHashes files files' fromFragment fs
      (.mk hash' children (.directory rootPath)) paths)
    (hfile : HasFileBelow files' rootPath)
    (hsettled : ∀ path, rootPath <:+ path → path ≠ rootPath → HasFileBelow files path →
      Settled files files' paths path) :
    Canonical fromHashes files' (treeUpsertFiles fromHashes fromFragment fs
      (.mk hash' children (.directory rootPath)) paths).root ∧
    (treeUpsertFiles fromHashes fromFragment fs (.mk hash' children (.directory rootPath))
      paths).root.absolutePath = rootPath := by
  have hidle : (filterPathsUnderDirectory paths rootPath).1.isEmpty = true → children ≠ [] := by
    rintro hempty rfl
    obtain ⟨path, hs, hsuffix, hne⟩ := hfile
    rw [hafter.after path hsuffix, if_neg fun hmem =>
      HashSet.isEmpty_iff.mp hempty path (mem_under.mpr ⟨hmem, hsuffix⟩)] at hs
    obtain ⟨child, hc, -⟩ := h.childrenOf.complete path hs hsuffix hne
    exact nomatch hc
  have houtcome := upsertFiles_directory_outcome h.consistent hfiles' h.canonical h.childrenOf
    h.notFile (fun hempty => h.self (hidle hempty)) hafter (fun child hc paths' hagree => ?_)
    (.inl hfile)
  · obtain ⟨path, hs, hsuffix, -⟩ := hfile
    change Canonical fromHashes files' (MerkleNode.upsertFiles ..).2.1 ∧
      (MerkleNode.upsertFiles ..).2.1.absolutePath = _
    rw [Outcome] at houtcome
    split at houtcome
    · rw [houtcome path hsuffix] at hs
      exact nomatch hs
    · exact ⟨houtcome.canonical, houtcome.absolutePath⟩
  · have hparent := h.childrenOf.parent child hc
    refine upsertFiles_outcome h.consistent hfiles' (h.canonical child hc) paths'
      (hafter.child hparent hagree) fun path hsuffix hs => ?_
    refine (hsettled path ((StandardizedPath.suffix_of_parent hparent
      (List.suffix_refl _)).trans hsuffix) (fun he => ?_) hs).imp_right
        fun hold file hmem hsuffix' => ?_
    · exact StandardizedPath.not_suffix_parent hparent (he ▸ hsuffix)
    · exact hold file ((hagree file (hsuffix.trans hsuffix')).mp hmem) hsuffix'

/-! ## The batch -/

section Batch

variable {rootPath : StandardizedPath} {entryOld entryNew : Entry}
  {removed upserted : HashSet StandardizedPath} {root : MerkleNode H}

omit [LinearOrder H] in
theorem FileNodes.ofEntry_root {fs : LocalFileSystem} {entry : Entry}
    (hroot : entry.IsDirectoryAt rootPath) :
    FileNodes.ofEntry fromHashes fromFragment fs entry rootPath = none := by
  obtain ⟨children, ignored, loaded, rfl⟩ := hroot
  rw [FileNodes.ofEntry, Entry.view_directory, if_pos rfl]
  rfl

omit [LinearOrder H] in
/-- The files of an entry are as they are read. -/
theorem FileNodes.ofEntry_read {fs : LocalFileSystem} {entry : Entry} (path : StandardizedPath)
    (node : MerkleNode H) (h : FileNodes.ofEntry fromHashes fromFragment fs entry path = some node) :
    newFile fromHashes fromFragment fs path = some node := by
  rw [FileNodes.ofEntry] at h
  split at h
  · exact h
  · cases h

omit [LinearOrder H] in
/-- A file of a directory entry is strictly below it. -/
theorem FileNodes.ofEntry_below {fs : LocalFileSystem} {entry : Entry}
    (hroot : entry.IsDirectoryAt rootPath) (h : entry.WellFormed) {path : StandardizedPath}
    (hs : (FileNodes.ofEntry fromHashes fromFragment fs entry path).isSome) :
    rootPath <:+ path ∧ path ≠ rootPath := by
  obtain ⟨metadata, hview⟩ := ofEntry_isSome hs
  refine ⟨?_, fun he => ?_⟩
  · have hsuffix := h.suffix_of_view (Option.isSome_of_eq_some hview)
    obtain ⟨children, ignored, loaded, rfl⟩ := hroot
    exact hsuffix
  · rw [he, FileNodes.ofEntry_root hroot] at hs
    exact nomatch hs

omit [LinearOrder H] in
/-- The files after a batch are the new ones. -/
theorem Batch.upsertsTo
    (h : Batch fromHashes fromFragment fsOld fsNew rootPath entryOld entryNew removed upserted)
    (hash' : H) (children : List (MerkleNode H)) :
    UpsertsTo fromHashes
      ((FileNodes.ofEntry fromHashes fromFragment fsOld entryOld).without removed)
      (FileNodes.ofEntry fromHashes fromFragment fsNew entryNew) fromFragment fsNew
      (.mk hash' children (.directory rootPath)) upserted where
  after path hsuffix := by
    split
    · rename_i hmem
      cases hread : newFile fromHashes fromFragment fsNew path with
      | none =>
        cases hnode : FileNodes.ofEntry fromHashes fromFragment fsNew entryNew path with
        | none => rfl
        | some node => exact (FileNodes.ofEntry_read path node hnode).symm.trans hread
      | some node =>
        obtain ⟨metadata, hview⟩ := h.listed path hmem hsuffix
          (isSome_readFile (Option.isSome_of_eq_some hread))
        rw [FileNodes.ofEntry, hview, ← hread]
    · rename_i hno
      rw [FileNodes.without]
      split
      · rename_i hmem
        exact h.gone path hmem hno
      · rename_i hno'
        by_contra hne
        exact (h.covers path (Ne.symm hne)).elim hno' hno
  now path _ hs := by
    obtain ⟨node, hnode⟩ := Option.isSome_iff_exists.mp hs
    rw [hnode, FileNodes.ofEntry_read path node hnode]

/-- A fresh root. -/
theorem new_root {fs : LocalFileSystem} {entry : Entry} (hroot : entry.IsDirectoryAt rootPath)
    (hwell : entry.WellFormed) (hnew : new fromHashes fromFragment fs entry = some root) :
    Canonical fromHashes (FileNodes.ofEntry fromHashes fromFragment fs entry) root ∧
      root.absolutePath = rootPath := by
  have hspec := canonical_new fromHashes fromFragment fs hwell
  rw [hnew] at hspec
  obtain ⟨children, ignored, loaded, rfl⟩ := hroot
  exact hspec

/-- A batch that is ready is taken over. -/
theorem Batch.maintained
    (h : Batch fromHashes fromFragment fsOld fsNew rootPath entryOld entryNew removed upserted)
    (hnew : new fromHashes fromFragment fsOld entryOld = some root)
    (hready : Ready fromHashes fromFragment fsOld fsNew rootPath entryOld entryNew removed
      upserted) :
    Maintained fromHashes fromFragment fsNew root entryNew removed upserted := by
  obtain ⟨hcanonical, rfl⟩ := new_root h.rootOld h.wellFormedOld hnew
  have hold := FileNodes.consistent_ofEntry fromHashes fromFragment fsOld h.wellFormedOld
  have hnow := FileNodes.consistent_ofEntry fromHashes fromFragment fsNew h.wellFormedNew
  obtain ⟨hash', children, hroot, hspec⟩ := rootSpec_removeFiles hold hcanonical
    (FileNodes.ofEntry_root h.rootOld) removed
  obtain ⟨path, hs⟩ := hready.hasFile
  obtain ⟨hsuffix, hne⟩ := FileNodes.ofEntry_below h.rootNew h.wellFormedNew hs
  obtain ⟨hafter, hpath⟩ := hspec.upsertFiles hnow (h.upsertsTo hash' children)
    ⟨path, hs, hsuffix, hne⟩ hready.settled
  rw [← hroot] at hafter hpath
  refine ⟨?_, hafter.wellHashed FileNodes.ofEntry_read,
    updateNodes_spec (removeFiles_mask fromHashes root removed),
    updateNodes_spec (upsertFiles_mask fromHashes fromFragment fsNew _ upserted)⟩
  cases hnew' : new fromHashes fromFragment fsNew entryNew with
  | none =>
    have hfresh := canonical_new fromHashes fromFragment fsNew h.wellFormedNew
    obtain ⟨children, ignored, loaded, rfl⟩ := h.rootNew
    rw [hnew'] at hfresh
    rw [hfresh path hsuffix] at hs
    exact nomatch hs
  | some fresh =>
    obtain ⟨hcanonical', hpath'⟩ := new_root h.rootNew h.wellFormedNew hnew'
    exact ⟨fresh, rfl, hafter.same hnow hcanonical' (hpath.trans hpath'.symm)⟩

/-- A batch that is taken over is ready. -/
theorem Batch.ready
    (h : Batch fromHashes fromFragment fsOld fsNew rootPath entryOld entryNew removed upserted)
    (hnew : new fromHashes fromFragment fsOld entryOld = some root)
    (hmaintained : Maintained fromHashes fromFragment fsNew root entryNew removed
      upserted) :
    Ready fromHashes fromFragment fsOld fsNew rootPath entryOld entryNew removed upserted := by
  obtain ⟨hcanonical, rfl⟩ := new_root h.rootOld h.wellFormedOld hnew
  have hold := FileNodes.consistent_ofEntry fromHashes fromFragment fsOld h.wellFormedOld
  have hnow := FileNodes.consistent_ofEntry fromHashes fromFragment fsNew h.wellFormedNew
  obtain ⟨fresh, hfresh, hsame⟩ := hmaintained.fresh
  obtain ⟨hcanonical', hpath'⟩ := new_root h.rootNew h.wellFormedNew hfresh
  obtain ⟨hash', children, hroot, hspec⟩ := rootSpec_removeFiles hold hcanonical
    (FileNodes.ofEntry_root h.rootOld) removed
  refine ⟨?_, fun path hsuffix _ hbelow => ?_⟩
  · obtain ⟨path, hs, -⟩ := hcanonical'.exists_file hnow
    exact ⟨path, hs⟩
  · by_contra hnot
    obtain ⟨hno, hall⟩ := not_or.mp hnot
    push Not at hall
    obtain ⟨file, hmem, hfile, hnone⟩ := hall
    -- the directory is retained, so a fresh tree has it, and has a file there
    have hne : children ≠ [] := by
      rintro rfl
      obtain ⟨below, hs, hsuffix', hne'⟩ := hbelow
      have hne : below ≠ root.absolutePath := by
        rintro rfl
        exact hne' (List.IsSuffix.eq_of_length hsuffix
          (hsuffix.length_le.antisymm hsuffix'.length_le))
      obtain ⟨child, hc, -⟩ := hspec.childrenOf.complete below hs
        (List.IsSuffix.trans hsuffix hsuffix') hne
      exact nomatch hc
    obtain ⟨-, hretained⟩ := upsertFiles_retains fromFragment fsNew hspec.consistent (hspec.self hne) hsuffix hbelow hmem hfile
      (Option.not_isSome_iff_eq_none.mp hnone)
    rw [← hroot] at hretained
    exact hno (hcanonical'.hasFileBelow hnow FileNodes.ofEntry_read (hsame.hasNode hretained))

/-- **The tree is what a fresh one would be exactly after the batches that are ready.** -/
theorem maintained_iff_ready
    (h : Batch fromHashes fromFragment fsOld fsNew rootPath entryOld entryNew removed upserted)
    (hnew : new fromHashes fromFragment fsOld entryOld = some root) :
    Maintained fromHashes fromFragment fsNew root entryNew removed upserted ↔
      Ready fromHashes fromFragment fsOld fsNew rootPath entryOld entryNew removed upserted :=
  ⟨h.ready hnew, h.maintained hnew⟩

end Batch

end MerkleNode

/-! ## A directory that stays empty

`d/x` vanishes before its upsert, together with `d/z`, which never was. -/

/-- The file system of some files of one fragment each. -/
def LocalFileSystem.ofFiles (files : List (StandardizedPath × String)) : LocalFileSystem where
  pathExists path := files.any fun file => path.isSuffixOf file.1
  isDir path := files.any fun file => path.isSuffixOf file.1 && file.1 ≠ path
  readFile path :=
    if files.any fun file => path.isSuffixOf file.1 && file.1 ≠ path then none
    else (files.find? (·.1 = path)).map fun file =>
      (⟨file.2.length, 0, file.2⟩, [⟨file.2, 0, 0, 0, file.2.length⟩])
  isDir_exists path h := by
    obtain ⟨file, hmem, hfile⟩ := List.any_eq_true.mp h
    exact List.any_eq_true.mpr ⟨file, hmem, (Bool.and_eq_true _ _ ▸ hfile).1⟩
  isDir_parent name path h := by
    obtain ⟨file, hmem, hfile⟩ := List.any_eq_true.mp h
    rw [List.isSuffixOf_iff_suffix] at hfile
    refine List.any_eq_true.mpr ⟨file, hmem, ?_⟩
    rw [Bool.and_eq_true, List.isSuffixOf_iff_suffix, decide_eq_true_eq]
    refine ⟨(List.suffix_cons name path).trans hfile, fun he => ?_⟩
    exact absurd (he ▸ hfile).length_le (by simp)
  readFile_file path h := by
    split at h
    · exact nomatch h
    · rename_i hdir
      rw [Option.isSome_map, List.find?_isSome] at h
      obtain ⟨file, hmem, hfile⟩ := h
      refine ⟨List.any_eq_true.mpr ⟨file, hmem, ?_⟩, Bool.not_eq_true _ ▸ hdir⟩
      rw [List.isSuffixOf_iff_suffix, ← of_decide_eq_true hfile]

theorem LocalFileSystem.readFile_ofFiles {files : List (StandardizedPath × String)}
    {path : StandardizedPath} (h : ((LocalFileSystem.ofFiles files).readFile path).isSome) :
    ∃ file ∈ files, file.1 = path := by
  rw [LocalFileSystem.ofFiles] at h
  dsimp only at h
  split at h
  · exact nomatch h
  · rw [Option.isSome_map, List.find?_isSome] at h
    obtain ⟨file, hmem, hfile⟩ := h
    exact ⟨file, hmem, of_decide_eq_true hfile⟩

namespace MerkleNode

/-- `d/x` and `y`. -/
def emptied : Entry :=
  .directory [] [.directory ["d"] [CreatedEntries.newFileEntry ["x", "d"]] false true,
    CreatedEntries.newFileEntry ["y"]] false true

/-- `y`. -/
def emptiedNow : Entry := .directory [] [CreatedEntries.newFileEntry ["y"]] false true

/-- The file system with the two files. -/
def emptiedFiles : LocalFileSystem := .ofFiles [(["x", "d"], "fn x() {}"), (["y"], "fn y() {}")]

/-- The file system without `d`. -/
def emptiedFilesNow : LocalFileSystem := .ofFiles [(["y"], "fn y() {}")]

theorem emptied_wellFormed : emptied.WellFormed ∧ emptiedNow.WellFormed := by
  constructor
  · refine .directory ?_ (by decide) (by decide)
    rintro child (_ | ⟨_, _ | ⟨_, h⟩⟩)
    · exact .directory (fun child hc => List.mem_singleton.mp hc ▸ .file rfl) (by decide) (by decide)
    · exact .file rfl
    · exact nomatch h
  · exact .directory (fun child hc => List.mem_singleton.mp hc ▸ .file rfl) (by decide) (by decide)

theorem emptied_hasFile (path : StandardizedPath) :
    (emptied.HasFile path ↔ path = ["x", "d"] ∨ path = ["y"]) ∧
      (emptiedNow.HasFile path ↔ path = ["y"]) := by
  have hd : (Entry.directory ["d"] [CreatedEntries.newFileEntry ["x", "d"]] false true).WellFormed :=
    .directory (fun child hc => List.mem_singleton.mp hc ▸ .file rfl) (by decide) (by decide)
  rw [emptied, emptiedNow, Entry.hasFile_directory emptied_wellFormed.1,
    Entry.hasFile_directory emptied_wellFormed.2]
  simp [Entry.hasFile_directory hd, CreatedEntries.hasFile_newFileEntry]

/-- Every batch that upserts `d/x` has the difference. -/
theorem emptied_batch {upserted : HashSet StandardizedPath} (hx : ["x", "d"] ∈ upserted) :
    Batch List.sum String.length emptiedFiles emptiedFilesNow [] emptied emptiedNow HashSet.empty
      upserted where
  rootOld := ⟨_, _, _, rfl⟩
  rootNew := ⟨_, _, _, rfl⟩
  wellFormedOld := emptied_wellFormed.1
  wellFormedNew := emptied_wellFormed.2
  covers path hne := by
    right
    by_contra hno
    have hnot : path ≠ ["x", "d"] := fun he => hno (he ▸ hx)
    by_cases hy : path = ["y"]
    · subst hy
      exact hne rfl
    · have hold : FileNodes.ofEntry List.sum String.length emptiedFiles emptied path = none :=
        Option.not_isSome_iff_eq_none.mp fun hs =>
          (((emptied_hasFile path).1.mp (FileNodes.ofEntry_isSome hs)).elim hnot hy)
      have hnow : FileNodes.ofEntry List.sum String.length emptiedFilesNow emptiedNow path = none :=
        Option.not_isSome_iff_eq_none.mp fun hs =>
          hy ((emptied_hasFile path).2.mp (FileNodes.ofEntry_isSome hs))
      exact hne (hold.trans hnow.symm)
  gone path hmem := absurd hmem HashSet.not_mem_empty
  listed path _ _ hread := by
    refine (emptied_hasFile path).2.mpr ?_
    obtain ⟨file, hmem, rfl⟩ := LocalFileSystem.readFile_ofFiles hread
    rw [List.mem_singleton.mp hmem]

/-- The tree of the two files. -/
theorem emptied_new : ∃ root, new List.sum String.length emptiedFiles emptied = some root := by
  cases hnew : new List.sum String.length emptiedFiles emptied with
  | some root => exact ⟨root, rfl⟩
  | none =>
    have hspec := canonical_new List.sum String.length emptiedFiles emptied_wellFormed.1
    rw [hnew] at hspec
    exact absurd (hspec ["y"] (List.nil_suffix)) (by decide)

/-- The upsert of `d/x` and `d/z`. -/
def emptiedUpserts : HashSet StandardizedPath := ⟨[["x", "d"], ["z", "d"]], by decide⟩

/-- **The tree keeps `d`**, which a fresh one does not have. -/
theorem emptied_not_maintained : ∃ root,
    new List.sum String.length emptiedFiles emptied = some root ∧
    Batch List.sum String.length emptiedFiles emptiedFilesNow [] emptied emptiedNow HashSet.empty
      emptiedUpserts ∧
    ¬ Maintained List.sum String.length emptiedFilesNow root emptiedNow HashSet.empty
      emptiedUpserts := by
  obtain ⟨root, hnew⟩ := emptied_new
  have hbatch : Batch List.sum String.length emptiedFiles emptiedFilesNow [] emptied emptiedNow
      HashSet.empty emptiedUpserts := emptied_batch (by decide)
  refine ⟨root, hnew, hbatch, fun hmaintained => ?_⟩
  rcases (hbatch.ready hnew hmaintained).settled ["d"] (by decide) (by decide)
    ⟨["x", "d"], by decide, by decide, by decide⟩ with ⟨path, hs, hsuffix, -⟩ | hall
  · have hy := (emptied_hasFile path).2.mp (FileNodes.ofEntry_isSome hs)
    subst hy
    exact absurd hsuffix (by decide)
  · exact absurd (hall ["z", "d"] (by decide) (by decide)) (by decide)

/-- Without `d/z`, the directory goes away with its file. -/
theorem emptied_maintained : ∃ root,
    new List.sum String.length emptiedFiles emptied = some root ∧
    Maintained List.sum String.length emptiedFilesNow root emptiedNow HashSet.empty
      ⟨[["x", "d"], ["y"]], by decide⟩ := by
  obtain ⟨root, hnew⟩ := emptied_new
  refine ⟨root, hnew, (maintained_iff_ready (emptied_batch (by decide)) hnew).mpr
    ⟨⟨["y"], by decide⟩, fun path _ _ _ => .inr fun path' hmem _ => ?_⟩⟩
  rcases hmem with _ | ⟨_, _ | ⟨_, h⟩⟩
  · decide
  · decide
  · exact nomatch h

end MerkleNode

end Clinch
