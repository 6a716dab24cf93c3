import Clinch.Merkle.Node
import Clinch.FileTree.InsertEntry

/-!
# The tree of a set of files

What a Merkle tree says is the node of each file. A tree is canonical for such a map when its
directories are those that have a file below them, sorted and hashed; two canonical trees differ in
the order of equal hashes alone.

* `FileNodes`, `Canonical`, `Same`;
* **`Canonical.same`**: the canonical tree is unique up to the order of equal hashes;
* `Canonical.congr`: only the files below a node matter for it;
* **`canonical_new`**: a tree that is built from an entry is canonical for its files.
-/

set_option autoImplicit false

namespace Clinch

namespace StandardizedPath

/-- A path is below one child of a directory only. -/
theorem eq_of_parent {a b parent path : StandardizedPath} (ha : a.parent = some parent)
    (hb : b.parent = some parent) (hap : a <:+ path) (hbp : b <:+ path) : a = b := by
  obtain ⟨name, rfl⟩ := parent_eq_some.mp ha
  obtain ⟨name', rfl⟩ := parent_eq_some.mp hb
  exact (List.suffix_of_suffix_length_le hap hbp (by simp)).eq_of_length (by simp)

end StandardizedPath

namespace MerkleNode

variable {H : Type}

/-- The node of each file. -/
abbrev FileNodes (H : Type) := StandardizedPath → Option (MerkleNode H)

/-- The nodes are file nodes of their path, and no file is below another one. -/
structure FileNodes.Consistent (files : FileNodes H) : Prop where
  nodeId : ∀ path node, files path = some node → ∃ info, node.nodeId = .file path info
  below : ∀ path path', (files path).isSome → (files path').isSome → path <:+ path' → path = path'

variable [LinearOrder H]

/-- The children of a directory, for the files below it. -/
structure ChildrenOf (files : FileNodes H) (path : StandardizedPath)
    (children : List (MerkleNode H)) : Prop where
  parent : ∀ child ∈ children, child.absolutePath.parent = some path
  nodup : (children.map absolutePath).Nodup
  complete : ∀ path', (files path').isSome → path <:+ path' → path' ≠ path →
    ∃ child ∈ children, child.absolutePath <:+ path'

/-- **A canonical tree**: its directories have files, and are sorted and hashed. -/
inductive Canonical (fromHashes : List H → H) (files : FileNodes H) : MerkleNode H → Prop
  | file {node : MerkleNode H} {path : StandardizedPath} :
    files path = some node → Canonical fromHashes files node
  | directory {path : StandardizedPath} {children : List (MerkleNode H)} :
    (∀ child ∈ children, Canonical fromHashes files child) → ChildrenOf files path children →
    children ≠ [] → children.Pairwise (fun a b => a.hash ≤ b.hash) →
    Canonical fromHashes files
      (.mk (fromHashes (children.map hash)) children (.directory path))

/-- **Two trees are the same up to the order of equal hashes.** -/
inductive Same : MerkleNode H → MerkleNode H → Prop
  | refl (node : MerkleNode H) : Same node node
  | directory {hash' : H} {children children' reordered : List (MerkleNode H)} {nodeId' : NodeId} :
    children.map hash = children'.map hash → reordered.Perm children' →
    List.Forall₂ Same children reordered → Same (.mk hash' children nodeId') (.mk hash' children' nodeId')

omit [LinearOrder H] in
theorem Same.hash_eq {a b : MerkleNode H} (h : Same a b) : a.hash = b.hash := by
  cases h <;> rfl

omit [LinearOrder H] in
theorem Same.map_hash {children children' : List (MerkleNode H)}
    (h : List.Forall₂ Same children children') : children.map hash = children'.map hash := by
  induction h with
  | nil => rfl
  | cons h _ ih => rw [List.map_cons, List.map_cons, h.hash_eq, ih]

variable {fromHashes : List H → H} {files files' : FileNodes H}

omit [LinearOrder H] in
theorem FileNodes.Consistent.absolutePath_eq (h : files.Consistent) {path : StandardizedPath}
    {node : MerkleNode H} (hnode : files path = some node) : node.absolutePath = path := by
  obtain ⟨info, hid⟩ := h.nodeId path node hnode
  rw [MerkleNode.absolutePath, hid]
  rfl

/-- Only the files at or below a node matter for it. -/
theorem Canonical.congr (hfiles : files.Consistent) {node : MerkleNode H}
    (h : Canonical fromHashes files node)
    (hsame : ∀ path, node.absolutePath <:+ path → files path = files' path) :
    Canonical fromHashes files' node := by
  induction h with
  | file hnode =>
    refine .file ((hsame _ ?_).symm.trans hnode)
    rw [hfiles.absolutePath_eq hnode]
  | directory _ hchildren hne hsorted ih =>
    refine .directory (fun child hc => ih child hc fun path hsuffix => hsame path
      ((StandardizedPath.suffix_of_parent (hchildren.parent child hc) (List.suffix_refl _)).trans
        hsuffix)) ⟨hchildren.parent, hchildren.nodup, fun path' hs hsuffix hne' => ?_⟩ hne hsorted
    refine hchildren.complete path' ?_ hsuffix hne'
    rwa [hsame path' hsuffix]

/-- A canonical tree has a file. -/
theorem Canonical.exists_file (hfiles : files.Consistent) {node : MerkleNode H}
    (h : Canonical fromHashes files node) :
    ∃ path, (files path).isSome ∧ node.absolutePath <:+ path := by
  induction h with
  | file hnode =>
    exact ⟨_, by rw [hnode]; rfl, by rw [hfiles.absolutePath_eq hnode]⟩
  | @directory path children _ hchildren hne _ ih =>
    obtain ⟨child, hc⟩ := List.exists_mem_of_ne_nil _ hne
    obtain ⟨path', hs, hsuffix⟩ := ih child hc
    exact ⟨path', hs, (StandardizedPath.suffix_of_parent (hchildren.parent child hc)
      (List.suffix_refl _)).trans hsuffix⟩

/-- A canonical directory has a file strictly below it. -/
theorem Canonical.exists_file_below (hfiles : files.Consistent) {path : StandardizedPath}
    {children : List (MerkleNode H)} (hcanonical : ∀ child ∈ children,
      Canonical fromHashes files child) (hchildren : ChildrenOf files path children)
    (hne : children ≠ []) : ∃ path', (files path').isSome ∧ path <:+ path' ∧ path' ≠ path := by
  obtain ⟨child, hc⟩ := List.exists_mem_of_ne_nil _ hne
  obtain ⟨path', hs, hsuffix⟩ := (hcanonical child hc).exists_file hfiles
  have hp := hchildren.parent child hc
  refine ⟨path', hs, (StandardizedPath.suffix_of_parent hp (List.suffix_refl _)).trans hsuffix, ?_⟩
  rintro rfl
  exact StandardizedPath.not_suffix_parent hp hsuffix

/-- Two children of directories of the same files have the same paths. -/
theorem ChildrenOf.map_subset (hfiles : files.Consistent) {path : StandardizedPath}
    {children children' : List (MerkleNode H)} (h : ChildrenOf files path children)
    (hcanonical : ∀ child ∈ children, Canonical fromHashes files child)
    (h' : ChildrenOf files path children') {path' : StandardizedPath}
    (hmem : path' ∈ children.map absolutePath) : path' ∈ children'.map absolutePath := by
  obtain ⟨child, hc, rfl⟩ := List.mem_map.mp hmem
  obtain ⟨below, hs, hsuffix⟩ := (hcanonical child hc).exists_file hfiles
  have hp := h.parent child hc
  have hbelow : path <:+ below :=
    (StandardizedPath.suffix_of_parent hp (List.suffix_refl _)).trans hsuffix
  have hne : below ≠ path := fun he => StandardizedPath.not_suffix_parent hp (he ▸ hsuffix)
  obtain ⟨child', hc', hsuffix'⟩ := h'.complete below hs hbelow hne
  exact List.mem_map.mpr ⟨child', hc',
    StandardizedPath.eq_of_parent (h'.parent child' hc') hp hsuffix' hsuffix⟩

/-- **The canonical tree of a path is unique**, up to the order of equal hashes. -/
theorem Canonical.same (hfiles : files.Consistent) {a : MerkleNode H}
    (ha : Canonical fromHashes files a) : ∀ {b : MerkleNode H}, Canonical fromHashes files b →
    a.absolutePath = b.absolutePath → Same a b := by
  induction ha with
  | @file a path hnode =>
    intro b hb hpath
    rw [hfiles.absolutePath_eq hnode] at hpath
    cases hb with
    | file hnode' =>
      rw [hfiles.absolutePath_eq hnode'] at hpath
      subst hpath
      obtain rfl := Option.some.inj (hnode.symm.trans hnode')
      exact .refl _
    | directory hcanonical hchildren hne _ =>
      obtain ⟨path', hs, hsuffix, hne'⟩ :=
        Canonical.exists_file_below hfiles hcanonical hchildren hne
      obtain rfl : path = _ := hpath
      exact absurd (hfiles.below _ _ (by rw [hnode]; rfl) hs hsuffix).symm hne'
  | @directory path children hcanonical hchildren hne hsorted ih =>
    intro b hb hpath
    cases hb with
    | @file b path' hnode' =>
      obtain ⟨below, hs, hsuffix, hne'⟩ :=
        Canonical.exists_file_below hfiles hcanonical hchildren hne
      rw [hfiles.absolutePath_eq hnode'] at hpath
      obtain rfl : path = path' := hpath
      exact absurd (hfiles.below _ _ (by rw [hnode']; rfl) hs hsuffix).symm hne'
    | @directory path' children' hcanonical' hchildren' hne' hsorted' =>
      obtain rfl : path = path' := hpath
      -- the two directories have the same paths as children
      have hpaths : (children.map absolutePath).Perm (children'.map absolutePath) :=
        (List.perm_ext_iff_of_nodup hchildren.nodup hchildren'.nodup).mpr fun path' =>
          ⟨hchildren.map_subset hfiles hcanonical hchildren',
            hchildren'.map_subset hfiles hcanonical' hchildren⟩
      have hself : List.Forall₂ (fun path' child => path' = absolutePath child)
          (children'.map absolutePath) children' :=
        List.forall₂_map_left_iff.mpr (List.forall₂_same.mpr fun _ _ => rfl)
      obtain ⟨reordered, hforall, hperm⟩ := List.perm_comp_forall₂ hpaths hself
      have hforall := List.forall₂_map_left_iff.mp hforall
      have hsame : List.Forall₂ Same children reordered := by
        refine List.forall₂_iff_zip.mpr ⟨hforall.length_eq, fun {a b} hab => ?_⟩
        obtain ⟨hmem, hmem'⟩ := List.of_mem_zip hab
        exact ih a hmem (hcanonical' b (hperm.mem_iff.mp hmem'))
          ((List.forall₂_iff_zip.mp hforall).2 hab)
      have hhash : children.map hash = children'.map hash := by
        refine List.Perm.eq_of_pairwise' (List.pairwise_map.mpr hsorted)
          (List.pairwise_map.mpr hsorted') ?_
        rw [Same.map_hash hsame]
        exact hperm.map hash
      rw [hhash]
      exact .directory hhash hperm hsame

/-! ## A fresh tree -/

variable (fromHashes : List H → H) (fromFragment : String → H) (fs : LocalFileSystem)

/-- The files of an entry. -/
def FileNodes.ofEntry (entry : Entry) : FileNodes H := fun path =>
  match entry.view path with
  | some (.file _) => newFile fromHashes fromFragment fs path
  | _ => none

omit [LinearOrder H] in
theorem newFile_nodeId {path : StandardizedPath} {node : MerkleNode H}
    (h : newFile fromHashes fromFragment fs path = some node) :
    ∃ info, node.nodeId = .file path info := by
  rw [newFile] at h
  cases hread : fs.readFile path with
  | none => rw [hread] at h; exact nomatch h
  | some read =>
    obtain ⟨info, fragments⟩ := read
    simp only [hread] at h
    split at h
    · exact nomatch h
    · cases h
      exact ⟨info, rfl⟩

variable {fromHashes fromFragment fs} {entry : Entry}

omit [LinearOrder H] in
theorem FileNodes.ofEntry_isSome {path : StandardizedPath}
    (h : (FileNodes.ofEntry fromHashes fromFragment fs entry path).isSome) :
    ∃ metadata, entry.view path = some (.file metadata) := by
  rw [FileNodes.ofEntry] at h
  split at h
  · exact ⟨_, by assumption⟩
  · exact nomatch h

end MerkleNode

namespace Entry.WellFormed

/-- Nothing is below a file. -/
theorem eq_of_file {entry : Entry} (h : entry.WellFormed) : ∀ {path path' : StandardizedPath}
    {metadata : FileTreeFileMetadata}, entry.view path = some (.file metadata) →
    (entry.view path').isSome → path <:+ path' → path = path' := by
  induction h with
  | file _ =>
    intro path path' metadata hfile hs hsuffix
    rw [view_file] at hfile hs
    split at hfile
    · rename_i he
      split at hs
      · rename_i he'
        rw [he, he']
      · exact nomatch hs
    · exact nomatch hfile
  | @directory parent children ignored loaded hwell hparent hnodup ih =>
    intro path path' metadata hfile hs hsuffix
    rw [view_directory] at hfile hs
    split at hfile
    · exact nomatch hfile
    · rename_i hne
      obtain ⟨child, hc, hfile⟩ := viewOf_eq_some hfile
      have hbelow : child.path <:+ path := (hwell child hc).suffix_of_view (by rw [hfile]; rfl)
      have hne' : path' ≠ parent := fun he => StandardizedPath.not_suffix_parent
        (hparent child hc) (he ▸ hbelow.trans hsuffix)
      rw [if_neg hne'] at hs
      obtain ⟨child', hc', hs'⟩ := viewOf_isSome hs
      have hpath := StandardizedPath.eq_of_parent (hparent child' hc') (hparent child hc)
        ((hwell child' hc').suffix_of_view hs') (hbelow.trans hsuffix)
      obtain rfl := List.inj_on_of_nodup_map hnodup hc' hc hpath
      exact ih child' hc' hfile hs' hsuffix

/-- Below a child, a directory says what the child says. -/
theorem view_child {path : StandardizedPath} {children : List Entry} {ignored loaded : Bool}
    (h : (Entry.directory path children ignored loaded).WellFormed) {child : Entry}
    (hc : child ∈ children) {path' : StandardizedPath} (hsuffix : child.path <:+ path') :
    (Entry.directory path children ignored loaded).view path' = child.view path' := by
  cases h with
  | directory hwell hparent hnodup =>
    have hne : path' ≠ path := fun he => StandardizedPath.not_suffix_parent
      (hparent child hc) (he ▸ hsuffix)
    rw [view_directory, if_neg hne]
    cases hv : viewOf children path' with
    | some state =>
      obtain ⟨child', hc', hv'⟩ := viewOf_eq_some hv
      have hpath := StandardizedPath.eq_of_parent (hparent child' hc') (hparent child hc)
        ((hwell child' hc').suffix_of_view (by rw [hv']; rfl)) hsuffix
      obtain rfl := List.inj_on_of_nodup_map hnodup hc' hc hpath
      exact hv'.symm
    | none =>
      refine (Option.not_isSome_iff_eq_none.mp fun hs => ?_).symm
      have hsome := viewOf_isSome_of_mem hc hs
      rw [hv] at hsome
      exact nomatch hsome

end Entry.WellFormed

namespace MerkleNode

variable {H : Type} [LinearOrder H] {fromHashes : List H → H} {fromFragment : String → H}
  {fs : LocalFileSystem} {entry : Entry}

variable (fromHashes fromFragment fs) in
omit [LinearOrder H] in
/-- No file of an entry is below another one. -/
theorem FileNodes.consistent_ofEntry (h : entry.WellFormed) :
    (FileNodes.ofEntry fromHashes fromFragment fs entry).Consistent where
  nodeId path node hnode := by
    rw [FileNodes.ofEntry] at hnode
    split at hnode
    · exact newFile_nodeId _ _ _ hnode
    · exact nomatch hnode
  below path path' hs hs' hsuffix := by
    obtain ⟨metadata, hfile⟩ := ofEntry_isSome hs
    obtain ⟨metadata', hfile'⟩ := ofEntry_isSome hs'
    exact h.eq_of_file hfile (by rw [hfile']; rfl) hsuffix

omit [LinearOrder H] in
/-- Below a child, the files of a directory are those of the child. -/
theorem FileNodes.ofEntry_child {path : StandardizedPath} {children : List Entry}
    {ignored loaded : Bool} (h : (Entry.directory path children ignored loaded).WellFormed)
    {child : Entry} (hc : child ∈ children) {path' : StandardizedPath}
    (hsuffix : child.path <:+ path') :
    FileNodes.ofEntry fromHashes fromFragment fs child path' =
      FileNodes.ofEntry fromHashes fromFragment fs (.directory path children ignored loaded) path' := by
  rw [FileNodes.ofEntry, FileNodes.ofEntry, h.view_child hc hsuffix]

theorem newAll_eq (entries : List Entry) :
    newAll fromHashes fromFragment fs entries =
      entries.filterMap (new fromHashes fromFragment fs) := by
  induction entries with
  | nil => rw [newAll]; rfl
  | cons entry entries ih =>
    rw [newAll, List.filterMap_cons]
    cases new fromHashes fromFragment fs entry with
    | none => exact ih
    | some child => exact congrArg _ ih

theorem sorted_sortChildren (children : List (MerkleNode H)) :
    (sortChildren children).Pairwise fun a b => a.hash ≤ b.hash := by
  have := @List.pairwise_mergeSort (MerkleNode H) (fun a b => decide (a.hash ≤ b.hash))
    (fun a b c hab hbc => by simp only [decide_eq_true_eq] at *; exact hab.trans hbc)
    (fun a b => by simpa using le_total a.hash b.hash) children
  simpa [sortChildren] using this

theorem perm_sortChildren (children : List (MerkleNode H)) :
    (sortChildren children).Perm children := List.mergeSort_perm ..

omit [LinearOrder H] in
/-- What is said of the children of a directory does not depend on their order. -/
theorem ChildrenOf.perm {files : FileNodes H} {path : StandardizedPath}
    {children children' : List (MerkleNode H)} (h : ChildrenOf files path children)
    (hperm : children'.Perm children) : ChildrenOf files path children' where
  parent child hc := h.parent child (hperm.mem_iff.mp hc)
  nodup := (hperm.map absolutePath).nodup_iff.mpr h.nodup
  complete path' hs hsuffix hne := by
    obtain ⟨child, hc, hsuffix'⟩ := h.complete path' hs hsuffix hne
    exact ⟨child, hperm.mem_iff.mpr hc, hsuffix'⟩

/-- The directory of sorted canonical children. -/
theorem Canonical.sorted {files : FileNodes H} {path : StandardizedPath}
    {children : List (MerkleNode H)} (hcanonical : ∀ child ∈ children,
      Canonical fromHashes files child) (hchildren : ChildrenOf files path children)
    (hne : children ≠ []) :
    Canonical fromHashes files (.mk (fromHashes ((sortChildren children).map hash))
      (sortChildren children) (.directory path)) := by
  have hperm := perm_sortChildren children
  refine .directory (fun child hc => hcanonical child (hperm.mem_iff.mp hc))
    (hchildren.perm hperm) (fun he => hne ?_) (sorted_sortChildren children)
  rw [he] at hperm
  exact hperm.nil_eq.symm

/-- What `MerkleNode::new` makes of an entry, for the files of the entry. -/
def NewSpec (fromHashes : List H → H) (files : FileNodes H) (path : StandardizedPath) :
    Option (MerkleNode H) → Prop
  | none => ∀ path', path <:+ path' → files path' = none
  | some node => Canonical fromHashes files node ∧ node.absolutePath = path

omit [LinearOrder H] in
/-- The paths of the nodes of entries. -/
theorem map_absolutePath_filterMap {entries : List Entry} {make : Entry → Option (MerkleNode H)}
    (h : ∀ entry ∈ entries, ∀ node, make entry = some node → node.absolutePath = entry.path) :
    ((entries.filterMap make).map absolutePath).Sublist (entries.map Entry.path) := by
  induction entries with
  | nil => exact .slnil
  | cons entry entries ih =>
    have ih := ih fun entry hmem => h entry (List.mem_cons_of_mem _ hmem)
    rw [List.filterMap_cons, List.map_cons]
    cases hmake : make entry with
    | none => exact ih.cons _
    | some node =>
      rw [List.map_cons, h entry List.mem_cons_self node hmake]
      exact ih.cons_cons _

variable (fromHashes fromFragment fs) in
/-- **A fresh tree is canonical for its files.** -/
theorem canonical_new (h : entry.WellFormed) :
    NewSpec fromHashes (FileNodes.ofEntry fromHashes fromFragment fs entry) entry.path
      (new fromHashes fromFragment fs entry) := by
  induction h with
  | @file path extension ignored hext =>
    have hfiles : FileNodes.ofEntry fromHashes fromFragment fs (.file path extension ignored) path =
        newFile fromHashes fromFragment fs path := by
      rw [FileNodes.ofEntry, Entry.view_file, if_pos rfl]
      rfl
    rw [new]
    cases hnew : newFile fromHashes fromFragment fs path with
    | none =>
      intro path' _
      by_cases he : path' = path
      · rw [he, hfiles, hnew]
      · rw [FileNodes.ofEntry, Entry.view_file, if_neg he]
    | some node =>
      refine ⟨.file (hfiles.trans hnew), ?_⟩
      exact (FileNodes.consistent_ofEntry _ _ _ (.file hext)).absolutePath_eq (hfiles.trans hnew)
  | @directory path children ignored loaded hwell hparent hnodup ih =>
    have hdir : (Entry.directory path children ignored loaded).WellFormed :=
      .directory hwell hparent hnodup
    have hpath : ∀ child ∈ children, ∀ node, new fromHashes fromFragment fs child = some node →
        node.absolutePath = child.path := fun child hc node hnode => by
      have := ih child hc
      rw [hnode] at this
      exact this.2
    -- a file of the directory is a file of a child that has a node
    have hcomplete : ∀ path', (FileNodes.ofEntry fromHashes fromFragment fs
        (.directory path children ignored loaded) path').isSome → ∃ child ∈ children,
        child.path <:+ path' ∧ ∃ node, new fromHashes fromFragment fs child = some node := by
      intro path' hs
      obtain ⟨metadata, hfile⟩ := FileNodes.ofEntry_isSome hs
      rw [Entry.view_directory] at hfile
      split at hfile
      · exact nomatch hfile
      obtain ⟨child, hc, hview⟩ := Entry.viewOf_eq_some hfile
      have hsuffix := (hwell child hc).suffix_of_view (Option.isSome_of_eq_some hview)
      refine ⟨child, hc, hsuffix, ?_⟩
      cases hnew : new fromHashes fromFragment fs child with
      | some node => exact ⟨node, rfl⟩
      | none =>
        have := ih child hc
        rw [hnew] at this
        rw [← FileNodes.ofEntry_child hdir hc hsuffix, this path' hsuffix] at hs
        exact nomatch hs
    have hcanonical : ∀ node ∈ children.filterMap (new fromHashes fromFragment fs),
        ∃ child ∈ children, node.absolutePath = child.path ∧ Canonical fromHashes
          (FileNodes.ofEntry fromHashes fromFragment fs (.directory path children ignored loaded))
          node := by
      intro node hmem
      obtain ⟨child, hc, hnew⟩ := List.mem_filterMap.mp hmem
      have hspec := ih child hc
      rw [hnew] at hspec
      refine ⟨child, hc, hspec.2, hspec.1.congr (FileNodes.consistent_ofEntry _ _ _ (hwell child hc)) ?_⟩
      exact fun path' hsuffix => FileNodes.ofEntry_child hdir hc (hspec.2 ▸ hsuffix)
    have hchildren : ChildrenOf (FileNodes.ofEntry fromHashes fromFragment fs
        (.directory path children ignored loaded)) path
        (children.filterMap (new fromHashes fromFragment fs)) := by
      refine ⟨fun node hmem => ?_, (map_absolutePath_filterMap hpath).nodup hnodup,
        fun path' hs _ _ => ?_⟩
      · obtain ⟨child, hc, he, -⟩ := hcanonical node hmem
        rw [he, hparent child hc]
      · obtain ⟨child, hc, hsuffix, node, hnew⟩ := hcomplete path' hs
        exact ⟨node, List.mem_filterMap.mpr ⟨child, hc, hnew⟩, hpath child hc node hnew ▸ hsuffix⟩
    rw [new, newAll_eq]
    cases hnodes : children.filterMap (new fromHashes fromFragment fs) with
    | nil =>
      intro path' _
      refine Option.not_isSome_iff_eq_none.mp fun hs => ?_
      obtain ⟨child, hc, -, node, hnew⟩ := hcomplete path' hs
      have := List.mem_filterMap.mpr ⟨child, hc, hnew⟩
      rw [hnodes] at this
      exact nomatch this
    | cons node nodes =>
      rw [hnodes] at hcanonical hchildren
      exact ⟨.sorted (fun node hmem => (hcanonical node hmem).choose_spec.2.2) hchildren
        (List.cons_ne_nil _ _), rfl⟩

end MerkleNode

end Clinch
