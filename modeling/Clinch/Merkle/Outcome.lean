import Clinch.Merkle.Update
import Clinch.Merkle.Create

/-!
# An update keeps a tree canonical

The files after an update are those before it, but for the paths of the update. An update of a node
that is canonical for the files before gives one that is canonical for the files after, or deletes
the node when no file is left below it. `upsert_files` does so only where it does not have to drop
a directory with paths that no node of it has taken.

* `Outcome`, `KeepSpec`, `keepSpec_updateChildren`;
* **`removeFiles_outcome`**;
* `created_spec`, **`upsertFiles_outcome`**, `upsertFiles_retains`.
-/

set_option autoImplicit false

namespace Clinch

namespace MerkleNode

variable {H : Type} [LinearOrder H] {fromHashes : List H → H} {files files' : FileNodes H}

/-- **What an update is to do**: the node is canonical for the files after, or it is deleted and has
none of them. -/
structure Stays (fromHashes : List H → H) (files' : FileNodes H) (node node' : MerkleNode H) :
    Prop where
  canonical : Canonical fromHashes files' node'
  absolutePath : node'.absolutePath = node.absolutePath
  takes : ∀ path, (files' path).isSome → node.absolutePath <:+ path → node.Takes path

/-- What an update does. -/
def Outcome (fromHashes : List H → H) (files' : FileNodes H) (node : MerkleNode H)
    (updated : Updated H) : Prop :=
  if updated.1 = .deleted then ∀ path, node.Takes path → files' path = none
  else Stays fromHashes files' node updated.2.1

/-- The children that the loop keeps, for the files after the update. -/
structure KeepSpec (fromHashes : List H → H) (files' : FileNodes H)
    (children kept : List (MerkleNode H)) : Prop where
  sublist : (kept.map absolutePath).Sublist (children.map absolutePath)
  stays : ∀ child ∈ kept, ∃ old ∈ children, Stays fromHashes files' old child
  complete : ∀ child ∈ children, ∀ path, (files' path).isSome → child.Takes path →
    child.absolutePath ∈ kept.map absolutePath

omit [LinearOrder H] in
/-- The sets of paths agree at and below a node. -/
def AgreeBelow (node : MerkleNode H) (paths paths' : HashSet StandardizedPath) : Prop :=
  ∀ path, node.absolutePath <:+ path → (path ∈ paths ↔ path ∈ paths')

omit [LinearOrder H] in
/-- What a child takes is not below the others. -/
theorem Leaves.agreeBelow {update : MerkleNode H → HashSet StandardizedPath → Updated H}
    (h : Leaves update) {path : StandardizedPath} {child other : MerkleNode H}
    (hchild : child.absolutePath.parent = some path) (hother : other.absolutePath.parent = some path)
    (hne : child.absolutePath ≠ other.absolutePath) {paths paths' : HashSet StandardizedPath}
    (hagree : AgreeBelow other paths paths') : AgreeBelow other (update child paths).2.2.1 paths' := by
  intro path' hsuffix
  rw [← hagree path' hsuffix, h]
  exact and_iff_left fun htakes =>
    hne (StandardizedPath.eq_of_parent hchild hother htakes.below hsuffix)

/-- **The loop over the children**, for an update that does what it is to do on each of them. -/
theorem keepSpec_updateChildren {update : MerkleNode H → HashSet StandardizedPath → Updated H}
    (hleaves : Leaves update) {path : StandardizedPath} {paths₀ : HashSet StandardizedPath} :
    ∀ {children : List (MerkleNode H)} {paths : HashSet StandardizedPath},
    (∀ child ∈ children, child.absolutePath.parent = some path) →
    (children.map absolutePath).Nodup → (∀ child ∈ children, AgreeBelow child paths paths₀) →
    (∀ child ∈ children, ∀ paths, AgreeBelow child paths paths₀ →
      Outcome fromHashes files' child (update child paths)) →
    KeepSpec fromHashes files' children ((updateChildren update children paths).1.map Prod.fst) := by
  intro children
  induction children with
  | nil => exact fun _ _ _ _ => ⟨.slnil, fun _ hc => (by cases hc), fun _ hc => by cases hc⟩
  | cons child children ih =>
    intro paths hparent hnodup hagree houtcome
    obtain ⟨hself, hparent⟩ := List.forall_mem_cons.mp hparent
    rw [List.map_cons, List.nodup_cons] at hnodup
    obtain ⟨hchild, hagree⟩ := List.forall_mem_cons.mp hagree
    obtain ⟨hout, houtcome⟩ := List.forall_mem_cons.mp houtcome
    have hrest : ∀ other ∈ children, AgreeBelow other (update child paths).2.2.1 paths₀ :=
      fun other hother => hleaves.agreeBelow hself (hparent other hother)
        (fun he => hnodup.1 (he ▸ List.mem_map_of_mem hother)) (hagree other hother)
    have ih := ih hparent hnodup.2 hrest houtcome
    have hout := hout paths hchild
    rw [updateChildren]
    generalize update child paths = updated at ih hout
    obtain ⟨result, node, rest, mask⟩ := updated
    -- the child is kept, whatever its mask
    have hkept : Stays fromHashes files' child node → KeepSpec fromHashes files' (child :: children)
        (node :: (updateChildren update children rest).1.map Prod.fst) := by
      intro hstays
      refine ⟨?_, fun kept hk => ?_, fun child' hc path' hs htakes => ?_⟩
      · rw [List.map_cons, List.map_cons, hstays.absolutePath]
        exact ih.sublist.cons_cons _
      · rcases List.mem_cons.mp hk with rfl | hk
        · exact ⟨child, List.mem_cons_self, hstays⟩
        · obtain ⟨old, hold, h⟩ := ih.stays kept hk
          exact ⟨old, List.mem_cons_of_mem _ hold, h⟩
      · rw [List.map_cons, hstays.absolutePath]
        rcases List.mem_cons.mp hc with rfl | hc
        · exact List.mem_cons_self
        · exact List.mem_cons_of_mem _ (ih.complete child' hc path' hs htakes)
    cases result with
    | deleted =>
      refine ⟨ih.sublist.cons _, fun kept hk => ?_, fun child' hc path' hs htakes => ?_⟩
      · obtain ⟨old, hold, h⟩ := ih.stays kept hk
        exact ⟨old, List.mem_cons_of_mem _ hold, h⟩
      · rcases List.mem_cons.mp hc with rfl | hc
        · rw [(hout : ∀ path, _ → files' path = none) path' htakes] at hs
          cases hs
        · exact ih.complete child' hc path' hs htakes
    | updated => exact hkept hout
    | noChange => exact hkept hout

theorem resortChildren_fst (kept : List (MerkleNode H × Option ChildrenPath)) :
    (resortChildren kept).1 = sortChildren (kept.map Prod.fst) :=
  List.map_mergeSort fun _ _ _ _ => rfl

/-- A directory of canonical children, after they are sorted. -/
theorem canonical_resort {path : StandardizedPath}
    {kept : List (MerkleNode H × Option ChildrenPath)}
    (hcanonical : ∀ child ∈ kept.map Prod.fst, Canonical fromHashes files' child)
    (hchildren : ChildrenOf files' path (kept.map Prod.fst)) (hne : kept ≠ []) :
    Canonical fromHashes files' (.mk (fromHashes ((resortChildren kept).1.map hash))
      (resortChildren kept).1 (.directory path)) := by
  rw [resortChildren_fst]
  exact .sorted hcanonical hchildren fun he => hne (List.map_eq_nil_iff.mp he)

omit [LinearOrder H] in
theorem FileNodes.Consistent.file_cases (h : files.Consistent) {path : StandardizedPath}
    {node : MerkleNode H} (hnode : files path = some node) :
    ∃ hash children info, node = .mk hash children (.file path info) := by
  obtain ⟨info, hid⟩ := h.nodeId path node hnode
  obtain ⟨hash, children, nodeId⟩ := node
  exact ⟨hash, children, info, congrArg _ hid⟩

/-- A canonical node takes the files that are at or below it. -/
theorem Canonical.takes (hfiles : files.Consistent) {node : MerkleNode H}
    (h : Canonical fromHashes files node) {path : StandardizedPath} (hs : (files path).isSome)
    (hsuffix : node.absolutePath <:+ path) : node.Takes path := by
  cases h with
  | file hnode =>
    obtain ⟨hash, children, info, rfl⟩ := hfiles.file_cases hnode
    have hs' := Option.isSome_of_eq_some hnode
    exact (hfiles.below _ path hs' hs hsuffix).symm
  | directory _ _ _ _ => exact hsuffix

/-- **`remove_files` leaves the tree canonical** for the files that are left, or deletes it. -/
theorem removeFiles_outcome (hfiles : files.Consistent) {node : MerkleNode H}
    (h : Canonical fromHashes files node) : ∀ paths : HashSet StandardizedPath,
    (∀ path, node.absolutePath <:+ path → files' path = if path ∈ paths then none else files path) →
    Outcome fromHashes files' node (removeFiles fromHashes node paths) := by
  induction h with
  | @file node path hnode =>
    intro paths hfiles'
    obtain ⟨hash, children, info, rfl⟩ := hfiles.file_cases hnode
    have honly : ∀ path', path <:+ path' → path' ≠ path → files path' = none :=
      fun path' hsuffix hne => Option.not_isSome_iff_eq_none.mp fun hs =>
        hne (hfiles.below path path' (by rw [hnode]; rfl) hs hsuffix).symm
    rw [removeFiles]
    split
    · rename_i hmem
      rintro path' rfl
      rw [hfiles' path' (List.suffix_refl _), if_pos hmem]
    · rename_i hno
      refine ⟨.file ((hfiles' path (List.suffix_refl _)).trans ((if_neg hno).trans hnode)), rfl,
        fun path' hs hsuffix => ?_⟩
      by_contra hne
      rw [hfiles' path' hsuffix, honly path' hsuffix hne, ite_self] at hs
      cases hs
  | @directory path children hcanonical hchildren hne hsorted ih =>
    intro paths hfiles'
    have hsub : ∀ path', (files' path').isSome → path <:+ path' → (files path').isSome :=
      fun path' hs hsuffix => by
        rw [hfiles' path' hsuffix] at hs
        split at hs
        · cases hs
        · exact hs
    have hbelow : ∀ child ∈ children, ∀ path', child.absolutePath <:+ path' → path <:+ path' :=
      fun child hc path' hsuffix => (StandardizedPath.suffix_of_parent (hchildren.parent child hc)
        (List.suffix_refl _)).trans hsuffix
    rw [removeFiles]
    dsimp only
    split
    · rename_i hempty
      refine ⟨Canonical.congr hfiles (.directory hcanonical hchildren hne hsorted) ?_, rfl,
        fun path' _ hsuffix => hsuffix⟩
      intro path' hsuffix
      rw [hfiles' path' hsuffix, if_neg]
      exact fun hmem => HashSet.isEmpty_iff.mp hempty path' (mem_under.mpr ⟨hmem, hsuffix⟩)
    rw [removeFromChildren_eq]
    have hagree : ∀ child ∈ children,
        AgreeBelow child (filterPathsUnderDirectory paths path).1 paths :=
      fun child hc path' hsuffix => mem_under.trans (and_iff_left (hbelow child hc path' hsuffix))
    have hkeep := keepSpec_updateChildren (removeFiles_rest fromHashes) hchildren.parent
      hchildren.nodup hagree (fun child hc paths' hagree => ih child hc paths' fun path' hsuffix => by
        rw [hfiles' path' (hbelow child hc path' hsuffix)]
        simp only [hagree path' hsuffix])
    generalize (updateChildren (removeFiles fromHashes) children _).1 = kept at hkeep
    -- a file that is left is below a child that is kept
    have hcomplete : ∀ path', (files' path').isSome → path <:+ path' → path' ≠ path →
        ∃ child ∈ kept.map Prod.fst, child.absolutePath <:+ path' := by
      intro path' hs hsuffix hne'
      obtain ⟨child, hc, hsuffix'⟩ := hchildren.complete path' (hsub path' hs hsuffix) hsuffix hne'
      obtain ⟨child', hc', he⟩ := List.mem_map.mp (hkeep.complete child hc path' hs
        ((hcanonical child hc).takes hfiles (hsub path' hs hsuffix) hsuffix'))
      exact ⟨child', hc', he ▸ hsuffix'⟩
    split
    · rename_i hempty
      obtain rfl := List.isEmpty_iff.mp hempty
      intro path' hsuffix
      refine Option.not_isSome_iff_eq_none.mp fun hs => ?_
      by_cases hne' : path' = path
      · obtain ⟨below, hs', hsuffix', hne''⟩ :=
          Canonical.exists_file_below hfiles hcanonical hchildren hne
        refine hne'' (hfiles.below path below ?_ hs' hsuffix').symm
        exact hsub path (hne' ▸ hs) (List.suffix_refl _)
      · obtain ⟨child, hc, -⟩ := hcomplete path' hs hsuffix hne'
        cases hc
    · rename_i hempty
      refine ⟨canonical_resort (fun child hc => ?_) ⟨fun child hc => ?_, ?_, hcomplete⟩
        fun he => hempty (List.isEmpty_iff.mpr he), rfl, fun path' _ hsuffix => hsuffix⟩
      · exact (hkeep.stays child hc).choose_spec.2.canonical
      · obtain ⟨old, hold, hstays⟩ := hkeep.stays child hc
        rw [hstays.absolutePath, hchildren.parent old hold]
      · exact hkeep.sublist.nodup hchildren.nodup

/-! ## Created nodes -/

variable {fromFragment : String → H} {fs : LocalFileSystem}

omit [LinearOrder H] in
theorem isSome_readFile {path : StandardizedPath}
    (h : (newFile fromHashes fromFragment fs path).isSome) : (fs.readFile path).isSome := by
  rw [newFile] at h
  cases hread : fs.readFile path with
  | none => rw [hread] at h; cases h
  | some read => rfl

omit [LinearOrder H] in
/-- A file with a node is taken in. -/
theorem accepted_of_newFile {base path : StandardizedPath}
    (h : (newFile fromHashes fromFragment fs path).isSome) (hsuffix : base <:+ path)
    (hne : path ≠ base) : CreatedEntries.Accepted base fs path := by
  obtain ⟨hexists, hdir⟩ := fs.readFile_file path (isSome_readFile h)
  exact ⟨hexists, hdir, hsuffix, hne⟩

/-- The files of an update of a directory, and the paths that its children leave. -/
structure Directory (fromHashes : List H → H) (fromFragment : String → H) (fs : LocalFileSystem)
    (files files' : FileNodes H) (path : StandardizedPath) (children : List (MerkleNode H))
    (paths remaining : HashSet StandardizedPath) : Prop where
  consistent : files.Consistent
  consistent' : files'.Consistent
  canonical : ∀ child ∈ children, Canonical fromHashes files child
  childrenOf : ChildrenOf files path children
  after : ∀ path', path <:+ path' → files' path' =
    if path' ∈ paths then newFile fromHashes fromFragment fs path' else files path'
  now : ∀ path', path <:+ path' → (files' path').isSome →
    files' path' = newFile fromHashes fromFragment fs path'
  left : ∀ path', path <:+ path' →
    (path' ∈ remaining ↔ path' ∈ paths ∧ ∀ child ∈ children, ¬ child.Takes path')

namespace Directory

variable {path : StandardizedPath} {children : List (MerkleNode H)}
  {paths remaining : HashSet StandardizedPath}

/-- A new file that is not left to be created is below a child. -/
theorem exists_child
    (h : Directory fromHashes fromFragment fs files files' path children paths remaining)
    {path' : StandardizedPath} (hs : (files' path').isSome) (hsuffix : path <:+ path')
    (hne : path' ≠ path) (hno : path' ∉ remaining) :
    ∃ child ∈ children, child.Takes path' := by
  by_cases hmem : path' ∈ paths
  · by_contra hall
    refine hno ((h.left path' hsuffix).mpr ⟨hmem, fun child hc htakes => hall ?_⟩)
    exact ⟨child, hc, htakes⟩
  · rw [h.after path' hsuffix, if_neg hmem] at hs
    obtain ⟨child, hc, hsuffix'⟩ := h.childrenOf.complete path' hs hsuffix hne
    exact ⟨child, hc, (h.canonical child hc).takes h.consistent hs hsuffix'⟩

/-- The files of a created entry that has a node are the new files there, and were left. -/
theorem created_files
    (h : Directory fromHashes fromFragment fs files files' path children paths remaining)
    {entry : Entry} (hentry : entry ∈ entriesToCreate fs path remaining) {node : MerkleNode H}
    (hnode : new fromHashes fromFragment fs entry = some node) {path' : StandardizedPath}
    (hsuffix : entry.path <:+ path') :
    FileNodes.ofEntry fromHashes fromFragment fs entry path' = files' path' ∧
      ((files' path').isSome → path' ∈ remaining) := by
  obtain ⟨hwell, hfiles⟩ := entriesToCreate_spec fs path remaining
  have hparts : entry.WellFormed ∧ entry.path.parent = some path := by
    cases hwell with
    | directory hw hp _ => exact ⟨hw entry hentry, hp entry hentry⟩
  have hbelow : ∀ path', entry.path <:+ path' → path <:+ path' ∧ path' ≠ path :=
    fun path' hs => ⟨(StandardizedPath.suffix_of_parent hparts.2 (List.suffix_refl _)).trans hs,
      fun he => StandardizedPath.not_suffix_parent hparts.2 (he ▸ hs)⟩
  have hofEntry : ∀ path', (FileNodes.ofEntry fromHashes fromFragment fs entry path').isSome →
      path' ∈ remaining ∧ FileNodes.ofEntry fromHashes fromFragment fs entry path' =
        newFile fromHashes fromFragment fs path' := fun path' hs => by
    obtain ⟨metadata, hview⟩ := FileNodes.ofEntry_isSome hs
    refine ⟨((hfiles path').mp ⟨entry, hentry, metadata, hview⟩).1, ?_⟩
    rw [FileNodes.ofEntry, hview]
  have hremaining : ∀ path', entry.path <:+ path' → path' ∈ remaining →
      files' path' = newFile fromHashes fromFragment fs path' := fun path' hs hmem => by
    have hb := (hbelow path' hs).1
    rw [h.after path' hb, if_pos ((h.left path' hb).mp hmem).1]
  -- the entry has a file with a node
  have hspec := canonical_new fromHashes fromFragment fs hparts.1
  rw [hnode] at hspec
  obtain ⟨file, hfile, hfsuffix⟩ := hspec.1.exists_file (FileNodes.consistent_ofEntry _ _ _ hparts.1)
  rw [hspec.2] at hfsuffix
  obtain ⟨hfmem, hfnew⟩ := hofEntry file hfile
  have hfile' : (files' file).isSome := by
    rw [hremaining file hfsuffix hfmem, ← hfnew]
    exact hfile
  have hleft : (files' path').isSome → path' ∈ remaining := by
    intro hs
    by_contra hno
    obtain ⟨hb, hne⟩ := hbelow path' hsuffix
    obtain ⟨child, hc, htakes⟩ := h.exists_child hs hb hne hno
    have hpath := StandardizedPath.eq_of_parent (h.childrenOf.parent child hc) hparts.2 htakes.below
      hsuffix
    -- a directory would have taken the file of the entry; a file is above it
    have hnot := ((h.left file (hbelow file hfsuffix).1).mp hfmem).2 child hc
    cases h.canonical child hc with
    | directory _ _ _ _ =>
      rw [← hpath] at hfsuffix
      exact hnot hfsuffix
    | @file _ path'' hchild =>
      obtain ⟨hash, children', info, rfl⟩ := h.consistent.file_cases hchild
      have hpath' : path' = path'' := htakes
      have hfsuffix' : path' <:+ file := by
        change path'' = entry.path at hpath
        rw [hpath', hpath]
        exact hfsuffix
      have hsame := h.consistent'.below path' file hs hfile' hfsuffix'
      exact hno (hsame ▸ hfmem)
  refine ⟨?_, hleft⟩
  by_cases hs : (FileNodes.ofEntry fromHashes fromFragment fs entry path').isSome
  · obtain ⟨hmem, hnew⟩ := hofEntry path' hs
    rw [hnew, hremaining path' hsuffix hmem]
  · rw [Option.not_isSome_iff_eq_none.mp hs]
    refine (Option.not_isSome_iff_eq_none.mp fun hs' => hs ?_).symm
    -- the new file is in an entry, which is this one
    have hmem := hleft hs'
    obtain ⟨hb, hne⟩ := hbelow path' hsuffix
    have hnew := hremaining path' hsuffix hmem
    obtain ⟨entry', hentry', metadata, hview⟩ := (hfiles path').mpr
      ⟨hmem, accepted_of_newFile (hnew ▸ hs') hb hne⟩
    cases hwell with
    | directory hw hp hn =>
      have hpath := StandardizedPath.eq_of_parent (hp entry' hentry') hparts.2
        ((hw entry' hentry').suffix_of_view (by rw [hview]; rfl)) hsuffix
      obtain rfl := List.inj_on_of_nodup_map hn hentry' hentry hpath
      rw [FileNodes.ofEntry, hview]
      exact hnew ▸ hs'

/-- The nodes that are created. -/
def createdNodes (fromHashes : List H → H) (fromFragment : String → H) (fs : LocalFileSystem)
    (path : StandardizedPath) (remaining : HashSet StandardizedPath) : List (MerkleNode H) :=
  (entriesToCreate fs path remaining).filterMap (new fromHashes fromFragment fs)

/-- **The created nodes** are canonical for the new files. -/
theorem created_spec
    (h : Directory fromHashes fromFragment fs files files' path children paths remaining) :
    (∀ node ∈ createdNodes fromHashes fromFragment fs path remaining,
      Canonical fromHashes files' node ∧ node.absolutePath.parent = some path ∧
        ∀ path', (files' path').isSome → node.absolutePath <:+ path' → path' ∈ remaining) ∧
    ((createdNodes fromHashes fromFragment fs path remaining).map absolutePath).Nodup ∧
    ∀ path' ∈ remaining, (files' path').isSome → path <:+ path' → path' ≠ path →
      ∃ node ∈ createdNodes fromHashes fromFragment fs path remaining,
        node.absolutePath <:+ path' := by
  obtain ⟨hwell, hfiles⟩ := entriesToCreate_spec fs path remaining
  cases hwell with
  | directory hw hp hn =>
    have hspec : ∀ entry ∈ entriesToCreate fs path remaining, ∀ node,
        new fromHashes fromFragment fs entry = some node → Canonical fromHashes
          (FileNodes.ofEntry fromHashes fromFragment fs entry) node ∧
          node.absolutePath = entry.path := fun entry hentry node hnode => by
      have := canonical_new fromHashes fromFragment fs (hw entry hentry)
      rwa [hnode] at this
    refine ⟨fun node hmem => ?_, ?_, fun path' hmem hs hsuffix hne => ?_⟩
    · obtain ⟨entry, hentry, hnode⟩ := List.mem_filterMap.mp hmem
      obtain ⟨hcanonical, hpath⟩ := hspec entry hentry node hnode
      refine ⟨hcanonical.congr (FileNodes.consistent_ofEntry _ _ _ (hw entry hentry)) fun path' hsuffix =>
        (h.created_files hentry hnode (hpath ▸ hsuffix)).1, by rw [hpath, hp entry hentry],
        fun path' hs hsuffix => (h.created_files hentry hnode (hpath ▸ hsuffix)).2 hs⟩
    · exact (map_absolutePath_filterMap fun entry hentry node hnode =>
        (hspec entry hentry node hnode).2).nodup hn
    · have hnew := h.now path' hsuffix hs
      obtain ⟨entry, hentry, metadata, hview⟩ := (hfiles path').mpr
        ⟨hmem, accepted_of_newFile (hnew ▸ hs) hsuffix hne⟩
      have hbelow := (hw entry hentry).suffix_of_view (Option.isSome_of_eq_some hview)
      cases hnode : new fromHashes fromFragment fs entry with
      | some node =>
        exact ⟨node, List.mem_filterMap.mpr ⟨entry, hentry, hnode⟩,
          (hspec entry hentry node hnode).2 ▸ hbelow⟩
      | none =>
        have := canonical_new fromHashes fromFragment fs (hw entry hentry)
        rw [hnode] at this
        have hnone := this path' hbelow
        rw [FileNodes.ofEntry, hview] at hnone
        change newFile fromHashes fromFragment fs path' = none at hnone
        rw [hnew, hnone] at hs
        cases hs

/-- **The kept and the created children of a directory**, for the new files. -/
theorem childrenOf_after
    (h : Directory fromHashes fromFragment fs files files' path children paths remaining)
    {kept : List (MerkleNode H)} (hkeep : KeepSpec fromHashes files' children kept) :
    (∀ child ∈ kept ++ createdNodes fromHashes fromFragment fs path remaining,
      Canonical fromHashes files' child) ∧
    ChildrenOf files' path (kept ++ createdNodes fromHashes fromFragment fs path remaining) := by
  obtain ⟨hcreated, hnodup, hcomplete⟩ := h.created_spec
  refine ⟨fun child hc => ?_, fun child hc => ?_, ?_, fun path' hs hsuffix hne => ?_⟩
  · rcases List.mem_append.mp hc with hc | hc
    · exact (hkeep.stays child hc).choose_spec.2.canonical
    · exact (hcreated child hc).1
  · rcases List.mem_append.mp hc with hc | hc
    · obtain ⟨old, hold, hstays⟩ := hkeep.stays child hc
      rw [hstays.absolutePath, h.childrenOf.parent old hold]
    · exact (hcreated child hc).2.1
  · rw [List.map_append, List.nodup_append]
    refine ⟨hkeep.sublist.nodup h.childrenOf.nodup, hnodup, fun a ha b hb hab => ?_⟩
    obtain ⟨child, hc, rfl⟩ := List.mem_map.mp ha
    obtain ⟨node, hmem, rfl⟩ := List.mem_map.mp hb
    -- a file below both would be taken, and left
    obtain ⟨old, hold, hstays⟩ := hkeep.stays child hc
    obtain ⟨file, hs, hsuffix⟩ := hstays.canonical.exists_file h.consistent'
    have hleft := (hcreated node hmem).2.2 file hs (hab ▸ hsuffix)
    have htakes := hstays.takes file hs (hstays.absolutePath ▸ hsuffix)
    exact ((h.left file ((StandardizedPath.suffix_of_parent (h.childrenOf.parent old hold)
      (List.suffix_refl _)).trans htakes.below)).mp hleft).2 old hold htakes
  · by_cases hmem : path' ∈ remaining
    · obtain ⟨node, hnode, hsuffix'⟩ := hcomplete path' hmem hs hsuffix hne
      exact ⟨node, List.mem_append_right _ hnode, hsuffix'⟩
    · obtain ⟨child, hc, htakes⟩ := h.exists_child hs hsuffix hne hmem
      obtain ⟨child', hc', he⟩ := List.mem_map.mp (hkeep.complete child hc path' hs htakes)
      exact ⟨child', List.mem_append_left _ hc', he ▸ htakes.below⟩

end Directory

/-! ## The upsert -/

omit [LinearOrder H] in
/-- A file is strictly below a path. -/
def HasFileBelow (files : FileNodes H) (path : StandardizedPath) : Prop :=
  ∃ path', (files path').isSome ∧ path <:+ path' ∧ path' ≠ path

omit [LinearOrder H] in
/-- **When a directory can be updated**: it has files afterwards, or every path that is upserted there
is of a file that it has. -/
def Settled (files files' : FileNodes H) (paths : HashSet StandardizedPath)
    (path : StandardizedPath) : Prop :=
  HasFileBelow files' path ∨ ∀ path' ∈ paths, path <:+ path' → (files path').isSome

variable (fromHashes fromFragment fs files files') in
/-- The files after an upsert of the paths, at and below a node. -/
structure UpsertsTo (node : MerkleNode H) (paths : HashSet StandardizedPath) : Prop where
  after : ∀ path, node.absolutePath <:+ path → files' path =
    if path ∈ paths then newFile fromHashes fromFragment fs path else files path
  now : ∀ path, node.absolutePath <:+ path → (files' path).isSome →
    files' path = newFile fromHashes fromFragment fs path

omit [LinearOrder H] in
/-- What holds at and below a directory holds at and below its child. -/
theorem UpsertsTo.child {node child : MerkleNode H} {paths paths' : HashSet StandardizedPath}
    (h : UpsertsTo fromHashes files files' fromFragment fs node paths)
    (hparent : child.absolutePath.parent = some node.absolutePath)
    (hagree : AgreeBelow child paths' paths) :
    UpsertsTo fromHashes files files' fromFragment fs child paths' where
  after path hsuffix := by
    rw [h.after path ((StandardizedPath.suffix_of_parent hparent (List.suffix_refl _)).trans hsuffix)]
    simp only [hagree path hsuffix]
  now path hsuffix := h.now path
    ((StandardizedPath.suffix_of_parent hparent (List.suffix_refl _)).trans hsuffix)

/-- A directory that has a path to update. -/
theorem upsertFiles_directory {hash : H} {path : StandardizedPath} {children : List (MerkleNode H)}
    {paths : HashSet StandardizedPath}
    (hunder : (filterPathsUnderDirectory paths path).1.isEmpty = false) :
    upsertFiles fromHashes fromFragment fs (.mk hash children (.directory path)) paths =
      let under := (filterPathsUnderDirectory paths path).1
      let loop := updateChildren (upsertFiles fromHashes fromFragment fs) children under
      if loop.1.isEmpty && loop.2.isEmpty then
        (.deleted, .mk hash [] (.directory path), (filterPathsUnderDirectory paths path).2, none)
      else
        let all := resortChildren (loop.1 ++
          (Directory.createdNodes fromHashes fromFragment fs path loop.2).map (·, some none))
        (.updated, .mk (fromHashes (all.1.map MerkleNode.hash)) all.1 (.directory path),
          (filterPathsUnderDirectory paths path).2, all.2) := by
  rw [upsertFiles]
  simp only [upsertChildren_eq, hunder]
  rfl

/-- The upsert of a directory whose children are updated as they are to be. -/
theorem upsertFiles_directory_outcome (hfiles : files.Consistent) (hfiles' : files'.Consistent)
    {hash' : H} {path : StandardizedPath} {children : List (MerkleNode H)}
    {paths : HashSet StandardizedPath}
    (hcanonical : ∀ child ∈ children, Canonical fromHashes files child)
    (hchildren : ChildrenOf files path children) (hself : files path = none)
    (hidle : (filterPathsUnderDirectory paths path).1.isEmpty = true →
      Canonical fromHashes files (.mk hash' children (.directory path)))
    (hafter : UpsertsTo fromHashes files files' fromFragment fs
      (.mk hash' children (.directory path)) paths)
    (hchild : ∀ child ∈ children, ∀ paths', AgreeBelow child paths' paths →
      Outcome fromHashes files' child (upsertFiles fromHashes fromFragment fs child paths'))
    (hsettled : Settled files files' paths path) :
    Outcome fromHashes files' (.mk hash' children (.directory path))
      (upsertFiles fromHashes fromFragment fs (.mk hash' children (.directory path)) paths) := by
  have hbelow : ∀ child ∈ children, ∀ path', child.absolutePath <:+ path' → path <:+ path' :=
    fun child hc path' hsuffix => (StandardizedPath.suffix_of_parent (hchildren.parent child hc)
      (List.suffix_refl _)).trans hsuffix
  cases hunder : (filterPathsUnderDirectory paths path).1.isEmpty with
  | true =>
    rw [upsertFiles]
    simp only [hunder, if_true]
    refine ⟨(hidle hunder).congr hfiles ?_, rfl, fun path' _ hsuffix => hsuffix⟩
    intro path' hsuffix
    rw [hafter.after path' hsuffix, if_neg]
    exact fun hmem => HashSet.isEmpty_iff.mp hunder path' (mem_under.mpr ⟨hmem, hsuffix⟩)
  | false =>
    rw [upsertFiles_directory hunder]
    dsimp only
    have hagree : ∀ child ∈ children,
        AgreeBelow child (filterPathsUnderDirectory paths path).1 paths :=
      fun child hc path' hsuffix => mem_under.trans (and_iff_left (hbelow child hc path' hsuffix))
    have hkeep := keepSpec_updateChildren (upsertFiles_rest fromHashes fromFragment fs)
      hchildren.parent hchildren.nodup hagree hchild
    have hleft := (upsertFiles_rest fromHashes fromFragment fs).updateChildren children
      (filterPathsUnderDirectory paths path).1
    simp only [mem_under] at hleft
    generalize updateChildren (upsertFiles fromHashes fromFragment fs) children _ = loop
      at hkeep hleft ⊢
    obtain ⟨kept, remaining⟩ := loop
    have hdirectory : Directory fromHashes fromFragment fs files files' path children paths
        remaining := ⟨hfiles, hfiles', hcanonical, hchildren, hafter.after, hafter.now,
      fun path' hsuffix => (hleft path').trans (by rw [and_iff_left hsuffix])⟩
    obtain ⟨hcanonical', hchildren'⟩ := hdirectory.childrenOf_after hkeep
    have hempty : kept.map Prod.fst ++
        Directory.createdNodes fromHashes fromFragment fs path remaining = [] →
        remaining.isEmpty = true ∧ ∀ path', path <:+ path' → files' path' = none := by
      intro hnil
      have hnofile : ∀ path', path <:+ path' → path' ≠ path → files' path' = none :=
        fun path' hsuffix hne' => Option.not_isSome_iff_eq_none.mp fun hs => by
          obtain ⟨child, hc, -⟩ := hchildren'.complete path' hs hsuffix hne'
          rw [hnil] at hc
          cases hc
      have hold : ∀ path' ∈ paths, path <:+ path' → (files path').isSome :=
        hsettled.resolve_left (by
          rintro ⟨path', hs, hsuffix, hne'⟩
          rw [hnofile path' hsuffix hne'] at hs
          cases hs)
      refine ⟨HashSet.isEmpty_iff.mpr fun path' hmem => ?_, fun path' hsuffix => ?_⟩
      · obtain ⟨⟨hmem, hsuffix⟩, hnot⟩ := (hleft path').mp hmem
        have hs := hold path' hmem hsuffix
        have hne' : path' ≠ path := fun he => by
          rw [he, hself] at hs
          cases hs
        obtain ⟨child, hc, hsuffix'⟩ := hchildren.complete path' hs hsuffix hne'
        exact hnot child hc ((hcanonical child hc).takes hfiles hs hsuffix')
      · by_cases hne' : path' = path
        · subst hne'
          rw [hafter.after path' hsuffix, if_neg, hself]
          intro hmem
          have hs := hold path' hmem hsuffix
          rw [hself] at hs
          cases hs
        · exact hnofile path' hsuffix hne'
    have hmap : (kept ++ (Directory.createdNodes fromHashes fromFragment fs path remaining).map
        fun node => (node, some (none : ChildrenPath))).map Prod.fst =
        kept.map Prod.fst ++ Directory.createdNodes fromHashes fromFragment fs path remaining := by
      rw [List.map_append, List.map_map]
      exact congrArg _ (List.map_id _)
    split
    · rename_i hdeleted
      rw [Bool.and_eq_true, List.isEmpty_iff] at hdeleted
      obtain ⟨hkept, hremaining⟩ := hdeleted
      change kept = [] at hkept
      refine (hempty ?_).2
      rw [hkept, List.map_nil, List.nil_append, List.eq_nil_iff_forall_not_mem]
      intro node hmem
      obtain ⟨hcanon, -, hleft'⟩ := hdirectory.created_spec.1 node hmem
      obtain ⟨file, hs, hsuffix⟩ := hcanon.exists_file hfiles'
      exact HashSet.isEmpty_iff.mp hremaining file (hleft' file hs hsuffix)
    · rename_i hkept
      refine ⟨canonical_resort (hmap ▸ hcanonical') (hmap ▸ hchildren') fun hnil => hkept ?_, rfl,
        fun path' _ hsuffix => hsuffix⟩
      have hnil' := hmap.symm.trans (congrArg (List.map Prod.fst) hnil)
      rw [(hempty hnil').1, Bool.and_true, List.isEmpty_iff]
      exact (List.append_eq_nil_iff.mp hnil).1

/-- A canonical directory is no file. -/
theorem Canonical.directory_not_file (hfiles : files.Consistent) {path : StandardizedPath}
    {children : List (MerkleNode H)} (hcanonical : ∀ child ∈ children,
      Canonical fromHashes files child) (hchildren : ChildrenOf files path children)
    (hne : children ≠ []) : files path = none := by
  obtain ⟨below, hs, hsuffix, hne'⟩ := Canonical.exists_file_below hfiles hcanonical hchildren hne
  exact Option.not_isSome_iff_eq_none.mp fun hs' =>
    hne' (hfiles.below path below hs' hs hsuffix).symm

/-- **`upsert_files` leaves the tree canonical** for the new files, or deletes it, when every
directory of it can be updated. -/
theorem upsertFiles_outcome (hfiles : files.Consistent) (hfiles' : files'.Consistent)
    {node : MerkleNode H} (h : Canonical fromHashes files node) :
    ∀ paths : HashSet StandardizedPath,
    UpsertsTo fromHashes files files' fromFragment fs node paths →
    (∀ path, node.absolutePath <:+ path → HasFileBelow files path →
      Settled files files' paths path) →
    Outcome fromHashes files' node (upsertFiles fromHashes fromFragment fs node paths) := by
  induction h with
  | @file node path hnode =>
    intro paths hafter _
    obtain ⟨hash, children, info, rfl⟩ := hfiles.file_cases hnode
    rw [upsertFiles]
    split
    · rename_i hmem
      have hnow : files' path = newFile fromHashes fromFragment fs path :=
        (hafter.after path (List.suffix_refl _)).trans (if_pos hmem)
      dsimp only
      split
      · rename_i hexists
        rintro path' rfl
        refine Option.not_isSome_iff_eq_none.mp fun hs => ?_
        rw [(fs.readFile_file path' (isSome_readFile (hnow ▸ hs))).1] at hexists
        cases hexists
      · rw [CreatedEntries.newFileEntry, new]
        cases hnew : newFile fromHashes fromFragment fs path with
        | none =>
          rintro path' rfl
          exact hnow.trans hnew
        | some node =>
          have hnode' := hnow.trans hnew
          refine ⟨.file hnode', hfiles'.absolutePath_eq hnode', fun path' hs hsuffix => ?_⟩
          exact (hfiles'.below path path' (by rw [hnode']; rfl) hs hsuffix).symm
    · rename_i hno
      have hnode' : files' path = some (.mk hash children (.file path info)) :=
        (hafter.after path (List.suffix_refl _)).trans ((if_neg hno).trans hnode)
      refine ⟨.file hnode', rfl, fun path' hs hsuffix => ?_⟩
      exact (hfiles'.below path path' (by rw [hnode']; rfl) hs hsuffix).symm
  | @directory path children hcanonical hchildren hne hsorted ih =>
    intro paths hafter hsettled
    refine upsertFiles_directory_outcome hfiles hfiles' hcanonical hchildren
      (Canonical.directory_not_file hfiles hcanonical hchildren hne)
      (fun _ => .directory hcanonical hchildren hne hsorted) hafter
      (fun child hc paths' hagree => ?_) (hsettled path (List.suffix_refl _)
        (Canonical.exists_file_below hfiles hcanonical hchildren hne))
    have hparent := hchildren.parent child hc
    refine ih child hc paths' (hafter.child hparent hagree) fun path' hsuffix hs => ?_
    refine (hsettled path' ((StandardizedPath.suffix_of_parent hparent
      (List.suffix_refl _)).trans hsuffix) hs).imp_right fun hold file hmem hsuffix' => ?_
    exact hold file ((hagree file (hsuffix.trans hsuffix')).mp hmem) hsuffix'

/-! ## The directories that an upsert does not drop -/

omit [LinearOrder H] in
/-- A child that is updated is kept. -/
theorem mem_updateChildren {update : MerkleNode H → HashSet StandardizedPath → Updated H}
    (hleaves : Leaves update) {path : StandardizedPath} {paths₀ : HashSet StandardizedPath} :
    ∀ {children : List (MerkleNode H)} {paths : HashSet StandardizedPath},
    (∀ child ∈ children, child.absolutePath.parent = some path) →
    (children.map absolutePath).Nodup → (∀ child ∈ children, AgreeBelow child paths paths₀) →
    ∀ child ∈ children, ∃ paths', AgreeBelow child paths' paths₀ ∧
      ((update child paths').1 = .updated → (update child paths').2.1 ∈
        (updateChildren update children paths).1.map Prod.fst) := by
  intro children
  induction children with
  | nil => exact fun _ _ _ _ hc => nomatch hc
  | cons child children ih =>
    intro paths hparent hnodup hagree child' hc
    obtain ⟨hself, hparent⟩ := List.forall_mem_cons.mp hparent
    rw [List.map_cons, List.nodup_cons] at hnodup
    obtain ⟨hchild, hagree⟩ := List.forall_mem_cons.mp hagree
    rcases List.mem_cons.mp hc with rfl | hc
    · refine ⟨paths, hchild, fun hupdated => ?_⟩
      rw [updateChildren]
      generalize update child' paths = updated at hupdated
      obtain ⟨result, node, rest, mask⟩ := updated
      obtain rfl : result = .updated := hupdated
      exact List.mem_cons_self
    · have hrest : ∀ other ∈ children, AgreeBelow other (update child paths).2.2.1 paths₀ :=
        fun other hother => hleaves.agreeBelow hself (hparent other hother)
          (fun he => hnodup.1 (he ▸ List.mem_map_of_mem hother)) (hagree other hother)
      obtain ⟨paths', hagree', hmem⟩ := ih hparent hnodup.2 hrest child' hc
      refine ⟨paths', hagree', fun hupdated => ?_⟩
      have hmem := hmem hupdated
      rw [updateChildren]
      generalize update child paths = updated at hmem
      obtain ⟨result, node, rest, mask⟩ := updated
      cases result with
      | deleted => exact hmem
      | updated => exact List.mem_cons_of_mem _ hmem
      | noChange => exact List.mem_cons_of_mem _ hmem

omit [LinearOrder H] in
/-- A node of the tree has this id. -/
def HasNode (node : MerkleNode H) (nodeId : NodeId) : Prop :=
  ∃ address node', node.nodeAt address = some node' ∧ node'.nodeId = nodeId

omit [LinearOrder H] in
theorem HasNode.of_child {hash : H} {children : List (MerkleNode H)} {nodeId nodeId' : NodeId}
    {child : MerkleNode H} (hc : child ∈ children) (h : child.HasNode nodeId') :
    (MerkleNode.mk hash children nodeId).HasNode nodeId' := by
  obtain ⟨address, node, hnode, hid⟩ := h
  obtain ⟨index, hget⟩ := List.mem_iff_getElem?.mp hc
  refine ⟨index :: address, node, ?_, hid⟩
  change children[index]?.bind _ = _
  rw [hget]
  exact hnode

variable (fromFragment fs) in
/-- **A directory with a path that no file of it takes is not dropped**, whatever is created. -/
theorem upsertFiles_retains (hfiles : files.Consistent) {node : MerkleNode H}
    (h : Canonical fromHashes files node) : ∀ {path file : StandardizedPath}
    {paths : HashSet StandardizedPath}, node.absolutePath <:+ path → HasFileBelow files path →
    file ∈ paths → path <:+ file → files file = none →
    (upsertFiles fromHashes fromFragment fs node paths).1 = .updated ∧
      (upsertFiles fromHashes fromFragment fs node paths).2.1.HasNode (.directory path) := by
  induction h with
  | @file node self hnode =>
    intro path file paths hsuffix ⟨below, hs, hsuffix', hne⟩ _ _ _
    rw [hfiles.absolutePath_eq hnode] at hsuffix
    have hsame := hfiles.below self below (by rw [hnode]; rfl) hs (hsuffix.trans hsuffix')
    refine absurd ?_ hne
    rw [← hsame] at hsuffix' ⊢
    exact hsuffix.eq_of_length (hsuffix.length_le.antisymm hsuffix'.length_le)
  | @directory self children hcanonical hchildren hne hsorted ih =>
    intro path file paths hsuffix ⟨below, hs, hsuffix', hne'⟩ hmem hfile hnone
    have hself : self <:+ file := List.IsSuffix.trans hsuffix hfile
    have hbelow : ∀ child ∈ children, ∀ path', child.absolutePath <:+ path' → self <:+ path' :=
      fun child hc path' hsuffix => (StandardizedPath.suffix_of_parent (hchildren.parent child hc)
        (List.suffix_refl _)).trans hsuffix
    have hunder : (filterPathsUnderDirectory paths self).1.isEmpty = false := by
      rw [← Bool.not_eq_true, HashSet.isEmpty_iff]
      exact fun hall => hall file (mem_under.mpr ⟨hmem, hself⟩)
    rw [upsertFiles_directory hunder]
    dsimp only
    have hleft := (upsertFiles_rest fromHashes fromFragment fs).updateChildren children
      (filterPathsUnderDirectory paths self).1 file
    have hagree : ∀ child ∈ children,
        AgreeBelow child (filterPathsUnderDirectory paths self).1 paths :=
      fun child hc path' hsuffix => mem_under.trans (and_iff_left (hbelow child hc path' hsuffix))
    have hloop := mem_updateChildren (upsertFiles_rest fromHashes fromFragment fs)
      hchildren.parent hchildren.nodup hagree
    generalize updateChildren (upsertFiles fromHashes fromFragment fs) children _ = loop
      at hloop hleft ⊢
    obtain ⟨kept, remaining⟩ := loop
    -- a child with the path is kept, and has what it retains
    have hchild : ∀ child ∈ children, ∀ path', child.absolutePath <:+ path' →
        HasFileBelow files path' → path' <:+ file →
        ∃ node ∈ kept.map Prod.fst, node.HasNode (.directory path') :=
      fun child hc path' hsuffix hb hf => by
        obtain ⟨paths', hagree, hkept⟩ := hloop child hc
        obtain ⟨hupdated, hnode⟩ := ih child hc hsuffix hb
          ((hagree file (hsuffix.trans hf)).mpr hmem) hf hnone
        exact ⟨_, hkept hupdated, hnode⟩
    have hnot : (kept.isEmpty && remaining.isEmpty) = false := by
      rw [← Bool.not_eq_true, Bool.and_eq_true, List.isEmpty_iff, HashSet.isEmpty_iff]
      rintro ⟨rfl, hall⟩
      have hall' := fun h => hall file (hleft.mpr h)
      refine hall' ⟨mem_under.mpr ⟨hmem, hself⟩, fun child hc htakes => ?_⟩
      have htaken := hcanonical child hc
      cases htaken with
      | @file _ path'' hchild' =>
        obtain ⟨hash, children', info, rfl⟩ := hfiles.file_cases hchild'
        obtain rfl : file = path'' := htakes
        rw [hchild'] at hnone
        exact nomatch hnone
      | directory hcanonical' hchildren' hne'' _ =>
        obtain ⟨node, hnode, -⟩ := hchild _ hc _ (List.suffix_refl _)
          (Canonical.exists_file_below hfiles hcanonical' hchildren' hne'') htakes
        exact nomatch hnode
    simp only [hnot]
    refine ⟨rfl, ?_⟩
    by_cases hpath : path = self
    · subst hpath
      exact ⟨[], _, rfl, rfl⟩
    · have hbelow' : below ≠ self := by
        rintro rfl
        exact hpath (List.IsSuffix.eq_of_length hsuffix'
          (hsuffix'.length_le.antisymm hsuffix.length_le))
      obtain ⟨child, hc, hsuffix''⟩ := hchildren.complete below hs
        (List.IsSuffix.trans hsuffix hsuffix') hbelow'
      have hlength : child.absolutePath.length ≤ path.length := by
        obtain ⟨name, hname⟩ := StandardizedPath.parent_eq_some.mp (hchildren.parent child hc)
        rw [hname, List.length_cons]
        have hlt : self.length ≤ path.length := hsuffix.length_le
        refine Nat.lt_of_le_of_ne hlt fun he => hpath ?_
        exact (List.IsSuffix.eq_of_length hsuffix he).symm
      obtain ⟨node, hnode, hretained⟩ := hchild child hc path
        (List.suffix_of_suffix_length_le hsuffix'' hsuffix' hlength) ⟨below, hs, hsuffix', hne'⟩
        hfile
      refine hretained.of_child ?_
      rw [resortChildren_fst, (perm_sortChildren _).mem_iff, List.map_append]
      exact List.mem_append_left _ hnode

end MerkleNode

end Clinch
