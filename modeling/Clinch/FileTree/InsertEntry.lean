import Clinch.FileTree.Tree

/-!
# Entries in the file tree

A tree of entries is turned into a store of its own, which `insert_entry_at_path` writes over the
maps of the tree.

* `Entry.subentries`, `Entry.view`: the entries of a tree of entries, and what it says;
* `Entry.WellFormed`: children are one level below their directory, with distinct paths;
* `Entry.isTree_ofEntry`, `Entry.view_ofEntry`: its store is a tree, with that view;
* **`IsTree.insertEntryAtPath`**: the insertion keeps the tree when no old entry loses its place.
-/

set_option autoImplicit false

namespace Clinch

namespace Entry

mutual

/-- The entries of a tree of entries, from the top. -/
def subentries : Entry → List Entry
  | .file path extension ignored => [.file path extension ignored]
  | .directory path children ignored loaded =>
    .directory path children ignored loaded :: subentriesOf children

def subentriesOf : List Entry → List Entry
  | [] => []
  | child :: children => subentries child ++ subentriesOf children

end

/-- What a tree of entries says. -/
def view (entry : Entry) : FileView := fun path =>
  (entry.subentries.find? fun entry' => entry'.path = path).map state

/-- What a list of trees of entries says. -/
def viewOf (entries : List Entry) : FileView := fun path =>
  ((subentriesOf entries).find? fun entry' => entry'.path = path).map state

/-- **A tree of entries.** -/
inductive WellFormed : Entry → Prop
  | file {path : StandardizedPath} {extension : Option String} {ignored : Bool} :
    extension = path.extension → WellFormed (.file path extension ignored)
  | directory {path : StandardizedPath} {children : List Entry} {ignored loaded : Bool} :
    (∀ child ∈ children, WellFormed child) →
    (∀ child ∈ children, child.path.parent = some path) → (children.map Entry.path).Nodup →
    WellFormed (.directory path children ignored loaded)

theorem viewOf_cons (child : Entry) (children : List Entry) (path : StandardizedPath) :
    viewOf (child :: children) path = (child.view path).or (viewOf children path) := by
  rw [viewOf, subentriesOf, List.find?_append, view, viewOf]
  cases List.find? _ child.subentries <;> rfl

theorem view_file (path : StandardizedPath) (extension : Option String) (ignored : Bool)
    (path' : StandardizedPath) : (Entry.file path extension ignored).view path' =
      if path' = path then some (Entry.file path extension ignored).state else none := by
  rw [view, subentries, List.find?_cons]
  by_cases h : path' = path
  · rw [if_pos h, show (Entry.file path extension ignored).path = path from rfl,
      decide_eq_true h.symm]
    rfl
  · rw [if_neg h, show (Entry.file path extension ignored).path = path from rfl,
      decide_eq_false (Ne.symm h)]
    rfl

theorem view_directory (path : StandardizedPath) (children : List Entry) (ignored loaded : Bool)
    (path' : StandardizedPath) : (Entry.directory path children ignored loaded).view path' =
      if path' = path then some (Entry.directory path children ignored loaded).state
      else viewOf children path' := by
  rw [view, subentries, List.find?_cons]
  by_cases h : path' = path
  · rw [if_pos h, show (Entry.directory path children ignored loaded).path = path from rfl,
      decide_eq_true h.symm]
    rfl
  · rw [if_neg h, show (Entry.directory path children ignored loaded).path = path from rfl,
      decide_eq_false (Ne.symm h)]
    rfl

theorem viewOf_eq_some {children : List Entry} {path : StandardizedPath}
    {state : FileTreeEntryState} (h : viewOf children path = some state) :
    ∃ child ∈ children, child.view path = some state := by
  induction children with
  | nil => exact nomatch h
  | cons child children ih =>
    rw [viewOf_cons] at h
    rcases Option.or_eq_some_iff.mp h with h | ⟨-, h⟩
    · exact ⟨child, List.mem_cons_self, h⟩
    · obtain ⟨child', hc, h⟩ := ih h
      exact ⟨child', List.mem_cons_of_mem _ hc, h⟩

theorem viewOf_isSome {children : List Entry} {path : StandardizedPath}
    (h : (viewOf children path).isSome) : ∃ child ∈ children, (child.view path).isSome := by
  obtain ⟨state, hstate⟩ := Option.isSome_iff_exists.mp h
  obtain ⟨child, hc, hview⟩ := viewOf_eq_some hstate
  exact ⟨child, hc, by rw [hview]; rfl⟩

theorem viewOf_isSome_of_mem {children : List Entry} {child : Entry} (hc : child ∈ children)
    {path : StandardizedPath} (h : (child.view path).isSome) : (viewOf children path).isSome := by
  induction children with
  | nil => exact nomatch hc
  | cons child' children ih =>
    rw [viewOf_cons, Option.isSome_or]
    rcases List.mem_cons.mp hc with rfl | hc
    · rw [h, Bool.true_or]
    · rw [ih hc, Bool.or_true]

theorem view_self (entry : Entry) : entry.view entry.path = some entry.state := by
  cases entry with
  | file path extension ignored => exact (view_file ..).trans (if_pos rfl)
  | directory path children ignored loaded => exact (view_directory ..).trans (if_pos rfl)

namespace WellFormed

/-- What a tree of entries says is about paths below its own. -/
theorem suffix_of_view {entry : Entry} (h : entry.WellFormed) :
    ∀ {path : StandardizedPath}, (entry.view path).isSome → entry.path <:+ path := by
  induction h with
  | file _ =>
    intro path' hs
    rw [view_file] at hs
    split at hs
    · rename_i he
      exact he ▸ List.suffix_refl _
    · exact nomatch hs
  | directory _ hparent _ ih =>
    intro path' hs
    rw [view_directory] at hs
    split at hs
    · rename_i he
      exact he ▸ List.suffix_refl _
    · obtain ⟨child, hc, hs⟩ := viewOf_isSome hs
      exact (StandardizedPath.suffix_of_parent (hparent child hc) (List.suffix_refl _)).trans
        (ih child hc hs)

theorem view_eq_none {entry : Entry} (h : entry.WellFormed) {path : StandardizedPath}
    (hno : ¬ entry.path <:+ path) : entry.view path = none :=
  Option.not_isSome_iff_eq_none.mp fun hs => hno (h.suffix_of_view hs)

/-- Two entries of one directory are about different paths. -/
theorem view_eq_none_of_sibling {entry : Entry} (h : entry.WellFormed)
    {parent sibling path : StandardizedPath} (hparent : entry.path.parent = some parent)
    (hsibling : sibling.parent = some parent) (hne : sibling ≠ entry.path)
    (hsuffix : sibling <:+ path) : entry.view path = none := by
  refine h.view_eq_none fun hsuffix' => hne ?_
  obtain ⟨name, hname⟩ := StandardizedPath.parent_eq_some.mp hparent
  obtain ⟨name', hname'⟩ := StandardizedPath.parent_eq_some.mp hsibling
  have hle : sibling.length = entry.path.length := by
    rw [hname, hname', List.length_cons, List.length_cons]
  exact (List.suffix_of_suffix_length_le hsuffix hsuffix' hle.le).eq_of_length hle

/-- A directory says what its children say, and is there itself. -/
theorem viewOf_or {path : StandardizedPath} {children : List Entry} {ignored loaded : Bool}
    (h : (Entry.directory path children ignored loaded).WellFormed) (path' : StandardizedPath) :
    (viewOf children path').or
        (if path' = path then some (.directory { path, ignored, loaded }) else none) =
      (Entry.directory path children ignored loaded).view path' := by
  cases h with
  | directory hwell hparent _ =>
    rw [view_directory]
    by_cases he : path' = path
    · have hnone : viewOf children path' = none := by
        refine Option.not_isSome_iff_eq_none.mp fun hs => ?_
        obtain ⟨child, hc, hs'⟩ := viewOf_isSome hs
        exact StandardizedPath.not_suffix_parent (hparent child hc)
          (he ▸ (hwell child hc).suffix_of_view hs')
      rw [hnone, if_pos he, if_pos he]
      rfl
    · rw [if_neg he, if_neg he, Option.or_none]

end WellFormed

end Entry

/-! ## The store of a tree of entries -/

namespace FileTreeMapStore

/-- No set of the store is empty. -/
def NonemptySets (store : FileTreeMapStore) : Prop :=
  ∀ path children, store.parentToChildMap.get path = some children → children.elements ≠ []

theorem NonemptySets.insertChild {store : FileTreeMapStore} (h : store.NonemptySets)
    (parent : StandardizedPath) (child : FileTreeEntryState) :
    (store.insertChild parent child).NonemptySets := by
  rw [FileTreeMapStore.insertChild]
  split
  · exact h
  · intro path children hget
    rw [modifyChildren, HashMap.get_insert] at hget
    split at hget
    · obtain rfl := Option.some.inj hget
      exact List.ne_nil_of_mem (HashSet.mem_insert.mpr (Or.inl rfl))
    · exact h path children hget

end FileTreeMapStore

namespace FileTreeEntry

/-- A store that grows by a tree of entries. -/
structure Grows (rootPath : StandardizedPath) (store store' : FileTreeMapStore)
    (view : FileView) : Prop where
  isTree : IsTree ⟨store', rootPath⟩
  nonemptySets : store'.NonemptySets
  view_eq : ∀ path, store'.view path = (view path).or (store.view path)

/-- What `append_entry` does with an entry below a directory, at a path that is not taken. -/
def Appends (entry : Entry) : Prop :=
  ∀ {rootPath parent : StandardizedPath} {store : FileTreeMapStore}, IsTree ⟨store, rootPath⟩ →
    store.NonemptySets → store.view.IsDirectory parent → entry.path.parent = some parent →
    (∀ path, entry.path <:+ path → store.view path = none) →
    Grows rootPath store (store.appendEntry parent entry) entry.view

/-- One new state at a path that is not taken. -/
theorem grows_insertChild {rootPath parent : StandardizedPath} {store : FileTreeMapStore}
    (h : IsTree ⟨store, rootPath⟩) (hsets : store.NonemptySets) (hdir : store.view.IsDirectory parent)
    {child : FileTreeEntryState} (hparent : child.path.parent = some parent)
    (hfree : store.view child.path = none) : Grows rootPath store (store.insertChild parent child)
      fun path => if path = child.path then some child else none := by
  refine ⟨h.insertChildState hdir hparent fun _ => h.not_mem_childSet ?_, hsets.insertChild _ _, ?_⟩
  · rintro ⟨state, hstate⟩
    cases hfree.symm.trans hstate
  · intro path
    rw [FileTreeMapStore.view_insertChild hdir]
    by_cases he : path = child.path
    · rw [he, FileView.put_self, if_pos rfl]
      rfl
    · rw [FileView.put_of_ne _ he, if_neg he]
      rfl

theorem appendEntries {rootPath parent : StandardizedPath} {children : List Entry}
    (happend : ∀ child ∈ children, Appends child) (hwell : ∀ child ∈ children, child.WellFormed)
    (hparent : ∀ child ∈ children, child.path.parent = some parent)
    (hnodup : (children.map Entry.path).Nodup) : ∀ {store : FileTreeMapStore},
    IsTree ⟨store, rootPath⟩ → store.NonemptySets → store.view.IsDirectory parent →
    (∀ child ∈ children, ∀ path, child.path <:+ path → store.view path = none) →
    Grows rootPath store (store.appendEntries parent children) (Entry.viewOf children) := by
  induction children with
  | nil => exact fun h hsets _ _ => ⟨h, hsets, fun _ => rfl⟩
  | cons child children ih =>
    intro store h hsets hdir hfree
    rw [List.map_cons, List.nodup_cons] at hnodup
    have hc : child ∈ child :: children := List.mem_cons_self
    have hcons : ∀ child' ∈ children, child' ∈ child :: children :=
      fun _ hc' => List.mem_cons_of_mem _ hc'
    obtain ⟨htree', hsets', hview⟩ :=
      happend child hc h hsets hdir (hparent child hc) (hfree child hc)
    have hnone : child.view parent = none :=
      (hwell child hc).view_eq_none (StandardizedPath.not_suffix_parent (hparent child hc))
    have hdir' : (store.appendEntry parent child).view.IsDirectory parent := by
      rw [FileView.IsDirectory, hview, hnone]
      exact hdir
    rw [FileTreeMapStore.appendEntries]
    obtain ⟨htree'', hsets'', hview'⟩ := ih (fun c hc' => happend c (hcons c hc'))
      (fun c hc' => hwell c (hcons c hc')) (fun c hc' => hparent c (hcons c hc')) hnodup.2
      htree' hsets' hdir' fun child' hc' path hsuffix => by
        rw [hview, hfree child' (hcons child' hc') path hsuffix, Option.or_none]
        refine (hwell child hc).view_eq_none_of_sibling (hparent child hc)
          (hparent child' (hcons child' hc')) (fun he => hnodup.1 ?_) hsuffix
        exact List.mem_map.mpr ⟨child', hc', he⟩
    refine ⟨htree'', hsets'', fun path => ?_⟩
    rw [hview', hview, Entry.viewOf_cons]
    by_cases hs : (Entry.viewOf children path).isSome
    · obtain ⟨child', hc', hs'⟩ := Entry.viewOf_isSome hs
      rw [(hwell child hc).view_eq_none_of_sibling (hparent child hc)
        (hparent child' (hcons child' hc'))
        (fun he => hnodup.1 (List.mem_map.mpr ⟨child', hc', he⟩))
        ((hwell child' (hcons child' hc')).suffix_of_view hs')]
      rfl
    · rw [Option.not_isSome_iff_eq_none.mp hs, Option.or_none]
      rfl

theorem appends {entry : Entry} (hw : entry.WellFormed) : Appends entry := by
  induction hw with
  | @file path extension ignored _ =>
    intro rootPath parent store h hsets hdir hparent hfree
    obtain ⟨htree, hsets', hview⟩ := grows_insertChild h hsets hdir
      (show (FileTreeEntryState.file { path, extension, ignored }).path.parent = _ from hparent)
      (hfree _ (List.suffix_refl _))
    refine ⟨htree, hsets', fun path' => ?_⟩
    rw [Entry.view_file]
    exact hview path'
  | @directory path children ignored loaded hwell hparents hnodup ih =>
    intro rootPath parent store h hsets hdir hparent hfree
    obtain ⟨htree, hsets', hview⟩ := grows_insertChild h hsets hdir
      (show (FileTreeEntryState.directory { path, ignored, loaded }).path.parent = _ from hparent)
      (hfree _ (List.suffix_refl _))
    have hfresh : ∀ child ∈ children, ∀ path', child.path <:+ path' → (store.insertChild parent
        (.directory { path, ignored, loaded })).view path' = none := by
      intro child hc path' hsuffix
      have hne : path' ≠ path := by
        rintro rfl
        exact StandardizedPath.not_suffix_parent (hparents child hc) hsuffix
      refine (hview path').trans ((congrArg (Option.or · (store.view path')) (if_neg hne)).trans ?_)
      exact hfree path' ((StandardizedPath.suffix_of_parent (hparents child hc)
        (List.suffix_refl _)).trans hsuffix)
    obtain ⟨htree', hsets'', hview'⟩ := appendEntries ih hwell hparents hnodup
      htree hsets' ⟨{ path, ignored, loaded }, (hview path).trans
        (congrArg (Option.or · (store.view path)) (if_pos rfl))⟩ hfresh
    refine ⟨htree', hsets'', fun path' => (hview' path').trans ?_⟩
    rw [hview, ← Option.or_assoc, ← Entry.WellFormed.viewOf_or (.directory hwell hparents hnodup)]
    rfl

/-- The store of a single entry. -/
theorem isTree_newForEntry (entry : FileTreeEntryState) :
    IsTree ⟨FileTreeMapStore.newForEntry entry, entry.path⟩ := by
  have hview : ∀ path, view ⟨FileTreeMapStore.newForEntry entry, entry.path⟩ path =
      if path = entry.path then some entry else none := fun path =>
    HashMap.get_insert _ _ _ _
  have hpath : ∀ {path}, (view ⟨FileTreeMapStore.newForEntry entry, entry.path⟩ path).isSome →
      path = entry.path := by
    intro path hs
    rw [hview] at hs
    by_contra hne
    rw [if_neg hne] at hs
    exact nomatch hs
  apply IsTree.of_view
  · intro path child
    refine iff_of_false HashSet.not_mem_empty ?_
    rintro ⟨hs, hp, state, hstate⟩
    have he := hpath (by rw [hstate]; rfl)
    rw [hpath hs, he] at hp
    exact StandardizedPath.not_suffix_parent hp (List.suffix_refl _)
  · exact fun path hs => Or.inl (hpath hs)
  · intro path hs
    rw [hpath hs]
  · intro path state hstate
    obtain rfl := hpath (by rw [hstate]; rfl)
    rw [hview, if_pos rfl] at hstate
    exact congrArg FileTreeEntryState.path (Option.some.inj hstate).symm

/-- **The store of a tree of entries** is a tree, and says what the entries say. -/
theorem ofEntry_spec {entry : Entry} (hw : entry.WellFormed) : (ofEntry entry).IsTree ∧
    (ofEntry entry).stateMap.NonemptySets ∧ (ofEntry entry).view = entry.view := by
  have hsets : ∀ state, (FileTreeMapStore.newForEntry state).NonemptySets :=
    fun _ _ _ hget => nomatch hget
  have hnew : ∀ (state : FileTreeEntryState) (path : StandardizedPath),
      (FileTreeMapStore.newForEntry state).view path =
        if path = state.path then some state else none := fun _ _ => HashMap.get_insert _ _ _ _
  cases hw with
  | @file path extension ignored _ =>
    refine ⟨isTree_newForEntry _, hsets _, funext fun path' => ?_⟩
    rw [Entry.view_file]
    exact hnew _ path'
  | @directory path children ignored loaded hwell hparents hnodup =>
    have hdir := hnew (.directory { path, ignored, loaded })
    have hfresh : ∀ child ∈ children, ∀ path', child.path <:+ path' →
        (FileTreeMapStore.newForEntry (.directory { path, ignored, loaded })).view path' = none := by
      intro child hc path' hsuffix
      refine (hdir path').trans (if_neg ?_)
      rintro rfl
      exact StandardizedPath.not_suffix_parent (hparents child hc) hsuffix
    obtain ⟨htree, hsets', hview⟩ := appendEntries
      (fun child hc => appends (hwell child hc)) hwell hparents hnodup
      (isTree_newForEntry (.directory { path, ignored, loaded })) (hsets _)
      ⟨_, (hdir path).trans (if_pos rfl)⟩ hfresh
    refine ⟨htree, hsets', funext fun path' => (hview path').trans ?_⟩
    rw [hdir, ← Entry.WellFormed.viewOf_or (.directory hwell hparents hnodup)]
    rfl

end FileTreeEntry

/-! ## `insert_entry_at_path` -/

namespace FileView

/-- The view after the entries of a tree of entries are written over it. -/
def inserted (view : FileView) (entry : Entry) : FileView :=
  fun path => (entry.view path).or (view path)

/-- **A tree of entries fits into the tree.** -/
structure Fits (view : FileView) (rootPath path : StandardizedPath) (entry : Entry) : Prop where
  wellFormed : entry.WellFormed
  /-- The set of its parent gets the entry, or has it already. -/
  top : (view entry.path).isSome ∨ entry.path = rootPath ∨ (path = entry.path ∧ view.InDirectory path)
  /-- The set of its parent gets no path that is not there. -/
  named : (view path).isSome ∨ (entry.view path).isSome ∨ ¬ (view.inserted entry).InDirectory path
  /-- An old entry that is not written over keeps its place: it is below no file of the new entries,
  and below no directory of them that has children of its own. -/
  kept : ∀ old parent, (view old).isSome → entry.view old = none → old.parent = some parent →
    (entry.view parent).isSome → entry.view.IsDirectory parent ∧
      ∀ child, child.parent = some parent → entry.view child = none

end FileView

namespace FileTreeEntry

variable {tree : FileTreeEntry} {entry : Entry}

theorem view_insertEntryAtPath (hw : entry.WellFormed) (path : StandardizedPath) :
    (tree.insertEntryAtPath path entry).view = tree.view.inserted entry := by
  have hview := congrFun (ofEntry_spec hw).2.2
  have hext : ∀ path', (tree.stateMap.stateMap.extend
      (FileTreeMapStore.ofEntry entry).stateMap).get path' = tree.view.inserted entry path' := by
    intro path'
    rw [HashMap.get_extend, FileView.inserted, ← hview]
    rfl
  funext path'
  rw [← hext, insertEntryAtPath, mapStore, FileTreeMapStore.insertEntryAtPath]
  split <;> rfl

/-- The stores are put together, and then the path is put into its directory. -/
def extendedWith (tree : FileTreeEntry) (entry : Entry) : FileTreeMapStore where
  stateMap := tree.stateMap.stateMap.extend (FileTreeMapStore.ofEntry entry).stateMap
  parentToChildMap := tree.stateMap.parentToChildMap.extend
    (FileTreeMapStore.ofEntry entry).parentToChildMap

theorem stateMap_insertEntryAtPath (path : StandardizedPath) :
    (tree.insertEntryAtPath path entry).stateMap =
      match (tree.extendedWith entry).parentDirectory path with
      | some parent => (tree.extendedWith entry).modifyChildren parent (·.insert path)
      | none => tree.extendedWith entry := rfl

/-- A directory of the new entries has their child set, if it has children; any other path keeps
its own. -/
theorem mem_childSet_insertEntryAtPath (hw : entry.WellFormed)
    {path path' child : StandardizedPath} :
    child ∈ (tree.insertEntryAtPath path entry).childSet path' ↔
      (child = path ∧ path.parent = some path' ∧ (tree.view.inserted entry).IsDirectory path') ∨
      child ∈ (ofEntry entry).childSet path' ∨
      ((∀ other, other ∉ (ofEntry entry).childSet path') ∧ child ∈ tree.childSet path') := by
  obtain ⟨-, hsets, -⟩ := ofEntry_spec hw
  have hview : (tree.extendedWith entry).view = tree.view.inserted entry := by
    funext path'
    rw [FileView.inserted, ← congrFun (ofEntry_spec hw).2.2]
    exact HashMap.get_extend _ _ _
  have hset : child ∈ (tree.extendedWith entry).childSet path' ↔
      child ∈ (ofEntry entry).childSet path' ∨
        ((∀ other, other ∉ (ofEntry entry).childSet path') ∧ child ∈ tree.childSet path') := by
    rw [FileTreeMapStore.childSet, extendedWith, HashMap.get_extend, childSet,
      FileTreeMapStore.childSet]
    cases hget : (ofEntry entry).stateMap.parentToChildMap.get path' with
    | none =>
      rw [show (FileTreeMapStore.ofEntry entry).parentToChildMap.get path' = none from hget]
      simp [childSet, FileTreeMapStore.childSet]
    | some children =>
      rw [show (FileTreeMapStore.ofEntry entry).parentToChildMap.get path' = some children from hget]
      obtain ⟨other, hother⟩ := List.exists_mem_of_ne_nil _ (hsets path' children hget)
      simp only [Option.some_or, Option.getD_some]
      refine (or_iff_left ?_).symm
      rintro ⟨hno, -⟩
      exact hno other hother
  rw [← hset, ← hview]
  rw [childSet, stateMap_insertEntryAtPath]
  split
  · rename_i parent hp
    obtain ⟨hparent, hdir⟩ := FileTreeMapStore.parentDirectory_eq_some.mp hp
    rw [FileTreeMapStore.childSet_modifyChildren]
    split
    · rename_i he
      subst he
      rw [HashSet.mem_insert]
      exact or_congr_left ⟨fun hc => ⟨hc, hparent, hdir⟩, fun hand => hand.1⟩
    · rename_i hne
      refine (or_iff_right ?_).symm
      rintro ⟨-, hparent', -⟩
      exact hne (Option.some.inj (hparent'.symm.trans hparent))
  · rename_i hp
    refine (or_iff_right ?_).symm
    rintro ⟨-, hparent, hdir⟩
    exact FileTreeMapStore.parentDirectory_eq_none.mp hp ⟨path', hparent, hdir⟩

/-- **`insert_entry_at_path` keeps the tree**, when the new entries fit into it. -/
theorem IsTree.insertEntryAtPath (h : tree.IsTree) {path : StandardizedPath}
    (hfits : tree.view.Fits tree.rootPath path entry) :
    (tree.insertEntryAtPath path entry).IsTree := by
  obtain ⟨hw, htop, hnamed, hkept⟩ := hfits
  obtain ⟨hentry, -, hentryView⟩ := ofEntry_spec hw
  have hview : (tree.insertEntryAtPath path entry).view = _ := view_insertEntryAtPath hw path
  have hroot : tree.rootPath <:+ entry.path := by
    rcases htop with hs | he | ⟨he, hdir⟩
    · exact h.below_root hs
    · exact he ▸ List.suffix_refl _
    · exact he ▸ h.below_root_of_inDirectory hdir
  -- what is in the new entries is below their top
  have hchild : ∀ path' child, child ∈ (ofEntry entry).childSet path' ↔ (entry.view child).isSome ∧
      child.parent = some path' ∧ entry.view.IsDirectory path' := by
    rw [← hentryView]
    exact hentry.child_iff
  have hclosed : ∀ {path'}, (entry.view path').isSome → path' = entry.path ∨
      entry.view.InDirectory path' := by
    rw [← hentryView]
    exact hentry.closed
  have hdirNew : ∀ {path'}, entry.view.IsDirectory path' →
      (tree.view.inserted entry).IsDirectory path' := by
    rintro path' ⟨state, hstate⟩
    exact ⟨state, by rw [FileView.inserted, hstate]; rfl⟩
  have hdirOld : ∀ {path'}, entry.view path' = none →
      ((tree.view.inserted entry).IsDirectory path' ↔ tree.view.IsDirectory path') := by
    intro path' hnone
    rw [FileView.IsDirectory, FileView.inserted, hnone]
    rfl
  have habove : ∀ {path' parent : StandardizedPath}, path'.parent = some parent → path' <:+ entry.path →
      entry.view parent = none := fun hp hsuffix =>
    hw.view_eq_none fun hsuffix' =>
      StandardizedPath.not_suffix_parent hp (hsuffix.trans hsuffix')
  have hnotDirRoot : ∀ {parent : StandardizedPath}, tree.rootPath.parent = some parent →
      ¬ (tree.view.inserted entry).IsDirectory parent := by
    intro parent hp hdir
    rw [hdirOld (habove hp hroot)] at hdir
    exact h.root_not_inDirectory ⟨parent, hp, hdir⟩
  apply of_view
  · intro path' child
    rw [hview, mem_childSet_insertEntryAtPath hw, h.child_iff]
    constructor
    · rintro (⟨rfl, hp, hdir⟩ | hc | ⟨hno, hs, hp, hdir⟩)
      · refine ⟨?_, hp, hdir⟩
        rw [FileView.inserted, Option.isSome_or, Bool.or_eq_true, or_comm]
        rcases hnamed with hs | hs | hno
        · exact Or.inl hs
        · exact Or.inr hs
        · exact absurd ⟨path', hp, hdir⟩ hno
      · obtain ⟨hs, hp, hdir⟩ := (hchild _ _).mp hc
        refine ⟨?_, hp, hdirNew hdir⟩
        rw [FileView.inserted, Option.isSome_or, hs]
        rfl
      · refine ⟨?_, hp, ?_⟩
        · rw [FileView.inserted, Option.isSome_or, hs, Bool.or_true]
        · cases hpath : entry.view path' with
          | none => exact (hdirOld hpath).mpr hdir
          | some state =>
            refine hdirNew (hkept child path' hs ?_ hp (by rw [hpath]; rfl)).1
            -- a new entry in a directory of the new entries is one of its children
            by_contra hsome
            rcases hclosed (Option.isSome_iff_ne_none.mpr hsome) with rfl | ⟨parent, hp', hdir'⟩
            · cases (habove hp (List.suffix_refl _)).symm.trans hpath
            · obtain rfl := Option.some.inj (hp'.symm.trans hp)
              exact hno child ((hchild _ _).mpr ⟨Option.isSome_iff_ne_none.mpr hsome, hp, hdir'⟩)
    · rintro ⟨hs, hp, hdir⟩
      by_cases hnew : (entry.view child).isSome
      · rcases hclosed hnew with rfl | ⟨parent, hp', hdir'⟩
        · have hnone := habove hp (List.suffix_refl _)
          rw [hdirOld hnone] at hdir
          rcases htop with hs' | he | ⟨rfl, -⟩
          · refine Or.inr (Or.inr ⟨fun other hc => ?_, hs', hp, hdir⟩)
            obtain ⟨state, hstate⟩ := ((hchild _ _).mp hc).2.2
            cases hnone.symm.trans hstate
          · exact absurd ⟨path', he ▸ hp, hdir⟩ h.root_not_inDirectory
          · exact Or.inl ⟨rfl, hp, (hdirOld hnone).mpr hdir⟩
        · obtain rfl := Option.some.inj (hp'.symm.trans hp)
          exact Or.inr (Or.inl ((hchild _ _).mpr ⟨hnew, hp, hdir'⟩))
      · have hnone := Option.not_isSome_iff_eq_none.mp hnew
        have hold : (tree.view child).isSome := by
          rwa [FileView.inserted, hnone, Option.none_or] at hs
        refine Or.inr (Or.inr ⟨fun other hc => ?_, hold, hp, ?_⟩)
        · obtain ⟨hs', hp', state, hstate⟩ := (hchild _ _).mp hc
          have hother := (hkept child path' hold hnone hp (by rw [hstate]; rfl)).2 other hp'
          rw [hother] at hs'
          cases hs'
        · rcases h.closed hold with rfl | ⟨parent, hp', hdir'⟩
          · exact absurd hdir (hnotDirRoot hp)
          · exact Option.some.inj (hp'.symm.trans hp) ▸ hdir'
  · intro path' hs
    rw [hview] at hs ⊢
    by_cases hnew : (entry.view path').isSome
    · rcases hclosed hnew with rfl | ⟨parent, hp, hdir⟩
      · have hin : tree.view.InDirectory entry.path →
            (tree.view.inserted entry).InDirectory entry.path := by
          rintro ⟨parent, hp, hdir⟩
          exact ⟨parent, hp, (hdirOld (habove hp (List.suffix_refl _))).mpr hdir⟩
        rcases htop with hs' | he | ⟨rfl, hdir⟩
        · exact (h.closed hs').imp_right hin
        · exact Or.inl he
        · exact Or.inr (hin hdir)
      · exact Or.inr ⟨parent, hp, hdirNew hdir⟩
    · have hnone := Option.not_isSome_iff_eq_none.mp hnew
      rw [FileView.inserted, hnone, Option.none_or] at hs
      refine (h.closed hs).imp_right fun hin => ?_
      obtain ⟨parent, hp, hdir⟩ := hin
      refine ⟨parent, hp, ?_⟩
      cases hparent : entry.view parent with
      | none => exact (hdirOld hparent).mpr hdir
      | some state => exact hdirNew (hkept path' parent hs hnone hp (by rw [hparent]; rfl)).1
  · intro path' hs
    rw [hview, FileView.inserted, Option.isSome_or, Bool.or_eq_true] at hs
    exact hs.elim (fun hs => hroot.trans (hw.suffix_of_view hs)) h.below_root
  · intro path' state hstate
    rw [hview, FileView.inserted] at hstate
    rcases Option.or_eq_some_iff.mp hstate with hnew | ⟨-, hold⟩
    · exact hentry.stored path' state ((congrFun hentryView path').trans hnew)
    · exact h.stored path' state hold

end FileTreeEntry

end Clinch
