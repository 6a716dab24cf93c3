import Clinch.Merkle.Canonical

/-!
# The entries of new files

`upsert_files` makes directory entries for the paths that no child of a directory has taken. The
first pass gathers the files by their directories, the second one moves the directories, the
deepest first, into their parents.

* `Gathered`: the state of the first pass; `Gathered.addPath`;
* `Forest`: the state of the second pass; `Forest.attachDir`;
* **`entriesToCreate_spec`**: the entries are well formed, are children of the directory, and have
  exactly the files that were asked for.
-/

set_option autoImplicit false

namespace Clinch

/-- What exists below a path makes it a directory. -/
theorem LocalFileSystem.isDir_of_below (fs : LocalFileSystem) {path path' : StandardizedPath}
    (he : fs.pathExists path' = true) (hsuffix : path <:+ path') (hne : path ≠ path') :
    fs.isDir path = true := by
  induction path' with
  | nil => exact absurd (List.suffix_nil.mp hsuffix) hne
  | cons name parent ih =>
    have hdir := fs.isDir_parent name parent he
    rcases List.suffix_cons_iff.mp hsuffix with h | h
    · exact absurd h hne
    · by_cases hp : path = parent
      · exact hp ▸ hdir
      · exact ih (fs.isDir_exists parent hdir) h hp

/-- The directories strictly between a directory and a path. -/
structure Between (base path dir : StandardizedPath) : Prop where
  below : base <:+ dir
  ne_base : dir ≠ base
  above : dir <:+ path
  ne_path : dir ≠ path

/-- What `ancestorsBelow` finds. -/
def AncestorsSpec (base path : StandardizedPath) : Option (List StandardizedPath) → Prop
  | none => ¬ (base <:+ path ∧ path ≠ base)
  | some ancestors => base <:+ path ∧ (path = base → path = []) ∧
      ∀ dir, dir ∈ ancestors ↔ Between base path dir

theorem ancestorsBelow_spec (base path : StandardizedPath) :
    AncestorsSpec base path (ancestorsBelow base path) := by
  induction path with
  | nil =>
    rw [ancestorsBelow]
    split
    · rename_i he
      subst he
      refine ⟨List.suffix_refl _, fun _ => rfl, fun dir => ⟨fun h => (nomatch h), fun h => ?_⟩⟩
      exact absurd (List.suffix_nil.mp h.above) h.ne_path
    · rename_i he
      exact fun h => he (List.suffix_nil.mp h.1).symm
  | cons name parent ih =>
    rw [ancestorsBelow]
    split
    · rename_i he
      subst he
      refine ⟨List.suffix_cons .., fun h => ?_, fun dir => ⟨fun h => (nomatch h), fun h => ?_⟩⟩
      · exact absurd (congrArg List.length h) (by simp)
      · rcases List.suffix_cons_iff.mp h.above with h' | h'
        · exact absurd h' h.ne_path
        · exact absurd (h'.eq_of_length (h'.length_le.antisymm h.below.length_le)) h.ne_base
    · rename_i hne
      cases hrest : ancestorsBelow base parent with
      | none =>
        rw [hrest] at ih
        rintro ⟨hsuffix, hpath⟩
        rcases List.suffix_cons_iff.mp hsuffix with h | h
        · exact hpath h.symm
        · exact ih ⟨h, hne⟩
      | some ancestors =>
        rw [hrest] at ih
        obtain ⟨hsuffix, -, hmem⟩ := ih
        refine ⟨hsuffix.trans (List.suffix_cons ..), fun h => ?_, fun dir => ?_⟩
        · have hle := hsuffix.length_le
          rw [← h, List.length_cons] at hle
          omega
        · rw [List.mem_cons, hmem]
          constructor
          · rintro (rfl | h)
            · exact ⟨hsuffix, hne, List.suffix_cons .., fun h => by simpa using congrArg List.length h⟩
            · refine ⟨h.below, h.ne_base, h.above.trans (List.suffix_cons ..), fun he => ?_⟩
              have := h.above.length_le
              rw [he, List.length_cons] at this
              omega
          · intro h
            rcases List.suffix_cons_iff.mp h.above with h' | h'
            · exact absurd h' h.ne_path
            · by_cases hd : dir = parent
              · exact .inl hd
              · exact .inr ⟨h.below, h.ne_base, h', hd⟩

namespace Entry

/-- The entry has this file. -/
def HasFile (entry : Entry) (path : StandardizedPath) : Prop :=
  ∃ metadata, entry.view path = some (.file metadata)

theorem hasFile_directory {path : StandardizedPath} {children : List Entry} {ignored loaded : Bool}
    (h : (Entry.directory path children ignored loaded).WellFormed) (path' : StandardizedPath) :
    (Entry.directory path children ignored loaded).HasFile path' ↔
      ∃ child ∈ children, child.HasFile path' := by
  constructor
  · rintro ⟨metadata, hfile⟩
    rw [view_directory] at hfile
    split at hfile
    · exact nomatch hfile
    · obtain ⟨child, hc, hview⟩ := viewOf_eq_some hfile
      exact ⟨child, hc, metadata, hview⟩
  · rintro ⟨child, hc, metadata, hview⟩
    refine ⟨metadata, (h.view_child hc ?_).trans hview⟩
    cases h with
    | directory hwell _ _ => exact (hwell child hc).suffix_of_view (by rw [hview]; rfl)

end Entry

namespace CreatedEntries

theorem hasFile_newFileEntry (path path' : StandardizedPath) :
    (newFileEntry path).HasFile path' ↔ path' = path := by
  constructor
  · rintro ⟨metadata, hfile⟩
    rw [newFileEntry, Entry.view_file] at hfile
    split at hfile
    · assumption
    · exact nomatch hfile
  · rintro rfl
    exact ⟨_, (Entry.view_file ..).trans (if_pos rfl)⟩

variable (base : StandardizedPath)

/-- The entries that are gathered for a directory. -/
def bundle (created : CreatedEntries) (dir : StandardizedPath) : Option (List Entry) :=
  if dir = base then some created.entriesToCreate else created.createdDirs.get dir

/-- An entry goes to its directory. -/
def push (created : CreatedEntries) (dir : StandardizedPath) (entry : Entry) : CreatedEntries :=
  if dir ≠ base then
    { created with createdDirs := created.createdDirs.modify dir (· ++ [entry]) }
  else { created with entriesToCreate := created.entriesToCreate ++ [entry] }

theorem bundle_push (created : CreatedEntries) (dir : StandardizedPath) (entry : Entry)
    (dir' : StandardizedPath) : (created.push base dir entry).bundle base dir' =
      if dir' = dir then (created.bundle base dir').map (· ++ [entry])
      else created.bundle base dir' := by
  rw [push]
  by_cases hb : dir = base
  · rw [if_neg (not_not.mpr hb)]
    subst hb
    by_cases hd : dir' = dir
    · rw [bundle, bundle, if_pos hd, if_pos hd, if_pos hd]
      rfl
    · rw [bundle, bundle, if_neg hd, if_neg hd, if_neg hd]
  · rw [if_pos hb]
    by_cases hd : dir' = base
    · rw [bundle, bundle, if_pos hd, if_pos hd, if_neg fun h => hb (h.symm.trans hd)]
    · rw [bundle, bundle, if_neg hd, if_neg hd]
      exact HashMap.get_modify ..

theorem get_createdDirs_push (created : CreatedEntries) (dir : StandardizedPath) (entry : Entry)
    (dir' : StandardizedPath) : ((created.push base dir entry).createdDirs.get dir').isSome =
      (created.createdDirs.get dir').isSome := by
  rw [push]
  split
  · rw [HashMap.get_modify]
    split
    · rw [Option.isSome_map]
    · rfl
  · rfl

/-- `or_insert_with`: the directories that are not there yet are added. -/
def insertMissing (dirs : HashMap StandardizedPath (List Entry)) (ancestors : List StandardizedPath) :
    HashMap StandardizedPath (List Entry) :=
  ancestors.foldl (fun dirs ancestor =>
    if (dirs.get ancestor).isSome then dirs else dirs.insert ancestor []) dirs

theorem get_insertMissing (ancestors : List StandardizedPath) (dir : StandardizedPath) :
    ∀ dirs : HashMap StandardizedPath (List Entry), (insertMissing dirs ancestors).get dir =
      (dirs.get dir).or (if dir ∈ ancestors then some [] else none) := by
  induction ancestors with
  | nil => exact fun dirs => Option.or_none.symm
  | cons ancestor ancestors ih =>
    intro dirs
    change (insertMissing (if (dirs.get ancestor).isSome then dirs else dirs.insert ancestor [])
      ancestors).get dir = _
    rw [ih]
    by_cases hs : (dirs.get ancestor).isSome
    · rw [if_pos hs]
      by_cases hd : dir = ancestor
      · subst hd
        obtain ⟨entries, he⟩ := Option.isSome_iff_exists.mp hs
        rw [he]
        rfl
      · simp only [List.mem_cons, hd, false_or]
    · rw [if_neg hs, HashMap.get_insert]
      by_cases hd : dir = ancestor
      · subst hd
        rw [Option.not_isSome_iff_eq_none.mp hs, if_pos rfl, if_pos List.mem_cons_self]
        rfl
      · simp only [List.mem_cons, hd, false_or, if_false]

variable (fs : LocalFileSystem)

/-- A path is taken in: it is of a file below the directory. -/
structure Accepted (path : StandardizedPath) : Prop where
  pathExists : fs.pathExists path = true
  isDir : fs.isDir path = false
  below : base <:+ path
  ne : path ≠ base

variable {base fs}

/-- A path that is not taken in changes nothing. -/
theorem addPath_of_not {path : StandardizedPath} (h : ¬ Accepted base fs path)
    (created : CreatedEntries) : addPath fs base created path = created := by
  rw [addPath]
  split
  · rfl
  · rename_i hc
    rw [Bool.or_eq_true, not_or, Bool.not_eq_true, Bool.not_eq_true', Bool.not_eq_false] at hc
    have hspec := ancestorsBelow_spec base path
    cases ha : ancestorsBelow base path with
    | none => rfl
    | some ancestors =>
      rw [ha] at hspec
      obtain ⟨hsuffix, hroot, hmem⟩ := hspec
      have he : path = base := by
        by_contra hne
        exact h ⟨hc.2, hc.1, hsuffix, hne⟩
      have hnil := hroot he
      have hempty : ancestors = [] := by
        refine List.eq_nil_iff_forall_not_mem.mpr fun dir hd => ?_
        have hb := (hmem dir).mp hd
        exact hb.ne_path ((List.suffix_nil.mp (hnil ▸ hb.above)).trans hnil.symm)
      subst hempty
      subst hnil
      rfl

/-- A path that is taken in adds its directories, and its file to the innermost one. -/
theorem addPath_eq {path : StandardizedPath} (h : Accepted base fs path)
    (created : CreatedEntries) : ∃ parent ancestors, path.parent = some parent ∧
      (∀ dir, dir ∈ ancestors ↔ Between base path dir) ∧
      addPath fs base created path =
        push base { created with createdDirs := insertMissing created.createdDirs ancestors } parent
          (newFileEntry path) := by
  have hspec := ancestorsBelow_spec base path
  cases ha : ancestorsBelow base path with
  | none => rw [ha] at hspec; exact absurd ⟨h.below, h.ne⟩ hspec
  | some ancestors =>
    rw [ha] at hspec
    obtain ⟨parent, hp⟩ : ∃ parent, path.parent = some parent := by
      cases path with
      | nil => exact absurd (List.suffix_nil.mp h.below).symm h.ne
      | cons name parent => exact ⟨parent, rfl⟩
    refine ⟨parent, ancestors.reverse, hp, fun dir => by rw [List.mem_reverse, hspec.2.2], ?_⟩
    rw [addPath, h.isDir, h.pathExists, ha, hp, push]
    rfl

/-! ## The first pass -/

/-- **The state of the first pass**, for the paths that were taken in. -/
structure Gathered (base : StandardizedPath) (files : StandardizedPath → Prop)
    (created : CreatedEntries) : Prop where
  dirs : ∀ dir, (created.createdDirs.get dir).isSome ↔ ∃ path, files path ∧ Between base path dir
  bundles : ∀ dir entries, created.bundle base dir = some entries → ∃ paths : List StandardizedPath,
    entries = paths.map newFileEntry ∧ paths.Nodup ∧
      ∀ path, path ∈ paths ↔ files path ∧ path.parent = some dir

theorem Gathered.empty : Gathered base (fun _ => False) ⟨HashMap.empty, []⟩ where
  dirs dir := ⟨fun h => (by cases h), fun h => h.choose_spec.1.elim⟩
  bundles dir entries h := by
    rw [bundle] at h
    split at h
    · cases h
      exact ⟨[], rfl, List.nodup_nil, fun path => ⟨fun h => (by cases h), fun h => h.1.elim⟩⟩
    · cases h

theorem Gathered.addPath {files : StandardizedPath → Prop} {created : CreatedEntries}
    (hbelow : ∀ path, files path → base <:+ path ∧ path ≠ base) (h : Gathered base files created)
    {path : StandardizedPath} (hpath : Accepted base fs path) (hnew : ¬ files path) :
    Gathered base (fun path' => files path' ∨ path' = path) (addPath fs base created path) := by
  obtain ⟨parent, ancestors, hp, hancestors, heq⟩ := addPath_eq hpath created
  rw [heq]
  constructor
  · intro dir
    rw [get_createdDirs_push, get_insertMissing, Option.isSome_or, Bool.or_eq_true, h.dirs]
    constructor
    · rintro (⟨path', hf, hb⟩ | hs)
      · exact ⟨path', .inl hf, hb⟩
      · split at hs
        · rename_i hmem
          exact ⟨path, .inr rfl, (hancestors dir).mp hmem⟩
        · exact nomatch hs
    · rintro ⟨path', hf | rfl, hb⟩
      · exact .inl ⟨path', hf, hb⟩
      · right
        rw [if_pos ((hancestors dir).mpr hb)]
        rfl
  · intro dir entries hentries
    -- the directories that are new have no file yet
    have hold : ∀ old, ({ created with createdDirs := insertMissing created.createdDirs ancestors } :
        CreatedEntries).bundle base dir = some old → ∃ paths : List StandardizedPath,
        old = paths.map newFileEntry ∧ paths.Nodup ∧
          ∀ path, path ∈ paths ↔ files path ∧ path.parent = some dir := by
      intro old hold
      by_cases hb : dir = base
      · exact h.bundles dir old (by rw [bundle, if_pos hb] at hold ⊢; exact hold)
      rw [bundle, if_neg hb, get_insertMissing] at hold
      rcases Option.or_eq_some_iff.mp hold with hget | ⟨hnone, hget⟩
      · exact h.bundles dir old (by rw [bundle, if_neg hb]; exact hget)
      · split at hget
        · cases hget
          refine ⟨[], rfl, List.nodup_nil, fun path' => ⟨fun h => (nomatch h), fun ⟨hf, hp'⟩ => ?_⟩⟩
          have hsuffix := (StandardizedPath.suffix_iff_parent hp').mp (hbelow path' hf).1
          have hdir : (created.createdDirs.get dir).isSome := (h.dirs dir).mpr ⟨path', hf, by
            obtain ⟨name, rfl⟩ := StandardizedPath.parent_eq_some.mp hp'
            refine ⟨?_, hb, List.suffix_cons .., fun h => by simpa using congrArg List.length h⟩
            rcases List.suffix_cons_iff.mp (hbelow _ hf).1 with h' | h'
            · exact absurd h'.symm (hbelow _ hf).2
            · exact h'⟩
          rw [hnone] at hdir
          exact nomatch hdir
        · exact nomatch hget
    rw [bundle_push] at hentries
    split at hentries
    · rename_i hd
      subst hd
      obtain ⟨old, hget, rfl⟩ := Option.map_eq_some_iff.mp hentries
      obtain ⟨paths, rfl, hnodup, hmem⟩ := hold old hget
      refine ⟨paths ++ [path], by simp, ?_, fun path' => ?_⟩
      · rw [List.nodup_append]
        refine ⟨hnodup, List.nodup_singleton _, fun a ha b hb he => ?_⟩
        rw [List.mem_singleton] at hb
        exact hnew (hb ▸ he ▸ ((hmem a).mp ha).1)
      · rw [List.mem_append, List.mem_singleton, hmem]
        constructor
        · rintro (⟨hf, hp'⟩ | rfl)
          · exact ⟨.inl hf, hp'⟩
          · exact ⟨.inr rfl, hp⟩
        · rintro ⟨hf | rfl, hp'⟩
          · exact .inl ⟨hf, hp'⟩
          · exact .inr rfl
    · rename_i hd
      obtain ⟨paths, rfl, hnodup, hmem⟩ := hold entries hentries
      refine ⟨paths, rfl, hnodup, fun path' => ?_⟩
      rw [hmem]
      constructor
      · rintro ⟨hf, hp'⟩
        exact ⟨.inl hf, hp'⟩
      · rintro ⟨hf | rfl, hp'⟩
        · exact ⟨hf, hp'⟩
        · exact absurd (Option.some.inj (hp'.symm.trans hp)) hd

/-! ## The second pass -/

/-- **The state of the second pass**, for the files that were taken in and the directories that are
still to be moved, the deepest first. -/
structure Forest (base : StandardizedPath) (files : StandardizedPath → Prop)
    (dirPaths : List StandardizedPath) (created : CreatedEntries) : Prop where
  dirs : ∀ dir, (created.createdDirs.get dir).isSome ↔ dir ∈ dirPaths
  nodup : dirPaths.Nodup
  deepest : dirPaths.Pairwise fun a b => b.length ≤ a.length
  notBase : base ∉ dirPaths
  closed : ∀ dir ∈ dirPaths, ∃ parent, dir.parent = some parent ∧
    (parent = base ∨ parent ∈ dirPaths)
  wellFormed : ∀ dir entries, created.bundle base dir = some entries →
    (Entry.directory dir entries false false).WellFormed
  pending : ∀ dir entries, created.bundle base dir = some entries → ∀ entry ∈ entries,
    entry.path ∉ dirPaths
  files : ∀ path, files path ↔
    ∃ dir entries, created.bundle base dir = some entries ∧ ∃ entry ∈ entries, entry.HasFile path

/-- The first pass leaves a forest. -/
theorem Gathered.forest {files : StandardizedPath → Prop} {created : CreatedEntries}
    (h : Gathered base files created) (haccepted : ∀ path, files path → Accepted base fs path)
    {dirPaths : List StandardizedPath} (hperm : dirPaths.Perm created.createdDirs.keys)
    (hdeepest : dirPaths.Pairwise fun a b => b.length ≤ a.length) :
    Forest base files dirPaths created := by
  have hdirs : ∀ dir, (created.createdDirs.get dir).isSome ↔ dir ∈ dirPaths := fun dir => by
    rw [hperm.mem_iff, HashMap.mem_keys]
  have hbetween : ∀ dir ∈ dirPaths, ∃ path, files path ∧ Between base path dir := fun dir hmem =>
    (h.dirs dir).mp ((hdirs dir).mpr hmem)
  refine ⟨hdirs, hperm.nodup_iff.mpr created.createdDirs.nodup, hdeepest, fun hmem => ?_,
    fun dir hmem => ?_, fun dir entries hentries => ?_, fun dir entries hentries entry hentry hmem =>
      ?_, fun path => ⟨fun hf => ?_, ?_⟩⟩
  · obtain ⟨path, -, hb⟩ := hbetween base hmem
    exact hb.ne_base rfl
  · obtain ⟨path, hf, hb⟩ := hbetween dir hmem
    cases dir with
    | nil => exact absurd (List.suffix_nil.mp hb.below).symm hb.ne_base
    | cons name parent =>
      refine ⟨parent, rfl, or_iff_not_imp_left.mpr fun hne => ?_⟩
      refine (hdirs parent).mp ((h.dirs parent).mpr ⟨path, hf, ?_, hne, ?_, fun he => ?_⟩)
      · rcases List.suffix_cons_iff.mp hb.below with h' | h'
        · exact absurd h'.symm hb.ne_base
        · exact h'
      · exact (List.suffix_cons ..).trans hb.above
      · exact absurd (he ▸ hb.above).length_le (by simp)
  · obtain ⟨paths, rfl, hnodup, hmem⟩ := h.bundles dir entries hentries
    refine .directory (fun child hc => ?_) (fun child hc => ?_) ?_
    · obtain ⟨path, -, rfl⟩ := List.mem_map.mp hc
      exact .file rfl
    · obtain ⟨path, hp, rfl⟩ := List.mem_map.mp hc
      exact ((hmem path).mp hp).2
    · rw [List.map_map]
      exact (List.map_id paths).symm ▸ hnodup
  · obtain ⟨paths, rfl, hnodup, hmem'⟩ := h.bundles dir entries hentries
    obtain ⟨path, hp, rfl⟩ := List.mem_map.mp hentry
    obtain ⟨path', hf, hb⟩ := hbetween path hmem
    have hdir := fs.isDir_of_below (haccepted path' hf).pathExists hb.above hb.ne_path
    have hfile := (haccepted path ((hmem' path).mp hp).1).isDir
    rw [hdir] at hfile
    exact nomatch hfile
  · have ha := haccepted path hf
    obtain ⟨parent, hp⟩ : ∃ parent, path.parent = some parent := by
      cases path with
      | nil => exact absurd (List.suffix_nil.mp ha.below).symm ha.ne
      | cons name parent => exact ⟨parent, rfl⟩
    have hbundle : (created.bundle base parent).isSome := by
      by_cases hb : parent = base
      · rw [bundle, if_pos hb]
        rfl
      · rw [bundle, if_neg hb, h.dirs]
        obtain ⟨name, rfl⟩ := StandardizedPath.parent_eq_some.mp hp
        refine ⟨_, hf, ?_, hb, List.suffix_cons .., fun h => by simpa using congrArg List.length h⟩
        rcases List.suffix_cons_iff.mp ha.below with h' | h'
        · exact absurd h'.symm ha.ne
        · exact h'
    obtain ⟨entries, hentries⟩ := Option.isSome_iff_exists.mp hbundle
    obtain ⟨paths, rfl, -, hmem⟩ := h.bundles parent entries hentries
    exact ⟨parent, _, hentries, newFileEntry path,
      List.mem_map_of_mem ((hmem path).mpr ⟨hf, hp⟩), (hasFile_newFileEntry ..).mpr rfl⟩
  · rintro ⟨dir, entries, hentries, entry, hentry, hfile⟩
    obtain ⟨paths, rfl, -, hmem⟩ := h.bundles dir entries hentries
    obtain ⟨path', hp, rfl⟩ := List.mem_map.mp hentry
    rw [hasFile_newFileEntry] at hfile
    exact hfile ▸ ((hmem path').mp hp).1

/-- The deepest directory moves into its parent. -/
theorem Forest.attachDir {files : StandardizedPath → Prop} {created : CreatedEntries}
    {dirPath : StandardizedPath} {dirPaths : List StandardizedPath}
    (h : Forest base files (dirPath :: dirPaths) created) :
    Forest base files dirPaths (attachDir base created dirPath) := by
  obtain ⟨parentPath, hp, hclosed⟩ := h.closed dirPath List.mem_cons_self
  obtain ⟨children, hget⟩ := Option.isSome_iff_exists.mp
    ((h.dirs dirPath).mpr List.mem_cons_self)
  obtain ⟨hnew, hnodup⟩ := List.nodup_cons.mp h.nodup
  obtain ⟨hlength, hdeepest⟩ := List.pairwise_cons.mp h.deepest
  have hbase : dirPath ≠ base := fun he => h.notBase (he ▸ List.mem_cons_self)
  have hne : parentPath ≠ dirPath := fun he =>
    StandardizedPath.not_suffix_parent hp (he ▸ List.suffix_refl _)
  -- the directory is taken out, and goes to its parent
  have heq : CreatedEntries.attachDir base created dirPath =
      push base { created with createdDirs := created.createdDirs.remove dirPath } parentPath
        (.directory dirPath children false false) := by
    rw [CreatedEntries.attachDir, hp, push]
    simp only [hget]
  have hremove : ∀ dir, dir ≠ dirPath →
      ({ created with createdDirs := created.createdDirs.remove dirPath } : CreatedEntries).bundle
        base dir = created.bundle base dir := fun dir hd => by
    rw [bundle, bundle, HashMap.get_remove_of_ne _ hd]
  have hself : ({ created with createdDirs := created.createdDirs.remove dirPath } :
      CreatedEntries).bundle base dirPath = none := by
    rw [bundle, if_neg hbase, HashMap.get_remove_self]
  have hbundle : created.bundle base dirPath = some children := by rw [bundle, if_neg hbase, hget]
  have hwell := h.wellFormed dirPath children hbundle
  -- what the bundles become
  have hentries : ∀ dir entries, (CreatedEntries.attachDir base created dirPath).bundle base dir =
      some entries → dir ≠ dirPath ∧ ∃ old, created.bundle base dir = some old ∧
        entries = if dir = parentPath then old ++ [.directory dirPath children false false]
          else old := by
    intro dir entries hentries
    rw [heq, bundle_push] at hentries
    have hd : dir ≠ dirPath := by
      rintro rfl
      rw [hself, Option.map_none, ite_self] at hentries
      cases hentries
    refine ⟨hd, ?_⟩
    rw [hremove dir hd] at hentries
    split at hentries
    · obtain ⟨old, hold, rfl⟩ := Option.map_eq_some_iff.mp hentries
      exact ⟨old, hold, by rw [if_pos ‹_›]⟩
    · exact ⟨entries, hentries, by rw [if_neg ‹_›]⟩
  have hkept : ∀ dir old, dir ≠ dirPath → created.bundle base dir = some old →
      (CreatedEntries.attachDir base created dirPath).bundle base dir =
        some (if dir = parentPath then old ++ [.directory dirPath children false false]
          else old) := by
    intro dir old hd hold
    rw [heq, bundle_push, hremove dir hd, hold]
    split <;> rfl
  refine ⟨fun dir => ?_, hnodup, hdeepest, fun hb => h.notBase (List.mem_cons_of_mem _ hb),
    fun dir hmem => ?_, fun dir entries he => ?_, fun dir entries he entry hentry hmem => ?_,
    fun path => ?_⟩
  · rw [heq, get_createdDirs_push]
    by_cases hd : dir = dirPath
    · subst hd
      change ((created.createdDirs.remove dir).get dir).isSome ↔ _
      rw [HashMap.get_remove_self]
      exact ⟨fun h => (by cases h), fun h => absurd h hnew⟩
    · change ((created.createdDirs.remove dirPath).get dir).isSome ↔ _
      rw [HashMap.get_remove_of_ne _ hd, h.dirs, List.mem_cons, or_iff_right hd]
  · obtain ⟨parent, hparent, hc⟩ := h.closed dir (List.mem_cons_of_mem _ hmem)
    refine ⟨parent, hparent, hc.imp_right fun hc => (List.mem_cons.mp hc).resolve_left ?_⟩
    rintro rfl
    have := hlength dir hmem
    obtain ⟨name, rfl⟩ := StandardizedPath.parent_eq_some.mp hparent
    rw [List.length_cons] at this
    omega
  · obtain ⟨-, old, hold, rfl⟩ := hentries dir entries he
    have hold' := h.wellFormed dir old hold
    split
    · rename_i hd
      subst hd
      cases hold' with
      | directory hw hpar hn =>
        refine .directory (fun child hc => ?_) (fun child hc => ?_) ?_
        · rcases List.mem_append.mp hc with hc | hc
          · exact hw child hc
          · exact List.mem_singleton.mp hc ▸ hwell
        · rcases List.mem_append.mp hc with hc | hc
          · exact hpar child hc
          · exact List.mem_singleton.mp hc ▸ hp
        · rw [List.map_append, List.nodup_append]
          refine ⟨hn, List.nodup_singleton _, fun a ha b hb hab => ?_⟩
          obtain ⟨entry, hentry, rfl⟩ := List.mem_map.mp ha
          obtain rfl : b = dirPath := List.mem_singleton.mp hb
          exact h.pending dir old hold entry hentry (hab ▸ List.mem_cons_self)
    · exact hold'
  · obtain ⟨-, old, hold, rfl⟩ := hentries dir entries he
    have hold' := h.pending dir old hold
    split at hentry
    · rcases List.mem_append.mp hentry with hentry | hentry
      · exact hold' entry hentry (List.mem_cons_of_mem _ hmem)
      · rw [List.mem_singleton.mp hentry] at hmem
        exact hnew hmem
    · exact hold' entry hentry (List.mem_cons_of_mem _ hmem)
  · rw [h.files]
    constructor
    · rintro ⟨dir, old, hold, entry, hentry, hfile⟩
      by_cases hd : dir = dirPath
      · -- the files of the moved directory are in its parent now
        subst hd
        obtain rfl : old = children := Option.some.inj (hold.symm.trans hbundle)
        obtain ⟨above, habove⟩ : ∃ above, created.bundle base parentPath = some above := by
          rcases hclosed with rfl | hmem
          · exact ⟨_, if_pos rfl⟩
          · by_cases hb : parentPath = base
            · exact ⟨_, if_pos hb⟩
            · rw [bundle, if_neg hb]
              exact Option.isSome_iff_exists.mp ((h.dirs parentPath).mpr hmem)
        refine ⟨parentPath, _, hkept parentPath above hne habove, _, ?_,
          (Entry.hasFile_directory hwell path).mpr ⟨entry, hentry, hfile⟩⟩
        rw [if_pos rfl]
        exact List.mem_append_right _ (List.mem_singleton.mpr rfl)
      · refine ⟨dir, _, hkept dir old hd hold, entry, ?_, hfile⟩
        split
        · exact List.mem_append_left _ hentry
        · exact hentry
    · rintro ⟨dir, entries, he, entry, hentry, hfile⟩
      obtain ⟨-, old, hold, rfl⟩ := hentries dir entries he
      split at hentry
      · rcases List.mem_append.mp hentry with hentry | hentry
        · exact ⟨dir, old, hold, entry, hentry, hfile⟩
        · rw [List.mem_singleton.mp hentry, Entry.hasFile_directory hwell] at hfile
          exact ⟨dirPath, children, hbundle, hfile⟩
      · exact ⟨dir, old, hold, entry, hentry, hfile⟩

/-- The first pass takes in the files of the accepted paths. -/
theorem Gathered.foldl {paths : List StandardizedPath} : ∀ {files : StandardizedPath → Prop}
    {created : CreatedEntries}, (∀ path, files path → Accepted base fs path) →
    Gathered base files created → paths.Nodup → (∀ path ∈ paths, ¬ files path) →
    Gathered base (fun path => files path ∨ path ∈ paths ∧ Accepted base fs path)
      (paths.foldl (CreatedEntries.addPath fs base) created) := by
  induction paths with
  | nil =>
    intro files created _ h _ _
    simpa using h
  | cons path paths ih =>
    intro files created haccepted h hnodup hnew
    obtain ⟨hpath, hnodup⟩ := List.nodup_cons.mp hnodup
    have hrest : ∀ path ∈ paths, ¬ files path := fun path hmem =>
      hnew path (List.mem_cons_of_mem _ hmem)
    rw [List.foldl_cons]
    by_cases ha : Accepted base fs path
    · have hadd := h.addPath (fun path hf => ⟨(haccepted path hf).below, (haccepted path hf).ne⟩) ha
        (hnew path List.mem_cons_self)
      have := @ih (fun path' => files path' ∨ path' = path) _
        (fun path' hf => hf.elim (haccepted path') fun he => he ▸ ha) hadd hnodup
        (fun path' hmem hf => hf.elim (hrest path' hmem) fun he => hpath (he ▸ hmem))
      convert this using 2 with path'
      rw [List.mem_cons, or_and_right, or_assoc]
      have hself : path' = path ∧ Accepted base fs path' ↔ path' = path :=
        ⟨fun h => h.1, fun h => ⟨h, h ▸ ha⟩⟩
      rw [hself]
    · rw [addPath_of_not ha]
      convert ih haccepted h hnodup hrest using 2 with path'
      rw [List.mem_cons, or_and_right]
      have hself : ¬ (path' = path ∧ Accepted base fs path') := fun h => ha (h.1 ▸ h.2)
      rw [or_iff_right hself]

theorem Forest.foldl {files : StandardizedPath → Prop} {dirPaths : List StandardizedPath} :
    ∀ {created : CreatedEntries}, Forest base files dirPaths created →
    Forest base files [] (dirPaths.foldl (CreatedEntries.attachDir base) created) := by
  induction dirPaths with
  | nil => exact fun h => h
  | cons dirPath dirPaths ih => exact fun h => ih h.attachDir

end CreatedEntries

open CreatedEntries in
/-- **The created entries have exactly the accepted files.** -/
theorem entriesToCreate_spec (fs : LocalFileSystem) (base : StandardizedPath)
    (paths : HashSet StandardizedPath) :
    (Entry.directory base (entriesToCreate fs base paths) false false).WellFormed ∧
      ∀ path, (∃ entry ∈ entriesToCreate fs base paths, entry.HasFile path) ↔
        path ∈ paths ∧ Accepted base fs path := by
  have hgathered := @Gathered.foldl base fs _ _ _ (fun _ h => h.elim) Gathered.empty paths.nodup
    fun _ _ h => h
  have hdeepest : ∀ l : List StandardizedPath,
      (l.mergeSort fun a b => b.length ≤ a.length).Pairwise fun a b => b.length ≤ a.length := by
    intro l
    have := @List.pairwise_mergeSort StandardizedPath (fun a b => decide (b.length ≤ a.length))
      (fun a b c hab hbc => by simp only [decide_eq_true_eq] at *; omega)
      (fun a b => by simpa using le_total b.length a.length) l
    simpa using this
  have hforest := (hgathered.forest (fun path hf => hf.elim False.elim And.right)
    (List.mergeSort_perm ..) (hdeepest _)).foldl
  have htop : ∀ created : CreatedEntries, created.bundle base base = some created.entriesToCreate :=
    fun _ => if_pos rfl
  refine ⟨hforest.wellFormed base _ (htop _), fun path => ?_⟩
  have hfiles := hforest.files path
  rw [false_or] at hfiles
  refine Iff.trans ⟨fun ⟨entry, hentry, hfile⟩ => ⟨base, _, htop _, entry, hentry, hfile⟩, ?_⟩
    hfiles.symm
  rintro ⟨dir, entries, hentries, entry, hentry, hfile⟩
  by_cases hd : dir = base
  · rw [bundle, if_pos hd] at hentries
    cases hentries
    exact ⟨entry, hentry, hfile⟩
  · have := (hforest.dirs dir).mp (by rw [bundle, if_neg hd] at hentries; rw [hentries]; rfl)
    exact nomatch this

end Clinch
