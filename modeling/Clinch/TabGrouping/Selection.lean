import Clinch.TabGrouping.Workspace

/-!
# The selected tabs

The functions address the selected tabs by their indices. A tab is selected or not by what it is, so
every loop over the indices is a map or a filter of the tabs.

* `rposition_some`, `rposition_none`, `splice_ok`;
* `indicesFrom`: the indices of the elements with a property; `modifyEach_indicesFrom`,
  `mapM_index_indicesFrom`, `filterMap_indicesFrom`, `partition_indicesFrom`, ..;
* `isSelected`, **`selectedTabIndices_eq`**.
-/

set_option autoImplicit false

namespace Clinch

section Vec

variable {α : Type} {p s : α → Bool} {f : α → α} {l : List α}

theorem rposition_none (h : rposition p l = none) : ∀ x ∈ l, ¬ p x := by
  induction l with
  | nil => simp
  | cons x l ih =>
    rw [rposition] at h
    cases hr : rposition p l with
    | some last => simp [hr] at h
    | none =>
      simp only [hr] at h
      intro y hy
      rcases List.mem_cons.mp hy with rfl | hy
      · intro hp
        simp [hp] at h
      · exact ih hr y hy

theorem rposition_some {last : ℕ} (h : rposition p l = some last) :
    ∃ L x R, l = L ++ x :: R ∧ last = L.length ∧ p x ∧ ∀ y ∈ R, ¬ p y := by
  induction l generalizing last with
  | nil => exact nomatch h
  | cons x l ih =>
    rw [rposition] at h
    cases hr : rposition p l with
    | some last' =>
      simp only [hr, Option.some.injEq] at h
      obtain ⟨L, y, R, rfl, rfl, hy, hR⟩ := ih hr
      exact ⟨x :: L, y, R, rfl, h.symm, hy, hR⟩
    | none =>
      simp only [hr] at h
      split at h
      · rename_i hp
        exact ⟨[], x, l, rfl, (Option.some.inj h).symm, hp, rposition_none hr⟩
      · exact nomatch h

theorem splice_ok {insertAt : ℕ} (h : insertAt ≤ l.length) (xs : List α) :
    splice l insertAt xs = .ok (l.take insertAt ++ xs ++ l.drop insertAt) := if_pos h

/-! ## Indices of the elements with a property -/

/-- The indices of the elements with the property, when the first element has index `k`. -/
def indicesFrom (s : α → Bool) (l : List α) (k : ℕ) : List ℕ :=
  ((l.zipIdx k).filter fun e => s e.1).map Prod.snd

@[simp] theorem indicesFrom_nil (k : ℕ) : indicesFrom s [] k = [] := rfl

theorem indicesFrom_cons (x : α) (k : ℕ) : indicesFrom s (x :: l) k =
    if s x then k :: indicesFrom s l (k + 1) else indicesFrom s l (k + 1) := by
  rw [indicesFrom, List.zipIdx_cons, List.filter_cons]
  split <;> rfl

theorem length_indicesFrom (k : ℕ) : (indicesFrom s l k).length = (l.filter s).length := by
  induction l generalizing k with
  | nil => rfl
  | cons x l ih =>
    rw [indicesFrom_cons, List.filter_cons]
    split
    · rw [List.length_cons, List.length_cons, ih]
    · exact ih _

theorem modifyEach_append (pre : List α) : modifyEach f (pre ++ l) (indicesFrom s l pre.length) =
    .ok (pre ++ l.map fun x => if s x then f x else x) := by
  induction l generalizing pre with
  | nil => rw [List.map_nil, List.append_nil, indicesFrom_nil]; rfl
  | cons x l ih =>
    rw [indicesFrom_cons, List.map_cons]
    split
    · have hmodify : (pre ++ x :: l).modify pre.length f = (pre ++ [f x]) ++ l := by
        rw [List.modify_eq_take_cons_drop (by simp)]
        simp
      have hih := ih (pre ++ [f x])
      rw [List.length_append, List.length_singleton] at hih
      rw [modifyEach, List.foldlM_cons, if_pos (by simp), ok_bind, hmodify]
      exact hih.trans (by simp)
    · have hih := ih (pre ++ [x])
      rw [List.length_append, List.length_singleton] at hih
      rw [show pre ++ x :: l = (pre ++ [x]) ++ l by simp]
      exact hih.trans (by simp)

/-- **A loop over the indices changes the elements with the property.** -/
theorem modifyEach_indicesFrom : modifyEach f l (indicesFrom s l 0) =
    .ok (l.map fun x => if s x then f x else x) := modifyEach_append []

theorem mapM_index_append (pre : List α) :
    (indicesFrom s l pre.length).mapM (index (pre ++ l)) = .ok (l.filter s) := by
  induction l generalizing pre with
  | nil => rfl
  | cons x l ih =>
    have hih := ih (pre ++ [x])
    rw [List.length_append, List.length_singleton, List.append_assoc, List.singleton_append] at hih
    rw [indicesFrom_cons, List.filter_cons]
    split
    · rw [List.mapM_cons, index_ok (a := x) (by simp), ok_bind, hih]
      rfl
    · exact hih

theorem mapM_index_indicesFrom : (indicesFrom s l 0).mapM (index l) = .ok (l.filter s) :=
  mapM_index_append []

theorem filterMap_indicesFrom : ((indicesFrom s l 0).filterMap fun i => l[i]?) = l.filter s := by
  have hget : ∀ e ∈ l.zipIdx.filter (fun e => s e.1), l[e.2]? = some e.1 := fun e he =>
    List.mem_zipIdx_iff_getElem?.mp (List.mem_of_mem_filter he)
  rw [indicesFrom, List.filterMap_map]
  refine (List.filterMap_congr hget).trans ?_
  rw [List.filterMap_eq_map']
  conv_rhs => rw [← List.zipIdx_map_fst 0 l, List.filter_map]
  rfl

theorem mem_indicesFrom {e : α × ℕ} (he : e ∈ l.zipIdx) :
    e.2 ∈ indicesFrom s l 0 ↔ s e.1 = true := by
  have hget := List.mem_zipIdx_iff_getElem?.mp he
  rw [indicesFrom, List.mem_map]
  constructor
  · rintro ⟨e', he', h⟩
    have hget' := List.mem_zipIdx_iff_getElem?.mp (List.mem_of_mem_filter he')
    rw [h, hget] at hget'
    rw [Option.some.inj hget']
    exact (List.mem_filter.mp he').2
  · exact fun h => ⟨e, List.mem_filter.mpr ⟨he, h⟩, rfl⟩

/-- To part the elements by their indices is to part them by the property. -/
theorem partition_indicesFrom :
    ((l.zipIdx.partition fun e => (indicesFrom s l 0).contains e.2).1.map Prod.fst,
      (l.zipIdx.partition fun e => (indicesFrom s l 0).contains e.2).2.map Prod.fst) =
    (l.filter s, l.filter fun x => !s x) := by
  have hcontains : ∀ e ∈ l.zipIdx, (indicesFrom s l 0).contains e.2 = s e.1 := by
    intro e he
    rw [Bool.eq_iff_iff, List.contains_iff_mem, mem_indicesFrom he]
  have hfilter : ∀ q : α → Bool, (l.zipIdx.filter fun e => q e.1).map Prod.fst = l.filter q := by
    intro q
    conv_rhs => rw [← List.zipIdx_map_fst 0 l, List.filter_map]
    rfl
  rw [List.partition_eq_filter_filter, List.filter_congr hcontains, hfilter]
  refine congrArg _ ((congrArg _ (List.filter_congr fun e he => ?_)).trans (hfilter fun x => !s x))
  rw [Function.comp_apply, hcontains e he]

theorem indicesFrom_append (l' : List α) (k : ℕ) :
    indicesFrom s (l ++ l') k = indicesFrom s l k ++ indicesFrom s l' (k + l.length) := by
  rw [indicesFrom, List.zipIdx_append, List.filter_append, List.map_append]
  rfl

theorem le_of_mem_indicesFrom {i k : ℕ} (h : i ∈ indicesFrom s l k) : k ≤ i ∧ i < k + l.length := by
  obtain ⟨e, he, rfl⟩ := List.mem_map.mp h
  have := List.mem_zipIdx (List.mem_of_mem_filter he)
  omega

/-- The indices of the elements of `l` among those of a longer list. -/
theorem filter_lt_indicesFrom (l' : List α) :
    (indicesFrom s (l ++ l') 0).filter (fun i => i < l.length) = indicesFrom s l 0 := by
  rw [indicesFrom_append, List.filter_append, List.filter_eq_self.mpr, List.filter_eq_nil_iff.mpr,
    List.append_nil]
  · intro i hi
    have := le_of_mem_indicesFrom hi
    simp only [decide_eq_true_eq]
    omega
  · intro i hi
    have := le_of_mem_indicesFrom hi
    simp only [decide_eq_true_eq]
    omega

theorem indicesFrom_eq_nil (h : ∀ x ∈ l, s x = false) (k : ℕ) : indicesFrom s l k = [] := by
  refine List.eq_nil_of_length_eq_zero ?_
  rw [length_indicesFrom, List.filter_eq_nil_iff.mpr fun x hx => by simp [h x hx]]
  rfl

/-- The first element with the property. -/
theorem exists_first (h : l.filter s ≠ []) :
    ∃ A x B, l = A ++ x :: B ∧ (∀ y ∈ A, s y = false) ∧ s x = true := by
  induction l with
  | nil => exact absurd rfl h
  | cons x l ih =>
    cases hx : s x with
    | true => exact ⟨[], x, l, rfl, by simp, hx⟩
    | false =>
      rw [List.filter_cons_of_neg (by simp [hx])] at h
      obtain ⟨A, y, B, rfl, hA, hy⟩ := ih h
      refine ⟨x :: A, y, B, rfl, fun z hz => ?_, hy⟩
      rcases List.mem_cons.mp hz with rfl | hz
      · exact hx
      · exact hA z hz

theorem findIdx?_append {A B : List α} {x : α} (hA : ∀ y ∈ A, p y = false) (hx : p x = true) :
    (A ++ x :: B).findIdx? p = some A.length := by
  rw [List.findIdx?_append, List.findIdx?_eq_none_iff.mpr hA, List.findIdx?_cons, if_pos hx]
  simp

end Vec

namespace Workspace

variable {P G : Type} [DecidableEq P] {ws : Workspace P G}

/-- The tab is selected, the active tab being counted in when any is. -/
def isSelected (ws : Workspace P G) (tab : TabData P G) : Bool :=
  (ws.tabs.any fun tab => tab.inMultiSelection) &&
    (tab.inMultiSelection || some tab.paneGroup = ws.activePaneGroup)

/-- The selected tabs in their order. -/
def selectedTabs (ws : Workspace P G) : List (TabData P G) := ws.tabs.filter ws.isSelected

/-- **The indices are those of the selected tabs.** -/
theorem selectedTabIndices_eq (hdistinct : (ws.tabs.map fun tab => tab.paneGroup).Nodup) :
    ws.selectedTabIndices = indicesFrom ws.isSelected ws.tabs 0 := by
  rw [selectedTabIndices]
  cases hany : ws.tabs.any fun tab => tab.inMultiSelection with
  | false =>
    refine (indicesFrom_eq_nil (fun tab _ => ?_) 0).symm
    rw [isSelected, hany, Bool.false_and]
  | true =>
    simp only [Bool.not_true, Bool.false_eq_true, if_false]
    refine congrArg _ (List.filter_congr fun e he => ?_)
    have hget := List.mem_zipIdx_iff_getElem?.mp he
    rw [isSelected, hany, Bool.true_and]
    refine congrArg _ (decide_eq_decide.mpr ⟨?_, fun h => ?_⟩)
    · rintro hi
      rw [activePaneGroup, ← hi, hget]
      rfl
    · rw [activePaneGroup] at h
      obtain ⟨tab, htab, hpane⟩ := Option.map_eq_some_iff.mp h.symm
      have hmap : (ws.tabs.map fun tab => tab.paneGroup)[e.2]? =
          (ws.tabs.map fun tab => tab.paneGroup)[ws.activeTabIndex]? := by
        rw [List.getElem?_map, List.getElem?_map, hget, htab, Option.map_some, Option.map_some,
          hpane]
      refine (List.getElem?_inj ?_ hdistinct).mp hmap
      rw [List.length_map]
      exact (List.getElem?_eq_some_iff.mp hget).1

end Workspace

end Clinch
