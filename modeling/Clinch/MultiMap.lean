import Clinch.HashMap

/-!
# Hash maps of vectors

A `HashMap<K, Vec<V>>` whose vectors only grow by `entry(k).or_default().extend(..)`, and from which a
key is removed with its last element.

* `getAll`, `extendAt`, `extendAll`, `retainAt`;
* **`getAll_extendAll`**, **`getAll_retainAt`**: the vector of a key;
* `NoEmpty`: every key has an element.
-/

set_option autoImplicit false

namespace Clinch.HashMap

variable {K V : Type} [DecidableEq K]

/-- The vector of a key, which is empty where there is none. -/
def getAll (m : HashMap K (List V)) (k : K) : List V := (m.get k).getD []

/-- `entry(k).or_default().extend(vs)`. -/
def extendAt (m : HashMap K (List V)) (k : K) (vs : List V) : HashMap K (List V) :=
  m.insert k (m.getAll k ++ vs)

/-- Each vector of the other map extends that of its key. -/
def extendAll (m other : HashMap K (List V)) : HashMap K (List V) :=
  other.entries.foldl (fun m e => m.extendAt e.1 e.2) m

/-- The vector of a key is retained where `p` holds; a key without a vector left is removed. -/
def retainAt (m : HashMap K (List V)) (k : K) (p : V → Bool) : HashMap K (List V) :=
  match m.get k with
  | none => m
  | some vs => if (vs.filter p).isEmpty then m.remove k else m.insert k (vs.filter p)

/-- **Every key has an element.** -/
def NoEmpty (m : HashMap K (List V)) : Prop := ∀ k, m.get k ≠ some []

/-! ## The vector of a key -/

@[simp] theorem getAll_empty (k : K) : (empty : HashMap K (List V)).getAll k = [] := rfl

theorem getAll_insert (m : HashMap K (List V)) (k : K) (vs : List V) (k' : K) :
    (m.insert k vs).getAll k' = if k' = k then vs else m.getAll k' := by
  rw [getAll, get_insert]
  split <;> rfl

theorem getAll_extendAt (m : HashMap K (List V)) (k : K) (vs : List V) (k' : K) :
    (m.extendAt k vs).getAll k' = m.getAll k' ++ if k' = k then vs else [] := by
  rw [extendAt, getAll_insert]
  split
  · rename_i h
    rw [h]
  · rw [List.append_nil]

theorem mem_getAll {m : HashMap K (List V)} {k : K} {v : V} :
    v ∈ m.getAll k ↔ ∃ vs, (k, vs) ∈ m.entries ∧ v ∈ vs := by
  rw [getAll]
  cases hget : m.get k with
  | none =>
    refine ⟨fun h => (nomatch h), fun ⟨vs, hmem, _⟩ => ?_⟩
    have := get_eq_some.mpr hmem
    rw [hget] at this
    exact nomatch this
  | some vs =>
    refine ⟨fun h => ⟨vs, get_eq_some.mp hget, h⟩, fun ⟨vs', hmem, h⟩ => ?_⟩
    have := get_eq_some.mpr hmem
    rw [hget] at this
    exact Option.some.inj this ▸ h

theorem getAll_foldl_extendAt (es : List (K × List V)) (hnodup : (es.map Prod.fst).Nodup) (k : K) :
    ∀ m : HashMap K (List V), (es.foldl (fun m e => m.extendAt e.1 e.2) m).getAll k =
      m.getAll k ++ ((es.find? fun e => e.1 = k).map Prod.snd).getD [] := by
  induction es with
  | nil => exact fun m => (List.append_nil _).symm
  | cons e es ih =>
    intro m
    rw [List.map_cons, List.nodup_cons] at hnodup
    rw [List.foldl_cons, ih hnodup.2, List.find?_cons, getAll_extendAt]
    by_cases hk : e.1 = k
    · have hnone : es.find? (fun e => e.1 = k) = none := by
        rw [List.find?_eq_none]
        intro e' he' hk'
        rw [decide_eq_true_eq] at hk'
        exact hnodup.1 (List.mem_map.mpr ⟨e', he', hk'.trans hk.symm⟩)
      rw [hnone, decide_eq_true hk, if_pos hk.symm]
      exact List.append_nil _
    · rw [decide_eq_false hk, if_neg (Ne.symm hk), List.append_nil]

/-- **The vectors of a key are appended.** -/
theorem getAll_extendAll (m other : HashMap K (List V)) (k : K) :
    (m.extendAll other).getAll k = m.getAll k ++ other.getAll k :=
  getAll_foldl_extendAt other.entries other.nodup k m

theorem getAll_remove (m : HashMap K (List V)) (k k' : K) :
    (m.remove k).getAll k' = if k' = k then [] else m.getAll k' := by
  rw [getAll]
  split
  · rename_i h
    rw [h, get_remove_self]
    rfl
  · rename_i h
    rw [get_remove_of_ne m h, getAll]

/-- **The vector of the key is filtered.** -/
theorem getAll_retainAt (m : HashMap K (List V)) (k : K) (p : V → Bool) (k' : K) :
    (m.retainAt k p).getAll k' = if k' = k then (m.getAll k).filter p else m.getAll k' := by
  rw [retainAt]
  cases hget : m.get k with
  | none =>
    have hnil : m.getAll k = [] := by rw [getAll, hget]; rfl
    dsimp only
    split
    · rename_i h
      rw [h, hnil]
      rfl
    · rfl
  | some vs =>
    have hall : m.getAll k = vs := by rw [getAll, hget]; rfl
    dsimp only
    rw [hall]
    split
    · rename_i hnone
      rw [getAll_remove, List.isEmpty_iff.mp hnone]
    · rw [getAll_insert]

/-! ## Keys have elements -/

theorem NoEmpty.empty : (HashMap.empty : HashMap K (List V)).NoEmpty := fun _ h => nomatch h

theorem NoEmpty.extendAt {m : HashMap K (List V)} (h : m.NoEmpty) (k : K) {vs : List V}
    (hvs : vs ≠ []) : (m.extendAt k vs).NoEmpty := by
  intro k' hget
  rw [HashMap.extendAt, get_insert] at hget
  split at hget
  · exact hvs (List.append_eq_nil_iff.mp (Option.some.inj hget)).2
  · exact h k' hget

theorem NoEmpty.extendAll {m other : HashMap K (List V)} (h : m.NoEmpty) (hother : other.NoEmpty) :
    (m.extendAll other).NoEmpty := by
  have hes : ∀ e ∈ other.entries, e.2 ≠ [] := fun e he hnil =>
    hother e.1 (get_eq_some.mpr (hnil ▸ he))
  rw [HashMap.extendAll]
  revert hes
  generalize other.entries = es
  intro hes
  induction es generalizing m with
  | nil => exact h
  | cons e es ih =>
    exact ih (h.extendAt e.1 (hes e List.mem_cons_self)) fun e' he' =>
      hes e' (List.mem_cons_of_mem _ he')

theorem NoEmpty.retainAt {m : HashMap K (List V)} (h : m.NoEmpty) (k : K) (p : V → Bool) :
    (m.retainAt k p).NoEmpty := by
  rw [HashMap.retainAt]
  cases hget : m.get k with
  | none => exact h
  | some vs =>
    dsimp only
    split
    · exact fun k' hget' => h k' (get_remove_some.mp hget').1
    · rename_i hsome
      intro k' hget'
      rw [get_insert] at hget'
      split at hget'
      · exact hsome (List.isEmpty_iff.mpr (Option.some.inj hget'))
      · exact h k' hget'

/-- A key is there if it has an element. -/
theorem NoEmpty.get_eq {m : HashMap K (List V)} (h : m.NoEmpty) (k : K) :
    m.get k = if m.getAll k = [] then none else some (m.getAll k) := by
  rw [getAll]
  cases hget : m.get k with
  | none => rfl
  | some vs =>
    have hne : vs ≠ [] := fun hnil => h k (hnil ▸ hget)
    rw [Option.getD_some, if_neg hne]

end Clinch.HashMap
