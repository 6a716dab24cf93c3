import Mathlib

/-!
# Hash maps and hash sets

A `HashMap<K, V>` is the list of its entries, with distinct keys. The order of the entries stands
for the unspecified order of the iterators.

* `HashMap`, `get`, `insert`, `remove`, `retain`, `modify`, `updateFirst`;
* `get_insert`, `get_remove`, `get_retain`, `get_modify`, `get_updateFirst`: what is read back;
* `count`, `count_insert_le`, `count_modify_le`: the number of values with a property;
* `HashSet`: the same for a set.
-/

set_option autoImplicit false

namespace Clinch

/-- Change the first element with the property. -/
def updateFirst {α : Type} (p : α → Bool) (f : α → α) : List α → List α
  | [] => []
  | a :: l => if p a then f a :: l else a :: updateFirst p f l

section UpdateFirst

variable {α β : Type} {p : α → Bool} {f : α → α}

theorem map_updateFirst {g : α → β} (h : ∀ a, p a → g (f a) = g a) (l : List α) :
    (updateFirst p f l).map g = l.map g := by
  induction l with
  | nil => rfl
  | cons a l ih =>
    rw [updateFirst]
    split
    · rename_i hp
      rw [List.map_cons, List.map_cons, h a hp]
    · rw [List.map_cons, List.map_cons, ih]

theorem length_updateFirst (l : List α) : (updateFirst p f l).length = l.length := by
  simpa using congrArg List.length (map_updateFirst (g := fun _ => ()) (fun _ _ => rfl) l)

theorem updateFirst_map {p' : β → Bool} {f' : β → β} {g : α → β} (hp : ∀ a, p' (g a) = p a)
    (hf : ∀ a, g (f a) = f' (g a)) (l : List α) :
    (updateFirst p f l).map g = updateFirst p' f' (l.map g) := by
  induction l with
  | nil => rfl
  | cons a l ih =>
    rw [updateFirst, List.map_cons, updateFirst, hp]
    split
    · rw [List.map_cons, hf]
    · rw [List.map_cons, ih]

theorem mem_updateFirst {l : List α} {b : α} (h : b ∈ updateFirst p f l) :
    b ∈ l ∨ ∃ a ∈ l, p a ∧ b = f a := by
  induction l with
  | nil => exact nomatch h
  | cons a l ih =>
    rw [updateFirst] at h
    split at h
    · rename_i hp
      rcases List.mem_cons.mp h with rfl | h
      · exact Or.inr ⟨a, List.mem_cons_self, hp, rfl⟩
      · exact Or.inl (List.mem_cons_of_mem _ h)
    · rcases List.mem_cons.mp h with rfl | h
      · exact Or.inl List.mem_cons_self
      · rcases ih h with h | ⟨a', ha', hp, rfl⟩
        · exact Or.inl (List.mem_cons_of_mem _ h)
        · exact Or.inr ⟨a', List.mem_cons_of_mem _ ha', hp, rfl⟩

theorem countP_updateFirst_le {q : α → Bool} (h : ∀ a, p a → q (f a) = true → q a = true)
    (l : List α) : (updateFirst p f l).countP q ≤ l.countP q := by
  induction l with
  | nil => exact le_rfl
  | cons a l ih =>
    rw [updateFirst]
    split
    · rename_i hp
      rw [List.countP_cons, List.countP_cons]
      refine Nat.add_le_add_left ?_ _
      by_cases hq : q (f a) = true
      · rw [h a hp hq]
        exact (ite_le_one (by rfl) (by simp)).trans (by simp)
      · rw [if_neg hq]
        exact Nat.zero_le _
    · rw [List.countP_cons, List.countP_cons]
      exact Nat.add_le_add_right ih _

end UpdateFirst

/-- `HashMap<K, V>`. -/
structure HashMap (K V : Type) where
  entries : List (K × V)
  nodup : (entries.map Prod.fst).Nodup

namespace HashMap

variable {K V : Type} [DecidableEq K]

omit [DecidableEq K] in
/-- `HashMap::new`. -/
def empty : HashMap K V := ⟨[], List.nodup_nil⟩

def get (m : HashMap K V) (k : K) : Option V := (m.entries.find? fun e => e.1 = k).map Prod.snd

omit [DecidableEq K] in
def len (m : HashMap K V) : ℕ := m.entries.length

omit [DecidableEq K] in
def values (m : HashMap K V) : List V := m.entries.map Prod.snd

omit [DecidableEq K] in
def keys (m : HashMap K V) : List K := m.entries.map Prod.fst

omit [DecidableEq K] in
/-- `HashMap::retain`. -/
def retain (m : HashMap K V) (p : K → V → Bool) : HashMap K V where
  entries := m.entries.filter fun e => p e.1 e.2
  nodup := m.nodup.sublist (List.filter_sublist.map _)

/-- `HashMap::remove`, without the value it returns. -/
def remove (m : HashMap K V) (k : K) : HashMap K V := m.retain fun k' _ => k' ≠ k

def insert (m : HashMap K V) (k : K) (v : V) : HashMap K V where
  entries := (k, v) :: (m.remove k).entries
  nodup := by
    rw [List.map_cons, List.nodup_cons]
    refine ⟨fun h => ?_, (m.remove k).nodup⟩
    obtain ⟨e, he, rfl⟩ := List.mem_map.mp h
    simp [remove, retain] at he

/-- `HashMap::extend`: the entries of the other map win. -/
def extend (m other : HashMap K V) : HashMap K V :=
  other.entries.foldl (fun m e => m.insert e.1 e.2) m

/-- `if let Some(value) = map.get_mut(k) { .. }`. -/
def modify (m : HashMap K V) (k : K) (f : V → V) : HashMap K V where
  entries := m.entries.map fun e => if e.1 = k then (e.1, f e.2) else e
  nodup := by
    rw [List.map_map, show (Prod.fst ∘ fun e : K × V => if e.1 = k then (e.1, f e.2) else e) =
      Prod.fst from funext fun e => by by_cases h : e.1 = k <;> simp [h]]
    exact m.nodup

omit [DecidableEq K] in
/-- `for value in map.values_mut() { .. }`. -/
def mapValues (m : HashMap K V) (f : V → V) : HashMap K V where
  entries := m.entries.map fun e => (e.1, f e.2)
  nodup := by
    rw [List.map_map]
    exact m.nodup

omit [DecidableEq K] in
/-- `if let Some(value) = map.values_mut().find(p) { .. }`. -/
def updateFirst (m : HashMap K V) (p : V → Bool) (f : V → V) : HashMap K V where
  entries := Clinch.updateFirst (fun e => p e.2) (fun e => (e.1, f e.2)) m.entries
  nodup := by
    rw [map_updateFirst (f := fun e : K × V => (e.1, f e.2)) fun _ _ => rfl]
    exact m.nodup

/-! ## What is read back -/

theorem get_eq_some {m : HashMap K V} {k : K} {v : V} :
    m.get k = some v ↔ (k, v) ∈ m.entries := by
  rw [get, Option.map_eq_some_iff]
  constructor
  · rintro ⟨⟨k', v'⟩, he, rfl⟩
    have hk := List.find?_some he
    rw [decide_eq_true_eq] at hk
    subst hk
    exact List.mem_of_find?_eq_some he
  · intro h
    obtain ⟨e, he⟩ : ∃ e, m.entries.find? (fun e => e.1 = k) = some e := by
      rw [← Option.isSome_iff_exists, List.find?_isSome]
      exact ⟨_, h, by simp⟩
    have hk := List.find?_some he
    rw [decide_eq_true_eq] at hk
    exact ⟨e, he, by rw [List.inj_on_of_nodup_map m.nodup (List.mem_of_find?_eq_some he) h hk]⟩

theorem mem_keys {m : HashMap K V} {k : K} : k ∈ m.keys ↔ (m.get k).isSome := by
  rw [keys, List.mem_map, Option.isSome_iff_exists]
  constructor
  · rintro ⟨⟨k, v⟩, hmem, rfl⟩
    exact ⟨v, get_eq_some.mpr hmem⟩
  · rintro ⟨v, hget⟩
    exact ⟨(k, v), get_eq_some.mp hget, rfl⟩

theorem get_empty (k : K) : (empty : HashMap K V).get k = none := rfl

theorem get_retain (m : HashMap K V) (p : K → V → Bool) (k : K) :
    (m.retain p).get k = (m.get k).filter (p k) := by
  ext v
  rw [get_eq_some, Option.filter_eq_some_iff, get_eq_some, retain, List.mem_filter]

theorem get_retain_some {m : HashMap K V} {p : K → V → Bool} {k : K} {v : V} :
    (m.retain p).get k = some v ↔ m.get k = some v ∧ p k v = true := by
  rw [get_retain, Option.filter_eq_some_iff]

theorem get_remove_some {m : HashMap K V} {k k' : K} {v : V} :
    (m.remove k).get k' = some v ↔ m.get k' = some v ∧ k' ≠ k := by
  rw [remove, get_retain_some, decide_eq_true_eq]

theorem get_remove_self (m : HashMap K V) (k : K) : (m.remove k).get k = none := by
  rw [Option.eq_none_iff_forall_ne_some]
  exact fun v hv => (get_remove_some.mp hv).2 rfl

theorem get_remove_of_ne (m : HashMap K V) {k k' : K} (h : k' ≠ k) :
    (m.remove k).get k' = m.get k' := by
  ext v
  rw [get_remove_some]
  exact and_iff_left h

theorem get_insert (m : HashMap K V) (k : K) (v : V) (k' : K) :
    (m.insert k v).get k' = if k' = k then some v else m.get k' := by
  ext v'
  rw [get_eq_some]
  split
  · rename_i h
    subst h
    simp [insert, remove, retain, eq_comm]
  · rename_i h
    rw [get_eq_some]
    simp [insert, remove, retain, h]

theorem get_foldl_insert (es : List (K × V)) (hnodup : (es.map Prod.fst).Nodup) (k : K) :
    ∀ m : HashMap K V, (es.foldl (fun m e => m.insert e.1 e.2) m).get k =
      ((es.find? fun e => e.1 = k).map Prod.snd).or (m.get k) := by
  induction es with
  | nil => exact fun _ => rfl
  | cons e es ih =>
    intro m
    rw [List.map_cons, List.nodup_cons] at hnodup
    rw [List.foldl_cons, ih hnodup.2, List.find?_cons, get_insert]
    by_cases hk : e.1 = k
    · have hnone : es.find? (fun e => e.1 = k) = none := by
        rw [List.find?_eq_none]
        intro e' he' hk'
        rw [decide_eq_true_eq] at hk'
        exact hnodup.1 (List.mem_map.mpr ⟨e', he', hk'.trans hk.symm⟩)
      rw [hnone, decide_eq_true hk, if_pos hk.symm]
      rfl
    · rw [decide_eq_false hk, if_neg (Ne.symm hk)]

theorem get_extend (m other : HashMap K V) (k : K) :
    (m.extend other).get k = (other.get k).or (m.get k) :=
  get_foldl_insert other.entries other.nodup k m

theorem get_modify_some {m : HashMap K V} {k : K} {f : V → V} {k' : K} {v : V} :
    (m.modify k f).get k' = some v ↔
      (k' ≠ k ∧ m.get k' = some v) ∨ (k' = k ∧ ∃ u, m.get k' = some u ∧ v = f u) := by
  rw [get_eq_some, modify, List.mem_map]
  constructor
  · rintro ⟨⟨k'', u⟩, hmem, he⟩
    split at he
    · rename_i hk
      obtain ⟨rfl, rfl⟩ := Prod.mk.inj he
      exact Or.inr ⟨hk, u, get_eq_some.mpr hmem, rfl⟩
    · rename_i hk
      obtain ⟨rfl, rfl⟩ := Prod.mk.inj he
      exact Or.inl ⟨hk, get_eq_some.mpr hmem⟩
  · rintro (⟨hk, hget⟩ | ⟨hk, u, hget, rfl⟩)
    · exact ⟨_, get_eq_some.mp hget, if_neg hk⟩
    · exact ⟨_, get_eq_some.mp hget, by rw [if_pos hk]⟩

theorem get_modify (m : HashMap K V) (k : K) (f : V → V) (k' : K) :
    (m.modify k f).get k' = if k' = k then (m.get k').map f else m.get k' := by
  ext v
  rw [get_modify_some]
  by_cases h : k' = k
  · simp [h, eq_comm]
  · simp [h]

theorem get_mapValues (m : HashMap K V) (f : V → V) (k : K) :
    (m.mapValues f).get k = (m.get k).map f := by
  rw [get, get, mapValues, List.find?_map, Option.map_map, Option.map_map]
  rfl

/-- The entry that `updateFirst` changes is one that has the property. -/
theorem get_updateFirst_some {m : HashMap K V} {p : V → Bool} {f : V → V} {k : K} {v : V}
    (h : (m.updateFirst p f).get k = some v) :
    m.get k = some v ∨ ∃ u, m.get k = some u ∧ p u = true ∧ v = f u := by
  rw [get_eq_some] at h
  rcases mem_updateFirst h with h | ⟨⟨k', u⟩, hmem, hp, he⟩
  · exact Or.inl (get_eq_some.mpr h)
  · obtain ⟨rfl, rfl⟩ := Prod.mk.inj he
    exact Or.inr ⟨u, get_eq_some.mpr hmem, hp, rfl⟩

/-! ## Counting values -/

theorem len_remove_le (m : HashMap K V) (k : K) : (m.remove k).len ≤ m.len :=
  List.length_filter_le _ _

theorem len_insert_le (m : HashMap K V) (k : K) (v : V) : (m.insert k v).len ≤ m.len + 1 :=
  Nat.succ_le_succ (m.len_remove_le k)

omit [DecidableEq K] in
/-- `map.values().filter(p).count()`. -/
def count (m : HashMap K V) (p : V → Bool) : ℕ := m.values.countP p

variable {p : V → Bool}

omit [DecidableEq K] in
theorem count_eq (m : HashMap K V) : m.count p = m.entries.countP fun e => p e.2 :=
  List.countP_map

omit [DecidableEq K] in
theorem count_retain_le (m : HashMap K V) (q : K → V → Bool) :
    (m.retain q).count p ≤ m.count p := by
  rw [count_eq, count_eq]
  exact List.filter_sublist.countP_le

theorem count_insert_le (m : HashMap K V) (k : K) {v : V} (hv : p v = false) :
    (m.insert k v).count p ≤ m.count p := by
  rw [count_eq, insert, List.countP_cons_of_neg (by simp [hv]), ← count_eq]
  exact m.count_retain_le _

omit [DecidableEq K] in
theorem count_updateFirst_le (m : HashMap K V) {q : V → Bool} {f : V → V}
    (h : ∀ v, q v → p (f v) = true → p v = true) : (m.updateFirst q f).count p ≤ m.count p := by
  rw [count_eq, count_eq]
  exact countP_updateFirst_le (fun e he => h e.2 he) _

theorem count_modify_le_self (m : HashMap K V) (k : K) {f : V → V}
    (h : ∀ v, m.get k = some v → p (f v) = true → p v = true) :
    (m.modify k f).count p ≤ m.count p := by
  rw [count_eq, count_eq, modify, List.countP_map]
  refine List.countP_mono_left fun e he hp => ?_
  rw [Function.comp] at hp
  split at hp
  · rename_i hk
    exact h e.2 (get_eq_some.mpr (hk ▸ he)) hp
  · exact hp

/-- A change to one value adds at most one. -/
theorem count_modify_le (m : HashMap K V) (k : K) (f : V → V) :
    (m.modify k f).count p ≤ m.count p + 1 := by
  rw [count_eq, count_eq, modify]
  obtain ⟨entries, nodup⟩ := m
  simp only
  induction entries with
  | nil => exact Nat.zero_le _
  | cons e es ih =>
    rw [List.map_cons, List.nodup_cons] at nodup
    rw [List.map_cons, List.countP_cons, List.countP_cons]
    split
    · rename_i hk
      have hes : (es.map fun e => if e.1 = k then (e.1, f e.2) else e) = es := by
        refine (List.map_congr_left fun e' he' => if_neg fun hk' => nodup.1 ?_).trans
          (List.map_id es)
        exact List.mem_map.mpr ⟨e', he', hk'.trans hk.symm⟩
      rw [hes]
      split <;> omega
    · have := ih nodup.2
      omega

/-! ## Sums over the values -/

omit [DecidableEq K] in
/-- `map.values().map(f).sum()`. -/
def sum (m : HashMap K V) (f : V → ℕ) : ℕ := (m.entries.map fun e => f e.2).sum

theorem sum_remove (m : HashMap K V) (f : V → ℕ) (k : K) :
    (m.remove k).sum f + ((m.get k).map f).getD 0 = m.sum f := by
  obtain ⟨entries, nodup⟩ := m
  rw [sum, sum, remove, retain, get]
  simp only
  induction entries with
  | nil => rfl
  | cons e es ih =>
    rw [List.map_cons, List.nodup_cons] at nodup
    rw [List.filter_cons, List.find?_cons, List.map_cons, List.sum_cons, ← ih nodup.2]
    by_cases hk : e.1 = k
    · have hnone : es.find? (fun e => e.1 = k) = none := by
        rw [List.find?_eq_none]
        intro e' he' hk'
        rw [decide_eq_true_eq] at hk'
        exact nodup.1 (List.mem_map.mpr ⟨e', he', hk'.trans hk.symm⟩)
      rw [hnone, decide_eq_true hk, if_neg (by simp [hk])]
      exact Nat.add_comm _ _
    · rw [decide_eq_false hk, if_pos (by simp [hk]), List.map_cons, List.sum_cons, Nat.add_assoc]

theorem sum_insert (m : HashMap K V) (f : V → ℕ) (k : K) (v : V) :
    (m.insert k v).sum f = (m.remove k).sum f + f v := by
  rw [sum, insert, List.map_cons, List.sum_cons, Nat.add_comm]
  rfl

end HashMap

/-! ## Hash sets -/

/-- `HashSet<K>`: its elements, in the order of its iterator. -/
structure HashSet (K : Type) where
  elements : List K
  nodup : elements.Nodup

namespace HashSet

variable {K : Type}

/-- `HashSet::new`. -/
def empty : HashSet K := ⟨[], List.nodup_nil⟩

instance : Membership K (HashSet K) := ⟨fun s k => k ∈ s.elements⟩

variable [DecidableEq K]

instance (k : K) (s : HashSet K) : Decidable (k ∈ s) := inferInstanceAs (Decidable (k ∈ s.elements))

def insert (s : HashSet K) (k : K) : HashSet K := ⟨List.insert k s.elements, s.nodup.insert⟩

def remove (s : HashSet K) (k : K) : HashSet K := ⟨s.elements.erase k, s.nodup.erase k⟩

omit [DecidableEq K] in
/-- The elements that have the property. -/
def filter (s : HashSet K) (p : K → Bool) : HashSet K :=
  ⟨s.elements.filter p, s.nodup.filter p⟩

omit [DecidableEq K] in
def isEmpty (s : HashSet K) : Bool := s.elements.isEmpty

omit [DecidableEq K] in
@[simp] theorem mem_filter {s : HashSet K} {p : K → Bool} {k : K} :
    k ∈ s.filter p ↔ k ∈ s ∧ p k = true := List.mem_filter

omit [DecidableEq K] in
theorem isEmpty_iff {s : HashSet K} : s.isEmpty = true ↔ ∀ k, k ∉ s := by
  rw [isEmpty, List.isEmpty_iff, List.eq_nil_iff_forall_not_mem]
  rfl

omit [DecidableEq K] in
@[simp] theorem mem_elements {s : HashSet K} {k : K} : k ∈ s.elements ↔ k ∈ s := Iff.rfl

omit [DecidableEq K] in
@[simp] theorem not_mem_empty {k : K} : k ∉ (empty : HashSet K) := List.not_mem_nil

@[simp] theorem mem_insert {s : HashSet K} {k k' : K} : k' ∈ s.insert k ↔ k' = k ∨ k' ∈ s :=
  List.mem_insert_iff

@[simp] theorem mem_remove {s : HashSet K} {k k' : K} : k' ∈ s.remove k ↔ k' ≠ k ∧ k' ∈ s :=
  s.nodup.mem_erase_iff

theorem length_remove_le (s : HashSet K) (k : K) :
    (s.remove k).elements.length ≤ s.elements.length := List.erase_sublist.length_le

end HashSet

end Clinch
