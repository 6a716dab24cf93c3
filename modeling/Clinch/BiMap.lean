import Mathlib

/-!
# Bidirectional maps

What the `bimap` crate documents of its `BiMap`: a bijection between two finite sets, whose `insert`
overwrites every pair that has the left or the right value of the new one. `PairList` is the list of
the pairs.

* `BiMap`, `BiMap.insertAll`;
* `BiMap.Lists`: the pairs are the positions of a list;
* **`Lists.insertAll`**: inserting the next rows continues the list.
-/

set_option autoImplicit false

namespace Clinch

/-- The operations of a `BiMap<L, R>` and what is documented of them. -/
class BiMap (M : Type) (L R : outParam Type) [DecidableEq L] [DecidableEq R] where
  empty : M
  getByLeft : M → L → Option R
  getByRight : M → R → Option L
  insert : M → L → R → M
  removeByRight : M → R → M
  len : M → ℕ
  getByRight_eq_some {m : M} {l : L} {r : R} : getByRight m r = some l ↔ getByLeft m l = some r
  getByLeft_empty (l : L) : getByLeft empty l = none
  getByLeft_insert (m : M) (l : L) (r : R) (l' : L) :
    getByLeft (insert m l r) l' = if l' = l then some r else (getByLeft m l').filter (· ≠ r)
  getByLeft_removeByRight (m : M) (r : R) (l : L) :
    getByLeft (removeByRight m r) l = (getByLeft m l).filter (· ≠ r)
  len_eq (m : M) (ls : List L) (hd : ls.Nodup) (hm : ∀ l, l ∈ ls ↔ (getByLeft m l).isSome) :
    len m = ls.length

namespace BiMap

section Positions

variable {M L : Type} [DecidableEq L] [BiMap M L ℕ]

/-- The map sends each member of the list to its position, and nothing else. -/
def Lists (m : M) (ls : List L) : Prop := ∀ l i, getByLeft m l = some i ↔ ls[i]? = some l

/-- Insert each of the values with the next position. -/
def insertAll (m : M) (offset : ℕ) : List L → M
  | [] => m
  | l :: ls => insertAll (insert m l offset) (offset + 1) ls

theorem lists_empty : Lists (empty : M) ([] : List L) := by
  intro l i
  simp [getByLeft_empty]

namespace Lists

variable {m : M} {ls : List L}

theorem getByRight_eq (h : Lists m ls) (i : ℕ) : getByRight m i = ls[i]? := by
  ext l
  rw [getByRight_eq_some, h l i]

theorem getByLeft_isSome (h : Lists m ls) (l : L) : (getByLeft m l).isSome ↔ l ∈ ls := by
  rw [Option.isSome_iff_exists, List.mem_iff_getElem?]
  exact exists_congr fun i => h l i

theorem nodup (h : Lists m ls) : ls.Nodup := by
  rw [List.nodup_iff_getElem?_ne_getElem?]
  intro i j hij hj he
  obtain ⟨l, hl⟩ : ∃ l, ls[j]? = some l := ⟨_, List.getElem?_eq_getElem hj⟩
  have hi : getByLeft m l = some i := (h l i).mpr (he.trans hl)
  rw [(h l j).mpr hl] at hi
  exact hij.ne' (Option.some.inj hi)

theorem len_eq (h : Lists m ls) : len m = ls.length :=
  BiMap.len_eq m ls h.nodup fun l => (h.getByLeft_isSome l).symm

/-- The next value takes the next position. -/
theorem insert (h : Lists m ls) {l : L} (hl : l ∉ ls) :
    Lists (BiMap.insert m l ls.length) (ls ++ [l]) := by
  intro l' i
  rw [getByLeft_insert]
  split
  · rename_i heq
    subst heq
    refine ⟨?_, fun hi => ?_⟩
    · rintro ⟨⟩
      simp
    · rcases lt_trichotomy i ls.length with hlt | rfl | hgt
      · rw [List.getElem?_append_left hlt] at hi
        exact absurd (List.mem_of_getElem? hi) hl
      · rfl
      · rw [List.getElem?_eq_none (by simpa using hgt)] at hi
        exact nomatch hi
  · rename_i hne
    rw [Option.filter_eq_some_iff, h l' i]
    refine ⟨fun ⟨hi, _⟩ => ?_, fun hi => ?_⟩
    · rw [List.getElem?_append_left (List.getElem?_eq_some_iff.mp hi).1, hi]
    · have hlt : i < ls.length := by
        by_contra hge
        rw [List.getElem?_append_right (by omega)] at hi
        have := List.mem_of_getElem? hi
        exact hne (List.mem_singleton.mp this)
      rw [List.getElem?_append_left hlt] at hi
      exact ⟨hi, by simpa using hlt.ne⟩

/-- **Inserting values with the next positions continues the list.** -/
theorem insertAll (h : Lists m ls) (ls' : List L) (hd : (ls ++ ls').Nodup) :
    Lists (BiMap.insertAll m ls.length ls') (ls ++ ls') := by
  induction ls' generalizing m ls with
  | nil => rwa [List.append_nil]
  | cons l ls' ih =>
    have hl : l ∉ ls := fun hm =>
      List.disjoint_of_nodup_append hd hm List.mem_cons_self
    have hd' : (ls ++ [l] ++ ls').Nodup := by rwa [List.append_assoc]
    have := ih (h.insert hl) hd'
    rwa [List.length_append, List.append_assoc] at this

end Lists

/-- Remove the positions `k, k + 1, .., k + n - 1`. -/
def removeRange (m : M) (k n : ℕ) : M := (List.range' k n).foldl removeByRight m

theorem getByLeft_removeRange (m : M) (k n : ℕ) (l : L) :
    getByLeft (removeRange m k n) l = (getByLeft m l).filter fun i => i < k ∨ k + n ≤ i := by
  induction n generalizing m k with
  | zero =>
    have hall : (fun i => decide (i < k ∨ k + 0 ≤ i)) = fun _ => true := by
      funext i
      exact decide_eq_true (by omega)
    rw [hall]
    cases h : getByLeft m l with
    | none => exact h
    | some i => exact h
  | succ n ih =>
    rw [removeRange, List.range'_succ, List.foldl_cons]
    change getByLeft (removeRange (removeByRight m k) (k + 1) n) l = _
    rw [ih, getByLeft_removeByRight, Option.filter_filter]
    congr 1
    funext i
    rw [Bool.eq_iff_iff]
    simp only [Bool.and_eq_true, decide_eq_true_eq]
    omega

/-- Removing every position from `k` on leaves the first `k` members. -/
theorem Lists.removeRange {m : M} {ls : List L} (h : Lists m ls) {k n : ℕ}
    (hn : ls.length ≤ k + n) : Lists (BiMap.removeRange m k n) (ls.take k) := by
  intro l i
  rw [getByLeft_removeRange, Option.filter_eq_some_iff, h l i, List.getElem?_take]
  constructor
  · rintro ⟨hi, hk⟩
    have hlt : i < ls.length := (List.getElem?_eq_some_iff.mp hi).1
    rw [if_pos (by simp at hk; omega), hi]
  · intro hi
    split at hi
    · exact ⟨hi, by simp; omega⟩
    · exact nomatch hi

end Positions

end BiMap

/-! ## The list of the pairs -/

/-- Pairs of which no two have a left or a right value in common. -/
structure PairList (L R : Type) where
  pairs : List (L × R)
  left : (pairs.map Prod.fst).Nodup
  right : (pairs.map Prod.snd).Nodup

namespace PairList

variable {L R : Type} [DecidableEq L] [DecidableEq R]

def filter (m : PairList L R) (p : L × R → Bool) : PairList L R where
  pairs := m.pairs.filter p
  left := m.left.sublist (List.filter_sublist.map _)
  right := m.right.sublist (List.filter_sublist.map _)

def getByLeft (m : PairList L R) (l : L) : Option R :=
  (m.pairs.find? fun p => p.1 = l).map Prod.snd

def getByRight (m : PairList L R) (r : R) : Option L :=
  (m.pairs.find? fun p => p.2 = r).map Prod.fst

def insert (m : PairList L R) (l : L) (r : R) : PairList L R where
  pairs := (l, r) :: m.pairs.filter fun p => p.1 ≠ l ∧ p.2 ≠ r
  left := by
    rw [List.map_cons, List.nodup_cons]
    refine ⟨fun h => ?_, m.left.sublist (List.filter_sublist.map _)⟩
    obtain ⟨p, hp, rfl⟩ := List.mem_map.mp h
    simp at hp
  right := by
    rw [List.map_cons, List.nodup_cons]
    refine ⟨fun h => ?_, m.right.sublist (List.filter_sublist.map _)⟩
    obtain ⟨p, hp, rfl⟩ := List.mem_map.mp h
    simp at hp

omit [DecidableEq R] in
theorem getByLeft_eq_some {m : PairList L R} {l : L} {r : R} :
    m.getByLeft l = some r ↔ (l, r) ∈ m.pairs := by
  rw [getByLeft, Option.map_eq_some_iff]
  constructor
  · rintro ⟨⟨l', r'⟩, hp, rfl⟩
    have h1 := List.find?_some hp
    rw [decide_eq_true_eq] at h1
    subst h1
    exact List.mem_of_find?_eq_some hp
  · intro h
    obtain ⟨p, hp⟩ : ∃ p, m.pairs.find? (fun p => p.1 = l) = some p := by
      rw [← Option.isSome_iff_exists, List.find?_isSome]
      exact ⟨_, h, by simp⟩
    have h1 := List.find?_some hp
    rw [decide_eq_true_eq] at h1
    have h2 := List.inj_on_of_nodup_map m.left (List.mem_of_find?_eq_some hp) h h1
    exact ⟨p, hp, by rw [h2]⟩

omit [DecidableEq L] in
theorem getByRight_eq_some {m : PairList L R} {l : L} {r : R} :
    m.getByRight r = some l ↔ (l, r) ∈ m.pairs := by
  rw [getByRight, Option.map_eq_some_iff]
  constructor
  · rintro ⟨⟨l', r'⟩, hp, rfl⟩
    have h1 := List.find?_some hp
    rw [decide_eq_true_eq] at h1
    subst h1
    exact List.mem_of_find?_eq_some hp
  · intro h
    obtain ⟨p, hp⟩ : ∃ p, m.pairs.find? (fun p => p.2 = r) = some p := by
      rw [← Option.isSome_iff_exists, List.find?_isSome]
      exact ⟨_, h, by simp⟩
    have h1 := List.find?_some hp
    rw [decide_eq_true_eq] at h1
    have h2 := List.inj_on_of_nodup_map m.right (List.mem_of_find?_eq_some hp) h h1
    exact ⟨p, hp, by rw [h2]⟩

instance : BiMap (PairList L R) L R where
  empty := ⟨[], List.nodup_nil, List.nodup_nil⟩
  getByLeft := getByLeft
  getByRight := getByRight
  insert := insert
  removeByRight m r := m.filter fun p => p.2 ≠ r
  len m := m.pairs.length
  getByRight_eq_some := getByRight_eq_some.trans getByLeft_eq_some.symm
  getByLeft_empty _ := rfl
  getByLeft_insert m l r l' := by
    ext r'
    rw [getByLeft_eq_some]
    split
    · rename_i h
      subst h
      simp [insert, eq_comm]
    · rename_i h
      rw [Option.filter_eq_some_iff, getByLeft_eq_some]
      simp [insert, h]
  getByLeft_removeByRight m r l := by
    ext r'
    rw [getByLeft_eq_some, Option.filter_eq_some_iff, getByLeft_eq_some]
    simp [filter]
  len_eq m ls hd hm := by
    rw [← List.length_map Prod.fst]
    refine ((List.perm_ext_iff_of_nodup m.left hd).mpr fun l => ?_).length_eq
    rw [hm, Option.isSome_iff_exists, List.mem_map]
    constructor
    · rintro ⟨⟨l', r⟩, hp, rfl⟩
      exact ⟨r, getByLeft_eq_some.mpr hp⟩
    · rintro ⟨r, hr⟩
      exact ⟨_, getByLeft_eq_some.mp hr, rfl⟩

end PairList

end Clinch
