import Mathlib

/-!
# Ordered maps

A `BTreeMap<K, V>` is the list of its entries in the order of their keys.

* `BTreeMap`, `get`, `insert`, `below`, `splitOff`: `split_off` leaves the entries below a key in
  the map and returns the others;
* `firstValue`, `lastKey`: the ends;
* `get_eq_some`: what is read is what is in the list, so that a map is determined by its members;
* `get_insert`, `get_below`, `get_splitOff`: what is read back.
-/

set_option autoImplicit false

namespace Clinch

/-- A `BTreeMap<K, V>`: its entries in the order of their keys. -/
structure BTreeMap (κ ν : Type) [LinearOrder κ] where
  entries : List (κ × ν)
  sorted : entries.Pairwise fun e e' => e.1 < e'.1

namespace BTreeMap

variable {κ ν : Type} [LinearOrder κ]

/-- The empty map. -/
def empty : BTreeMap κ ν := ⟨[], List.Pairwise.nil⟩

/-- The value at a key. -/
def get (m : BTreeMap κ ν) (k : κ) : Option ν :=
  (m.entries.find? fun e => e.1 = k).map Prod.snd

/-- The entries with smaller keys. -/
def below (m : BTreeMap κ ν) (k : κ) : BTreeMap κ ν :=
  ⟨m.entries.filter fun e => e.1 < k, m.sorted.filter _⟩

/-- The entries from a key on. -/
def splitOff (m : BTreeMap κ ν) (k : κ) : BTreeMap κ ν :=
  ⟨m.entries.filter fun e => k ≤ e.1, m.sorted.filter _⟩

/-- Set the value at a key. -/
def insert (m : BTreeMap κ ν) (k : κ) (v : ν) : BTreeMap κ ν where
  entries := (m.entries.filter fun e => e.1 < k) ++ (k, v) :: m.entries.filter fun e => k < e.1
  sorted := by
    refine List.pairwise_append.mpr ⟨m.sorted.filter _, ?_, ?_⟩
    · refine List.pairwise_cons.mpr ⟨fun e he => ?_, m.sorted.filter _⟩
      simpa using (List.mem_filter.mp he).2
    · intro e he e' he'
      have hlt : e.1 < k := by simpa using (List.mem_filter.mp he).2
      rcases List.mem_cons.mp he' with rfl | he'
      · exact hlt
      · exact hlt.trans (by simpa using (List.mem_filter.mp he').2)

/-- The value at the smallest key. -/
def firstValue (m : BTreeMap κ ν) : Option ν := m.entries.head?.map Prod.snd

/-- The largest key. -/
def lastKey (m : BTreeMap κ ν) : Option κ := m.entries.getLast?.map Prod.fst

@[simp] theorem get_empty (k : κ) : (empty : BTreeMap κ ν).get k = none := rfl

/-- There is one entry for a key. -/
theorem value_unique (m : BTreeMap κ ν) {k : κ} {v v' : ν} (h : (k, v) ∈ m.entries)
    (h' : (k, v') ∈ m.entries) : v = v' := by
  by_contra hne
  have hpw : m.entries.Pairwise fun e e' => e.1 ≠ e'.1 := m.sorted.imp fun h => ne_of_lt h
  have hsymm : Std.Symm fun e e' : κ × ν => e.1 ≠ e'.1 := ⟨fun _ _ h => h.symm⟩
  have hkey := hpw.forall h h' fun he => hne (Prod.mk.inj he).2
  exact hkey rfl

theorem get_eq_some {m : BTreeMap κ ν} {k : κ} {v : ν} :
    m.get k = some v ↔ (k, v) ∈ m.entries := by
  unfold get
  constructor
  · intro h
    obtain ⟨⟨k', v'⟩, he, rfl⟩ := Option.map_eq_some_iff.mp h
    have hk : k' = k := by simpa using List.find?_some he
    exact hk ▸ List.mem_of_find?_eq_some he
  · intro h
    cases hf : m.entries.find? fun e => e.1 = k with
    | none => simpa using List.find?_eq_none.mp hf _ h
    | some e =>
      obtain ⟨k', v'⟩ := e
      have hk : k' = k := by simpa using List.find?_some hf
      subst hk
      rw [m.value_unique h (List.mem_of_find?_eq_some hf), Option.map_some]

/-- A map is determined by what is read from it. -/
theorem get_eq_of_mem {m m' : BTreeMap κ ν} {k k' : κ}
    (h : ∀ v, (k, v) ∈ m.entries ↔ (k', v) ∈ m'.entries) : m.get k = m'.get k' := by
  apply Option.ext
  intro v
  rw [get_eq_some, get_eq_some]
  exact h v

theorem get_insert (m : BTreeMap κ ν) (k k' : κ) (v : ν) :
    (m.insert k v).get k' = if k' = k then some v else m.get k' := by
  apply Option.ext
  intro v'
  rw [get_eq_some]
  simp only [insert, List.mem_append, List.mem_filter, List.mem_cons, decide_eq_true_eq]
  split
  · rename_i hk
    subst hk
    simp [eq_comm]
  · rename_i hk
    rw [get_eq_some]
    constructor
    · rintro (⟨h, -⟩ | h | ⟨h, -⟩)
      · exact h
      · exact absurd (congrArg Prod.fst h) hk
      · exact h
    · intro h
      rcases lt_or_gt_of_ne hk with hlt | hlt
      · exact Or.inl ⟨h, hlt⟩
      · exact Or.inr (Or.inr ⟨h, hlt⟩)

@[simp] theorem get_insert_self (m : BTreeMap κ ν) (k : κ) (v : ν) :
    (m.insert k v).get k = some v := by
  rw [get_insert, if_pos rfl]

theorem get_insert_ne (m : BTreeMap κ ν) {k k' : κ} (h : k' ≠ k) (v : ν) :
    (m.insert k v).get k' = m.get k' := by
  rw [get_insert, if_neg h]

theorem entries_insert_last (m : BTreeMap κ ν) {k : κ} (v : ν) (h : ∀ e ∈ m.entries, e.1 < k) :
    (m.insert k v).entries = m.entries ++ [(k, v)] := by
  have hbelow : m.entries.filter (fun e => decide (e.1 < k)) = m.entries :=
    List.filter_eq_self.mpr fun e he => decide_eq_true (h e he)
  have habove : m.entries.filter (fun e => decide (k < e.1)) = [] :=
    List.filter_eq_nil_iff.mpr fun e he => by simpa using (h e he).le
  change m.entries.filter (fun e => decide (e.1 < k)) ++
    (k, v) :: m.entries.filter (fun e => decide (k < e.1)) = _
  rw [hbelow, habove]

theorem get_below (m : BTreeMap κ ν) {k k' : κ} (h : k' < k) : (m.below k).get k' = m.get k' := by
  refine get_eq_of_mem fun v => ?_
  simp [below, List.mem_filter, h]

theorem get_splitOff (m : BTreeMap κ ν) {k k' : κ} (h : k ≤ k') :
    (m.splitOff k).get k' = m.get k' := by
  refine get_eq_of_mem fun v => ?_
  simp [splitOff, List.mem_filter, h]

/-- The entries below a key come first. -/
theorem entries_split (m : BTreeMap κ ν) (k : κ) :
    m.entries = (m.below k).entries ++ (m.splitOff k).entries := by
  obtain ⟨entries, hsorted⟩ := m
  change entries = entries.filter (fun e => decide (e.1 < k)) ++
    entries.filter (fun e => decide (k ≤ e.1))
  induction hsorted with
  | nil => rfl
  | @cons e entries hlt hsorted ih =>
    rcases lt_or_ge e.1 k with hk | hk
    · rw [List.filter_cons_of_pos (by simpa using hk), List.filter_cons_of_neg (by simpa using hk),
        List.cons_append, ← ih]
    · have hbelow : entries.filter (fun e => decide (e.1 < k)) = [] := by
        rw [List.filter_eq_nil_iff]
        intro e' he'
        simpa using hk.trans (hlt e' he').le
      rw [hbelow, List.nil_append] at ih
      rw [List.filter_cons_of_neg (by simpa using hk), List.filter_cons_of_pos (by simpa using hk),
        hbelow, List.nil_append, ← ih]

theorem splitOff_splitOff (m : BTreeMap κ ν) {k k' : κ} (h : k ≤ k') :
    (m.splitOff k).splitOff k' = m.splitOff k' := by
  simp only [splitOff, List.filter_filter, mk.injEq]
  refine List.filter_congr fun e _ => ?_
  rw [Bool.and_eq_left_iff_imp]
  intro hk
  simpa using h.trans (by simpa using hk)

/-- Skipping the smaller keys is `split_off`. -/
theorem dropWhile_entries (m : BTreeMap κ ν) (k : κ) :
    (m.entries.dropWhile fun e => decide (e.1 < k)) = (m.splitOff k).entries := by
  have hbelow : ∀ e ∈ (m.below k).entries, decide (e.1 < k) = true :=
    fun e he => (List.mem_filter.mp he).2
  have habove : (m.splitOff k).entries.dropWhile (fun e => decide (e.1 < k)) =
      (m.splitOff k).entries := by
    rw [List.dropWhile_eq_self_iff]
    intro hpos
    have hle := (List.mem_filter.mp (List.getElem_mem hpos)).2
    simpa using hle
  conv_lhs => rw [m.entries_split k]
  rw [List.dropWhile_append_of_pos hbelow, habove]

end BTreeMap

end Clinch
