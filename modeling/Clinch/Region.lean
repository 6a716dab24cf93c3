import Mathlib

/-!
# Regions of a list

A list whose places are exchanged and rotated, described place by place.

* `swapAt`: two places are exchanged;
* `moveUp`, `moveDown`: a stretch is carried to higher or lower places by exchanges;
* `fill`: a stretch is overwritten;
* `scrollUp`, `scrollDown`: a region is shifted, and what it leaves is overwritten;
* **`scrollUp_of_rotate`**, **`scrollDown_of_rotate`**: a region is shifted by a rotation of the whole
  list, if what is outside is carried out of its way and back.
-/

set_option autoImplicit false

namespace Clinch

namespace Region

variable {α β : Type} {l : List α} {i j k a n d s e : ℕ} {x : α}

/-! ## Exchanges -/

/-- The places `i` and `j` are exchanged. -/
def swapAt (l : List α) (i j : ℕ) : List α :=
  (l[i]?.bind fun x => l[j]?.map fun y => (l.set i y).set j x).getD l

theorem swapAt_eq (hi : i < l.length) (hj : j < l.length) :
    swapAt l i j = (l.set i l[j]).set j l[i] := by
  simp [swapAt, hi, hj]

@[simp] theorem length_swapAt (l : List α) (i j : ℕ) : (swapAt l i j).length = l.length := by
  by_cases hi : i < l.length
  · by_cases hj : j < l.length
    · simp [swapAt_eq hi hj]
    · simp [swapAt, hj]
  · simp [swapAt, hi]

theorem getElem?_swapAt (hi : i < l.length) (hj : j < l.length) (k : ℕ) :
    (swapAt l i j)[k]? = if k = i then l[j]? else if k = j then l[i]? else l[k]? := by
  rw [swapAt_eq hi hj, List.getElem?_set, List.getElem?_set, List.length_set]
  by_cases hki : k = i
  · subst hki
    by_cases hkj : j = k
    · subst hkj
      simp [hi]
    · simp [hi, hj, hkj]
  · by_cases hkj : k = j
    · subst hkj
      simp [hi, hj, hki]
    · simp [hki, hkj, Ne.symm hki, Ne.symm hkj]

theorem swapAt_comm (l : List α) (i j : ℕ) : swapAt l i j = swapAt l j i := by
  by_cases hi : i < l.length
  · by_cases hj : j < l.length
    · refine List.ext_getElem? fun k => ?_
      rw [getElem?_swapAt hi hj, getElem?_swapAt hj hi]
      split_ifs with h1 h2
      · rw [← h1, ← h2]
      · rfl
      · rfl
      · rfl
    · simp [swapAt, hj]
  · simp [swapAt, hi]

theorem mem_of_mem_swapAt (h : x ∈ swapAt l i j) : x ∈ l := by
  by_cases hi : i < l.length
  · by_cases hj : j < l.length
    · rw [swapAt_eq hi hj] at h
      rcases List.mem_or_eq_of_mem_set h with h | rfl
      · rcases List.mem_or_eq_of_mem_set h with h | rfl
        · exact h
        · exact List.getElem_mem hj
      · exact List.getElem_mem hi
    · simpa [swapAt, hj] using h
  · simpa [swapAt, hi] using h

/-! ## Carrying a stretch by exchanges -/

/-- Each of the `n` places from `a` on is exchanged with the one `d` above, the last one first. -/
def moveUp (a n d : ℕ) (l : List α) : List α :=
  (List.range' a n).reverse.foldl (fun l i => swapAt l i (i + d)) l

/-- Each of the `n` places from `a` on is exchanged with the one `d` above, the first one first. -/
def moveDown (a n d : ℕ) (l : List α) : List α :=
  (List.range' a n).foldl (fun l i => swapAt l i (i + d)) l

theorem moveUp_succ (a n d : ℕ) (l : List α) :
    moveUp a (n + 1) d l = moveUp a n d (swapAt l (a + n) (a + n + d)) := by
  rw [moveUp, List.range'_1_concat, List.reverse_concat, List.foldl_cons, moveUp]

theorem moveDown_succ (a n d : ℕ) (l : List α) :
    moveDown a (n + 1) d l = swapAt (moveDown a n d l) (a + n) (a + n + d) := by
  rw [moveDown, List.range'_1_concat, List.foldl_concat, moveDown]

@[simp] theorem length_moveUp (a n d : ℕ) (l : List α) : (moveUp a n d l).length = l.length := by
  induction n generalizing l with
  | zero => rfl
  | succ n ih => rw [moveUp_succ, ih, length_swapAt]

@[simp] theorem length_moveDown (a n d : ℕ) (l : List α) :
    (moveDown a n d l).length = l.length := by
  induction n with
  | zero => rfl
  | succ n ih => rw [moveDown_succ, length_swapAt, ih]

theorem mem_of_mem_moveUp (h : x ∈ moveUp a n d l) : x ∈ l := by
  induction n generalizing l with
  | zero => exact h
  | succ n ih =>
    rw [moveUp_succ] at h
    exact mem_of_mem_swapAt (ih h)

theorem mem_of_mem_moveDown (h : x ∈ moveDown a n d l) : x ∈ l := by
  induction n generalizing x with
  | zero => exact h
  | succ n ih =>
    rw [moveDown_succ] at h
    exact ih (mem_of_mem_swapAt h)

/-- The places `a`, .., `a + n - 1` get to `a + d`, .., and the others of the stretch below them. -/
theorem moveUp_spec (h : a + n + d ≤ l.length) :
    (∀ k, k < a ∨ a + n + d ≤ k → (moveUp a n d l)[k]? = l[k]?) ∧
    (∀ k, a + d ≤ k → k < a + n + d → (moveUp a n d l)[k]? = l[k - d]?) ∧
    ∀ k, a ≤ k → k < a + d →
      ∃ j, a + n ≤ j ∧ j < a + n + d ∧ (moveUp a n d l)[k]? = l[j]? := by
  induction n generalizing l with
  | zero =>
    exact ⟨fun k _ => rfl, fun k h1 h2 => by omega, fun k h1 h2 => ⟨k, by omega, by omega, rfl⟩⟩
  | succ n ih =>
    rw [moveUp_succ]
    have hswap := getElem?_swapAt (l := l) (i := a + n) (j := a + n + d) (by omega) (by omega)
    obtain ⟨hout, hmoved, hrest⟩ :=
      ih (l := swapAt l (a + n) (a + n + d)) (by rw [length_swapAt]; omega)
    refine ⟨fun k hk => ?_, fun k h1 h2 => ?_, fun k h1 h2 => ?_⟩
    · rw [hout k (by omega), hswap, if_neg (by omega), if_neg (by omega)]
    · by_cases he : k = a + n + d
      · rw [hout k (by omega), hswap, he, show a + n + d - d = a + n by omega]
        by_cases hd : a + n + d = a + n
        · rw [if_pos hd, hd]
        · rw [if_neg hd, if_pos rfl]
      · rw [hmoved k h1 (by omega), hswap, if_neg (by omega), if_neg (by omega)]
    · obtain ⟨j, h3, h4, hj⟩ := hrest k h1 h2
      by_cases he : j = a + n
      · exact ⟨a + n + d, by omega, by omega, by rw [hj, hswap, if_pos he]⟩
      · exact ⟨j, by omega, by omega, by rw [hj, hswap, if_neg he, if_neg (by omega)]⟩

/-- The places `a + d`, .., `a + d + n - 1` get to `a`, .., and the others of the stretch above them. -/
theorem moveDown_spec (h : a + n + d ≤ l.length) :
    (∀ k, k < a ∨ a + n + d ≤ k → (moveDown a n d l)[k]? = l[k]?) ∧
    (∀ k, a ≤ k → k < a + n → (moveDown a n d l)[k]? = l[k + d]?) ∧
    ∀ k, a + n ≤ k → k < a + n + d →
      ∃ j, a ≤ j ∧ j < a + d ∧ (moveDown a n d l)[k]? = l[j]? := by
  induction n with
  | zero =>
    exact ⟨fun k _ => rfl, fun k h1 h2 => by omega, fun k h1 h2 => ⟨k, by omega, by omega, rfl⟩⟩
  | succ n ih =>
    rw [moveDown_succ]
    have hswap := getElem?_swapAt (l := moveDown a n d l) (i := a + n) (j := a + n + d)
      (by rw [length_moveDown]; omega) (by rw [length_moveDown]; omega)
    obtain ⟨hout, hmoved, hrest⟩ := ih (by omega)
    refine ⟨fun k hk => ?_, fun k h1 h2 => ?_, fun k h1 h2 => ?_⟩
    · rw [hswap, if_neg (by omega), if_neg (by omega), hout k (by omega)]
    · by_cases he : k = a + n
      · rw [hswap, if_pos he, hout (a + n + d) (by omega), he]
      · rw [hswap, if_neg he, if_neg (by omega), hmoved k h1 (by omega)]
    · rw [hswap, if_neg (by omega)]
      split_ifs with he
      · exact hrest (a + n) (by omega) (by omega)
      · exact hrest k (by omega) (by omega)

/-! ## Overwriting a stretch -/

/-- The `n` places from `a` on become `x`. -/
def fill (a n : ℕ) (x : α) (l : List α) : List α :=
  (List.range' a n).foldl (fun l i => l.set i x) l

theorem fill_succ (a n : ℕ) (x : α) (l : List α) :
    fill a (n + 1) x l = (fill a n x l).set (a + n) x := by
  rw [fill, List.range'_1_concat, List.foldl_concat, fill]

@[simp] theorem length_fill (a n : ℕ) (x : α) (l : List α) : (fill a n x l).length = l.length := by
  induction n with
  | zero => rfl
  | succ n ih => rw [fill_succ, List.length_set, ih]

theorem getElem?_fill (h : a + n ≤ l.length) (k : ℕ) :
    (fill a n x l)[k]? = if a ≤ k ∧ k < a + n then some x else l[k]? := by
  induction n with
  | zero => rw [if_neg (by omega)]; rfl
  | succ n ih =>
    rw [fill_succ, List.getElem?_set, length_fill, ih (by omega)]
    by_cases he : k = a + n
    · rw [if_pos he.symm, if_pos (by omega), if_pos (by omega)]
    · rw [if_neg (Ne.symm he)]
      by_cases hk : a ≤ k ∧ k < a + n
      · rw [if_pos hk, if_pos (by omega)]
      · rw [if_neg hk, if_neg (by omega)]

/-! ## Scrolling -/

/-- The places from `s` to `e` get what is `d` above them, and the last `d` of them become `x`. -/
def scrollUp (s e d : ℕ) (x : α) (l : List α) : List α :=
  l.take s ++ (l.drop (s + d)).take (e - d - s) ++ List.replicate (min d (e - s)) x ++ l.drop e

/-- The places from `s` to `e` get what is `d` below them, and the first `d` of them become `x`. -/
def scrollDown (s e d : ℕ) (x : α) (l : List α) : List α :=
  l.take s ++ List.replicate (min d (e - s)) x ++ (l.drop s).take (e - d - s) ++ l.drop e

theorem map_scrollUp (f : α → β) (s e d : ℕ) (x : α) (l : List α) :
    (scrollUp s e d x l).map f = scrollUp s e d (f x) (l.map f) := by
  simp [scrollUp, List.map_take, List.map_drop]

theorem map_scrollDown (f : α → β) (s e d : ℕ) (x : α) (l : List α) :
    (scrollDown s e d x l).map f = scrollDown s e d (f x) (l.map f) := by
  simp [scrollDown, List.map_take, List.map_drop]

/-- What stays of the region is as long as it was. -/
theorem length_kept {m : ℕ} (he : e ≤ l.length) (hm : m ≤ s + d) :
    ((l.drop m).take (e - d - s)).length = e - d - s := by
  rw [List.length_take_of_le]
  rw [List.length_drop]
  omega

theorem length_scrollUp (hse : s ≤ e) (he : e ≤ l.length) : (scrollUp s e d x l).length = l.length := by
  rw [scrollUp, List.length_append, List.length_append, List.length_append,
    List.length_take_of_le (hse.trans he), length_kept he le_rfl, List.length_replicate, List.length_drop]
  rcases le_total d (e - s) with hd | hd
  · rw [min_eq_left hd]
    omega
  · rw [min_eq_right hd]
    omega

theorem length_scrollDown (hse : s ≤ e) (he : e ≤ l.length) :
    (scrollDown s e d x l).length = l.length := by
  rw [scrollDown, List.length_append, List.length_append, List.length_append,
    List.length_take_of_le (hse.trans he), length_kept he (Nat.le_add_right s d), List.length_replicate,
    List.length_drop]
  rcases le_total d (e - s) with hd | hd
  · rw [min_eq_left hd]
    omega
  · rw [min_eq_right hd]
    omega

theorem getElem?_scrollUp (hse : s ≤ e) (he : e ≤ l.length) (hd : d ≤ e - s) (k : ℕ) :
    (scrollUp s e d x l)[k]? =
      if k < s then l[k]? else if k < e - d then l[k + d]? else if k < e then some x else l[k]? := by
  have htop : (l.take s).length = s := List.length_take_of_le (hse.trans he)
  have hkept := length_kept (l := l) (s := s) (d := d) he le_rfl
  rw [scrollUp, min_eq_left hd, List.append_assoc, List.append_assoc]
  by_cases h1 : k < s
  · rw [if_pos h1, List.getElem?_append_left (by rw [htop]; exact h1), List.getElem?_take_of_lt h1]
  rw [if_neg h1, List.getElem?_append_right (by rw [htop]; exact not_lt.mp h1), htop]
  by_cases h2 : k < e - d
  · rw [if_pos h2, List.getElem?_append_left (by rw [hkept]; omega), List.getElem?_take_of_lt (by omega),
      List.getElem?_drop, show s + d + (k - s) = k + d by omega]
  rw [if_neg h2, List.getElem?_append_right (by rw [hkept]; omega), hkept]
  by_cases h3 : k < e
  · rw [if_pos h3, List.getElem?_append_left (by rw [List.length_replicate]; omega),
      List.getElem?_replicate, if_pos (by omega)]
  · rw [if_neg h3, List.getElem?_append_right (by rw [List.length_replicate]; omega),
      List.length_replicate, List.getElem?_drop, show e + (k - s - (e - d - s) - d) = k by omega]

theorem getElem?_scrollDown (hse : s ≤ e) (he : e ≤ l.length) (hd : d ≤ e - s) (k : ℕ) :
    (scrollDown s e d x l)[k]? =
      if k < s then l[k]? else if k < s + d then some x else if k < e then l[k - d]? else l[k]? := by
  have htop : (l.take s).length = s := List.length_take_of_le (hse.trans he)
  have hkept := length_kept (l := l) (s := s) (d := d) he (Nat.le_add_right s d)
  rw [scrollDown, min_eq_left hd, List.append_assoc, List.append_assoc]
  by_cases h1 : k < s
  · rw [if_pos h1, List.getElem?_append_left (by rw [htop]; exact h1), List.getElem?_take_of_lt h1]
  rw [if_neg h1, List.getElem?_append_right (by rw [htop]; exact not_lt.mp h1), htop]
  by_cases h2 : k < s + d
  · rw [if_pos h2, List.getElem?_append_left (by rw [List.length_replicate]; omega),
      List.getElem?_replicate, if_pos (by omega)]
  rw [if_neg h2, List.getElem?_append_right (by rw [List.length_replicate]; omega), List.length_replicate]
  by_cases h3 : k < e
  · rw [if_pos h3, List.getElem?_append_left (by rw [hkept]; omega), List.getElem?_take_of_lt (by omega),
      List.getElem?_drop, show s + (k - s - d) = k - d by omega]
  · rw [if_neg h3, List.getElem?_append_right (by rw [hkept]; omega), hkept, List.getElem?_drop,
      show e + (k - s - d - (e - d - s)) = k by omega]

/-- **Up.** What is above the region is carried down by `d`, the list is rotated, and what is below the
region is carried down again, over the places that were overwritten. -/
theorem scrollUp_of_rotate (hse : s ≤ e) (he : e ≤ l.length) (hd : d ≤ e - s) :
    moveUp (e - d) (l.length - e) d (fill (l.length - d) d x ((moveUp 0 s d l).rotate d)) =
      scrollUp s e d x l := by
  obtain ⟨htop, htop', -⟩ := moveUp_spec (l := l) (a := 0) (n := s) (d := d) (by omega)
  have hrotate : ∀ k, k < l.length - d → ((moveUp 0 s d l).rotate d)[k]? = (moveUp 0 s d l)[k + d]? := by
    intro k hk
    rw [List.getElem?_rotate (by rw [length_moveUp]; omega), length_moveUp,
      Nat.mod_eq_of_lt (by omega)]
  have hfill : ∀ k, (fill (l.length - d) d x ((moveUp 0 s d l).rotate d))[k]? =
      if l.length - d ≤ k ∧ k < l.length - d + d then some x
      else ((moveUp 0 s d l).rotate d)[k]? := by
    intro k
    rw [getElem?_fill (by rw [List.length_rotate, length_moveUp]; omega)]
  generalize hl : fill (l.length - d) d x ((moveUp 0 s d l).rotate d) = l' at hfill
  have hlen : l'.length = l.length := by rw [← hl]; simp
  obtain ⟨hout, hmoved, hrest⟩ :=
    moveUp_spec (l := l') (a := e - d) (n := l.length - e) (d := d) (by omega)
  refine List.ext_getElem? fun k => ?_
  rw [getElem?_scrollUp hse he hd]
  by_cases hk : k < l.length
  · by_cases h1 : k < e - d
    · rw [hout k (by omega), hfill, if_neg (by omega), hrotate k (by omega)]
      by_cases h2 : k < s
      · rw [if_pos h2, htop' (k + d) (by omega) (by omega), Nat.add_sub_cancel]
      · rw [if_neg h2, if_pos h1, htop (k + d) (by omega)]
    · rw [if_neg (by omega), if_neg h1]
      by_cases h2 : k < e
      · obtain ⟨j, h3, h4, hj⟩ := hrest k (by omega) (by omega)
        rw [if_pos h2, hj, hfill, if_pos (by omega)]
      · rw [if_neg h2, hmoved k (by omega) (by omega), hfill, if_neg (by omega),
          hrotate (k - d) (by omega), Nat.sub_add_cancel (by omega), htop k (by omega)]
  · rw [List.getElem?_eq_none (by rw [length_moveUp, hlen]; omega)]
    simp only [List.getElem?_eq_none (show l.length ≤ k by omega)]
    rw [if_neg (by omega), if_neg (by omega), if_neg (by omega)]

/-- **Down.** What is below the region is carried up by `d`, the list is rotated back, and what is above
the region is carried up again, over the places that were overwritten. -/
theorem scrollDown_of_rotate (hse : s ≤ e) (he : e ≤ l.length) (hd : d ≤ e - s) :
    moveDown 0 s d
        (fill 0 d x ((moveDown (e - d) (l.length - e) d l).rotate (l.length - d))) =
      scrollDown s e d x l := by
  obtain ⟨hbottom, hbottom', -⟩ :=
    moveDown_spec (l := l) (a := e - d) (n := l.length - e) (d := d) (by omega)
  generalize hm : moveDown (e - d) (l.length - e) d l = m at hbottom hbottom'
  have hmlen : m.length = l.length := by rw [← hm, length_moveDown]
  have hrotate : ∀ k, d ≤ k → k < l.length → (m.rotate (l.length - d))[k]? = m[k - d]? := by
    intro k hdk hk
    rw [List.getElem?_rotate (by omega), hmlen, Nat.mod_eq_sub_mod (by omega),
      Nat.mod_eq_of_lt (by omega)]
    congr 1
    omega
  have hfill : ∀ k, (fill 0 d x (m.rotate (l.length - d)))[k]? =
      if k < d then some x else (m.rotate (l.length - d))[k]? := by
    intro k
    rw [getElem?_fill (by rw [List.length_rotate, hmlen]; omega)]
    simp
  generalize hl : fill 0 d x (m.rotate (l.length - d)) = l' at hfill
  have hlen : l'.length = l.length := by rw [← hl]; simp [hmlen]
  obtain ⟨hout, hmoved, hrest⟩ := moveDown_spec (l := l') (a := 0) (n := s) (d := d) (by omega)
  refine List.ext_getElem? fun k => ?_
  rw [getElem?_scrollDown hse he hd]
  by_cases hk : k < l.length
  · by_cases h1 : k < s
    · rw [if_pos h1, hmoved k (by omega) (by omega), hfill, if_neg (by omega),
        hrotate (k + d) (by omega) (by omega), Nat.add_sub_cancel, hbottom k (by omega)]
    · rw [if_neg h1]
      by_cases h2 : k < s + d
      · obtain ⟨j, h3, h4, hj⟩ := hrest k (by omega) (by omega)
        rw [if_pos h2, hj, hfill, if_pos (by omega)]
      · rw [if_neg h2, hout k (by omega), hfill, if_neg (by omega), hrotate k (by omega) hk]
        by_cases h3 : k < e
        · rw [if_pos h3, hbottom (k - d) (by omega)]
        · rw [if_neg h3, hbottom' (k - d) (by omega) (by omega), Nat.sub_add_cancel (by omega)]
  · rw [List.getElem?_eq_none (by rw [length_moveDown, hlen]; omega)]
    simp only [List.getElem?_eq_none (show l.length ≤ k by omega)]
    rw [if_neg (by omega), if_neg (by omega), if_neg (by omega)]

end Region

end Clinch
