import Clinch.Grid.Row
import Clinch.Region

/-!
# The ring of rows

`app/src/terminal/model/grid/storage.rs`. The rows of a grid are kept in a vector, of which any place may
hold the bottommost row; the rows are stored from the top, or from the bottom.

* `Storage` and its operations;
* `place`: where a row is stored; `content`: the rows, from the top;
* `Full`: every place of the vector holds a row of the screen.
-/

set_option autoImplicit false

namespace Clinch

open Region

/-- `Storage`. -/
structure Storage where
  inner : List Row
  bottomRow : ℕ
  visibleLines : ℕ
  len : ℕ
  isSequential : Bool
  maxCacheSize : ℕ
  deriving DecidableEq

namespace Storage

/-! ## Construction -/

/-- `with_rows`. -/
def withRows (rows : List Row) (isSequential : Bool) (visibleLines : ℕ) : Result Storage := do
  debugAssert (decide (visibleLines ≤ rows.length))
  return ⟨rows, 0, visibleLines, rows.length, isSequential, 1⟩

/-- `with_capacity`. -/
def withCapacity (visibleLines columns : ℕ) (isSequential : Bool) : Result Storage :=
  withRows (List.replicate visibleLines (Row.new columns)) isSequential visibleLines

/-! ## Indices -/

/-- `from_grid_index`. -/
def fromGridIndex (s : Storage) (requested : ℕ) : Result ℕ := do
  debugAssert (decide (requested < s.len))
  let requested := if s.isSequential then requested else s.len - requested - 1
  let zeroed := s.bottomRow + requested
  return if s.inner.length ≤ zeroed then zeroed - s.inner.length else zeroed

/-- `to_grid_index`. -/
def toGridIndex (s : Storage) (row : ℕ) : Result ℕ := do
  let history ← checkedSub s.len s.visibleLines
  return history + row

/-- `Index<usize>`. -/
def get (s : Storage) (i : ℕ) : Result Row := do
  index s.inner (← s.fromGridIndex i)

/-- `IndexMut<usize>`: change a row. -/
def modify (s : Storage) (i : ℕ) (f : Row → Result Row) : Result Storage := do
  let i ← s.fromGridIndex i
  let row ← f (← index s.inner i)
  return { s with inner := s.inner.set i row }

/-- `Index<VisibleRow>`. -/
def getLine (s : Storage) (row : ℕ) : Result Row := do
  s.get (← s.toGridIndex row)

/-- `IndexMut<VisibleRow>`: change a row. -/
def modifyLine (s : Storage) (row : ℕ) (f : Row → Result Row) : Result Storage := do
  s.modify (← s.toGridIndex row) f

/-- `swap`. -/
def swap (s : Storage) (a b : ℕ) : Result Storage := do
  let a ← s.fromGridIndex a
  let b ← s.fromGridIndex b
  let rowA ← index s.inner a
  let rowB ← index s.inner b
  return { s with inner := (s.inner.set a rowB).set b rowA }

/-- `swap_lines`. -/
def swapLines (s : Storage) (a b : ℕ) : Result Storage := do
  s.swap (← s.toGridIndex a) (← s.toGridIndex b)

/-! ## Moving the bottom row -/

/-- `(self.bottom_row as isize + count + len as isize) as usize % len`. -/
def moveBottom (s : Storage) (count : ℤ) : Result Storage := do
  debugAssert (decide (count.natAbs ≤ s.inner.length))
  if s.inner.length = 0 then .error .overflow
  else return { s with bottomRow := (s.bottomRow + count + s.inner.length).toNat % s.inner.length }

/-- `retract`. -/
def retract (s : Storage) (count : ℤ) : Result Storage :=
  s.moveBottom (if s.isSequential then -count else count)

/-- `extend`. -/
def extend (s : Storage) (count : ℤ) : Result Storage :=
  s.moveBottom (if s.isSequential then count else -count)

/-- `rezero`. -/
def rezero (s : Storage) : Storage :=
  { s with inner := s.inner.rotate s.bottomRow, bottomRow := 0 }

/-! ## Changing the number of rows -/

/-- `truncate_unused_rows`. -/
def truncateUnusedRows (s : Storage) : Storage :=
  { s.rezero with inner := s.rezero.inner.take s.len }

/-- `shrink_lines`. -/
def shrinkLines (s : Storage) (shrinkage : ℕ) : Result Storage := do
  let len ← checkedSub s.len shrinkage
  let s := { s with len := len }
  return if s.len + s.maxCacheSize < s.inner.length then s.truncateUnusedRows else s

/-- `initialize`. -/
def initializeRows (s : Storage) (additionalRows columns : ℕ) : Storage :=
  if s.inner.length < s.len + additionalRows then
    { s.rezero with
      inner := s.rezero.inner ++
        List.replicate (max additionalRows s.maxCacheSize) (Row.new columns)
      len := s.len + additionalRows }
  else { s with len := s.len + additionalRows }

/-- `truncate_to`. -/
def truncateTo (s : Storage) (targetLen : ℕ) : Storage :=
  if targetLen < s.len then
    truncateUnusedRows { s.rezero with
      inner := s.rezero.inner.drop (s.len - targetLen)
      len := targetLen
      visibleLines := min s.visibleLines targetLen }
  else s.truncateUnusedRows

/-- `push_from_scrollback`. -/
def pushFromScrollback (s : Storage) (rows : List Row) : Storage :=
  { s.rezero with
    inner := s.rezero.inner.take s.len ++ (if s.isSequential then rows else rows.reverse)
    len := s.len + rows.length }

/-! ## The rows, from the top -/

variable {s s' : Storage} {i j k : ℕ} {row : Row} {f : Row → Result Row}

/-- Every place of the vector holds a row of the screen. -/
structure Full (s : Storage) : Prop where
  len : s.len = s.inner.length
  visibleLines : s.visibleLines = s.inner.length
  bottomRow : s.bottomRow < s.inner.length

/-- Where the row of a full ring is stored. -/
def place (s : Storage) (i : ℕ) : ℕ :=
  (s.bottomRow + if s.isSequential then i else s.inner.length - 1 - i) % s.inner.length

/-- The rows of a full ring, from the top. -/
def content (s : Storage) : List Row :=
  if s.isSequential then s.inner.rotate s.bottomRow else (s.inner.rotate s.bottomRow).reverse

@[simp] theorem length_content (s : Storage) : s.content.length = s.inner.length := by
  unfold content
  split_ifs <;> simp

theorem getElem?_content (hi : i < s.inner.length) : s.content[i]? = s.inner[s.place i]? := by
  unfold content place
  split_ifs
  · rw [List.getElem?_rotate hi, Nat.add_comm]
  · rw [List.getElem?_reverse (by simpa using hi), List.length_rotate, List.getElem?_rotate (by omega),
      Nat.add_comm]

theorem place_lt (h : 0 < s.inner.length) (i : ℕ) : s.place i < s.inner.length := Nat.mod_lt _ h

theorem mod_once {n m : ℕ} (h : m < 2 * n) : m % n = if n ≤ m then m - n else m := by
  split_ifs with hn
  · rw [Nat.mod_eq_sub_mod hn, Nat.mod_eq_of_lt (by omega)]
  · exact Nat.mod_eq_of_lt (by omega)

/-- Without a division, as the source has it. -/
theorem Full.place_eq (h : s.Full) (hi : i < s.inner.length) :
    s.place i = if s.inner.length ≤ s.bottomRow + (if s.isSequential then i else s.len - i - 1) then
      s.bottomRow + (if s.isSequential then i else s.len - i - 1) - s.inner.length
    else s.bottomRow + (if s.isSequential then i else s.len - i - 1) := by
  have hbottom := h.bottomRow
  rw [place, mod_once (by split_ifs <;> omega), h.len, show s.inner.length - 1 - i =
    s.inner.length - i - 1 by omega]

theorem Full.place_inj (h : s.Full) (hi : i < s.inner.length) (hj : j < s.inner.length) :
    s.place i = s.place j ↔ i = j := by
  have hbottom := h.bottomRow
  have hlen := h.len
  rw [h.place_eq hi, h.place_eq hj]
  split_ifs <;> omega

theorem Full.fromGridIndex (h : s.Full) (hi : i < s.inner.length) :
    s.fromGridIndex i = .ok (s.place i) := by
  rw [Storage.fromGridIndex, debugAssert_ok (decide_eq_true (by rw [h.len]; exact hi)), h.place_eq hi]
  rfl

theorem Full.toGridIndex (h : s.Full) (i : ℕ) : s.toGridIndex i = .ok i := by
  rw [Storage.toGridIndex, checkedSub_ok (by rw [h.len, h.visibleLines]), h.len, h.visibleLines, ok_bind,
    Nat.sub_self, Nat.zero_add]
  rfl

/-! ## Operations on a full ring -/

/-- A full ring of these rows. -/
structure Holds (s : Storage) (l : List Row) : Prop where
  full : s.Full
  content : s.content = l

variable {l : List Row} {row' : Row} {c : ℕ}

theorem Holds.length (h : s.Holds l) : s.inner.length = l.length := by
  rw [← h.content, length_content]

theorem Holds.pos (h : s.Holds l) : 0 < l.length := by
  have := h.full.bottomRow
  rw [h.length] at this
  omega

theorem Holds.getElem? (h : s.Holds l) (hi : i < l.length) : l[i]? = s.inner[s.place i]? := by
  rw [← h.content, getElem?_content (by rw [h.length]; exact hi)]

/-- Other rows in the same places. -/
theorem Holds.put (h : s.Holds l) {inner l' : List Row} (hinner : inner.length = s.inner.length)
    (hl : l'.length = l.length) (hget : ∀ k, k < l.length → l'[k]? = inner[s.place k]?) :
    Holds { s with inner := inner } l' := by
  have hplace : ∀ k, place { s with inner := inner } k = s.place k := by
    intro k
    simp only [place, hinner]
  refine ⟨⟨h.full.len.trans hinner.symm, h.full.visibleLines.trans hinner.symm, ?_⟩, ?_⟩
  · rw [hinner]
    exact h.full.bottomRow
  · refine List.ext_getElem? fun k => ?_
    by_cases hk : k < l.length
    · rw [getElem?_content (by rw [hinner, h.length]; exact hk), hplace, hget k hk]
    · rw [List.getElem?_eq_none (by rw [length_content, hinner, h.length]; omega),
        List.getElem?_eq_none (by omega)]

theorem Holds.get (h : s.Holds l) (hrow : l[i]? = some row) : s.get i = .ok row := by
  have hi : i < l.length := (List.getElem?_eq_some_iff.mp hrow).1
  rw [Storage.get, h.full.fromGridIndex (by rw [h.length]; exact hi), ok_bind]
  exact index_ok ((h.getElem? hi).symm.trans hrow)

theorem Holds.getLine (h : s.Holds l) (hrow : l[i]? = some row) : s.getLine i = .ok row := by
  rw [Storage.getLine, h.full.toGridIndex, ok_bind]
  exact h.get hrow

theorem Holds.modify (h : s.Holds l) (hrow : l[i]? = some row) (hf : f row = .ok row') :
    Returns (fun s' => s'.Holds (l.set i row')) (s.modify i f) := by
  have hi : i < l.length := (List.getElem?_eq_some_iff.mp hrow).1
  have hi' : i < s.inner.length := by rw [h.length]; exact hi
  rw [Storage.modify, h.full.fromGridIndex hi', ok_bind, index_ok ((h.getElem? hi).symm.trans hrow),
    ok_bind, hf, ok_bind]
  refine .ok (h.put (List.length_set ..) (List.length_set ..) fun k hk => ?_)
  rw [List.getElem?_set, List.getElem?_set, h.getElem? hk]
  simp only [h.full.place_inj hi' (show k < s.inner.length by rw [h.length]; exact hk), hi,
    place_lt (show 0 < s.inner.length by omega)]

theorem Holds.modifyLine (h : s.Holds l) (hrow : l[i]? = some row) (hf : f row = .ok row') :
    Returns (fun s' => s'.Holds (l.set i row')) (s.modifyLine i f) := by
  rw [Storage.modifyLine, h.full.toGridIndex, ok_bind]
  exact h.modify hrow hf

theorem Holds.swap (h : s.Holds l) (hi : i < l.length) (hj : j < l.length) :
    Returns (fun s' => s'.Holds (swapAt l i j)) (s.swap i j) := by
  have hi' : i < s.inner.length := by rw [h.length]; exact hi
  have hj' : j < s.inner.length := by rw [h.length]; exact hj
  have hpos : 0 < s.inner.length := by omega
  have hpi := place_lt hpos i
  have hpj := place_lt hpos j
  rw [Storage.swap, h.full.fromGridIndex hi', ok_bind, h.full.fromGridIndex hj', ok_bind,
    index_ok (List.getElem?_eq_getElem hpi), ok_bind, index_ok (List.getElem?_eq_getElem hpj), ok_bind,
    ← swapAt_eq hpi hpj]
  refine .ok (h.put (length_swapAt ..) (length_swapAt ..) fun k hk => ?_)
  have hk' : k < s.inner.length := by rw [h.length]; exact hk
  rw [getElem?_swapAt hi hj, getElem?_swapAt hpi hpj, h.getElem? hi, h.getElem? hj, h.getElem? hk]
  simp only [h.full.place_inj hk' hi', h.full.place_inj hk' hj']

theorem Holds.swapLines (h : s.Holds l) (hi : i < l.length) (hj : j < l.length) :
    Returns (fun s' => s'.Holds (swapAt l i j)) (s.swapLines i j) := by
  rw [Storage.swapLines, h.full.toGridIndex, ok_bind, h.full.toGridIndex, ok_bind]
  exact h.swap hi hj

/-- The bottom row is moved up the vector. -/
theorem Holds.rotate (h : s.Holds l) (m : ℕ) :
    Holds { s with bottomRow := (s.bottomRow + m) % s.inner.length }
      (l.rotate (if s.isSequential then m else l.length - m % l.length)) := by
  have hpos : 0 < s.inner.length := by rw [h.length]; exact h.pos
  refine ⟨⟨h.full.len, h.full.visibleLines, Nat.mod_lt _ hpos⟩, ?_⟩
  have hcontent := h.content
  unfold Storage.content at hcontent ⊢
  rw [List.rotate_mod, ← List.rotate_rotate]
  by_cases hs : s.isSequential = true
  · rw [if_pos hs] at hcontent
    rw [if_pos hs, if_pos hs, hcontent]
  · rw [if_neg hs] at hcontent
    rw [if_neg hs, if_neg hs, List.reverse_rotate, hcontent, List.length_rotate, h.length]

theorem moveBottom_ok (h : 0 < s.inner.length) (hc : c ≤ s.inner.length) :
    s.moveBottom c = .ok { s with bottomRow := (s.bottomRow + c) % s.inner.length } ∧
    s.moveBottom (-c) =
      .ok { s with bottomRow := (s.bottomRow + (s.inner.length - c)) % s.inner.length } := by
  constructor
  · rw [moveBottom, debugAssert_ok (decide_eq_true (by omega)), ok_bind, if_neg (by omega),
      show ((s.bottomRow : ℤ) + c + s.inner.length).toNat = s.bottomRow + c + s.inner.length by omega,
      Nat.add_mod_right]
    rfl
  · rw [moveBottom, debugAssert_ok (decide_eq_true (by omega)), ok_bind, if_neg (by omega),
      show ((s.bottomRow : ℤ) + -c + s.inner.length).toNat = s.bottomRow + (s.inner.length - c) by omega]
    rfl

theorem Holds.extend (h : s.Holds l) (hc : c ≤ l.length) :
    Returns (fun s' => s'.Holds (l.rotate c)) (s.extend c) := by
  have hlen := h.length
  have hpos := h.pos
  obtain ⟨hup, hdown⟩ := moveBottom_ok (s := s) (c := c) (by omega) (by omega)
  rw [Storage.extend]
  by_cases hs : s.isSequential = true
  · have hholds := h.rotate c
    rw [if_pos hs] at hholds
    rw [if_pos hs, hup]
    exact .ok hholds
  · have hholds := h.rotate (s.inner.length - c)
    rw [if_neg hs, hlen] at hholds
    have hturn : l.rotate (l.length - (l.length - c) % l.length) = l.rotate c := by
      rcases Nat.eq_zero_or_pos c with rfl | hcpos
      · simp
      · rw [Nat.mod_eq_of_lt (a := l.length - c) (by omega), Nat.sub_sub_self hc]
    rw [hturn] at hholds
    rw [if_neg hs, hdown, hlen]
    exact .ok hholds

theorem Holds.retract (h : s.Holds l) (hc : c ≤ l.length) :
    Returns (fun s' => s'.Holds (l.rotate (l.length - c))) (s.retract c) := by
  have hlen := h.length
  have hpos := h.pos
  obtain ⟨hup, hdown⟩ := moveBottom_ok (s := s) (c := c) (by omega) (by omega)
  rw [Storage.retract]
  by_cases hs : s.isSequential = true
  · have hholds := h.rotate (s.inner.length - c)
    rw [if_pos hs, hlen] at hholds
    rw [if_pos hs, hdown, hlen]
    exact .ok hholds
  · have hholds := h.rotate c
    rw [if_neg hs, hlen] at hholds
    have hturn : l.rotate (l.length - c % l.length) = l.rotate (l.length - c) := by
      rcases Nat.lt_or_eq_of_le hc with hlt | rfl
      · rw [Nat.mod_eq_of_lt hlt]
      · simp
    rw [hturn] at hholds
    rw [if_neg hs, hup, hlen]
    exact .ok hholds

theorem Holds.shrinkLines_zero (h : s.Holds l) : s.shrinkLines 0 = .ok s := by
  rw [Storage.shrinkLines, checkedSub_ok (Nat.zero_le _), ok_bind]
  simp only [Nat.sub_zero]
  rw [if_neg (by rw [h.full.len]; omega)]
  rfl

theorem holds_withRows (rows : List Row) (h : 0 < rows.length) (isSequential : Bool) :
    Returns (fun s => s.Holds (if isSequential then rows else rows.reverse))
      (withRows rows isSequential rows.length) := by
  rw [withRows, debugAssert_ok (decide_eq_true le_rfl), ok_bind]
  refine .ok ⟨⟨rfl, rfl, h⟩, ?_⟩
  unfold Storage.content
  rw [List.rotate_zero]

end Storage

end Clinch
