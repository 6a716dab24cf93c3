import Clinch.Grid.Cell
import Clinch.Rust

/-!
# Rows

`model/grid/row.rs`. A row keeps the number of cells that may have been modified since it was last
reset, so that a reset does not touch the others.

* `Row`, `new`, `dirtyCells`, `reset`: the cells and the occupied part;
* `indexMut`, `getMut`, `lastMut`: a mutable borrow raises the occupied part.
-/

set_option autoImplicit false

namespace Clinch

/-- `Row`. -/
structure Row where
  inner : List Cell
  occ : ℕ
  deriving DecidableEq

namespace Row

/-- `Row::new`. -/
def new (columns : ℕ) : Row := ⟨List.replicate columns Cell.default, 0⟩

/-- `len`. -/
def len (row : Row) : ℕ := row.inner.length

/-- `dirty_cells`. -/
def dirtyCells (row : Row) : Result (List Cell) := sliceRange row.inner 0 row.occ

/-- `reset`: all cells are reset when the last one has another discriminant than the template. -/
def reset (row : Row) (template : Cell) : Result Row := do
  let last ← index row.inner (row.len - 1)
  let occ := if last.discriminant ≠ template.discriminant then row.len else row.occ
  let dirty ← sliceRange row.inner 0 occ
  return ⟨dirty.map (fun cell => cell.reset template) ++ row.inner.drop occ, 0⟩

/-- `IndexMut<usize>`: change the cell at a column. -/
def indexMut (row : Row) (i : ℕ) (f : Cell → Cell) : Result Row :=
  if i < row.len then .ok ⟨row.inner.modify i f, max row.occ (i + 1)⟩ else .error .bounds

/-- `get_mut`: change the cell at a column, if there is one. -/
def getMut (row : Row) (i : ℕ) (f : Cell → Cell) : Option Row :=
  if i < row.len then some ⟨row.inner.modify i f, max row.occ (i + 1)⟩ else none

/-- `last_mut`: change the last cell, if there is one. -/
def lastMut (row : Row) (f : Cell → Cell) : Option Row :=
  if row.inner = [] then none else some ⟨row.inner.modify (row.len - 1) f, row.len⟩

/-! ## What is read back -/

variable {row row' : Row} {i : ℕ} {f : Cell → Cell}

theorem indexMut_ok (h : row.indexMut i f = .ok row') :
    i < row.len ∧ row' = ⟨row.inner.modify i f, max row.occ (i + 1)⟩ := by
  rw [indexMut] at h
  split at h
  · rename_i hi
    exact ⟨hi, (Except.ok.inj h).symm⟩
  · exact nomatch h

/-- The cells behind the occupied part are blank, of one color. -/
def Tidy (row : Row) : Prop :=
  row.occ ≤ row.len ∧ ∃ bg, ∀ cell ∈ row.inner.drop row.occ, cell = Cell.ofColor bg

/-- A blank row of a color. -/
def blank (columns : ℕ) (bg : Color) : Row := ⟨List.replicate columns (Cell.ofColor bg), 0⟩

theorem new_eq_blank (columns : ℕ) : new columns = blank columns (.named .background) := rfl

theorem tidy_blank (columns : ℕ) (bg : Color) : (blank columns bg).Tidy :=
  ⟨Nat.zero_le _, bg, fun _ h => List.eq_of_mem_replicate (List.mem_of_mem_drop h)⟩

theorem sliceRange_inner {n : ℕ} (h : n ≤ row.len) :
    sliceRange row.inner 0 n = .ok (row.inner.take n) := by
  rw [sliceRange, if_pos ⟨Nat.zero_le _, h⟩, List.drop_zero]

/-- A tidy row is blank after a reset. -/
theorem reset_eq (h : row.Tidy) (hlen : 0 < row.len) (template : Cell) :
    row.reset template = .ok (blank row.len template.bg) := by
  obtain ⟨hocc, bg, hbg⟩ := h
  obtain ⟨last, hlast⟩ : ∃ last, row.inner[row.len - 1]? = some last :=
    ⟨_, List.getElem?_eq_getElem (Nat.sub_lt hlen Nat.one_pos)⟩
  have hreset : ∀ cell : Cell, cell.reset template = Cell.ofColor template.bg := fun _ => rfl
  rw [reset, index_ok hlast, ok_bind]
  dsimp only
  split
  · rw [sliceRange_inner le_rfl, ok_bind]
    simp [hreset, List.map_const', blank, len]
    rfl
  · rename_i hdisc
    have htail : row.inner.drop row.occ =
        List.replicate (row.len - row.occ) (Cell.ofColor template.bg) := by
      rw [List.eq_replicate_iff, List.length_drop]
      refine ⟨rfl, fun cell hcell => ?_⟩
      rw [hbg cell hcell]
      have hlt : row.occ < row.len := by
        by_contra hge
        rw [List.drop_eq_nil_of_le (not_lt.mp hge)] at hcell
        exact nomatch hcell
      have hmem : last ∈ row.inner.drop row.occ := by
        refine List.mem_of_getElem? (i := row.len - 1 - row.occ) ?_
        rw [List.getElem?_drop, Nat.add_sub_cancel' (by omega), hlast]
      have hdisc : last.bg = template.bg := not_not.mp hdisc
      rw [← hdisc, hbg last hmem]
      rfl
    rw [sliceRange_inner hocc, ok_bind, htail]
    simp only [hreset, List.map_const', List.length_take, blank]
    have hmin : min row.occ row.inner.length = row.occ := Nat.min_eq_left hocc
    rw [List.replicate_append_replicate, hmin, Nat.add_sub_cancel' hocc]
    rfl

end Row

end Clinch
