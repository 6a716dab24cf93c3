import Mathlib

/-!
# Points

`crates/warpui_core/src/text/point.rs`: a row and a column. `u32` values are numbers: on a text of
fewer characters than the largest `u32` no row or column is larger.

* `Point`, its order, addition and subtraction;
* `Point.add_assoc`, `Point.le_add`: points along a text never decrease;
* `Point.add_sub_cancel`: subtraction undoes addition.
-/

set_option autoImplicit false

namespace Clinch.BufferText

/-- `Point`. -/
@[ext] structure Point where
  row : ℕ
  column : ℕ
deriving DecidableEq, Repr

namespace Point

instance : Zero Point := ⟨⟨0, 0⟩⟩

instance : Add Point :=
  ⟨fun p q => if q.row = 0 then ⟨p.row, p.column + q.column⟩ else ⟨p.row + q.row, q.column⟩⟩

/-- `Sub`; its debug assertion is a hypothesis of the lemmas. -/
instance : Sub Point :=
  ⟨fun p q => if p.row = q.row then ⟨0, p.column - q.column⟩ else ⟨p.row - q.row, p.column⟩⟩

/-- `Ord`: by row, then by column. -/
instance : LinearOrder Point :=
  LinearOrder.lift' (fun p => toLex (p.row, p.column)) fun _ _ h =>
    Point.ext (congrArg (fun r => (ofLex r).1) h) (congrArg (fun r => (ofLex r).2) h)

theorem add_def (p q : Point) :
    p + q = if q.row = 0 then ⟨p.row, p.column + q.column⟩ else ⟨p.row + q.row, q.column⟩ := rfl

theorem sub_def (p q : Point) :
    p - q = if p.row = q.row then ⟨0, p.column - q.column⟩ else ⟨p.row - q.row, p.column⟩ := rfl

@[simp] theorem zero_row : (0 : Point).row = 0 := rfl

@[simp] theorem zero_column : (0 : Point).column = 0 := rfl

theorem lt_iff {p q : Point} :
    p < q ↔ p.row < q.row ∨ p.row = q.row ∧ p.column < q.column := by
  change toLex (p.row, p.column) < toLex (q.row, q.column) ↔ _
  rw [Prod.Lex.toLex_lt_toLex]

theorem le_iff {p q : Point} :
    p ≤ q ↔ p.row < q.row ∨ p.row = q.row ∧ p.column ≤ q.column := by
  change toLex (p.row, p.column) ≤ toLex (q.row, q.column) ↔ _
  rw [Prod.Lex.toLex_le_toLex]

@[simp] theorem add_row (p q : Point) : (p + q).row = p.row + q.row := by
  rw [add_def]
  split <;> simp_all

theorem add_column (p q : Point) :
    (p + q).column = if q.row = 0 then p.column + q.column else q.column := by
  rw [add_def]
  split <;> rfl

instance : AddMonoid Point where
  add_assoc p q r := by
    ext
    · simp only [add_row]
      omega
    · simp only [add_column, add_row, Nat.add_eq_zero_iff]
      grind
  zero_add p := by
    ext <;> simp [add_column]
  add_zero p := by
    ext <;> simp [add_column]
  nsmul := nsmulRec

theorem le_add (p q : Point) : p ≤ p + q := by
  rw [le_iff, add_row, add_column]
  split <;> omega

theorem lt_add {p q : Point} (hq : q ≠ 0) : p < p + q := by
  refine lt_of_le_of_ne (le_add p q) fun h => hq ?_
  have hrow := congrArg row h
  have hcolumn := congrArg column h
  rw [add_row] at hrow
  rw [add_column, if_pos (by omega)] at hcolumn
  ext
  · rw [zero_row]
    omega
  · rw [zero_column]
    omega

/-- Subtraction undoes addition. -/
theorem add_sub_cancel (p q : Point) : p + q - p = q := by
  rw [sub_def]
  ext
  · split <;> simp_all
  · split
    · rename_i h
      rw [add_row] at h
      rw [add_column, if_pos (by omega)]
      simp
    · rename_i h
      rw [add_row] at h
      rw [add_column, if_neg (by omega)]

end Point

end Clinch.BufferText
