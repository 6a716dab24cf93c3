import Clinch.FlatStorage.Kept

/-!
# Rows with paired cells

A row in which every wide character has its spacer behind it is stored in as many cells as it had,
so it can be shown.

* `Paired`: the rows a terminal means to write;
* `PushFits`: the loop over the cells never counts more cells than it has passed;
* **`Paired.rowShows`**: a row with paired cells can be shown.
-/

set_option autoImplicit false

namespace Clinch

namespace FlatStorage

/-- Every wide character has its spacer behind it, and a leading spacer, which is no other spacer,
is in the last column only. -/
structure Paired (columns : ℕ) (cells : List Cell) : Prop where
  length_le : cells.length ≤ columns
  spacer : ∀ done cell rest, cells = done ++ cell :: rest → cell.flags.has .wideChar = true →
    cell.flags.intersects [.wideCharSpacer, .leadingWideCharSpacer] = false →
      ∃ next rest', rest = next :: rest' ∧ next.flags.has .wideCharSpacer = true
  leading : ∀ done cell rest, cells = done ++ cell :: rest →
    cell.flags.has .leadingWideCharSpacer = true →
      done.length + 1 = columns ∧ cell.flags.has .wideCharSpacer = false

/-- The last of the cells is a wide character. -/
def EndsWide (cells : List Cell) : Prop :=
  ∃ done cell, cells = done ++ [cell] ∧ cell.flags.has .wideChar = true ∧
    cell.flags.intersects [.wideCharSpacer, .leadingWideCharSpacer] = false

/-- The loop over the cells after the cells `done`: it has counted no more cells than it has passed,
but for the spacer of a wide character that comes next. -/
structure PushFits (columns : ℕ) (done : List Cell) (p : RowPush) : Prop where
  idx_eq : p.idx + 1 = done.length
  last_ge : -1 ≤ p.lastCell
  last_le : p.lastCell ≤ p.idx
  narrow_or_wide : ∀ info ∈ p.entryBuilder.row.infos, NarrowOrWide info
  fits : (cellsOf p.entryBuilder.row.infos : ℤ) ≤ p.lastCell + 1 ∨
    EndsWide done ∧ p.lastCell = p.idx ∧ (cellsOf p.entryBuilder.row.infos : ℤ) ≤ p.idx + 2
  leading : p.entryBuilder.row.leading = true →
    done.length = columns ∧ cellsOf p.entryBuilder.row.infos ≤ columns - 1

/-- What storing a grapheme does to the loop. -/
theorem store_ok {p p' : RowPush} {grapheme : Grapheme} (h : p.store grapheme = .ok p') :
    p'.entryBuilder.row.infos = p.entryBuilder.row.infos ++ [grapheme.info] ∧
      p'.entryBuilder.row.leading = p.entryBuilder.row.leading ∧ p'.idx = p.idx ∧
      p'.lastCell = p.lastCell := by
  obtain ⟨b, hb, h⟩ := bind_eq_ok h
  obtain ⟨content, -, e⟩ := bind_eq_ok h
  cases e
  obtain ⟨hinfos, -, -, -, hleading⟩ := EntryBuilder.processGraphemeInfoUnchecked_ok hb
  exact ⟨hinfos, hleading, rfl, rfl⟩

theorem fillGap_ok {n : ℕ} {p p' : RowPush} (h : RowPush.fillGap n p = .ok p') :
    p'.entryBuilder.row.infos =
        p.entryBuilder.row.infos ++ List.replicate n Grapheme.emptyCell.info ∧
      p'.entryBuilder.row.leading = p.entryBuilder.row.leading ∧ p'.idx = p.idx := by
  induction n generalizing p with
  | zero =>
    cases h
    exact ⟨(List.append_nil _).symm, rfl, rfl⟩
  | succ n ih =>
    obtain ⟨p₁, hp₁, h⟩ := bind_eq_ok h
    obtain ⟨hinfos₁, hleading₁, hidx₁, -⟩ := store_ok hp₁
    obtain ⟨hinfos, hleading, hidx⟩ := ih h
    rw [hinfos, hinfos₁, List.append_assoc, hleading, hleading₁, hidx, hidx₁]
    exact ⟨rfl, rfl, rfl⟩

theorem newFromCell_width {cell : Cell} {grapheme : Grapheme}
    (h : Grapheme.newFromCell cell = .ok grapheme) :
    grapheme.info.cellWidth = 1 + (cell.flags.has .wideChar).toNat := by
  rw [Grapheme.newFromCell] at h
  split at h
  · cases h
    rfl
  · cases h

theorem cellsOf_replicate_empty (n : ℕ) :
    cellsOf (List.replicate n Grapheme.emptyCell.info) = n := by
  simp [cellsOf, Grapheme.emptyCell]

theorem noteAttributes_place (p : RowPush) (cell : Cell) :
    (p.noteAttributes cell).1.entryBuilder = p.entryBuilder ∧
      (p.noteAttributes cell).1.lastCell = p.lastCell ∧
      (p.noteAttributes cell).1.idx = p.idx := by
  unfold RowPush.noteAttributes
  dsimp only
  split_ifs <;> cases cell.endOfPromptMarker <;> exact ⟨rfl, rfl, rfl⟩

/-- A cell with content, behind cells that take no more room than they had. -/
theorem PushFits.pushContent {columns : ℕ} {done : List Cell} {cell : Cell} {p p' : RowPush}
    (hidx : p.idx = done.length) (hge : -1 ≤ p.lastCell) (hlt : p.lastCell < p.idx)
    (hinfos : ∀ info ∈ p.entryBuilder.row.infos, NarrowOrWide info)
    (hfits : (cellsOf p.entryBuilder.row.infos : ℤ) ≤ p.lastCell + 1)
    (hleading : p.entryBuilder.row.leading = false)
    (hcell : cell.flags.intersects [.wideCharSpacer, .leadingWideCharSpacer] = false)
    (hok : p.pushContent cell = .ok p') : PushFits columns (done ++ [cell]) p' := by
  obtain ⟨hbuilder, hlast, hidx'⟩ := noteAttributes_place p cell
  rw [RowPush.pushContent] at hok
  generalize p.noteAttributes cell = noted at hbuilder hlast hidx' hok
  obtain ⟨p₁, needsProcessing⟩ := noted
  obtain ⟨grapheme, hgrapheme, hok⟩ := bind_eq_ok hok
  dsimp only at hok hbuilder hlast hidx'
  have hlen : ((done ++ [cell]).length : ℤ) = done.length + 1 := by simp
  split at hok
  · obtain ⟨p₂, hp₂, hok⟩ := bind_eq_ok hok
    obtain ⟨hinfos₂, hleading₂, hidx₂⟩ := fillGap_ok hp₂
    obtain ⟨hinfos₃, hleading₃, hidx₃, hlast₃⟩ := store_ok hok
    dsimp only at hinfos₂ hleading₂ hidx₂ hinfos₃ hleading₃ hidx₃ hlast₃
    rw [hbuilder] at hinfos₂ hleading₂
    rw [hinfos₂] at hinfos₃
    rw [hleading₂, hleading] at hleading₃
    have hwidth := newFromCell_width hgrapheme
    have hcells : (cellsOf p'.entryBuilder.row.infos : ℤ) ≤ p.idx + grapheme.info.cellWidth := by
      rw [hinfos₃, cellsOf_append, cellsOf_append, cellsOf_replicate_empty, cellsOf_cons,
        cellsOf_nil]
      push_cast
      omega
    refine ⟨by omega, by omega, by omega, fun info hi => ?_, ?_, fun hl => ?_⟩
    · rw [hinfos₃, List.mem_append, List.mem_append, List.mem_singleton] at hi
      rcases hi with (hi | hi) | rfl
      · exact hinfos info hi
      · rw [(List.mem_replicate.mp hi).2]
        exact Or.inl rfl
      · cases hw : cell.flags.has .wideChar with
        | false => exact Or.inl (by rw [hwidth, hw]; rfl)
        | true => exact Or.inr (by rw [hwidth, hw]; rfl)
    · cases hw : cell.flags.has .wideChar with
      | false =>
        rw [hw, Bool.toNat_false] at hwidth
        exact Or.inl (by omega)
      | true =>
        rw [hw, Bool.toNat_true] at hwidth
        exact Or.inr ⟨⟨done, cell, rfl, hw, hcell⟩, by omega, by omega⟩
    · cases hleading₃.symm.trans hl
  · cases hok
    refine ⟨by dsimp only; omega, by dsimp only; omega, by dsimp only; omega, ?_, Or.inl ?_, ?_⟩
    · dsimp only
      rwa [hbuilder]
    · dsimp only
      rw [hbuilder, hlast]
      exact hfits
    · dsimp only
      rw [hbuilder, hleading]
      exact fun hl => by cases hl

/-- One turn of the loop over paired cells. -/
theorem PushFits.pushCell {columns : ℕ} {done rest : List Cell} {cell : Cell} {p p' : RowPush}
    (hcells : Paired columns (done ++ cell :: rest)) (h : PushFits columns done p)
    (hok : p.pushCell cell = .ok p') : PushFits columns (done ++ [cell]) p' := by
  have hidx := h.idx_eq
  have hge := h.last_ge
  have hle := h.last_le
  have hroom : done.length < columns := by
    have := hcells.length_le
    simp only [List.length_append, List.length_cons] at this
    omega
  have hleading : p.entryBuilder.row.leading = false := by
    by_contra hl
    exact hroom.ne (h.leading (by simpa using hl)).1
  -- behind a wide character there is its spacer
  have hwide : EndsWide done → cell.flags.has .wideCharSpacer = true := by
    rintro ⟨done', wide, rfl, hw, hs⟩
    obtain ⟨next, rest', hrest, hnext⟩ :=
      hcells.spacer done' wide (cell :: rest) (by simp) hw hs
    cases hrest
    exact hnext
  have hlen : ((done ++ [cell]).length : ℤ) = done.length + 1 := by simp
  rw [RowPush.pushCell] at hok
  dsimp only at hok
  by_cases hspacer : cell.flags.intersects [.wideCharSpacer, .leadingWideCharSpacer] = true
  · rw [if_pos hspacer] at hok
    cases hok
    have hfits : (cellsOf p.entryBuilder.row.infos : ℤ) ≤ p.idx + 1 + 1 := by
      rcases h.fits with hf | ⟨-, -, hf⟩
      · omega
      · omega
    split
    · rename_i hlead
      have hlead' : cell.flags.has .leadingWideCharSpacer = true := by
        simpa [Flags.intersects] using hlead
      obtain ⟨hcol, hno⟩ := hcells.leading done cell rest rfl hlead'
      refine ⟨by dsimp only; omega, by dsimp only; omega, le_rfl, h.narrow_or_wide, Or.inl hfits,
        fun _ => ⟨by rw [List.length_append]; exact hcol, ?_⟩⟩
      rcases h.fits with hf | ⟨hends, -⟩
      · change cellsOf p.entryBuilder.row.infos ≤ columns - 1
        omega
      · cases (hwide hends).symm.trans hno
    · exact ⟨by dsimp only; omega, by dsimp only; omega, le_rfl, h.narrow_or_wide, Or.inl hfits,
        fun hl => by cases hleading.symm.trans hl⟩
  · rw [if_neg hspacer] at hok
    have hspacer : cell.flags.intersects [.wideCharSpacer, .leadingWideCharSpacer] = false := by
      simpa using hspacer
    have hfits : (cellsOf p.entryBuilder.row.infos : ℤ) ≤ p.lastCell + 1 := by
      rcases h.fits with hf | ⟨hends, -⟩
      · exact hf
      · have := hwide hends
        simp [Flags.intersects, this] at hspacer
    refine PushFits.pushContent (p := { p with idx := p.idx + 1 }) ?_ ?_ ?_ ?_ ?_ ?_ hspacer hok
    · exact hidx
    · exact hge
    · dsimp only
      omega
    · exact h.narrow_or_wide
    · exact hfits
    · exact hleading

/-- **A row with paired cells can be shown.** -/
theorem Paired.rowShows {p : RowsPush} {row : Row}
    (h : Paired p.storage.columns (row.inner.take row.occ)) (hlf : NoLineFeed row) :
    RowShows p row := by
  refine ⟨hlf, fun q hq => ?_⟩
  obtain ⟨cells, hcells, hq⟩ := bind_eq_ok hq
  rw [Row.dirtyCells, sliceRange] at hcells
  split at hcells
  · cases hcells
    rw [List.drop_zero] at hq
    have hrun := foldlM_ok (P := fun done q => ∀ rest, row.inner.take row.occ = done ++ rest →
        PushFits p.storage.columns done q) ?_ ?_ hq [] (List.append_nil _).symm
    · rcases hrun.fits with hf | ⟨⟨done, cell, hdone, hw, hs⟩, -, -⟩
      · refine ⟨hrun.narrow_or_wide, ?_, fun hl => typeAt_of_le (hrun.leading hl).2⟩
        have := h.length_le
        have := hrun.idx_eq
        have := hrun.last_le
        omega
      · obtain ⟨next, rest', hrest, -⟩ := h.spacer done cell [] hdone hw hs
        cases hrest
    · intro done cell q q' hq hok rest hrest
      rw [List.append_assoc] at hrest
      exact PushFits.pushCell (hrest ▸ h) (hq _ hrest) hok
    · exact fun _ _ => ⟨rfl, le_rfl, le_rfl, fun _ hi => (by cases hi), Or.inl le_rfl,
        fun hl => by cases hl⟩
  · cases hcells

end FlatStorage

end Clinch
