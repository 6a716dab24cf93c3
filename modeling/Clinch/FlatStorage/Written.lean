import Clinch.FlatStorage.CellType
import Clinch.FlatStorage.RowIterator

/-!
# What the iterator writes

The loop over the graphemes of a row keeps that the cells written so far have the types of the
graphemes, and that the others are default cells.

* `Written`, `written_writeGrapheme`: one grapheme;
* `TextAt`, `written_writeGraphemes`: the graphemes of a row, when their texts are in the content;
* `Shows`, **`next_typed`**: the finished row, with its leading spacer.
-/

set_option autoImplicit false

namespace Clinch

namespace FlatStorage

/-! ## One grapheme -/

/-- The type of a cell by its flags. -/
theorem ofCell_congr {a b : Cell}
    (h : ∀ f ∈ [Flag.wideChar, .wideCharSpacer, .leadingWideCharSpacer],
      a.flags.has f = b.flags.has f) : CellType.ofCell a = CellType.ofCell b := by
  have hw := h .wideChar (by simp)
  have hs := h .wideCharSpacer (by simp)
  have hl := h .leadingWideCharSpacer (by simp)
  simp [CellType.ofCell, Flags.intersects, hw, hs, hl]

/-- The row has the graphemes, and default cells behind them. -/
structure Written (columns : ℕ) (infos : List GraphemeInfo) (row : Row) : Prop where
  len_eq : row.len = columns
  occ_eq : row.occ = cellsOf infos
  type_eq : ∀ col cell, row.inner[col]? = some cell → CellType.ofCell cell = typeAt infos col
  default : ∀ col cell, cellsOf infos ≤ col → row.inner[col]? = some cell → cell = Cell.default

theorem written_new (columns : ℕ) : Written columns [] (Row.new columns) := by
  have hcell : ∀ (col : ℕ) (cell : Cell), (Row.new columns).inner[col]? = some cell →
      cell = Cell.default := fun col cell h => List.eq_of_mem_replicate (List.mem_of_getElem? h)
  refine ⟨List.length_replicate, rfl, fun col cell h => ?_, fun col cell _ h => hcell col cell h⟩
  rw [hcell col cell h]
  rfl

/-- A grapheme's cell has no flag of a wide character. -/
theorem has_graphemeCell (cell : Cell) (c : Char) (rest : List Char) (fg : Color)
    (style : BgAndStyle) (marker : Option StoredMarker) (offset : ℕ) {f : Flag}
    (hf : styleMask.has f = false) :
    (graphemeCell cell c rest fg style marker offset).flags.has f = false := by
  have hstyle := style.has_false hf
  unfold graphemeCell
  dsimp only
  split
  · split
    · exact hstyle
    · exact hstyle
  · exact hstyle

/-- The cells of a written grapheme have its types, and the others stay. -/
structure WroteAt (row : Row) (info : GraphemeInfo) (row' : Row) : Prop where
  len_eq : row'.len = row.len
  occ_eq : row'.occ = row.occ + info.cellWidth
  other : ∀ col, col < row.occ ∨ row.occ + info.cellWidth ≤ col → row'.inner[col]? = row.inner[col]?
  type_eq : ∀ i < info.cellWidth, ∀ cell, row'.inner[row.occ + i]? = some cell →
    CellType.ofCell cell = typeInGrapheme info i

section WriteGrapheme

variable {marker : Option StoredMarker} {row : Row} {offset : ℕ} {info : GraphemeInfo}
  {text : List Char} {fg : Color} {style : BgAndStyle}

theorem writeGrapheme_narrow (hinfo : info.cellWidth = 1) (htext : text ≠ [])
    (hroom : row.occ < row.len) :
    ∃ row', writeGrapheme marker row offset info text fg style = .ok row' ∧
      WroteAt row info row' := by
  obtain ⟨c, rest, rfl⟩ := List.exists_cons_of_ne_nil htext
  rw [writeGrapheme, Row.getMut, if_pos hroom]
  dsimp only
  rw [if_neg (by omega)]
  refine ⟨_, rfl, List.length_modify _ _ _, ?_, fun col hcol => ?_, fun i hi cell hcell => ?_⟩
  · dsimp only
    omega
  · exact List.getElem?_modify_ne _ _ (by omega)
  · have hi0 : i = 0 := by omega
    subst hi0
    dsimp only at hcell
    rw [Nat.add_zero, List.getElem?_modify_eq] at hcell
    obtain ⟨old, -, rfl⟩ := Option.map_eq_some_iff.mp hcell
    rw [typeInGrapheme, if_pos hinfo]
    refine (ofCell_congr (b := Cell.default) fun f hf => has_graphemeCell _ _ _ _ _ _ _ ?_).trans rfl
    simp only [List.mem_cons, List.not_mem_nil, or_false] at hf
    rcases hf with rfl | rfl | rfl <;> rfl

theorem writeGrapheme_wide (hinfo : info.cellWidth = 2) (htext : text ≠ [])
    (hroom : row.occ + 1 < row.len)
    (hnext : ∀ cell, row.inner[row.occ + 1]? = some cell → cell = Cell.default) :
    ∃ row', writeGrapheme marker row offset info text fg style = .ok row' ∧
      WroteAt row info row' := by
  obtain ⟨c, rest, rfl⟩ := List.exists_cons_of_ne_nil htext
  have hne : info.cellWidth ≠ 1 := by omega
  rw [writeGrapheme, Row.getMut, if_pos (by omega)]
  dsimp only
  rw [if_pos hinfo, Row.indexMut, if_pos (by simp [Row.len] at hroom ⊢; omega), ok_bind,
    Row.indexMut, if_pos (by simp [Row.len] at hroom ⊢; omega)]
  refine ⟨_, rfl, by simp [Row.len], ?_, fun col hcol => ?_, fun i hi cell hcell => ?_⟩
  · dsimp only
    omega
  · dsimp only
    rw [List.getElem?_modify_ne _ _ (by omega), List.getElem?_modify_ne _ _ (by omega),
      List.getElem?_modify_ne _ _ (by omega)]
  · have hi2 : i = 0 ∨ i = 1 := by omega
    dsimp only at hcell
    rcases hi2 with rfl | rfl
    · simp only [Nat.add_zero] at hcell
      rw [List.getElem?_modify_ne _ _ (by omega), List.getElem?_modify_eq] at hcell
      obtain ⟨old, -, rfl⟩ := Option.map_eq_some_iff.mp hcell
      rw [typeInGrapheme, if_neg hne]
      simp [CellType.ofCell, Flags.intersects]
    · rw [List.getElem?_modify_eq, List.getElem?_modify_ne _ _ (by omega),
        List.getElem?_modify_ne _ _ (by omega)] at hcell
      obtain ⟨old, hold, rfl⟩ := Option.map_eq_some_iff.mp hcell
      rw [hnext old hold, typeInGrapheme, if_neg hne]
      simp [CellType.ofCell, Flags.intersects, Cell.default]

end WriteGrapheme

/-- One more grapheme is written, when there is room for it. -/
theorem written_writeGrapheme {columns : ℕ} {infos : List GraphemeInfo} {row : Row}
    {info : GraphemeInfo} {text : List Char} (h : Written columns infos row)
    (hinfo : NarrowOrWide info) (htext : text ≠ [])
    (hroom : cellsOf infos + info.cellWidth ≤ columns) (marker : Option StoredMarker) (offset : ℕ)
    (fg : Color) (style : BgAndStyle) :
    ∃ row', writeGrapheme marker row offset info text fg style = .ok row' ∧
      Written columns (infos ++ [info]) row' := by
  have hpos := hinfo.pos
  have hlen := h.len_eq
  have hocc := h.occ_eq
  have hwrote : ∃ row', writeGrapheme marker row offset info text fg style = .ok row' ∧
      WroteAt row info row' := by
    rcases hinfo with hinfo | hinfo
    · exact writeGrapheme_narrow hinfo htext (by omega)
    · exact writeGrapheme_wide hinfo htext (by omega) fun cell => h.default _ cell (by omega)
  obtain ⟨row', hok, hw⟩ := hwrote
  have hcells : cellsOf (infos ++ [info]) = cellsOf infos + info.cellWidth := by
    rw [cellsOf_append, cellsOf_cons, cellsOf_nil, Nat.add_zero]
  refine ⟨row', hok, hw.len_eq.trans hlen, by rw [hw.occ_eq, hcells, hocc], fun col cell hcell => ?_,
    fun col cell hcol hcell => ?_⟩
  · rw [typeAt_append]
    by_cases hbefore : col < cellsOf infos
    · rw [hw.other col (by omega)] at hcell
      rw [if_pos hbefore]
      exact h.type_eq col cell hcell
    · rw [if_neg hbefore, typeAt]
      by_cases hin : col - cellsOf infos < info.cellWidth
      · rw [if_pos hin]
        refine hw.type_eq _ hin cell ?_
        rwa [hocc, Nat.add_sub_cancel' (not_lt.mp hbefore)]
      · rw [hw.other col (by omega)] at hcell
        rw [if_neg hin, h.type_eq col cell hcell, typeAt_of_le (by omega)]
        rfl
  · rw [hcells] at hcol
    rw [hw.other col (by omega)] at hcell
    exact h.default col cell (by omega) hcell

/-! ## The graphemes of a row -/

/-- The text of the grapheme is in the content, and it is not a lone line feed. -/
def TextAt (content : Content) (offset : ℕ) (info : GraphemeInfo) : Prop :=
  ∃ text : List Char, text ≠ [] ∧ text ≠ ['\n'] ∧ (utf8 text).length = info.utf8Bytes ∧
    content.Holds offset (utf8 text)

/-- The texts of the graphemes are in the content, one after another. -/
def TextsAt (content : Content) : ℕ → List GraphemeInfo → Prop
  | _, [] => True
  | offset, info :: infos =>
    TextAt content offset info ∧ TextsAt content (offset + info.utf8Bytes) infos

theorem written_writeGraphemes {s : FlatStorage} {start columns : ℕ}
    (hcontent : s.content.InOrder start) {before infos : List GraphemeInfo} {w : RowWrite}
    (h : Written columns before w.row) (htexts : TextsAt s.content w.currentOffset infos)
    (hinfos : ∀ info ∈ infos, NarrowOrWide info)
    (hroom : cellsOf before + cellsOf infos ≤ columns) :
    ∃ row, s.writeGraphemes infos w = .ok row ∧ Written columns (before ++ infos) row := by
  induction infos generalizing before w with
  | nil => exact ⟨w.row, rfl, by rwa [List.append_nil]⟩
  | cons info infos ih =>
    obtain ⟨⟨text, hne, hnl, hlen, hholds⟩, htexts⟩ := htexts
    have hinfo := hinfos info List.mem_cons_self
    have hslice := Content.slice_eq hcontent hholds (utf8_ne_nil hne)
    have hnewline : ¬ utf8 text = newlineText := fun he => hnl (utf8_injective he)
    rw [cellsOf_cons] at hroom
    obtain ⟨row, hrow, hwritten⟩ := written_writeGrapheme h hinfo hne (by omega)
      s.endOfPromptMarker w.currentOffset (w.fgColorIter.nth (info.utf8Bytes - 1)).1
      (w.bgAndStyleIter.nth (info.utf8Bytes - 1)).1
    obtain ⟨row', hrow', hwritten'⟩ := ih (w := ⟨row, w.currentOffset + info.utf8Bytes,
      (w.fgColorIter.nth (info.utf8Bytes - 1)).2, (w.bgAndStyleIter.nth (info.utf8Bytes - 1)).2⟩)
      hwritten htexts (fun i hi => hinfos i (List.mem_cons_of_mem _ hi))
      (by rw [cellsOf_append, cellsOf_cons, cellsOf_nil]; omega)
    refine ⟨row', ?_, by rwa [List.append_cons]⟩
    rw [writeGraphemes, ← hlen, hslice, ok_bind, if_neg hnewline]
    dsimp only
    rw [if_neg hinfo.pos.ne', utf8Chars_utf8, hlen]
    exact (congrArg (· >>= _) hrow).trans hrow'

/-! ## The finished row -/

/-- The row can be shown: it is no wider than the grid, and no wide character ends where the
leading spacer of the next row's has to stand. -/
structure Shows (columns : ℕ) (row : StoredRow) : Prop where
  narrow_or_wide : ∀ info ∈ row.infos, NarrowOrWide info
  fits : cellsOf row.infos ≤ columns
  leading : row.leading = true → typeAt row.infos (columns - 1) = .regularChar

theorem shows_iff {columns : ℕ} {row : StoredRow} :
    ((∀ info ∈ row.infos, NarrowOrWide info) ∧ cellsOf row.infos ≤ columns ∧
      (row.leading = true → typeAt row.infos (columns - 1) = .regularChar)) ↔ Shows columns row :=
  ⟨fun h => ⟨h.1, h.2.1, h.2.2⟩, fun h => ⟨h.1, h.2, h.3⟩⟩

instance (columns : ℕ) (row : StoredRow) : Decidable (Shows columns row) :=
  decidable_of_iff _ shows_iff

/-- The cells of a row of that many columns have the given types. -/
def Typed (columns : ℕ) (types : ℕ → CellType) (row : Row) : Prop :=
  row.len = columns ∧ ∀ col cell, row.inner[col]? = some cell → CellType.ofCell cell = types col

theorem Written.typed {columns : ℕ} {infos : List GraphemeInfo} {row : Row}
    (h : Written columns infos row) : Typed columns (typeAt infos) row := ⟨h.len_eq, h.type_eq⟩

theorem Written.tidy {columns : ℕ} {infos : List GraphemeInfo} {row : Row}
    (h : Written columns infos row) (hfits : cellsOf infos ≤ columns) : row.Tidy := by
  refine ⟨by rw [h.occ_eq, h.len_eq]; exact hfits, .named .background, fun cell hcell => ?_⟩
  obtain ⟨i, hi⟩ := List.mem_iff_getElem?.mp hcell
  rw [List.getElem?_drop] at hi
  exact h.default _ cell (by rw [h.occ_eq]; omega) hi

theorem regular_iff {cell : Cell} :
    CellType.ofCell cell = .regularChar ↔ cell.flags.has .wideChar = false ∧
      cell.flags.has .wideCharSpacer = false ∧ cell.flags.has .leadingWideCharSpacer = false := by
  simp only [CellType.ofCell, Flags.intersects, List.any_cons, List.any_nil, Bool.or_false]
  cases cell.flags.has .wideChar <;> cases cell.flags.has .wideCharSpacer <;>
    cases cell.flags.has .leadingWideCharSpacer <;> simp

/-- A flag on the last cell. -/
theorem flagLast_ok {columns : ℕ} {types : ℕ → CellType} {row : Row} (types' : ℕ → CellType)
    (f : Flag) (condition : Bool) (hpos : 0 < columns) (h : Typed columns types row) (htidy : row.Tidy)
    (hsame : ∀ col, ¬ (condition = true ∧ col = columns - 1) → types' col = types col)
    (hlast : condition = true → ∀ cell : Cell, CellType.ofCell cell = types (columns - 1) →
      CellType.ofCell { cell with flags := cell.flags.insert f } = types' (columns - 1)) :
    ∃ row', flagLast row f condition = .ok row' ∧ Typed columns types' row' ∧ row'.Tidy := by
  obtain ⟨hlen, htypes⟩ := h
  cases condition with
  | false =>
    exact ⟨row, rfl, ⟨hlen, fun col cell hcell => by
      rw [htypes col cell hcell, hsame col (by simp)]⟩, htidy⟩
  | true =>
    have hne : row.inner ≠ [] := by
      intro hnil
      rw [Row.len, hnil, List.length_nil] at hlen
      omega
    rw [flagLast, if_pos rfl, Row.lastMut, if_neg hne]
    refine ⟨_, rfl, ⟨by rw [← hlen]; exact List.length_modify _ _ _, fun col cell hcell => ?_⟩, ?_⟩
    · dsimp only at hcell
      by_cases hcol : row.len - 1 = col
      · rw [hcol, List.getElem?_modify_eq] at hcell
        obtain ⟨old, hold, rfl⟩ := Option.map_eq_some_iff.mp hcell
        have hcol' : col = columns - 1 := by omega
        rw [hcol'] at hold ⊢
        exact hlast rfl old (htypes _ old hold)
      · rw [List.getElem?_modify_ne _ _ hcol] at hcell
        rw [htypes col cell hcell, hsame col (by omega)]
    · refine ⟨?_, .named .background, fun cell hcell => ?_⟩
      · exact (List.length_modify _ _ _).ge
      · have hdrop := List.drop_eq_nil_of_le (List.length_modify
          (fun cell : Cell => { cell with flags := cell.flags.insert f }) row.inner (row.len - 1)).le
        cases (hdrop ▸ hcell : cell ∈ ([] : List Cell))

/-- The types of a row that is shown. -/
def StoredRow.typeAt (columns : ℕ) (row : StoredRow) (col : ℕ) : CellType :=
  if row.leading = true ∧ col = columns - 1 then .leadingWideCharSpacer
  else FlatStorage.typeAt row.infos col

/-- **The iterator returns a row with the types of the stored row.** -/
theorem next_typed {s : FlatStorage} {start : ℕ} {rows : List StoredRow} {iter : RowIterator}
    {row : StoredRow} (hstores : s.index.Stores start rows) (hcontent : s.content.InOrder start)
    (hpos : 0 < s.columns) (hrow : rows[iter.rowIndex]? = some row)
    (hshows : Shows s.columns row)
    (htexts : TextsAt s.content (start + totalBytes (rows.take iter.rowIndex)) row.infos)
    (htidy : iter.row.Tidy) (hlen : iter.row.len = s.columns) :
    ∃ row', iter.next s = .ok (some (row', ⟨iter.rowIndex + 1, row'⟩)) ∧
      Typed s.columns (row.typeAt s.columns) row' ∧ row'.Tidy := by
  have hreset : iter.row.reset Cell.default = .ok (Row.new s.columns) := by
    rw [Row.reset_eq htidy (by omega), hlen]
    rfl
  generalize hstart : start + totalBytes (rows.take iter.rowIndex) = startOffset at htexts
  obtain ⟨row₁, hrow₁, hwritten⟩ := written_writeGraphemes hcontent (w := ⟨Row.new s.columns,
    startOffset, s.fgColorMap.iterFrom startOffset, s.bgAndStyleMap.iterFrom startOffset⟩)
    (written_new s.columns) htexts hshows.narrow_or_wide (by simpa using hshows.fits)
  rw [List.nil_append] at hwritten
  obtain ⟨row₂, hrow₂, htyped₂, htidy₂⟩ := flagLast_ok (typeAt row.infos) .wrapline (!row.newline)
    hpos hwritten.typed (hwritten.tidy hshows.fits) (fun _ _ => rfl) fun _ cell hcell => by
      rw [← hcell]
      refine ofCell_congr fun f hf => ?_
      simp only [List.mem_cons, List.not_mem_nil, or_false] at hf
      rcases hf with rfl | rfl | rfl <;> simp
  obtain ⟨row₃, hrow₃, htyped₃, htidy₃⟩ := flagLast_ok (row.typeAt s.columns)
    .leadingWideCharSpacer row.leading hpos htyped₂ htidy₂ (fun col hcol => if_neg hcol)
    fun hlead cell hcell => by
      rw [hshows.leading hlead, regular_iff] at hcell
      obtain ⟨hw, hs, hl⟩ := hcell
      rw [StoredRow.typeAt, if_pos ⟨hlead, rfl⟩]
      simp [CellType.ofCell, Flags.intersects, hw, hs]
  refine ⟨row₃, ?_, htyped₃, htidy₃⟩
  have hentry : unwrap (s.index.getEntry iter.rowIndex) = .ok (row.entry startOffset) := by
    rw [hstores.getEntry, hrow, hstart]
    rfl
  rw [RowIterator.next, hstores.contentOffsetForRow, hstores.graphemeInfosForRow, hrow, hstart]
  dsimp only [Option.map_some]
  rw [hreset, ok_bind, hrow₁, ok_bind, hentry, ok_bind]
  change (flagLast row₁ .wrapline (!row.newline) >>= _) = _
  rw [hrow₂, ok_bind]
  change (flagLast row₂ .leadingWideCharSpacer row.leading >>= _) = _
  rw [hrow₃, ok_bind]
  rfl

end FlatStorage

end Clinch
