import Clinch.BufferText.Locate

/-!
# Queries of a text

On a range of the string every query of the text is what the direct computation on the characters of
the range gives.

* `Text.Spans`: the range of a text is these characters;
* `absPointForOffset_eq`, `absByteOffsetForOffset_eq`: positions in the whole string;
* `asStr_eq`, `lineLen_eq`, `rightmostPoint_eq`, .., one for each query.
-/

set_option autoImplicit false

namespace Clinch.BufferText

open SumTree

/-- The range of the text is the characters `cs`, between `before` and `after`. -/
structure Text.Spans (t : Text) (before cs after : List Char) : Prop where
  text_eq : t.text = before ++ cs ++ after
  covers : Covers t.runs.toList t.text
  height : ∃ H, Wf H t.runs ∧ H < stackCapacity
  start_eq : t.start = before.length
  stop_eq : t.stop = before.length + cs.length

theorem Point.checkedSub_add (p q : Point) : (p + q).checkedSub p = .ok q := by
  unfold Point.checkedSub
  rw [debugAssert_ok (by simpa using Point.le_add p q), ok_bind, Point.add_sub_cancel]
  rfl

/-- The byte offset after some characters is a character boundary. -/
theorem charsAtByte_append (xs ys : List Char) :
    charsAtByte (xs ++ ys) (byteLenOf xs) = some xs.length := by
  induction xs with
  | nil =>
    show charsAtByte ys 0 = some 0
    unfold charsAtByte
    rfl
  | cons ch xs ih =>
    have hbytes : byteLenOf (ch :: xs) = ch.utf8Size + byteLenOf xs := List.sum_cons
    obtain ⟨k, hk⟩ := Nat.exists_eq_add_one_of_ne_zero ch.utf8Size_pos.ne'
    rw [hbytes, show ch.utf8Size + byteLenOf xs = k + byteLenOf xs + 1 by omega, List.cons_append,
      charsAtByte, if_pos (by omega), show k + byteLenOf xs + 1 - ch.utf8Size = byteLenOf xs by omega,
      ih]
    rfl

theorem strSlice_append (xs ys zs : List Char) :
    strSlice (xs ++ ys ++ zs) (byteLenOf xs) (byteLenOf (xs ++ ys)) = .ok ys := by
  unfold strSlice
  rw [charsAtByte_append (xs ++ ys) zs, List.append_assoc, charsAtByte_append xs]
  simp only
  rw [if_pos (by simp), ← List.append_assoc, List.take_left, List.drop_left]

/-- The largest column of some points. -/
theorem maxByColumn_cons (p : Point) (ps : List Point) : ∃ q, maxByColumn (p :: ps) = some q ∧
    q ∈ p :: ps ∧ q.column = ((p :: ps).map Point.column).foldr max 0 := by
  have key : ∀ (ps : List Point) (best : Point),
      ps.foldl (fun best p => if best.column ≤ p.column then p else best) best ∈ best :: ps ∧
        (ps.foldl (fun best p => if best.column ≤ p.column then p else best) best).column =
          ((best :: ps).map Point.column).foldr max 0 := by
    intro ps
    induction ps with
    | nil => exact fun best => ⟨List.mem_singleton_self _, (Nat.max_zero _).symm⟩
    | cons p ps ih =>
      intro best
      rw [List.foldl_cons]
      have hcolumn : ∀ n, max best.column (max p.column n) =
          max (if best.column ≤ p.column then p else best).column n := by
        intro n
        split <;> omega
      refine ⟨?_, ?_⟩
      · rcases List.mem_cons.mp (ih (if best.column ≤ p.column then p else best)).1 with h | h
        · rw [h]
          split <;> simp
        · exact List.mem_cons_of_mem _ (List.mem_cons_of_mem _ h)
      · rw [(ih _).2]
        simp only [List.map_cons, List.foldr_cons]
        exact (hcolumn _).symm
  exact ⟨_, rfl, (key ps p).1, (key ps p).2⟩

namespace Text.Spans

variable {self : Text} {before cs after : List Char}

theorem length_eq (hs : self.Spans before cs after) :
    self.text.length = before.length + cs.length + after.length := by
  rw [hs.text_eq, List.length_append, List.length_append]

theorem take_start (hs : self.Spans before cs after) : self.text.take self.start = before := by
  rw [hs.text_eq, hs.start_eq, List.append_assoc, List.take_left]

/-- The characters before an offset in the range. -/
theorem take_offset (hs : self.Spans before cs after) {n : ℕ} (hn : n ≤ cs.length) :
    self.text.take (self.start + n) = before ++ cs.take n := by
  rw [hs.text_eq, hs.start_eq, List.append_assoc, List.take_length_add_append,
    List.take_append_of_le_length hn]

theorem take_stop (hs : self.Spans before cs after) :
    self.text.take self.stop = before ++ cs := by
  rw [hs.stop_eq, ← hs.start_eq, hs.take_offset le_rfl, List.take_length]

/-! ## Positions in the whole string -/

/-- Where a seek to a position of the string leaves a cursor. -/
theorem locate {D U : Type} [Dimension D RunSummary] [Dimension U RunSummary] [LinearOrder D]
    {f : List Char → D} {g : List Char → U} (hs : self.Spans before cs after)
    (hD : CharDimension D f) (hf : Increasing f) (hU : CharDimension U g) {n : ℕ}
    (hn : n ≤ self.text.length) : ∃ c found a b run,
      (Cursor.new self.runs : Cursor Run RunSummary D U).seek (f (self.text.take n)) .right =
        .ok (c, found) ∧ self.text.take n = a ++ b ∧ c.start = g a ∧ c.item = .ok run ∧
        Within run b := by
  obtain ⟨H, w, hH⟩ := hs.height
  obtain ⟨⟨c, found⟩, e, ms, ys, a, b, hat, -, ha, htake, hb⟩ :=
    seek_located (U := U) w hH hs.covers hD hf hn
  refine ⟨c, found, a, b, ys.head?, e, htake, ?_, Cursor.Stands.item hat, hb⟩
  rw [← hU.measure_eq ha]
  exact hat.sums.2 hU.exact

theorem absPointForOffset_eq (hs : self.Spans before cs after) {n : ℕ}
    (hn : n ≤ self.text.length) :
    self.absPointForOffset n = .ok (pointOf (self.text.take n)) := by
  obtain ⟨c, found, a, b, run, e, htake, hstart, -, hb⟩ := hs.locate charDimension_charOffset
    increasing_charOffset charDimension_textSummary hn
  have hlen := congrArg List.length htake
  rw [List.length_take_of_le hn, List.length_append] at hlen
  rw [List.length_take_of_le hn] at e
  unfold absPointForOffset
  simp only [e, ok_bind, hstart, charsSummary_chars, charsSummary_lines]
  rw [checkedSub_ok (by omega), ok_bind, htake, pointOf_append, hb.pointOf_eq,
    show n - a.length = b.length by omega]
  rfl

theorem absByteOffsetForOffset_eq (hs : self.Spans before cs after) {n : ℕ}
    (hn : n ≤ self.text.length) :
    self.absByteOffsetForOffset n = .ok (byteLenOf (self.text.take n)) := by
  obtain ⟨c, found, a, b, run, e, htake, hstart, hitem, hb⟩ := hs.locate charDimension_charOffset
    increasing_charOffset charDimension_textSummary hn
  have hlen := congrArg List.length htake
  rw [List.length_take_of_le hn, List.length_append] at hlen
  rw [List.length_take_of_le hn] at e
  unfold absByteOffsetForOffset
  simp only [e, ok_bind, hstart, hitem, charsSummary_chars, charsSummary_bytes]
  rw [checkedSub_ok (by omega), ok_bind, htake, byteLenOf_append, hb.byteLenOf_eq,
    show n - a.length = b.length by omega]
  rfl

/-! ## Conversions -/

theorem len_eq (hs : self.Spans before cs after) : self.len = .ok cs.length := by
  unfold len
  rw [hs.start_eq, hs.stop_eq, checkedSub_ok (by omega), Nat.add_sub_cancel_left]

theorem absPoint_start (hs : self.Spans before cs after) :
    self.absPointForOffset self.start = .ok (pointOf before) := by
  have hlen := hs.length_eq
  have hstart := hs.start_eq
  rw [hs.absPointForOffset_eq (by omega), hs.take_start]

theorem absPoint_offset (hs : self.Spans before cs after) {n : ℕ} (hn : n ≤ cs.length) :
    self.absPointForOffset (self.start + n) = .ok (pointOf before + pointOf (cs.take n)) := by
  have hlen := hs.length_eq
  have hstart := hs.start_eq
  rw [hs.absPointForOffset_eq (by omega), hs.take_offset hn, pointOf_append]

theorem absByte_start (hs : self.Spans before cs after) :
    self.absByteOffsetForOffset self.start = .ok (byteLenOf before) := by
  have hlen := hs.length_eq
  have hstart := hs.start_eq
  rw [hs.absByteOffsetForOffset_eq (by omega), hs.take_start]

theorem absByte_offset (hs : self.Spans before cs after) {n : ℕ} (hn : n ≤ cs.length) :
    self.absByteOffsetForOffset (self.start + n) =
      .ok (byteLenOf before + byteLenOf (cs.take n)) := by
  have hlen := hs.length_eq
  have hstart := hs.start_eq
  rw [hs.absByteOffsetForOffset_eq (by omega), hs.take_offset hn, byteLenOf_append]

theorem stop_eq' (hs : self.Spans before cs after) : self.stop = self.start + cs.length := by
  rw [hs.stop_eq, hs.start_eq]

theorem asStr_eq (hs : self.Spans before cs after) : self.asStr = .ok cs := by
  unfold asStr
  rw [hs.absByte_start, ok_bind, hs.stop_eq', hs.absByte_offset le_rfl, ok_bind, List.take_length,
    hs.text_eq, ← byteLenOf_append, strSlice_append]

theorem byteLen_eq (hs : self.Spans before cs after) : self.byteLen = .ok (byteLenOf cs) := by
  unfold byteLen
  rw [hs.asStr_eq]
  rfl

theorem lines_eq (hs : self.Spans before cs after) : self.lines = .ok (pointOf cs) := by
  unfold lines
  rw [hs.stop_eq', hs.absPoint_offset le_rfl, ok_bind, hs.absPoint_start, ok_bind,
    List.take_length, Point.checkedSub_add]

theorem pointForOffset_eq (hs : self.Spans before cs after) {n : ℕ} (hn : n ≤ cs.length) :
    self.pointForOffset n = .ok (pointOf (cs.take n)) := by
  unfold pointForOffset
  rw [hs.absPoint_offset hn, ok_bind, hs.absPoint_start, ok_bind, Point.checkedSub_add]

theorem offsetForPoint_eq (hs : self.Spans before cs after) {n : ℕ} (hn : n ≤ cs.length) :
    self.offsetForPoint (pointOf (cs.take n)) = .ok n := by
  have hlen := hs.length_eq
  have hstart := hs.start_eq
  obtain ⟨c, found, a, b, run, e, htake, hc, -, hb⟩ := hs.locate charDimension_point
    increasing_point charDimension_textSummary (n := self.start + n) (by omega)
  rw [hs.take_offset hn] at e htake
  rw [pointOf_append] at e
  have hab := congrArg List.length htake
  rw [List.length_append, List.length_append, List.length_take_of_le hn] at hab
  unfold offsetForPoint
  simp only [hs.absPoint_start, ok_bind, e, hc, charsSummary_lines, charsSummary_chars]
  rw [← pointOf_append, htake, pointOf_append, Point.checkedSub_add, ok_bind, hb.pointOf_eq]
  show checkedSub (a.length + b.length) self.start = _
  rw [checkedSub_ok (by omega)]
  exact congrArg _ (by omega)

theorem byteOffsetForPoint_eq (hs : self.Spans before cs after) {n : ℕ} (hn : n ≤ cs.length) :
    self.byteOffsetForPoint (pointOf (cs.take n)) = .ok (byteLenOf (cs.take n)) := by
  unfold byteOffsetForPoint
  rw [hs.offsetForPoint_eq hn, ok_bind, Nat.add_comm, hs.absByte_offset hn, ok_bind,
    hs.absByte_start, ok_bind, checkedSub_ok (by omega), Nat.add_sub_cancel_left]

theorem charOffsetForByteOffset_eq (hs : self.Spans before cs after) {n : ℕ}
    (hn : n ≤ cs.length) :
    self.charOffsetForByteOffset (byteLenOf (cs.take n)) = .ok n := by
  have hlen := hs.length_eq
  have hstart := hs.start_eq
  obtain ⟨c, found, a, b, run, e, htake, hc, hitem, hb⟩ := hs.locate charDimension_byteOffset
    increasing_byteOffset charDimension_textSummary (n := self.start + n) (by omega)
  rw [hs.take_offset hn] at e htake
  rw [byteLenOf_append] at e
  have hab := congrArg List.length htake
  rw [List.length_append, List.length_append, List.length_take_of_le hn] at hab
  have hbytes := congrArg byteLenOf htake
  rw [byteLenOf_append, byteLenOf_append] at hbytes
  unfold charOffsetForByteOffset
  simp only [hs.absByte_start, ok_bind, e, hc, hitem, charsSummary_bytes, charsSummary_chars]
  rw [hbytes, checkedSub_ok (by omega), Nat.add_sub_cancel_left, ok_bind, hb.checkedDiv_eq, ok_bind,
    checkedSub_ok (by omega)]
  exact congrArg _ (by omega)

/-! ## Lines -/

/-- The row of the start of the range, in the whole string. -/
theorem seek_start (hs : self.Spans before cs after) : ∃ c found,
    (Cursor.new self.runs : Cursor Run RunSummary CharOffset Point).seek ⟨self.start⟩ .right =
      .ok (c, found) ∧ c.start.row = (pointOf before).row := by
  have hlen := hs.length_eq
  have hstart := hs.start_eq
  obtain ⟨c, found, a, b, run, e, htake, hc, -, hb⟩ := hs.locate charDimension_charOffset
    increasing_charOffset charDimension_point (n := self.start) (by omega)
  rw [List.length_take_of_le (by omega)] at e
  refine ⟨c, found, e, ?_⟩
  rw [hs.take_start] at htake
  rw [hc, htake, pointOf_append, hb.pointOf_eq]
  rfl

/-- From the start of a row, the line that a summary is over. -/
theorem line_of_rows {u body rest : List Char} {r : ℕ} (hu : pointOf u = ⟨r, 0⟩)
    (hrow : (pointOf (u ++ body)).row ≤ r) (hrest : rest = [] ∨ ∃ rest', rest = '\n' :: rest') :
    firstLine (body ++ rest) = body := by
  have hbody : '\n' ∉ body := by
    rw [pointOf_append, hu, Point.add_row, pointOf_row] at hrow
    exact List.count_eq_zero.mp (by simp only at hrow; omega)
  rw [firstLine_append hbody]
  obtain rfl | ⟨rest', rfl⟩ := hrest
  · exact List.append_nil _
  · exact List.append_nil _

theorem lineLen_eq (hs : self.Spans before cs after) {row len : ℕ}
    (hrow : (lineLens cs)[row]? = some len) : self.lineLen row = .ok len := by
  obtain ⟨H, w, hH⟩ := hs.height
  obtain ⟨xs, zs, rfl, hxs, hfirst, rfl⟩ := exists_row hrow
  -- the row starts at `u`, and `line` is what is before the range
  obtain ⟨u, line, huline, hu, hline, hpre⟩ : ∃ u line, before ++ xs = u ++ line ∧
      pointOf u = ⟨(pointOf before).row + row, 0⟩ ∧ '\n' ∉ line ∧
      before.length - u.length = line.length := by
    by_cases h0 : row = 0
    · obtain ⟨u, line, rfl, hu, hline⟩ := exists_last_row before
      refine ⟨u, line, ?_, by rw [hu, h0]; rfl, hline, by simp⟩
      rw [hfirst h0, List.append_nil]
    · refine ⟨before ++ xs, [], (List.append_nil _).symm, ?_, List.not_mem_nil, by simp⟩
      rw [pointOf_append, hxs, Point.add_def, if_neg h0]
  have htext : self.text = u ++ (line ++ zs ++ after) := by
    rw [hs.text_eq, ← List.append_assoc before, huline]
    simp
  have hcov := hs.covers
  rw [htext] at hcov
  obtain ⟨c, found, e, hc⟩ := hs.seek_start
  obtain ⟨⟨c', found'⟩, e', ms, ys, hat, hms, hys⟩ := seek_row (U := CharOffset) w hH hcov hu
  obtain ⟨⟨c'', len⟩, e'', ks, ls, body, rest, hv, hat', hbody, rfl, hrow', hrest⟩ :=
    summaryTo_row w hH charDimension_charOffset hat hms hys hu 0
  have hfirstLine := line_of_rows hu hrow' (hrest.imp_right fun ⟨rest', h, _⟩ => ⟨rest', h⟩)
  rw [← hv, List.append_assoc, firstLine_append hline] at hfirstLine
  have hstart : c'.start = ⟨u.length⟩ := by
    rw [← charDimension_charOffset.measure_eq hms]
    exact hat.sums.2 exact_charOffset
  have hend : c''.start = ⟨(u ++ body).length⟩ := by
    rw [← charDimension_charOffset.measure_eq hbody]
    exact hat'.sums.2 exact_charOffset
  unfold lineLen
  simp only at e' e''
  simp only [e, ok_bind, hc, e', hstart, e'', hend]
  refine congrArg Except.ok ?_
  have hstop := hs.stop_eq
  have hlen := congrArg List.length huline
  simp only [List.length_append] at hstop hlen ⊢
  rw [hs.start_eq, hpre, hstop]
  -- a newline after the row is in the range, or the range ends in the row
  by_cases hzs : '\n' ∈ zs
  · obtain ⟨ds, zs', rfl, hds⟩ := exists_first_line hzs
    have hbody := congrArg List.length hfirstLine
    rw [List.append_assoc ds, firstLine_append hds] at hbody
    rw [firstLine_append hds]
    simp only [List.cons_append, firstLine_newline, List.length_append, List.length_cons,
      List.length_nil] at hbody hlen ⊢
    omega
  · have hbody := congrArg List.length hfirstLine
    rw [firstLine_append hzs] at hbody
    rw [firstLine_of_notMem hzs]
    simp only [List.length_append] at hbody ⊢
    omega

/-- The longest of the lines in the middle. -/
theorem rightmostMiddle_eq {xs ms zs : List Char}
    (hs : self.Spans before (xs ++ '\n' :: (ms ++ '\n' :: zs)) after) (hxs : '\n' ∉ xs) :
    ∃ p, self.rightmostMiddle ⟨(pointOf ms).row + 2, zs.length⟩ = .ok p ∧ p.row ≠ 0 ∧
      p.column = longestLine ms := by
  obtain ⟨H, w, hH⟩ := hs.height
  have htext : self.text = before ++ xs ++ ['\n'] ++ (ms ++ '\n' :: (zs ++ after)) := by
    rw [hs.text_eq]
    simp
  have hcov := hs.covers
  rw [htext] at hcov
  have hu : pointOf (before ++ xs ++ ['\n']) = ⟨(pointOf before).row + 1, 0⟩ := by
    rw [pointOf_concat_newline, pointOf_append, Point.add_row, pointOf_of_notMem hxs]
    rfl
  obtain ⟨c, found, e, hc⟩ := hs.seek_start
  obtain ⟨⟨c', found'⟩, e', ks, ys, hat, hks, hys⟩ := seek_row (U := CharOffset) w hH hcov hu
  obtain ⟨⟨c'', summary⟩, e'', ks', ls, body, rest, hv, hat', -, rfl, hrow, hrest⟩ :=
    summaryTo_row w hH charDimension_textSummary hat hks hys hu (pointOf ms).row
  simp only at e' e''
  -- the summary is over all lines in the middle
  obtain rfl : body = ms := by
    rcases hrest with rfl | ⟨rest', rfl, hpoint⟩
    · rw [List.append_nil] at hv
      rw [pointOf_append, hu, ← hv, pointOf_append, pointOf_newline] at hrow
      simp only [Point.add_row] at hrow
      omega
    · have hms : pointOf (before ++ xs ++ ['\n'] ++ ms ++ ['\n']) =
          ⟨(pointOf before).row + 1 + (pointOf ms).row + 1, 0⟩ := by
        rw [pointOf_concat_newline, pointOf_append _ ms, hu, Point.add_row]
      have hall : before ++ xs ++ ['\n'] ++ ms ++ ['\n'] ++ (zs ++ after) =
          before ++ xs ++ ['\n'] ++ body ++ ['\n'] ++ rest' := by
        simpa using hv
      have h := (increasing_point.prefix_inj rfl hall (hms.trans hpoint.symm)).1
      simpa using h.symm
  unfold rightmostMiddle
  simp only [e, ok_bind, hc, e']
  rw [show (pointOf before).row + ((pointOf body).row + 2) =
    (pointOf before).row + 1 + (pointOf body).row + 1 by omega, e'', ok_bind]
  refine ⟨_, rfl, ?_, ?_⟩
  · rw [Point.add_row]
    simp only
    omega
  · rw [Point.add_column, charsSummary_rightmostPoint]
    exact ite_eq_right_iff.mpr fun _ => Nat.zero_add _

theorem rightmostPoint_eq (hs : self.Spans before cs after) : ∃ p, self.rightmostPoint = .ok p ∧
    p.column = longestLine cs ∧ (p.row = 0 → p.column = (firstLine cs).length) := by
  have hfirst : self.lineLen 0 = .ok (firstLine cs).length :=
    hs.lineLen_eq (by rw [← List.head?_eq_getElem?, lineLens_head])
  unfold rightmostPoint
  rw [hs.lines_eq, ok_bind]
  by_cases hcs : '\n' ∈ cs
  · obtain ⟨xs, ws, rfl, hxs⟩ := exists_first_line hcs
    rw [firstLine_append hxs, firstLine_newline, List.append_nil] at hfirst ⊢
    have hpoint : pointOf (xs ++ '\n' :: ws) = ⟨1, 0⟩ + pointOf ws := by
      rw [pointOf_append, pointOf_newline, pointOf_of_notMem hxs, ← add_assoc]
      rfl
    by_cases hws : '\n' ∈ ws
    · obtain ⟨ms', zs, rfl, hms', hzs⟩ := exists_last_row ws
      obtain ⟨ms, rfl⟩ : ∃ ms, ms' = ms ++ ['\n'] := by
        have hpos : 0 < (pointOf (ms' ++ zs)).row := by
          rw [pointOf_row]
          exact List.count_pos_iff.mpr hws
        obtain ⟨r, hr⟩ := Nat.exists_eq_add_one_of_ne_zero hpos.ne'
        exact exists_concat_newline (hr ▸ hms')
      rw [List.append_assoc, List.singleton_append] at hs hpoint ⊢
      obtain ⟨p, hmiddle, hp, hcolumn⟩ := hs.rightmostMiddle_eq hxs
      have hlines : pointOf (xs ++ '\n' :: (ms ++ '\n' :: zs)) = ⟨(pointOf ms).row + 2, zs.length⟩ := by
        rw [hpoint, pointOf_append, pointOf_newline, pointOf_of_notMem hzs]
        ext
        · simp only [Point.add_row]
          omega
        · simp [Point.add_column]
      rw [hlines, hfirst, hmiddle, longestLine_append_newline, longestLine_append_newline,
        longestLine_of_notMem hxs, longestLine_of_notMem hzs]
      obtain ⟨q, hq, hmem, hmax⟩ :=
        maxByColumn_cons ⟨(pointOf ms).row + 2, zs.length⟩ [⟨0, xs.length⟩, p]
      refine ⟨q, congrArg unwrap hq, ?_, fun h0 => ?_⟩
      · simp only [List.map_cons, List.map_nil, List.foldr_cons, List.foldr_nil] at hmax
        omega
      · rcases List.mem_cons.mp hmem with rfl | hmem
        · exact nomatch h0
        · rcases List.mem_cons.mp hmem with rfl | hmem
          · rfl
          · exact absurd (List.mem_singleton.mp hmem ▸ h0) hp
    · rw [hpoint, hfirst, longestLine_append_newline, longestLine_of_notMem hxs,
        longestLine_of_notMem hws, pointOf_of_notMem hws]
      obtain ⟨q, hq, hmem, hmax⟩ := maxByColumn_cons ⟨1, ws.length⟩ [⟨0, xs.length⟩]
      have hlines : (⟨1, 0⟩ : Point) + ⟨0, ws.length⟩ = ⟨1, ws.length⟩ :=
        Point.ext rfl (Nat.zero_add _)
      rw [hlines]
      refine ⟨q, congrArg unwrap hq, ?_, fun h0 => ?_⟩
      · simp only [List.map_cons, List.map_nil, List.foldr_cons, List.foldr_nil] at hmax
        omega
      · rcases List.mem_cons.mp hmem with rfl | hmem
        · exact nomatch h0
        · rw [List.mem_singleton.mp hmem]
  · rw [pointOf_of_notMem hcs, firstLine_of_notMem hcs, longestLine_of_notMem hcs]
    exact ⟨⟨0, cs.length⟩, rfl, rfl, fun _ => rfl⟩

theorem summary_eq (hs : self.Spans before cs after) : ∃ p,
    self.summary = .ok ⟨cs.length, byteLenOf cs, pointOf cs, (firstLine cs).length, p⟩ ∧
      p.column = longestLine cs ∧ (p.row = 0 → p.column = (firstLine cs).length) := by
  obtain ⟨p, hp, hcolumn, hrow⟩ := hs.rightmostPoint_eq
  have hfirst : self.lineLen 0 = .ok (firstLine cs).length :=
    hs.lineLen_eq (by rw [← List.head?_eq_getElem?, lineLens_head])
  have hlen := hs.len_eq
  have hlines := hs.lines_eq
  unfold len at hlen
  unfold lines at hlines
  refine ⟨p, ?_, hcolumn, hrow⟩
  unfold summary
  rw [hlen, ok_bind, hs.stop_eq', hs.absByte_offset le_rfl, ok_bind, hs.absByte_start, ok_bind,
    checkedSub_ok (by omega), ok_bind, Nat.add_sub_cancel_left, List.take_length]
  rw [hs.stop_eq', hs.absPoint_offset le_rfl, ok_bind, hs.absPoint_start, ok_bind] at hlines
  rw [hs.absPoint_offset le_rfl, ok_bind, hs.absPoint_start, ok_bind, hlines, ok_bind, hfirst,
    ok_bind, hp, ok_bind]
  rfl

end Text.Spans

end Clinch.BufferText
