import Clinch.BufferText.Queries
import Clinch.SumTree.Built

/-!
# Coordinates of a text

The queries of every slice of a text agree with the string.

* `Text.SliceOf`: the slices of a text;
* `Text.Agrees`: its queries are what the direct computation on some characters gives;
* **`text_coordinates`**: those of the range;
* `text_capacity`: a text of too many lines has a tree that is too high for its cursors.
-/

set_option autoImplicit false

namespace Clinch.BufferText

open SumTree

namespace Text

/-- The slices of a text, and theirs; a range does not end before it starts. -/
inductive SliceOf (t : Text) : Text → Prop
  | refl : SliceOf t t
  | slice {s s' : Text} {lo hi : Bound} : SliceOf t s → s.slice lo hi = .ok s' →
      s'.start ≤ s'.stop → SliceOf t s'

/-- Every query of the text is the direct computation on the characters `cs`. A point is in the text
when its row has a line that reaches its column. -/
structure Agrees (t : Text) (cs : List Char) : Prop where
  asStr : t.asStr = .ok cs
  len : t.len = .ok cs.length
  byteLen : t.byteLen = .ok (byteLenOf cs)
  lines : t.lines = .ok (pointOf cs)
  lineLen : ∀ row len, (lineLens cs)[row]? = some len → t.lineLen row = .ok len
  pointForOffset : ∀ n ≤ cs.length, t.pointForOffset n = .ok (pointOf (cs.take n))
  offsetForPoint : ∀ n ≤ cs.length, t.offsetForPoint (pointOf (cs.take n)) = .ok n
  byteOffsetForPoint : ∀ n ≤ cs.length,
    t.byteOffsetForPoint (pointOf (cs.take n)) = .ok (byteLenOf (cs.take n))
  charOffsetForByteOffset : ∀ n ≤ cs.length,
    t.charOffsetForByteOffset (byteLenOf (cs.take n)) = .ok n
  points : ∀ (p : Point) len, (lineLens cs)[p.row]? = some len → p.column ≤ len →
    ∃ n ≤ cs.length, pointOf (cs.take n) = p
  monotone : ∀ m n, m < n → n ≤ cs.length → pointOf (cs.take m) < pointOf (cs.take n) ∧
    byteLenOf (cs.take m) < byteLenOf (cs.take n)

variable {self s : Text} {before cs after : List Char}

theorem Spans.agrees (hs : self.Spans before cs after) : self.Agrees cs where
  asStr := hs.asStr_eq
  len := hs.len_eq
  byteLen := hs.byteLen_eq
  lines := hs.lines_eq
  lineLen _ _ := hs.lineLen_eq
  pointForOffset _ := hs.pointForOffset_eq
  offsetForPoint _ := hs.offsetForPoint_eq
  byteOffsetForPoint _ := hs.byteOffsetForPoint_eq
  charOffsetForByteOffset _ := hs.charOffsetForByteOffset_eq
  points _ _ := exists_take
  monotone m n hmn hn := by
    have htake : cs.take n = cs.take m ++ (cs.drop m).take (n - m) := by
      rw [← List.take_add, Nat.add_sub_cancel' hmn.le]
    have hne : (cs.drop m).take (n - m) ≠ [] :=
      List.ne_nil_of_length_pos (by rw [List.length_take, List.length_drop]; omega)
    rw [htake]
    exact ⟨pointOf_lt_append _ hne, byteLenOf_lt_append _ hne⟩

/-! ## Slices -/

/-- Any range of the string. -/
theorem spans_range (hcov : Covers s.runs.toList s.text) (hH : ∃ H, Wf H s.runs ∧ H < stackCapacity)
    (hle : s.start ≤ s.stop) (hstop : s.stop ≤ s.text.length) :
    s.Spans (s.text.take s.start) ((s.text.take s.stop).drop s.start) (s.text.drop s.stop) where
  text_eq := by
    have htake : s.text.take s.start = (s.text.take s.stop).take s.start := by
      rw [List.take_take, min_eq_left hle]
    rw [htake, List.take_append_drop, List.take_append_drop]
  covers := hcov
  height := hH
  start_eq := (List.length_take_of_le (hle.trans hstop)).symm
  stop_eq := by
    rw [List.length_drop, List.length_take_of_le hstop, List.length_take_of_le (hle.trans hstop)]
    omega

/-- A slice is a range of the same string, and ends no later. -/
theorem slice_frame {lo hi : Bound} (h : self.slice lo hi = .ok s) :
    s.text = self.text ∧ s.runs = self.runs ∧ s.stop ≤ self.stop := by
  obtain ⟨start, -, h⟩ := bind_eq_ok h
  obtain rfl := Except.ok.inj h
  refine ⟨rfl, rfl, ?_⟩
  cases hi with
  | included n => exact min_le_right _ _
  | excluded n => exact min_le_right _ _
  | unbounded => exact le_rfl

theorem SliceOf.spans {t : Text} (ht : t.Spans [] t.text []) (h : t.SliceOf s) :
    s.Spans (s.text.take s.start) ((s.text.take s.stop).drop s.start) (s.text.drop s.stop) ∧
      s.text = t.text := by
  induction h with
  | refl =>
    refine ⟨?_, rfl⟩
    have hstart := ht.start_eq
    have hstop := ht.stop_eq
    simp only [List.length_nil, Nat.zero_add] at hstart hstop
    rw [hstart, hstop]
    simpa using ht
  | @slice s s' lo hi _ h hle ih =>
    obtain ⟨htext, hruns, hstop⟩ := slice_frame h
    obtain ⟨hs, hst⟩ := ih
    have hlen := hs.length_eq
    have hend := hs.stop_eq
    refine ⟨spans_range ?_ ?_ hle ?_, htext.trans hst⟩
    · rw [htext, hruns]
      exact hs.covers
    · rw [hruns]
      exact hs.height
    · rw [htext]
      omega

/-- A slice of a range. -/
theorem Spans.slice (hs : self.Spans before cs after) {i j : ℕ} (hij : i ≤ j)
    (hj : j ≤ cs.length) : ∃ s, self.slice (.included i) (.excluded j) = .ok s ∧
      s.Spans (before ++ cs.take i) ((cs.take j).drop i) (cs.drop j ++ after) := by
  have hstart := hs.start_eq
  have hstop := hs.stop_eq
  have hmin : ∀ n ≤ cs.length, min (self.start + n) self.stop = self.start + n := by
    intro n hn
    omega
  refine ⟨{ self with start := self.start + i, stop := self.start + j }, ?_, ?_, hs.covers,
    hs.height, ?_, ?_⟩
  · unfold Text.slice rangeStart rangeEnd
    simp only [hmin i (hij.trans hj), hmin j hj]
    rfl
  · have htake : cs.take i = (cs.take j).take i := by rw [List.take_take, min_eq_left hij]
    show self.text = _
    rw [hs.text_eq, List.append_assoc before (cs.take i), htake, List.take_append_drop,
      List.append_assoc before cs, List.append_assoc before (cs.take j),
      ← List.append_assoc (cs.take j), List.take_append_drop]
  · rw [List.length_append, List.length_take_of_le (hij.trans hj)]
    simp only
    omega
  · rw [List.length_append, List.length_take_of_le (hij.trans hj), List.length_drop,
      List.length_take_of_le hj]
    simp only
    omega

/-- What of a summary adds up: the longest line only by its length. -/
def totals (s : TextSummary) : ℕ × ℕ × Point × ℕ × ℕ :=
  (s.chars, s.bytes, s.lines, s.firstLineLen, s.rightmostPoint.column)

/-- The summary of characters, with any of their longest lines. -/
theorem totals_add {a b : List Char} {p q r : Point} (hp : p.column = longestLine a)
    (hq : q.column = longestLine b) (hrow : q.row = 0 → q.column = (firstLine b).length)
    (hr : r.column = longestLine (a ++ b)) :
    totals (⟨a.length, byteLenOf a, pointOf a, (firstLine a).length, p⟩ +
      ⟨b.length, byteLenOf b, pointOf b, (firstLine b).length, q⟩) =
    totals ⟨(a ++ b).length, byteLenOf (a ++ b), pointOf (a ++ b), (firstLine (a ++ b)).length,
      r⟩ := by
  have hfirst : (firstLine (a ++ b)).length = if (pointOf a).row = 0 then
      (firstLine a).length + (firstLine b).length else (firstLine a).length := by
    rw [← firstLineLen_eq, charsSummary_append, TextSummary.add_firstLineLen, charsSummary_lines,
      firstLineLen_eq, firstLineLen_eq]
  have hlongest : longestLine (a ++ b) = max (max (longestLine a)
      ((pointOf a).column + (firstLine b).length)) (longestLine b) := by
    rw [← charsSummary_rightmostPoint, charsSummary_append,
      TextSummary.add_rightmostPoint_column (charsSummary_wellFormed b), charsSummary_lines,
      firstLineLen_eq, charsSummary_rightmostPoint, charsSummary_rightmostPoint]
  unfold totals
  rw [TextSummary.add_longest hrow, TextSummary.add_firstLineLen, hfirst]
  simp only [TextSummary.add_chars, TextSummary.add_bytes, TextSummary.add_lines,
    List.length_append, byteLenOf_append, pointOf_append, hp, hq, hr, hlongest]

/-- **Summaries of adjacent slices add up** to the summary of their union. -/
theorem Spans.adjacent (hs : self.Spans before cs after) {i j k : ℕ} (hij : i ≤ j) (hjk : j ≤ k)
    (hk : k ≤ cs.length) : ∃ a b c left right whole,
      self.slice (.included i) (.excluded j) = .ok a ∧
      self.slice (.included j) (.excluded k) = .ok b ∧
      self.slice (.included i) (.excluded k) = .ok c ∧
      a.summary = .ok left ∧ b.summary = .ok right ∧ c.summary = .ok whole ∧
      totals (left + right) = totals whole := by
  obtain ⟨a, hsa, ha⟩ := hs.slice hij (hjk.trans hk)
  obtain ⟨b, hsb, hb⟩ := hs.slice hjk hk
  obtain ⟨c, hsc, hc⟩ := hs.slice (hij.trans hjk) hk
  obtain ⟨p, hleft, hp, -⟩ := ha.summary_eq
  obtain ⟨q, hright, hq, hrow⟩ := hb.summary_eq
  obtain ⟨r, hwhole, hr, -⟩ := hc.summary_eq
  have happ : (cs.take k).drop i = (cs.take j).drop i ++ (cs.take k).drop j := by
    have htake : (cs.take j).drop i = ((cs.take k).drop i).take (j - i) := by
      rw [List.take_drop, List.take_take, Nat.add_sub_cancel' hij, min_eq_left hjk]
    have hdrop : (cs.take k).drop j = ((cs.take k).drop i).drop (j - i) := by
      rw [List.drop_drop, Nat.add_sub_cancel' hij]
    rw [htake, hdrop, List.take_append_drop]
  rw [happ] at hwhole hr
  exact ⟨a, b, c, _, _, _, hsa, hsb, hsc, hleft, hright, hwhole, totals_add hp hq hrow hr⟩

/-- The text of some characters. -/
theorem from_spans {cs : List Char} (hcs : cs.length < 2 ^ 32) :
    ∃ t, Text.from cs = .ok t ∧ t.text = cs ∧ t.Spans [] cs [] := by
  have hcov : Covers (runsFrom cs 0 0) cs := @runsFrom_covers cs [] 0 fun _ h => nomatch h
  have hlen := hcov.length_le
  have hsmall : (2 : ℕ) ^ 32 < treeBase ^ 15 := by decide
  obtain ⟨H, runs, e, w, hruns⟩ := (extend_spec (wf_new (T := Run) (S := RunSummary))
    (runsFrom cs 0 0)).resolve_right fun h => by
      have hbig : treeBase ^ 15 ≤ treeBase ^ 254 := Nat.pow_le_pow_right treeBase_pos (by decide)
      have hle : treeBase ^ 254 ≤ (runsFrom cs 0 0).length := h.2
      omega
  have hitems : runs.toList = runsFrom cs 0 0 := hruns
  refine ⟨⟨cs, runs, 0, cs.length⟩, ?_, rfl, ?_, ?_, ⟨H, w, ?_⟩, rfl, (Nat.zero_add _).symm⟩
  · unfold Text.from
    rw [e]
    rfl
  · exact (List.append_nil _).symm
  · rw [hitems]
    exact hcov
  · by_contra hH
    obtain ⟨h, rfl⟩ : ∃ h, H = h + 1 := ⟨H - 1, by unfold stackCapacity at hH; omega⟩
    have hle := w.le_length
    have hpow : treeBase ^ 15 ≤ treeBase ^ h :=
      Nat.pow_le_pow_right treeBase_pos (by unfold stackCapacity at hH; omega)
    rw [hitems] at hle
    omega

end Text

/-- **The coordinates of a text agree with the string**, when its characters are fewer than the
largest `u32`: on every slice each query is the direct computation on the characters of the slice, the conversions
between offsets, points and bytes undo each other and increase, and summaries of adjacent slices add
up. -/
theorem text_coordinates (chars : List Char) (hlen : chars.length < 2 ^ 32 - 1) :
    ∃ t, Text.from chars = .ok t ∧ ∀ s, t.SliceOf s →
      s.Agrees ((chars.take s.stop).drop s.start) ∧
      ∀ i j k, i ≤ j → j ≤ k → s.start + k ≤ s.stop → ∃ a b c left right whole,
        s.slice (.included i) (.excluded j) = .ok a ∧
        s.slice (.included j) (.excluded k) = .ok b ∧
        s.slice (.included i) (.excluded k) = .ok c ∧
        a.summary = .ok left ∧ b.summary = .ok right ∧ c.summary = .ok whole ∧
        Text.totals (left + right) = Text.totals whole := by
  obtain ⟨t, e, rfl, ht⟩ := Text.from_spans (hlen.trans_le (Nat.sub_le _ _))
  refine ⟨t, e, fun s hs => ?_⟩
  obtain ⟨hspans, htext⟩ := hs.spans ht
  rw [← htext]
  refine ⟨hspans.agrees, fun i j k hij hjk hk => hspans.adjacent hij hjk ?_⟩
  have hstart := hspans.start_eq
  have hstop := hspans.stop_eq
  omega


/-- The slice "\n€" of "a\n€b". -/
theorem text_coordinates_euro : ∃ t s, Text.from ['a', '\n', '€', 'b'] = .ok t ∧
    t.slice (.included 1) (.excluded 3) = .ok s ∧ s.lines = .ok ⟨1, 1⟩ ∧ s.byteLen = .ok 4 ∧
      s.lineLen 1 = .ok 1 := by
  obtain ⟨t, e, h⟩ := text_coordinates ['a', '\n', '€', 'b'] (by decide)
  obtain rfl := Except.ok.inj e
  have hs := (h _ (@Text.SliceOf.slice _ _ _ (.included 1) (.excluded 3) .refl rfl
    (by decide))).1
  exact ⟨_, _, e, rfl, hs.lines, hs.byteLen, hs.lineLen 1 1 rfl⟩

/-! ## A text of too many lines -/

theorem runsFrom_newlines (n w : ℕ) :
    runsFrom (List.replicate n '\n') w 0 = List.replicate n .newline := by
  induction n generalizing w with
  | zero => rfl
  | succ n ih =>
    rw [List.replicate_succ, List.replicate_succ, runsFrom]
    exact congrArg _ (ih _)

/-- No character is before the first one. -/
theorem stopsFirst_chars {runs : List Run} {cs : List Char} (h : Covers runs cs) :
    Cursor.StopsFirst .no (Dimension.default RunSummary : CharOffset) .right runs := by
  refine Cursor.stopsFirst_right fun d xs hne ⟨pre, post, hxs⟩ => ?_
  rw [← hxs] at h
  obtain ⟨ab, -, -, hab, -⟩ := h.split
  obtain ⟨-, b, -, -, hb⟩ := hab.split
  have hpos := List.length_pos_of_ne_nil hne
  have hle := hb.length_le
  have hchars : (summaryOf xs).chars = b.length := by rw [hb.summary_eq, charsSummary_chars]
  show 0 < d.asUsize + (summaryOf xs).chars
  omega

/-- The first query of a text of too many lines overflows the stack of its cursor. -/
theorem lineLen_capacity {n : ℕ} (hn : nodeCapacity ^ stackCapacity < n)
    (hsmall : n < treeBase ^ 254) :
    ∃ t, Text.from (List.replicate n '\n') = .ok t ∧ t.lineLen 0 = .error .capacity := by
  obtain ⟨H, runs, e, w, hruns⟩ := (extend_spec (wf_new (T := Run) (S := RunSummary))
    (runsFrom (List.replicate n '\n') 0 0)).resolve_right fun h => by
      have hle : treeBase ^ 254 ≤ (runsFrom (List.replicate n '\n') 0 0).length := h.2
      rw [runsFrom_newlines, List.length_replicate] at hle
      omega
  have hitems : runs.toList = runsFrom (List.replicate n '\n') 0 0 := hruns
  have hcov : Covers runs.toList (List.replicate n '\n') := by
    rw [hitems]
    exact @runsFrom_covers _ [] 0 fun _ h => nomatch h
  have hlen : runs.toList.length = n := by
    rw [hitems, runsFrom_newlines, List.length_replicate]
  refine ⟨⟨List.replicate n '\n', runs, 0, (List.replicate n '\n').length⟩, ?_, ?_⟩
  · unfold Text.from
    rw [e]
    rfl
  · have hseek := Cursor.seek_capacity (U := Point) w
      (List.ne_nil_of_length_pos (by omega)) (w.le_height (by omega)) (stopsFirst_chars hcov)
    have hzero : (⟨0⟩ : CharOffset) = Dimension.default RunSummary := rfl
    unfold Text.lineLen
    simp only [hzero, hseek]
    rfl

/-- **On a text of more than `12 ^ 16` newlines the first query panics**, and so does the length of a
range that ends before it starts. -/
theorem text_capacity : (∃ t,
    Text.from (List.replicate (nodeCapacity ^ stackCapacity + 1) '\n') = .ok t ∧
      t.lineLen 0 = .error .capacity) ∧
    ∃ t s, Text.from ['a', 'b'] = .ok t ∧ t.slice (.included 2) (.excluded 1) = .ok s ∧
      s.len = .error .overflow :=
  ⟨lineLen_capacity (Nat.lt_add_one _) (by decide), _, _, rfl, rfl, rfl⟩

end Clinch.BufferText
