import Clinch.Content.Cursor

/-!
# Slices partition a content

Slices of one cursor up to offsets that never decrease, and the suffix behind them. Each of them
splits a text fragment or stands at the markers of its offset, and none of them loses a piece.

* `cutAt_cutAt`, `lt_cutAt_iff`: a cut behind a cut, and the pieces before a cut;
* `BufferCursor.slices`, `Stands.slices`: a run of slices;
* **`slices_content`**: the slices are the content, cut at the offsets;
* `slices_markers`: a cut before the markers at an offset, behind a cut after them.
-/

set_option autoImplicit false

namespace Clinch.Content

open SumTree

variable {M U : Type} [Dimension U BufferSummary]

/-! ## Cuts -/

theorem cutAt_le_length (side : Markers) (n : ℕ) (ps : List (Piece M)) :
    cutAt side n ps ≤ ps.length := by
  induction ps generalizing n with
  | nil => cases side <;> exact le_rfl
  | cons p ps ih =>
    cases side with
    | before =>
      rw [cutAt]
      split
      · exact Nat.zero_le _
      · exact Nat.succ_le_succ (ih _)
    | after =>
      rw [cutAt]
      split
      · exact Nat.succ_le_succ (ih _)
      · exact Nat.zero_le _

/-- A cut behind an offset takes a piece before it, on either side. -/
theorem cutAt_cons_pos (side : Markers) {n : ℕ} (hn : n ≠ 0) {p : Piece M} (hp : p.width ≤ n)
    (ps : List (Piece M)) : cutAt side n (p :: ps) = cutAt side (n - p.width) ps + 1 := by
  cases side with
  | before => exact if_neg hn
  | after => exact if_pos hp

/-- **A cut behind a cut**: markers that the first one has taken are not given back. -/
theorem cutAt_cutAt {total : List (Piece M)} (hwidth : ∀ p ∈ total, p.width ≤ 1)
    {s₀ s side : Markers} {n₀ n : ℕ} (hle : n₀ ≤ n)
    (hside : side = .after ↔ s₀ = .after ∧ n₀ = n ∨ s = .after) :
    cutAt s₀ n₀ total + cutAt s (n - n₀) (total.drop (cutAt s₀ n₀ total)) =
      cutAt side n total := by
  have hsame : ¬ (s₀ = .after ∧ n₀ = n) → side = s := by
    intro h
    rw [or_iff_right h] at hside
    cases side <;> cases s <;> simp_all
  induction total generalizing n₀ n with
  | nil => cases s₀ <;> cases s <;> cases side <;> rfl
  | cons p ps ih =>
    have hp := hwidth p List.mem_cons_self
    have hps : ∀ q ∈ ps, q.width ≤ 1 := fun q hq => hwidth q (List.mem_cons_of_mem _ hq)
    -- both of the cuts take the piece
    have hstep : p.width ≤ n₀ → cutAt s₀ n₀ (p :: ps) = cutAt s₀ (n₀ - p.width) ps + 1 →
        cutAt side n (p :: ps) = cutAt side (n - p.width) ps + 1 →
        cutAt s₀ n₀ (p :: ps) + cutAt s (n - n₀) ((p :: ps).drop (cutAt s₀ n₀ (p :: ps))) =
          cutAt side n (p :: ps) := by
      intro hw hcut hcut'
      have heq : n₀ - p.width = n - p.width ↔ n₀ = n := by omega
      have hih := @ih hps (n₀ - p.width) (n - p.width) (by omega) (by rw [heq, hside])
        (by rwa [heq])
      rw [show n - p.width - (n₀ - p.width) = n - n₀ by omega] at hih
      rw [hcut, List.drop_succ_cons, hcut', ← hih]
      omega
    cases s₀ with
    | before =>
      by_cases hn₀ : n₀ = 0
      · rw [hn₀, cutAt_before_zero, hsame fun h => absurd h.1 (by decide)]
        exact Nat.zero_add _
      · exact hstep (by omega) (if_neg hn₀) (cutAt_cons_pos side (by omega) (by omega) ps)
    | after =>
      by_cases hw : p.width ≤ n₀
      · refine hstep hw (if_pos hw) ?_
        by_cases hn : n = 0
        · rw [hside.2 (Or.inl ⟨rfl, by omega⟩)]
          exact if_pos (by omega)
        · exact cutAt_cons_pos side hn (by omega) ps
      · -- a cut at the offset of a wide piece
        have hzero : cutAt .after n₀ (p :: ps) = 0 := if_neg hw
        rw [hzero, List.drop_zero, Nat.zero_add, show n₀ = 0 by omega, Nat.sub_zero]
        by_cases hn : n = 0
        · have hnone : ∀ s' : Markers, cutAt s' n (p :: ps) = 0 := by
            intro s'
            cases s' with
            | before => exact if_pos hn
            | after => exact if_neg (by omega)
          rw [hnone, hnone]
        · rw [hsame fun h => hn (by omega)]

/-- **The pieces before a cut** are those that begin before its offset, and the markers there when
it is behind them. -/
theorem lt_cutAt_iff {ps qs : List (Piece M)} {p : Piece M}
    (hwidth : ∀ q ∈ ps ++ p :: qs, q.width ≤ 1) (side : Markers) (n : ℕ) :
    ps.length < cutAt side n (ps ++ p :: qs) ↔
      widthOf ps < n ∨ widthOf ps = n ∧ p.width = 0 ∧ side = .after := by
  induction ps generalizing n with
  | nil =>
    have hp : p.width ≤ 1 := hwidth p (by simp)
    cases side with
    | before =>
      by_cases hn : n = 0
      · simp [hn, cutAt_before_zero]
      · simp [cutAt, if_neg hn, Nat.pos_of_ne_zero hn]
    | after =>
      by_cases hn : p.width ≤ n
      · simp only [List.nil_append, cutAt, if_pos hn, widthOf_nil, List.length_nil, and_true]
        omega
      · simp only [List.nil_append, cutAt, if_neg hn, widthOf_nil, List.length_nil]
        omega
  | cons q ps ih =>
    have hq := hwidth q List.mem_cons_self
    have hih := ih (fun q' hq' => hwidth q' (List.mem_cons_of_mem _ hq')) (n - q.width)
    rw [widthOf_cons, List.length_cons, List.cons_append]
    cases side with
    | before =>
      by_cases hn : n = 0
      · simp [hn, cutAt_before_zero]
      · rw [cutAt, if_neg hn, Nat.add_lt_add_iff_right, hih]
        simp only [reduceCtorEq, and_false, or_false]
        omega
    | after =>
      by_cases hn : q.width ≤ n
      · rw [cutAt, if_pos hn, Nat.add_lt_add_iff_right, hih]
        simp only [and_true]
        omega
      · rw [cutAt, if_neg hn]
        simp only [and_true]
        omega

theorem width_le_one {items : List (BufferText M)} {p : Piece M} (hp : p ∈ pieces items) :
    p.width ≤ 1 := by
  obtain ⟨item, -, hp⟩ := List.mem_flatMap.1 hp
  cases item with
  | text fragment charCount =>
    obtain ⟨c, -, rfl⟩ := List.mem_map.1 hp
    exact le_rfl
  | _ =>
    obtain rfl := List.mem_singleton.1 hp
    simp [Piece.width, BufferText.charLen]

/-! ## Runs of slices -/

namespace BufferCursor

/-- Slices up to each of the offsets, and the suffix behind them. -/
def slices (self : BufferCursor M U) :
    List (Markers × ℕ) → Result (List (SumTree (BufferText M) BufferSummary))
  | [] => do
    let (_, rest) ← self.suffix
    return [rest]
  | (side, endOffset) :: cuts => do
    let (self, newContent) ← self.sliceTo side endOffset
    return newContent :: (← self.slices cuts)

/-- The pieces of some contents, one behind the other. -/
def piecesOf (contents : List (SumTree (BufferText M) BufferSummary)) : List (Piece M) :=
  contents.flatMap fun content => pieces content.toList

theorem piecesOf_cons (content : SumTree (BufferText M) BufferSummary)
    (contents : List (SumTree (BufferText M) BufferSummary)) :
    piecesOf (content :: contents) = pieces content.toList ++ piecesOf contents := rfl

variable {root : SumTree (BufferText M) BufferSummary} {H : ℕ}

/-- **A run of slices**, behind a cut. -/
theorem Stands.slices (w : Wf H root) (hH : H < stackCapacity)
    (hvalid : ∀ item ∈ root.toList, item.Valid) {self : BufferCursor M U} {total : List (Piece M)}
    (hwidth : ∀ p ∈ total, p.width ≤ 1) {s₀ : Markers} {n₀ : ℕ}
    (h : self.Stands root H (total.drop (cutAt s₀ n₀ total))) (hoff : self.offset = n₀)
    {cuts : List (Markers × ℕ)} (hcuts : ((s₀, n₀) :: cuts).Pairwise (·.2 ≤ ·.2)) :
    Returns (fun contents => contents.length = cuts.length + 1 ∧
      (∀ content ∈ contents, IsContent content) ∧
      piecesOf contents = total.drop (cutAt s₀ n₀ total) ∧
      ∀ i s n, cuts[i]? = some (s, n) → ∃ side : Markers,
        (side = .after ↔ s₀ = .after ∧ n₀ = n ∨ ∃ j ≤ i, cuts[j]? = some (.after, n)) ∧
        cutAt s₀ n₀ total + (piecesOf (contents.take (i + 1))).length = cutAt side n total)
      (self.slices cuts) := by
  induction cuts generalizing self s₀ n₀ with
  | nil =>
    rw [BufferCursor.slices]
    refine (h.suffix w hH hvalid).bind fun r hr => Returns.ok ⟨rfl, ?_, ?_, ?_⟩
    · exact fun content hc => List.mem_singleton.1 hc ▸ hr.1
    · rw [piecesOf_cons, hr.2]
      exact List.append_nil _
    · exact fun i s n hi => absurd hi (by simp)
  | cons cut cuts ih =>
    obtain ⟨s, n⟩ := cut
    obtain ⟨hfirst, hrest⟩ := List.pairwise_cons.1 hcuts
    have hle : n₀ ≤ n := hfirst _ List.mem_cons_self
    obtain ⟨side, hafter⟩ : ∃ side, side = Markers.after ↔ s₀ = .after ∧ n₀ = n ∨ s = .after := by
      by_cases h : s₀ = .after ∧ n₀ = n
      · exact ⟨.after, iff_of_true rfl (Or.inl h)⟩
      · exact ⟨s, (or_iff_right h).symm⟩
    have hjoin := cutAt_cutAt hwidth hle hafter
    rw [BufferCursor.slices]
    refine (h.sliceTo w hH hvalid (hoff ▸ hle) s).bind ?_
    rintro ⟨self', newContent⟩ ⟨hnew, hoff', htaken, hstands⟩
    rw [hoff, List.drop_drop, hjoin] at hstands
    rw [hoff, List.nil_append] at htaken
    have hlen : cutAt s₀ n₀ total + (pieces newContent.toList).length = cutAt side n total := by
      rw [htaken, List.length_take_of_le (cutAt_le_length _ _ _), hjoin]
    refine (ih hstands hoff' (List.pairwise_cons.2 ⟨fun cut hcut => ?_, ?_⟩)).bind ?_
    · exact (List.pairwise_cons.1 hrest).1 cut hcut
    · exact (List.pairwise_cons.1 hrest).2
    rintro contents ⟨hlength, hcontents, hpieces, hcut⟩
    refine Returns.ok ⟨congrArg (· + 1) hlength, ?_, ?_, ?_⟩
    · exact List.forall_mem_cons.2 ⟨hnew, hcontents⟩
    · rw [piecesOf_cons, hpieces, htaken, ← hjoin, ← List.drop_drop, List.take_append_drop]
    · intro i s' n' hi
      cases i with
      | zero =>
        obtain ⟨rfl, rfl⟩ := Prod.mk.inj (Option.some.inj hi)
        refine ⟨side, hafter.trans (or_congr_right ?_), ?_⟩
        · simp
        · rw [List.take_succ_cons, List.take_zero, piecesOf_cons, ← hlen]
          simp [piecesOf]
      | succ i =>
        rw [List.getElem?_cons_succ] at hi
        obtain ⟨side', hside', hlen'⟩ := hcut i s' n' hi
        have hn' : n ≤ n' := (List.pairwise_cons.1 hrest).1 _ (List.mem_of_getElem? hi)
        refine ⟨side', hside'.trans ⟨?_, ?_⟩, ?_⟩
        · rintro (⟨hs, rfl⟩ | ⟨j, hj, hcutj⟩)
          · rcases hafter.1 hs with h | rfl
            · exact Or.inl h
            · exact Or.inr ⟨0, Nat.zero_le _, rfl⟩
          · exact Or.inr ⟨j + 1, Nat.succ_le_succ hj, hcutj⟩
        · rintro (⟨hs, rfl⟩ | ⟨_ | j, hj, hcutj⟩)
          · have heq : n₀ = n := le_antisymm hle hn'
            exact Or.inl ⟨hafter.2 (Or.inl ⟨hs, heq⟩), heq.symm⟩
          · obtain ⟨rfl, rfl⟩ := Prod.mk.inj (Option.some.inj hcutj)
            exact Or.inl ⟨hafter.2 (Or.inr rfl), rfl⟩
          · exact Or.inr ⟨j, Nat.succ_le_succ_iff.1 hj, hcutj⟩
        · rw [List.take_succ_cons, piecesOf_cons, List.length_append, ← hlen', ← hlen]
          omega

/-- **Slices partition the content**, on a tree of at most 16 levels. Up to the splitting of
fragments, the slices of a cursor up to offsets that never decrease, and the suffix, are the content.
A piece is in the slices up to an offset if it begins before it; a marker at the offset is, if this
slice or an earlier one up to the same offset is after the markers. `append_str` appends the
characters of its text and a newline for each line break, in fragments within their capacity. -/
theorem slices_content {t : SumTree (BufferText M) BufferSummary} (ht : IsContent t)
    (hH : t.height < stackCapacity) :
    (∀ cuts : List (Markers × ℕ), cuts.Pairwise (·.2 ≤ ·.2) → ∃ contents,
      (new (.new t) : BufferCursor M U).slices cuts = .ok contents ∧
        contents.length = cuts.length + 1 ∧ (∀ content ∈ contents, IsContent content) ∧
        piecesOf contents = pieces t.toList ∧
        ∀ i s n, cuts[i]? = some (s, n) → ∀ ps p qs, pieces t.toList = ps ++ p :: qs →
          (ps.length < (piecesOf (contents.take (i + 1))).length ↔ widthOf ps < n ∨
            widthOf ps = n ∧ p.width = 0 ∧ ∃ j ≤ i, cuts[j]? = some (.after, n))) ∧
    ∀ s : List Char, Grows (pieces t.toList ++ breakPieces s) (appendStr t s) := by
  obtain ⟨h, w⟩ := ht.wf
  rw [w.height_eq] at hH
  refine ⟨fun cuts hcuts => ?_, appendStr_spec ht⟩
  have hwidth : ∀ p ∈ pieces t.toList, p.width ≤ 1 := fun p => width_le_one
  have hzero : cutAt .before 0 (pieces t.toList) = 0 := cutAt_before_zero _
  have hnew : (new (.new t) : BufferCursor M U).Stands t h
      ((pieces t.toList).drop (cutAt .before 0 (pieces t.toList))) := by
    rw [hzero]
    exact stands_new
  obtain ⟨contents, e, hlength, hcontents, hpieces, hcut⟩ := hnew.slices w hH ht.valid hwidth rfl
    (List.pairwise_cons.2 ⟨fun cut _ => Nat.zero_le _, hcuts⟩)
  rw [hzero] at hpieces hcut
  refine ⟨contents, e, hlength, hcontents, hpieces, fun i s n hi ps p qs hps => ?_⟩
  obtain ⟨side, hside, hlen⟩ := hcut i s n hi
  rw [Nat.zero_add] at hlen
  rw [hps] at hlen hwidth
  rw [or_iff_right fun hs => absurd hs.1 (by decide)] at hside
  rw [hlen, lt_cutAt_iff hwidth side n, hside]

/-- A character, and a marker behind it. -/
def marked : SumTree (BufferText Unit) BufferSummary :=
  .leaf ⟨1⟩ [.text ['a'] 1, .marker ()] [⟨1⟩, ⟨0⟩]

theorem isContent_marked : IsContent marked := by
  refine ⟨⟨0, @Wf.leaf (BufferText Unit) BufferSummary _ _ [.text ['a'] 1, .marker ()] (by decide)⟩, ?_⟩
  intro item hitem
  simp only [marked, SumTree.toList, List.mem_cons, List.not_mem_nil, or_false] at hitem
  rcases hitem with rfl | rfl
  · exact ⟨by decide, by decide, by decide, rfl⟩
  · trivial

/-- A cut inside of a fragment, and one before the marker behind it. -/
theorem slices_content_marked : ∃ contents,
    (new (.new marked) : BufferCursor Unit ℕ).slices [(.after, 0), (.before, 1)] = .ok contents ∧
      piecesOf contents = [.char 'a', .whole (.marker ())] := by
  obtain ⟨contents, e, -, -, hpieces, -⟩ := (slices_content (U := ℕ) isContent_marked (by decide)).1
    [(.after, 0), (.before, 1)] (by decide)
  exact ⟨contents, e, hpieces⟩

/-- A content of too many newlines. -/
theorem exists_high : ∃ t : SumTree (BufferText Unit) BufferSummary,
    SumTree.new.extend (List.replicate (nodeCapacity ^ stackCapacity + 1) .newline) = .ok t ∧
      IsContent t ∧ (new (.new t) : BufferCursor Unit ℕ).slices [(.before, 0)] = .error .capacity := by
  obtain ⟨H, t, e, w, hitems⟩ := (extend_spec (wf_new (T := BufferText Unit) (S := BufferSummary))
    (List.replicate (nodeCapacity ^ stackCapacity + 1) .newline)).resolve_right fun h => by
      have hle := h.2
      rw [show SumTree.new.toList = ([] : List (BufferText Unit)) from rfl, List.nil_append,
        List.length_replicate] at hle
      exact absurd hle (by decide)
  have hlist : t.toList = List.replicate (nodeCapacity ^ stackCapacity + 1) .newline := hitems
  have hlen : nodeCapacity ^ stackCapacity < t.toList.length := by
    rw [hlist, List.length_replicate]
    exact Nat.lt_add_one _
  refine ⟨t, e, ⟨⟨H, w⟩, fun item hitem => ?_⟩, ?_⟩
  · rw [hlist] at hitem
    obtain rfl := List.eq_of_mem_replicate hitem
    trivial
  · have hslice : (Cursor.new t : Cursor (BufferText Unit) BufferSummary ℕ ℕ).slice 0 .left =
        .error .capacity := Cursor.slice_capacity w (List.ne_nil_of_length_pos (by omega))
          (w.le_height hlen) Nat.not_lt_zero
    have hinside : (new (.new t) : BufferCursor Unit ℕ).sliceInside 0 =
        .ok (new (.new t), .new, false) := rfl
    rw [BufferCursor.slices, BufferCursor.sliceTo, sliceToOffsetBeforeMarkers,
      debugAssert_ok (by rfl), ok_bind, hinside, ok_bind]
    simp only [Bool.false_eq_true, if_false, sliceBefore, BufferCursor.new, hslice, error_bind]

/-- **A cut before the markers, behind a cut after them at the same offset**: the marker falls before
it. On a content of more than 16 levels the first slice panics. -/
theorem slices_markers :
    ((new (.new marked) : BufferCursor Unit ℕ).slices [(.after, 1), (.before, 1)] =
      .ok [marked, .new, .new] ∧ marked.toList = [.text ['a'] 1, .marker ()]) ∧
    ∃ t : SumTree (BufferText Unit) BufferSummary,
      SumTree.new.extend (List.replicate (nodeCapacity ^ stackCapacity + 1) .newline) = .ok t ∧
        IsContent t ∧
        (new (.new t) : BufferCursor Unit ℕ).slices [(.before, 0)] = .error .capacity :=
  ⟨⟨rfl, rfl⟩, exists_high⟩

end BufferCursor

end Clinch.Content
