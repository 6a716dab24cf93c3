import Clinch.SumTree.Built
import Clinch.SumTree.Seek

/-!
# Cursors over whole runs

`prev` restarts its sums from those that the stack records. A seek that moves to the right by
`slice`, `summary` or `suffix` moves the index of an entry without its sums, so the run lemma asks
that the entry that `prev` reads is up to date.

* `Cursor.Call`, `Cursor.call`, `Documented`, `PrevExact`, `Run`;
* `Exact`: what is read from the cursor is what its position says;
* **`run_exact`**: it is, in every run;
* `prev_after_slice`: the sums of a cursor that moved back after a slice.
-/

set_option autoImplicit false

namespace Clinch

open SumTree

variable {T S D U : Type} [AddMonoid S] [Item T S] [Dimension D S] [Dimension U S] [LinearOrder D]

namespace Cursor

/-- A call on a cursor. -/
inductive Call (D S : Type) : Type 1
  | seek (pos : D) (bias : SeekBias)
  | seekClamped (pos : D) (bias : SeekBias)
  | slice (endPos : D) (bias : SeekBias)
  | suffix
  | summary (W : Type) (dimension : Dimension W S) (endPos : D) (bias : SeekBias)
  | next
  | prev

/-- The cursor after a call. -/
def call (c : Cursor T S D U) : Call D S → Result (Cursor T S D U)
  | .seek pos bias => do return (← c.seek pos bias).1
  | .seekClamped pos bias => c.seekClamped pos bias
  | .slice endPos bias => do return (← c.slice endPos bias).1
  | .suffix => do return (← c.suffix).1
  | .summary W _ endPos bias => do return (← c.summaryTo W endPos bias).1
  | .next => c.next
  | .prev => c.prev

omit [AddMonoid S] [Item T S] [Dimension U S] in
/-- A target is not before the place that the seek starts from, and `next` and `prev` need a seek
first. -/
def Documented (c : Cursor T S D U) : Call D S → Prop
  | .seek pos _ | .seekClamped pos _ => Dimension.default S ≤ pos
  | .slice endPos _ | .summary _ _ endPos _ => c.seekDimension ≤ endPos
  | .suffix => True
  | .next | .prev => c.didSeek = true

/-- `prev` is not called before the first item, and what it restarts from is up to date. -/
def PrevExact (c : Cursor T S D U) : Call D S → Prop
  | .prev => c.position ≠ 0 ∧ c.Restarts
  | _ => True

/-- The cursors over `t` that documented calls with the property reach. -/
inductive Run (P : Cursor T S D U → Call D S → Prop) (t : SumTree T S) : Cursor T S D U → Prop
  | new : Run P t (.new t)
  | call {c c' : Cursor T S D U} (call : Call D S) : Run P t c → c.Documented call → P c call →
      c.call call = .ok c' → Run P t c'

/-- What is read from the cursor is what its position in the items `xs` says. -/
structure Exact (xs : List T) (c : Cursor T S D U) : Prop where
  position_le : c.position ≤ xs.length
  item : c.item = .ok xs[c.position]?
  prevItem : c.prevItem = .ok (if c.position = 0 then none else xs[c.position - 1]?)
  start : c.start = measure U (xs.take c.position)
  seekPosition : c.seekPosition = measure D (xs.take c.position)

variable {root : SumTree T S} {H : ℕ} {c : Cursor T S D U} {xs ys : List T}

omit [LinearOrder D] in
theorem At.exact (w : Wf H root) (hU : ExactDimension T U) (hc : c.At root H xs ys) : c.Exact root.toList := by
  have hpos := hc.position
  have hroot := hc.place.append_eq
  refine ⟨?_, ?_, ?_, ?_, ?_⟩
  · rw [hroot, hpos, List.length_append]
    omega
  · rw [Stands.item hc, hroot, hpos, List.getElem?_append_right le_rfl, Nat.sub_self,
      List.head?_eq_getElem?]
  · rw [hc.prevItem w, hroot, hpos, List.getLast?_eq_getElem?]
    split
    · rename_i h0
      rw [List.length_eq_zero_iff.mp h0]
      rfl
    · rw [List.getElem?_append_left (by omega)]
  · rw [hroot, hpos, List.take_left]
    exact hc.sums.2 hU
  · rw [hroot, hpos, List.take_left]
    exact hc.sums.1

omit [LinearOrder D] in
theorem Ready.tree_eq (hc : c.Ready root H xs ys) : c.tree = root := by
  rcases hc with hc | ⟨rfl, -, -⟩
  · exact hc.tree
  · rfl

omit [LinearOrder D] in
theorem Ready.at (hc : c.Ready root H xs ys) (hd : c.didSeek = true) : c.At root H xs ys := by
  rcases hc with hc | ⟨rfl, -, -⟩
  · exact hc
  · exact nomatch hd

omit [LinearOrder D] in
theorem Ready.sums (hc : c.Ready root H xs ys) : Counts c.seekDimension c.sumDimension xs := by
  rcases hc with hc | ⟨rfl, rfl, -⟩
  · exact hc.sums
  · exact ⟨rfl, fun _ => rfl⟩

omit [LinearOrder D] in
theorem Ready.position (hc : c.Ready root H xs ys) : c.position = xs.length := by
  rcases hc with hc | ⟨rfl, rfl, -⟩
  · exact At.position hc
  · rfl

section Calls

variable (w : Wf H root) (hH : H < stackCapacity) (hD : ExactDimension T D)

include w hH hD

/-- **A slice is the items that the cursor moves over.** -/
theorem Ready.slice (hc : c.Ready root H xs ys) {endPos : D} (ht : c.seekDimension ≤ endPos)
    (bias : SeekBias) : Returns (fun r => ∃ ms ys', ys = ms ++ ys' ∧ r.1.At root H (xs ++ ms) ys' ∧
      r.2.toList = ms ∧ (∃ h, Wf h r.2) ∧ Passed endPos bias .no (.slice xs) (xs ++ ms) ∧
      Stops endPos bias .no (xs ++ ms) ys') (c.slice endPos bias) := by
  have ha : Collects (.slice .new : SeekAggregate T S Unit) (.slice xs) xs := by
    have ha : Collects (.slice .new : SeekAggregate T S Unit) (.slice xs) (xs ++ _) := .slice wf_new
    simpa [SumTree.new] using ha
  refine (seekInternal_at endPos bias .no w hH hD hc ht ha rfl).bind ?_
  rintro ⟨c', agg, found⟩ ⟨ms, ys', hys, hat, ha, hp, hstop, -⟩
  generalize hzs : xs ++ ms = zs at ha hat hp hstop
  cases ha with
  | slice wt =>
    obtain rfl := List.append_cancel_left hzs
    exact Returns.ok ⟨_, ys', hys, hat, rfl, ⟨_, wt⟩, hp, hstop⟩

theorem Ready.call (hm : MonotoneDimension D root.toList) (hc : c.Ready root H xs ys)
    (call : Call D S) (hdoc : c.Documented call) (hprev : c.PrevExact call) :
    Returns (fun c => ∃ xs ys, c.At root H xs ys) (c.call call) := by
  have hnone : ∀ W [Dimension W S] zs, Collects (.none : SeekAggregate T S W) (.none []) zs :=
    fun _ _ _ => .none
  have hreset : c.reset.Ready root H [] root.toList := Or.inr ⟨by rw [← hc.tree_eq]; rfl, rfl, rfl⟩
  cases call with
  | seek pos bias =>
    refine Returns.bind (Q := fun r => ∃ xs ys, r.1.At root H xs ys) ?_ fun r hr => Returns.ok hr
    refine (seekInternal_at pos bias .no w hH hD hreset hdoc (hnone Unit []) rfl).bind ?_
    rintro ⟨c', agg, found⟩ ⟨ms, ys', -, hat, -⟩
    exact Returns.ok ⟨_, _, hat⟩
  | seekClamped pos bias =>
    refine (seekInternal_at pos bias .yes w hH hD hreset hdoc (hnone Unit []) rfl).bind ?_
    rintro ⟨c', agg, found⟩ ⟨ms, ys', -, hat, -⟩
    exact Returns.ok ⟨_, _, hat⟩
  | slice endPos bias =>
    refine (hc.slice w hH hD hdoc bias).bind ?_
    rintro ⟨c', u⟩ ⟨ms, ys', -, hat, -⟩
    exact Returns.ok ⟨_, _, hat⟩
  | suffix =>
    have hext : c.seekDimension ≤ extent root D := by
      rw [hD.extent_eq w, hc.sums.1, hc.append_eq]
      exact hm xs ys [] (by rw [hc.append_eq, List.append_nil])
    rw [← hc.tree_eq] at hext
    refine Returns.bind (Q := fun r => ∃ xs ys, r.1.At root H xs ys) ?_ fun r hr => Returns.ok hr
    refine Returns.mono (hc.slice w hH hD hext .right) ?_
    rintro ⟨c', u⟩ ⟨ms, ys', -, hat, -⟩
    exact ⟨_, _, hat⟩
  | summary W dimension endPos bias =>
    refine Returns.bind (Q := fun r => ∃ xs ys, r.1.At root H xs ys) ?_ fun r hr => Returns.ok hr
    have ha : Collects (.summary (Dimension.default S : W)) (.summary xs) xs := by
      have ha : Collects (.summary (Dimension.default S : W)) (.summary xs) (xs ++ []) :=
        .summary fun _ => rfl
      rwa [List.append_nil] at ha
    refine (seekInternal_at endPos bias .no w hH hD hc hdoc ha rfl).bind ?_
    rintro ⟨c', agg, found⟩ ⟨ms, ys', -, hat, ha, -⟩
    generalize xs ++ ms = zs at ha hat
    cases ha with
    | summary => exact Returns.ok ⟨_, _, hat⟩
  | next =>
    have hat := hc.at hdoc
    cases ys with
    | nil => exact ⟨c, hat.next_end, _, _, hat⟩
    | cons y ys => exact (hat.next w hH).mono fun c hc => ⟨_, _, hc⟩
  | prev =>
    have hat := hc.at hdoc
    obtain ⟨hne, hr⟩ := hprev
    rw [hat.position] at hne
    obtain ⟨zs, x, rfl⟩ := (List.eq_nil_or_concat' xs).resolve_left fun h => hne (by rw [h]; rfl)
    exact (hat.prev w hH hD hr).mono fun c hc => ⟨_, _, hc⟩

/-- **In every run the cursor stands between two items.** -/
theorem Run.ready (hm : MonotoneDimension D root.toList) {c : Cursor T S D U}
    (r : Run PrevExact root c) : ∃ xs ys, c.Ready root H xs ys := by
  induction r with
  | new => exact ⟨_, _, ready_new⟩
  | @call c c' call _ hdoc hprev e ih =>
    obtain ⟨xs, ys, hc⟩ := ih
    obtain ⟨xs, ys, hat⟩ := (hc.call w hH hD hm call hdoc hprev).of_eq_ok e
    exact ⟨xs, ys, Or.inl hat⟩

end Calls

end Cursor

/-- **What is read from a cursor is what its position says**, in every run over a tree of height at
most 15 in which `prev` is called after the first item and finds what it restarts from up to date.
Every documented call returns, `next` and `prev` move the position by one, and a slice is the items
between the old position and the new one. -/
theorem run_exact {t : SumTree T S} (b : Built t) (hH : t.height < stackCapacity)
    (hD : ExactDimension T D) (hU : ExactDimension T U) (hm : MonotoneDimension D t.toList)
    {c : Cursor T S D U} (r : Cursor.Run Cursor.PrevExact t c) :
    (c.didSeek = true → c.Exact t.toList) ∧
    (∀ call, c.Documented call → c.PrevExact call →
      ∃ c', c.call call = .ok c' ∧ c'.Exact t.toList) ∧
    (c.didSeek = true → c.position < t.toList.length →
      ∃ c', c.next = .ok c' ∧ c'.position = c.position + 1) ∧
    (c.didSeek = true → c.position = t.toList.length → c.next = .ok c) ∧
    (c.didSeek = true → c.PrevExact .prev → ∃ c', c.prev = .ok c' ∧ c'.position + 1 = c.position) ∧
    ∀ endPos bias, c.didSeek = true → c.seekDimension ≤ endPos → ∃ c' u,
      c.slice endPos bias = .ok (c', u) ∧ c.position ≤ c'.position ∧
        u.toList = (t.toList.take c'.position).drop c.position := by
  obtain ⟨h, w⟩ := b.wf
  rw [w.height_eq] at hH
  obtain ⟨xs, ys, hc⟩ := r.ready w hH hD hm
  refine ⟨fun hd => (hc.at hd).exact w hU, fun call hdoc hprev => ?_, fun hd hlt => ?_,
    fun hd hend => ?_, fun hd hprev => ?_, fun endPos bias hd ht => ?_⟩
  · obtain ⟨c', e, xs, ys, hat⟩ := hc.call w hH hD hm call hdoc hprev
    exact ⟨c', e, hat.exact w hU⟩
  · have hat := hc.at hd
    rw [hat.position, hc.append_eq, List.length_append] at hlt
    cases ys with
    | nil => exact absurd hlt (by simp)
    | cons y ys =>
      obtain ⟨c', e, hat'⟩ := hat.next w hH
      exact ⟨c', e, by rw [hat'.position, hat.position, List.length_append]; rfl⟩
  · have hat := hc.at hd
    rw [hat.position, hc.append_eq, List.length_append] at hend
    obtain rfl : ys = [] := List.length_eq_zero_iff.mp (by omega)
    exact hat.next_end
  · have hat := hc.at hd
    obtain ⟨hne, hr⟩ := hprev
    rw [hat.position] at hne
    obtain ⟨zs, x, rfl⟩ := (List.eq_nil_or_concat' xs).resolve_left fun h => hne (by rw [h]; rfl)
    obtain ⟨c', e, hat'⟩ := hat.prev w hH hD hr
    exact ⟨c', e, by rw [hat'.position, hat.position, List.length_append]; rfl⟩
  · have hat := hc.at hd
    obtain ⟨⟨c', u⟩, e, ms, ys', rfl, hat', hu, -⟩ := hc.slice w hH hD ht bias
    simp only at hat' hu
    refine ⟨c', u, e, ?_, ?_⟩
    · rw [hat.position, hat'.position, List.length_append]
      omega
    · rw [hat.position, hat'.position, hc.append_eq, ← List.append_assoc, List.take_left,
        List.drop_left, hu]

/-! ## A tree with two leaves -/

/-- Items that are counted. -/
instance : Dimension ℕ ℕ := ⟨0, (· + ·)⟩

theorem exact_count : ExactDimension Unit ℕ := by
  refine ⟨fun d xs hne => ?_, rfl⟩
  clear hne
  induction xs generalizing d with
  | nil => rfl
  | cons x xs ih => exact (Nat.add_assoc _ _ _).symm.trans (ih (d + 1))

theorem measure_count (xs : List Unit) : measure ℕ xs = xs.length := by
  have key : ∀ d : ℕ, measureFrom d xs = d + xs.length := by
    induction xs with
    | nil => exact fun d => rfl
    | cons x xs ih => exact fun d => (ih (d + 1)).trans (by rw [List.length_cons]; omega)
  exact (key 0).trans (Nat.zero_add _)

theorem monotone_count (items : List Unit) : MonotoneDimension ℕ items := by
  intro xs ys zs _
  rw [measure_count, measure_count, List.length_append]
  omega

/-- Seven items. -/
def sevenItems : SumTree Unit ℕ := .leaf 7 (List.replicate 7 ()) (List.replicate 7 1)

/-- The tree that `extend` builds from 14 items. -/
def twoLeaves : SumTree Unit ℕ := .internal 1 14 [7, 7] [sevenItems, sevenItems]

theorem built_twoLeaves : Built twoLeaves :=
  have h : SumTree.new.extend (List.replicate 14 ()) = .ok twoLeaves := rfl
  .extend .new h

/-- A cursor before item `i` of the second leaf, with sums that count `n` for the first leaf. -/
def inSecondLeaf (n i : ℕ) : Cursor Unit ℕ ℕ ℕ :=
  ⟨twoLeaves, [⟨sevenItems, i, n + i, n + i⟩, ⟨twoLeaves, 1, n, n⟩], n + i, n + i, true, false⟩

/-- A run that moves into the second leaf and back by one item. -/
theorem run_exact_twoLeaves : ∃ c : Cursor Unit ℕ ℕ ℕ, Cursor.Run Cursor.PrevExact twoLeaves c ∧
    c.position = 9 ∧ c.Exact twoLeaves.toList := by
  have r0 : Cursor.Run Cursor.PrevExact twoLeaves (.new twoLeaves : Cursor Unit ℕ ℕ ℕ) := .new
  have r1 : Cursor.Run Cursor.PrevExact twoLeaves (inSecondLeaf 7 3) :=
    r0.call (.seek 10 .right) (Nat.zero_le _) trivial rfl
  have r2 : Cursor.Run Cursor.PrevExact twoLeaves (inSecondLeaf 7 2) :=
    r1.call .prev rfl ⟨by decide, fun parent stack h => by cases h; exact ⟨rfl, rfl⟩⟩ rfl
  exact ⟨_, r2, rfl, (run_exact built_twoLeaves (by decide) exact_count exact_count
    (monotone_count _) r2).1 rfl⟩

/-- **After a slice into the second leaf, `prev` loses the first leaf from the sums**: the cursor is
before item 9, and `start` says 2. -/
theorem prev_after_slice : Built twoLeaves ∧ twoLeaves.height < stackCapacity ∧
    (∃ c : Cursor Unit ℕ ℕ ℕ, Cursor.Run (fun _ _ => True) twoLeaves c ∧ c.didSeek = true ∧
      c.position = 9 ∧ c.start = 2 ∧ c.seekPosition = 2 ∧ ¬ c.Exact twoLeaves.toList) ∧
    ∃ c : Cursor Unit ℕ ℕ ℕ, (Cursor.new twoLeaves).call (.seek 9 .right) = .ok c ∧
      c.position = 9 ∧ c.start = 9 := by
  refine ⟨built_twoLeaves, by decide, ?_, inSecondLeaf 7 2, rfl, rfl, rfl⟩
  have r0 : Cursor.Run (fun _ _ => True) twoLeaves (.new twoLeaves : Cursor Unit ℕ ℕ ℕ) := .new
  have r1 : Cursor.Run (fun _ _ => True) twoLeaves
      ⟨twoLeaves, [⟨sevenItems, 0, 0, 0⟩, ⟨twoLeaves, 0, 0, 0⟩], 0, 0, true, false⟩ :=
    r0.call (.seek 0 .right) le_rfl trivial rfl
  have r2 : Cursor.Run (fun _ _ => True) twoLeaves
      ⟨twoLeaves, [⟨sevenItems, 3, 10, 10⟩, ⟨twoLeaves, 1, 0, 0⟩], 10, 10, true, false⟩ :=
    r1.call (.slice 10 .right) (Nat.zero_le _) trivial (by cbv)
  have r3 : Cursor.Run (fun _ _ => True) twoLeaves (inSecondLeaf 0 2) := r2.call .prev rfl trivial rfl
  refine ⟨_, r3, rfl, rfl, rfl, rfl, fun h => ?_⟩
  exact absurd h.start (by decide)

end Clinch
