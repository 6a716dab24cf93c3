import Clinch.Along
import Clinch.FlatStorage.RowIterator

/-!
# Runs of an attribute map

`flat_storage/attribute_map.rs` over a whole history. What a map stands for is a step function: the
value at an offset is that of the last change at or before it which was not cut off. A cut keeps a
change at the very offset of the cut, as the value in force there.

* `AttributeMap.valueAt`, `AttributeIter.values`, `values_iterFrom`: what a map reads;
* `Attribute`, `AttributeOp`, `Allowed`: the changes and what is done to them;
* `Agrees`, `Reads`: the map reads what the changes say, as the iterator yields it and by offset;
* `reads_apply_iff`: an operation keeps this unless a change is pushed where one was kept;
* `agrees_iff`: the runs that keep it.
-/

set_option autoImplicit false

namespace Clinch

namespace FlatStorage

variable {α : Type}

/-! ## What a map reads -/

namespace AttributeMap

/-- The value of the first range that ends at or behind the offset. -/
def valueAt (m : AttributeMap α) (offset : ℕ) : α :=
  ((m.map.splitOff offset).firstValue).getD m.tailValue

theorem valueAt_def (m : AttributeMap α) (offset : ℕ) :
    m.valueAt offset =
      ((m.map.entries.find? fun e => decide (offset ≤ e.1)).map Prod.snd).getD m.tailValue := by
  rw [valueAt, BTreeMap.firstValue, BTreeMap.splitOff, List.head?_filter]

/-- The ranges that end before an offset, and the value there. -/
theorem valueAt_split (m : AttributeMap α) {offset cut : ℕ} (h : offset ≤ cut) :
    m.valueAt offset =
      (((m.map.below cut).entries.find? fun e => decide (offset ≤ e.1)).map Prod.snd).getD
        (m.valueAt cut) := by
  have hall : ((m.map.splitOff cut).entries.find? fun e => decide (offset ≤ e.1)) =
      (m.map.splitOff cut).entries.head? := by
    rw [← List.head?_filter, List.filter_eq_self.mpr]
    intro e he
    have hle : cut ≤ e.1 := by simpa using (List.mem_filter.mp he).2
    simpa using h.trans hle
  rw [valueAt_def, m.map.entries_split cut, List.find?_append, hall]
  cases (m.map.below cut).entries.find? fun e => decide (offset ≤ e.1) with
  | none => rfl
  | some e => rfl

theorem valueAt_eq_tail (m : AttributeMap α) {offset : ℕ}
    (h : ∀ e ∈ m.map.entries, e.1 < offset) : m.valueAt offset = m.tailValue := by
  have hnone : (m.map.entries.find? fun e => decide (offset ≤ e.1)) = none := by
    rw [List.find?_eq_none]
    intro e he
    simpa using h e he
  rw [valueAt_def, hnone]
  rfl

/-- A cut keeps what is read up to it, and the value there. -/
theorem valueAt_truncate (m : AttributeMap α) (newLen offset : ℕ) :
    (m.truncate newLen).valueAt offset = m.valueAt (min offset newLen) := by
  rcases le_total offset newLen with hle | hle
  · rw [Nat.min_eq_left hle, m.valueAt_split hle, valueAt_def]
    rfl
  · rw [Nat.min_eq_right hle]
    apply valueAt_eq_tail (m.truncate newLen)
    intro e he
    have hlt : e.1 < newLen := by simpa using (List.mem_filter.mp he).2
    exact hlt.trans_le hle

theorem valueAt_truncateFront (m : AttributeMap α) {newStart offset : ℕ} (h : newStart ≤ offset) :
    (m.truncateFront newStart).valueAt offset = m.valueAt offset := by
  rw [valueAt, truncateFront, BTreeMap.splitOff_splitOff _ h]
  rfl

variable [DecidableEq α]

/-- From a change on its value is read. -/
theorem valueAt_push_ge (m : AttributeMap α) {start offset : ℕ} (value : α)
    (hkeys : ∀ e ∈ m.map.entries, e.1 < start) (h : start ≤ offset) :
    (m.pushAttributeChange start value).valueAt offset = value := by
  rw [pushAttributeChange]
  split
  · rename_i heq
    rw [heq]
    exact m.valueAt_eq_tail fun e he => (hkeys e he).trans_le h
  · split
    · apply valueAt_eq_tail
      exact fun e he => (hkeys e he).trans_le h
    · apply valueAt_eq_tail
      intro e he
      rcases List.mem_append.mp he with he | he
      · exact (hkeys e (List.mem_filter.mp he).1).trans_le h
      · rcases List.mem_cons.mp he with rfl | he
        · simp only
          omega
        · exact (hkeys e (List.mem_filter.mp he).1).trans_le h

/-- Before a change the ranges that end before it are read, and then what the tail value was. -/
theorem valueAt_push_lt (m : AttributeMap α) {start offset : ℕ} {value : α}
    (hkeys : ∀ e ∈ m.map.entries, e.1 < start) (h : offset < start) (hne : value ≠ m.tailValue) :
    (m.pushAttributeChange start value).valueAt offset =
      (((m.map.below (start - 1)).entries.find? fun e => decide (offset ≤ e.1)).map Prod.snd).getD
        m.tailValue := by
  have habove : m.map.entries.filter (fun e => decide (start - 1 < e.1)) = [] := by
    rw [List.filter_eq_nil_iff]
    intro e he
    have hlt := hkeys e he
    simpa using (by omega : e.1 ≤ start - 1)
  have hmap : (m.pushAttributeChange start value).map.entries =
      (m.map.below (start - 1)).entries ++ [(start - 1, m.tailValue)] := by
    rw [pushAttributeChange, if_neg hne, if_neg (by omega), BTreeMap.insert]
    simp only [habove]
    rfl
  have hlast : ([(start - 1, m.tailValue)] : List (ℕ × α)).find? (fun e => decide (offset ≤ e.1)) =
      some (start - 1, m.tailValue) := List.find?_cons_of_pos (by simpa using by omega)
  rw [valueAt_def, hmap, List.find?_append, hlast]
  cases (m.map.below (start - 1)).entries.find? fun e => decide (offset ≤ e.1) with
  | none => rfl
  | some e => rfl

end AttributeMap

/-- The next values of an iterator. -/
def AttributeIter.values : ℕ → AttributeIter α → List α
  | 0, _ => []
  | n + 1, iter => (iter.nth 0).1 :: values n (iter.nth 0).2

/-- `nth` reads the map, when the ranges that were skipped end before the offset. -/
theorem AttributeMap.nth_eq (m : AttributeMap α) {skipped offset n : ℕ} (h : skipped ≤ offset + n) :
    AttributeIter.nth ⟨offset, (m.map.splitOff skipped).entries, m.tailValue⟩ n =
      (m.valueAt (offset + n),
        ⟨offset + n + 1, (m.map.splitOff (offset + n)).entries, m.tailValue⟩) := by
  rw [AttributeIter.nth, BTreeMap.dropWhile_entries, BTreeMap.splitOff_splitOff _ h]
  rfl

/-- The iterator yields the value at every offset. -/
theorem AttributeMap.values_iterFrom (m : AttributeMap α) (start n : ℕ) :
    (m.iterFrom start).values n = (List.range' start n).map m.valueAt := by
  suffices hrun : ∀ skipped offset, skipped ≤ offset →
      AttributeIter.values n ⟨offset, (m.map.splitOff skipped).entries, m.tailValue⟩ =
        (List.range' offset n).map m.valueAt from hrun start start le_rfl
  induction n with
  | zero => exact fun _ _ _ => rfl
  | succ n ih =>
    intro skipped offset h
    rw [AttributeIter.values, m.nth_eq (n := 0) h, List.range'_succ, List.map_cons]
    exact congrArg (m.valueAt offset :: ·) (ih offset (offset + 1) (Nat.le_succ offset))

/-! ## The changes -/

/-- The changes of an attribute that were not cut off, from the oldest on, and the offsets between
which it is kept. -/
structure Attribute (α : Type) where
  startingValue : α
  changes : List (ℕ × α)
  front : ℕ
  stop : ℕ

/-- What the storage does to an attribute: a cell with another value is pushed, more cells are, rows
are cut off at the end and at the front. -/
inductive AttributeOp (α : Type)
  | pushAttributeChange (start : ℕ) (value : α)
  | grow (bytes : ℕ)
  | truncate (newLen : ℕ)
  | truncateFront (newStart : ℕ)

namespace Attribute

/-- No change. -/
def new (startingValue : α) : Attribute α := ⟨startingValue, [], 0, 0⟩

/-- The value of the last change at or before the offset. -/
def valueAt (a : Attribute α) (offset : ℕ) : α :=
  (((a.changes.filter fun c => decide (c.1 ≤ offset)).getLast?).map Prod.snd).getD a.startingValue

/-- What an operation does to the changes. The grapheme of a change has at least one byte. -/
def apply (a : Attribute α) : AttributeOp α → Attribute α
  | .pushAttributeChange start value =>
    { a with changes := a.changes ++ [(start, value)], stop := start + 1 }
  | .grow bytes => { a with stop := a.stop + bytes }
  | .truncate newLen =>
    { a with changes := a.changes.filter fun c => decide (c.1 ≤ newLen), stop := newLen }
  | .truncateFront newStart => { a with front := newStart }

/-- Changes are pushed at or behind the end, and cuts are between the front and the end. -/
def Allowed (a : Attribute α) : AttributeOp α → Prop
  | .pushAttributeChange start _ => a.stop ≤ start
  | .grow _ => True
  | .truncate newLen => a.front ≤ newLen ∧ newLen ≤ a.stop
  | .truncateFront newStart => a.front ≤ newStart ∧ newStart ≤ a.stop

/-- A new value is not pushed at an offset behind the front at which there is a change already. -/
def Fits (a : Attribute α) : AttributeOp α → Prop
  | .pushAttributeChange start value =>
    a.front < start → a.valueAt (start - 1) = a.valueAt start ∨ value = a.valueAt start
  | _ => True

variable {a : Attribute α} {offset : ℕ}

theorem valueAt_push_lt {start : ℕ} (value : α) (h : offset < start) :
    (a.apply (.pushAttributeChange start value)).valueAt offset = a.valueAt offset := by
  have hlast : ([(start, value)] : List (ℕ × α)).filter (fun c => decide (c.1 ≤ offset)) = [] :=
    List.filter_cons_of_neg (by simpa using h)
  rw [valueAt, apply, List.filter_append, hlast, List.append_nil]
  rfl

theorem valueAt_push_ge {start : ℕ} (value : α) (h : start ≤ offset) :
    (a.apply (.pushAttributeChange start value)).valueAt offset = value := by
  have hlast : ([(start, value)] : List (ℕ × α)).filter (fun c => decide (c.1 ≤ offset)) =
      [(start, value)] := List.filter_cons_of_pos (by simpa using h)
  rw [valueAt, apply, List.filter_append, hlast, List.getLast?_concat]
  rfl

theorem valueAt_truncate (newLen : ℕ) :
    (a.apply (.truncate newLen)).valueAt offset = a.valueAt (min offset newLen) := by
  rw [valueAt, apply, List.filter_filter, valueAt]
  simp only [le_min_iff, Bool.decide_and]

end Attribute

/-- What holds of any run: the ranges and the changes are before the end. -/
structure AttributeBounds (m : AttributeMap α) (a : Attribute α) : Prop where
  keys : ∀ e ∈ m.map.entries, e.1 < a.stop
  changes : ∀ c ∈ a.changes, c.1 ≤ a.stop
  front : a.front ≤ a.stop

/-- Behind the end there is no other value. -/
theorem AttributeBounds.valueAt_ge {m : AttributeMap α} {a : Attribute α} (h : AttributeBounds m a)
    {offset : ℕ} (hle : a.stop ≤ offset) : a.valueAt offset = a.valueAt a.stop := by
  have hall : ∀ offset, a.stop ≤ offset →
      a.changes.filter (fun c => decide (c.1 ≤ offset)) = a.changes := by
    intro offset hle
    rw [List.filter_eq_self]
    intro c hc
    simpa using (h.changes c hc).trans hle
  rw [Attribute.valueAt, hall offset hle, Attribute.valueAt, hall _ le_rfl]

/-- The map reads what the changes say, from the front on. -/
def Reads (m : AttributeMap α) (a : Attribute α) : Prop :=
  ∀ offset, a.front ≤ offset → m.valueAt offset = a.valueAt offset

/-- Iterators yield what the changes say between the front and the end, and the tail is the value at
the end. -/
def Agrees (m : AttributeMap α) (a : Attribute α) : Prop :=
  (∀ start n, a.front ≤ start → start + n ≤ a.stop →
    (m.iterFrom start).values n = (List.range' start n).map a.valueAt) ∧
  m.tail = a.valueAt a.stop

theorem agrees_iff_reads {m : AttributeMap α} {a : Attribute α} (h : AttributeBounds m a) :
    Agrees m a ↔ Reads m a := by
  constructor
  · rintro ⟨hvalues, htail⟩ offset hfront
    rcases lt_or_ge offset a.stop with hlt | hge
    · have hone := hvalues offset 1 hfront hlt
      rw [m.values_iterFrom] at hone
      simpa using hone
    · rw [h.valueAt_ge hge, ← htail]
      exact m.valueAt_eq_tail fun e he => (h.keys e he).trans_le hge
  · intro hreads
    constructor
    · intro start n hfront _
      rw [m.values_iterFrom]
      refine List.map_congr_left fun offset hoffset => ?_
      obtain ⟨hle, -⟩ := List.mem_range'_1.mp hoffset
      exact hreads offset (hfront.trans hle)
    · rw [← hreads a.stop h.front]
      exact (m.valueAt_eq_tail h.keys).symm

/-! ## Operations -/

variable [DecidableEq α]

/-- The operations of `AttributeMap`; the content grows without it. -/
def AttributeMap.apply (m : AttributeMap α) : AttributeOp α → AttributeMap α
  | .pushAttributeChange start value => m.pushAttributeChange start value
  | .grow _ => m
  | .truncate newLen => m.truncate newLen
  | .truncateFront newStart => m.truncateFront newStart

variable {m : AttributeMap α} {a : Attribute α}

theorem AttributeBounds.apply (h : AttributeBounds m a) {op : AttributeOp α} (hop : a.Allowed op) :
    AttributeBounds (m.apply op) (a.apply op) := by
  cases op with
  | pushAttributeChange start value =>
    have hle : a.stop ≤ start := hop
    refine ⟨?_, ?_, h.front.trans (hle.trans (Nat.le_succ start))⟩
    · intro e he
      change e.1 < start + 1
      change e ∈ (m.pushAttributeChange start value).map.entries at he
      rw [AttributeMap.pushAttributeChange] at he
      split_ifs at he
      · have hlt := h.keys e he
        omega
      · have hlt := h.keys e he
        omega
      · rcases List.mem_append.mp he with he | he
        · have hlt := h.keys e (List.mem_filter.mp he).1
          omega
        · rcases List.mem_cons.mp he with rfl | he
          · simp only
            omega
          · have hlt := h.keys e (List.mem_filter.mp he).1
            omega
    · intro c hc
      rcases List.mem_append.mp hc with hc | hc
      · exact (h.changes c hc).trans (hle.trans (Nat.le_succ start))
      · rw [List.mem_singleton.mp hc]
        exact Nat.le_succ start
  | grow bytes =>
    have hle : a.stop ≤ a.stop + bytes := Nat.le_add_right _ _
    exact ⟨fun e he => (h.keys e he).trans_le hle, fun c hc => (h.changes c hc).trans hle,
      h.front.trans hle⟩
  | truncate newLen =>
    refine ⟨?_, ?_, hop.1⟩
    · intro e he
      exact of_decide_eq_true (List.mem_filter.mp he).2
    · intro c hc
      exact of_decide_eq_true (List.mem_filter.mp hc).2
  | truncateFront newStart =>
    exact ⟨fun e he => h.keys e (List.mem_filter.mp he).1, h.changes, hop.2⟩

/-- A change is read, and what was read before it still is, unless its value overwrites the range
that ends before it. -/
theorem reads_push_iff (h : AttributeBounds m a) (hreads : Reads m a) {start : ℕ} {value : α}
    (hle : a.stop ≤ start) :
    Reads (m.apply (.pushAttributeChange start value)) (a.apply (.pushAttributeChange start value)) ↔
      a.Fits (.pushAttributeChange start value) := by
  have hkeys : ∀ e ∈ m.map.entries, e.1 < start := fun e he => (h.keys e he).trans_le hle
  have htail : a.valueAt start = m.tailValue := by
    rw [← hreads start (h.front.trans hle)]
    exact m.valueAt_eq_tail hkeys
  have hge : ∀ offset, start ≤ offset →
      (m.pushAttributeChange start value).valueAt offset =
        (a.apply (.pushAttributeChange start value)).valueAt offset := by
    intro offset hoffset
    rw [m.valueAt_push_ge value hkeys hoffset, Attribute.valueAt_push_ge value hoffset]
  by_cases hvalue : value = m.tailValue
  · -- the map does not change
    have hsame : m.pushAttributeChange start value = m := if_pos hvalue
    refine iff_of_true ?_ fun _ => Or.inr (hvalue.trans htail.symm)
    intro offset hoffset
    rcases lt_or_ge offset start with hlt | hstart
    · rw [Attribute.valueAt_push_lt value hlt]
      change (m.pushAttributeChange start value).valueAt offset = _
      rw [hsame]
      exact hreads offset hoffset
    · exact hge offset hstart
  · constructor
    · intro hpushed hfront
      have hlast := hpushed (start - 1) (Nat.le_sub_one_of_lt hfront)
      rw [Attribute.valueAt_push_lt value (by omega)] at hlast
      have hnone : ((m.map.below (start - 1)).entries.find? fun e => decide (start - 1 ≤ e.1)) =
          none := by
        rw [List.find?_eq_none]
        intro e he
        have hlt : e.1 < start - 1 := of_decide_eq_true (List.mem_filter.mp he).2
        rw [decide_eq_true_eq]
        omega
      change (m.pushAttributeChange start value).valueAt (start - 1) = _ at hlast
      rw [m.valueAt_push_lt hkeys (by omega) hvalue, hnone] at hlast
      exact Or.inl (hlast.symm.trans htail.symm)
    · intro hfits offset hoffset
      rcases lt_or_ge offset start with hlt | hstart
      · have hfront : a.front < start := lt_of_le_of_lt hoffset hlt
        have hprev : m.valueAt (start - 1) = m.tailValue := by
          rw [hreads _ (Nat.le_sub_one_of_lt hfront), ← htail]
          rcases hfits hfront with heq | heq
          · exact heq
          · exact absurd (heq.trans htail) hvalue
        rw [Attribute.valueAt_push_lt value hlt, ← hreads offset hoffset,
          m.valueAt_split (Nat.le_sub_one_of_lt hlt), hprev]
        exact m.valueAt_push_lt hkeys hlt hvalue
      · exact hge offset hstart

/-- An operation keeps what is read if and only if it fits. -/
theorem reads_apply_iff (h : AttributeBounds m a) (hreads : Reads m a) {op : AttributeOp α}
    (hop : a.Allowed op) : Reads (m.apply op) (a.apply op) ↔ a.Fits op := by
  cases op with
  | pushAttributeChange start value => exact reads_push_iff h hreads hop
  | grow bytes => exact iff_of_true hreads trivial
  | truncate newLen =>
    refine iff_of_true ?_ trivial
    intro offset hoffset
    rw [Attribute.valueAt_truncate]
    exact (m.valueAt_truncate newLen offset).trans (hreads _ (le_min hoffset hop.1))
  | truncateFront newStart =>
    refine iff_of_true ?_ trivial
    intro offset hoffset
    exact (m.valueAt_truncateFront hoffset).trans (hreads offset (hop.1.trans hoffset))

/-! ## Runs -/

/-- The map after operations on a new one. -/
def AttributeMap.run (startingValue : α) (ops : List (AttributeOp α)) : AttributeMap α :=
  ops.foldl AttributeMap.apply (AttributeMap.new startingValue)

/-- The changes after operations on a new map. -/
def Attribute.run (startingValue : α) (ops : List (AttributeOp α)) : Attribute α :=
  ops.foldl Attribute.apply (Attribute.new startingValue)

variable {startingValue : α} {ops : List (AttributeOp α)}

theorem AttributeMap.run_concat (done : List (AttributeOp α)) (op : AttributeOp α) :
    AttributeMap.run startingValue (done ++ [op]) = (AttributeMap.run startingValue done).apply op :=
  List.foldl_concat ..

omit [DecidableEq α] in
theorem Attribute.run_concat (done : List (AttributeOp α)) (op : AttributeOp α) :
    Attribute.run startingValue (done ++ [op]) = (Attribute.run startingValue done).apply op :=
  List.foldl_concat ..

theorem attributeBounds_run
    (hallowed : Along (Attribute.run startingValue) Attribute.Allowed ops)
    {done : List (AttributeOp α)} (hdone : done <+: ops) :
    AttributeBounds (AttributeMap.run startingValue done) (Attribute.run startingValue done) := by
  refine prefix_induction
    (Q := fun done => AttributeBounds (AttributeMap.run startingValue done)
      (Attribute.run startingValue done))
    ⟨fun e he => (nomatch he), fun c hc => (nomatch hc), le_rfl⟩ ?_ hdone
  intro done op hprefix ih
  rw [AttributeMap.run_concat, Attribute.run_concat]
  exact ih.apply (hallowed done op hprefix)

omit [DecidableEq α] in
theorem reads_new (startingValue : α) :
    Reads (AttributeMap.new startingValue) (Attribute.new startingValue) := fun _ _ => rfl

/-- **The runs in which the map is its step function.** After any operations that the storage does,
iterators and tail agree with the changes that were not cut off, at every point of the run, if and
only if no new value was ever pushed at an offset behind the front where a change was kept. -/
theorem agrees_iff (startingValue : α) (ops : List (AttributeOp α))
    (hallowed : Along (Attribute.run startingValue) Attribute.Allowed ops) :
    (∀ done, done <+: ops →
      Agrees (AttributeMap.run startingValue done) (Attribute.run startingValue done)) ↔
    Along (Attribute.run startingValue) Attribute.Fits ops := by
  constructor
  · intro hagrees done op hdone
    have hprefix : done <+: ops := (List.prefix_append _ _).trans hdone
    have hbounds := attributeBounds_run hallowed hprefix
    have hnext := hagrees _ hdone
    rw [agrees_iff_reads (attributeBounds_run hallowed hdone), AttributeMap.run_concat,
      Attribute.run_concat] at hnext
    exact (reads_apply_iff hbounds ((agrees_iff_reads hbounds).mp (hagrees done hprefix))
      (hallowed done op hdone)).mp hnext
  · intro hfits done hdone
    rw [agrees_iff_reads (attributeBounds_run hallowed hdone)]
    refine prefix_induction
      (Q := fun done => Reads (AttributeMap.run startingValue done)
        (Attribute.run startingValue done)) (reads_new startingValue) ?_ hdone
    intro done op hnext ih
    have hbounds := attributeBounds_run hallowed ((List.prefix_append _ _).trans hnext)
    rw [AttributeMap.run_concat, Attribute.run_concat]
    exact (reads_apply_iff hbounds ih (hallowed done op hnext)).mpr (hfits done op hnext)

/-- A change that was kept by a cut at its offset is pushed again. -/
theorem agrees_repeated :
    Agrees
      (AttributeMap.run false [.grow 2, .pushAttributeChange 2 true, .truncate 2,
        .pushAttributeChange 2 true])
      (Attribute.run false [.grow 2, .pushAttributeChange 2 true, .truncate 2,
        .pushAttributeChange 2 true]) := by
  have hallowed : Along (Attribute.run false) Attribute.Allowed
      ([] ++ [.grow 2] ++ [.pushAttributeChange 2 true] ++ [.truncate 2] ++
        [.pushAttributeChange 2 true]) :=
    (((along_nil.concat trivial).concat (le_refl 2)).concat
      ⟨Nat.zero_le 2, Nat.le_succ 2⟩).concat (le_refl 2)
  have hfits : Along (Attribute.run false) Attribute.Fits
      ([] ++ [.grow 2] ++ [.pushAttributeChange 2 true] ++ [.truncate 2] ++
        [.pushAttributeChange 2 true]) :=
    (((along_nil.concat trivial).concat fun _ => Or.inl rfl).concat trivial).concat
      fun _ => Or.inr rfl
  exact (agrees_iff false _ hallowed).mpr hfits _ (List.prefix_refl _)

/-- Two bytes, then a change; the row with the change is cut off, and the next row begins with
another value: it overwrites the value of the first two bytes. -/
theorem replaced_disagrees :
    ¬ ∀ (startingValue : Color) (ops : List (AttributeOp Color)),
      Along (Attribute.run startingValue) Attribute.Allowed ops →
      Agrees (AttributeMap.run startingValue ops) (Attribute.run startingValue ops) := by
  intro hall
  have hallowed : Along (Attribute.run (Color.named .foreground)) Attribute.Allowed
      ([] ++ [.grow 2] ++ [.pushAttributeChange 2 (Color.named .red)] ++ [.truncate 2] ++
        [.pushAttributeChange 2 (Color.named .foreground)]) :=
    (((along_nil.concat trivial).concat (le_refl 2)).concat
      ⟨Nat.zero_le 2, Nat.le_succ 2⟩).concat (le_refl 2)
  have hvalues := (hall _ _ hallowed).1 0 2 (le_refl 0) (Nat.le_succ 2)
  exact absurd hvalues (by decide)

/-- The storage does this: a row `a`, a red row `b`, which is popped, and a row `c`. The first row
is red afterwards. -/
example : ∃ s s' row rest,
    (FlatStorage.new 5 none).pushRows
      [⟨[⟨'a', .named .foreground, .named .background, Flags.empty, none⟩], 1⟩,
        ⟨[⟨'b', .named .red, .named .background, Flags.empty, none⟩], 1⟩] = .ok s ∧
    (s.truncate 1).pushRows
      [⟨[⟨'c', .named .foreground, .named .background, Flags.empty, none⟩], 1⟩] = .ok s' ∧
    s'.rowsFrom 0 = .ok (row :: rest) ∧
    (row.inner[0]?).map Cell.fg = some (.named .red) :=
  ⟨_, _, _, _, rfl, rfl, rfl, rfl⟩

end FlatStorage

end Clinch
