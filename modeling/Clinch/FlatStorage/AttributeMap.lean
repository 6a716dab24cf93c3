import Clinch.BTreeMap
import Clinch.Grid.Cell

/-!
# Attributes by content offset

`flat_storage/attribute_map.rs` and `flat_storage/style.rs`. An attribute map has the value of an
attribute for the bytes up to an end offset, and a tail value for the bytes after the last one. The
debug assertions are left out.

* `AttributeMap`, `pushAttributeChange`, `truncate`, `truncateFront`;
* `AttributeIter`: the values from an offset on, one for each byte;
* `BgAndStyle`: background and style, never a flag of a wide character.
-/

set_option autoImplicit false

namespace Clinch

namespace FlatStorage

/-- `AttributeMap`: the values by the last offset they are for, and the value after that. -/
structure AttributeMap (α : Type) where
  map : BTreeMap ℕ α
  tailValue : α

namespace AttributeMap

variable {α : Type}

/-- `new`. -/
def new (startingValue : α) : AttributeMap α := ⟨BTreeMap.empty, startingValue⟩

/-- `tail`. -/
def tail (m : AttributeMap α) : α := m.tailValue

/-- `truncate`. -/
def truncate (m : AttributeMap α) (newLen : ℕ) : AttributeMap α :=
  ⟨m.map.below newLen, ((m.map.splitOff newLen).firstValue).getD m.tailValue⟩

/-- `truncate_front`. -/
def truncateFront (m : AttributeMap α) (newStartOffset : ℕ) : AttributeMap α :=
  { m with map := m.map.splitOff newStartOffset }

/-- `push_attribute_change`. -/
def pushAttributeChange [DecidableEq α] (m : AttributeMap α) (start : ℕ) (value : α) :
    AttributeMap α :=
  if value = m.tailValue then m
  else if start = 0 then { m with tailValue := value }
  else ⟨m.map.insert (start - 1) m.tailValue, value⟩

end AttributeMap

/-- `Iter`: the current offset, the ranges that are left and the tail value. -/
structure AttributeIter (α : Type) where
  curOffset : ℕ
  ranges : List (ℕ × α)
  tailValue : α

/-- `iter_from`. -/
def AttributeMap.iterFrom {α : Type} (m : AttributeMap α) (startOffset : ℕ) : AttributeIter α :=
  ⟨startOffset, (m.map.splitOff startOffset).entries, m.tailValue⟩

/-- `nth`: skip `n` bytes, then the ranges that end before the current one. -/
def AttributeIter.nth {α : Type} (iter : AttributeIter α) (n : ℕ) : α × AttributeIter α :=
  let curOffset := iter.curOffset + n
  let ranges := iter.ranges.dropWhile fun range => decide (range.1 < curOffset)
  (((ranges.head?).map Prod.snd).getD iter.tailValue, ⟨curOffset + 1, ranges, iter.tailValue⟩)

/-! ## Style -/

/-- `STYLE_MASK`. -/
def styleMask : Flags :=
  Flags.ofBits [.inverse, .bold, .italic, .underline, .doubleUnderline, .dim, .hidden, .strikeout]

/-- `BgAndStyle`; its flags are always masked. -/
@[ext] structure BgAndStyle where
  bg : Color
  flags : Flags
  masked : flags.inter styleMask = flags

theorem BgAndStyle.eq_iff {a b : BgAndStyle} : a.bg = b.bg ∧ a.flags = b.flags ↔ a = b :=
  ⟨fun h => BgAndStyle.ext h.1 h.2, fun h => h ▸ ⟨rfl, rfl⟩⟩

instance : DecidableEq BgAndStyle := fun _ _ => decidable_of_iff _ BgAndStyle.eq_iff

/-- `BgAndStyle::default`. -/
def BgAndStyle.default : BgAndStyle := ⟨.named .background, Flags.empty, by decide⟩

/-- `From<&Cell>`. -/
def BgAndStyle.ofCell (cell : Cell) : BgAndStyle :=
  ⟨cell.bg, cell.flags.inter styleMask, Flags.inter_idem _ _⟩

/-- A flag that is not a style is not set. -/
theorem BgAndStyle.has_false (style : BgAndStyle) {f : Flag} (h : styleMask.has f = false) :
    style.flags.has f = false := by
  rw [← style.masked, Flags.has_inter, h, Bool.and_false]

end FlatStorage

end Clinch
