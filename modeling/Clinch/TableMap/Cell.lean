import Mathlib.Algebra.GroupWithZero.Nat
import Mathlib.Order.Monotone.Basic
import Clinch.RangeSearch

/-!
# Offset maps of table cells

A cell's source text is walked along with the texts of its parsed fragments: markers are skipped up to
the first character of a fragment, and an escape is read together with the character behind it. Each
fragment keeps one range of rendered text and one of source text.

* `fromInlineAndSource`, `renderedToSource`, `sourceToRendered`;
* `Exact`: what the maps of a cell are for;
* `Stands`: each fragment stands in the source in one piece;
* **`exact_iff`**: the maps are exact exactly then.
-/

set_option autoImplicit false

namespace Clinch.TableMap

open RangeSearch

structure TableCellFragmentRange where
  renderedStart : ℕ
  renderedEnd : ℕ
  sourceEnd : ℕ
  visibleSourceStart : ℕ
  visibleSourceEnd : ℕ
deriving DecidableEq

structure TableCellOffsetMap where
  fragmentRanges : List TableCellFragmentRange
  renderedLength : ℕ
  sourceLength : ℕ
deriving DecidableEq

/-! ## Walking the source -/

/-- The source from the first character of a fragment on. -/
def skipMarkers (firstRendered : Char) : List Char → List Char
  | [] => []
  | sc :: rest =>
    if sc = '\\' ∧ rest.head? = some firstRendered then rest
    else if sc = firstRendered then sc :: rest
    else skipMarkers firstRendered rest

/-- The source behind a fragment. -/
def readFragment : List Char → List Char → List Char
  | [], rest => rest
  | _ :: _, [] => []
  | renderedChar :: rendered, sc :: rest =>
    if sc = '\\' ∧ rest.head? = some renderedChar then readFragment rendered rest.tail
    else readFragment rendered rest

/-- The ranges of the fragments, where `rest` is the source that is not read yet. -/
def rangesFrom (totalSource : ℕ) : List (List Char) → List Char → ℕ → List TableCellFragmentRange
  | [], _, _ => []
  | [] :: inline, rest, renderedOffset => rangesFrom totalSource inline rest renderedOffset
  | (firstRendered :: rendered) :: inline, rest, renderedOffset =>
    let visible := skipMarkers firstRendered rest
    let after := readFragment (firstRendered :: rendered) visible
    let renderedEnd := renderedOffset + (firstRendered :: rendered).length
    { renderedStart := renderedOffset
      renderedEnd := renderedEnd
      sourceEnd := totalSource - after.length
      visibleSourceStart := totalSource - visible.length
      visibleSourceEnd := totalSource - after.length } ::
        rangesFrom totalSource inline after renderedEnd

/-- Each fragment has the source up to the next one. -/
def setSourceEnds (totalSource : ℕ) : List TableCellFragmentRange → List TableCellFragmentRange
  | [] => []
  | range :: ranges =>
    { range with sourceEnd := (ranges.head?.map (·.visibleSourceStart)).getD totalSource } ::
      setSourceEnds totalSource ranges

def fromInlineAndSource (source : List Char) (inline : List (List Char)) : TableCellOffsetMap where
  fragmentRanges := setSourceEnds source.length (rangesFrom source.length inline source 0)
  renderedLength := (inline.map List.length).sum
  sourceLength := source.length

namespace TableCellOffsetMap

variable (map : TableCellOffsetMap)

def renderedToSource (renderedOffset : ℕ) : ℕ :=
  if map.renderedLength ≤ renderedOffset then
    (map.fragmentRanges.getLast?.map (·.visibleSourceEnd)).getD map.sourceLength
  else
    match map.fragmentRanges.find? fun fragment => renderedOffset < fragment.renderedEnd with
    | some fragment => fragment.visibleSourceStart + (renderedOffset - fragment.renderedStart)
    | none => map.sourceLength

end TableCellOffsetMap

/-- The rendered offset inside a fragment. -/
def TableCellFragmentRange.toRendered (fragment : TableCellFragmentRange) (sourceOffset : ℕ) : ℕ :=
  if sourceOffset ≤ fragment.visibleSourceStart then fragment.renderedStart
  else if fragment.visibleSourceEnd ≤ sourceOffset then fragment.renderedEnd
  else fragment.renderedStart + (sourceOffset - fragment.visibleSourceStart)

def TableCellOffsetMap.sourceToRendered (map : TableCellOffsetMap) (sourceOffset : ℕ) : ℕ :=
  if map.sourceLength ≤ sourceOffset then map.renderedLength
  else
    match map.fragmentRanges.find? fun fragment => sourceOffset < fragment.sourceEnd with
    | some fragment => fragment.toRendered sourceOffset
    | none => map.renderedLength

/-! ## What the maps are for -/

/-- **The maps of a cell are exact.** -/
structure Exact (source : List Char) (inline : List (List Char)) (map : TableCellOffsetMap) : Prop where
  renderedToSource_mono : Monotone map.renderedToSource
  renderedToSource_le : ∀ i, map.renderedToSource i ≤ source.length
  sourceToRendered_mono : Monotone map.sourceToRendered
  sourceToRendered_le : ∀ s, map.sourceToRendered s ≤ inline.flatten.length
  char : ∀ i, i < inline.flatten.length → source[map.renderedToSource i]? = inline.flatten[i]?
  inverse : ∀ i, i < inline.flatten.length → map.sourceToRendered (map.renderedToSource i) = i

/-- Each fragment's text stands in the source where its first character is found, and at most one
character more is read, as for a doubled backslash in it. -/
def Stands : List (List Char) → List Char → Prop
  | [], _ => True
  | [] :: inline, rest => Stands inline rest
  | (firstRendered :: rendered) :: inline, rest =>
    let visible := skipMarkers firstRendered rest
    let after := readFragment (firstRendered :: rendered) visible
    (firstRendered :: rendered) <+: visible ∧
      visible.length ≤ after.length + (firstRendered :: rendered).length + 1 ∧ Stands inline after

/-! ## The pieces of a cell -/

/-- A fragment's range with its text. -/
abbrev Piece := TableCellFragmentRange × List Char

/-- The range of a piece has the length of its text, and lies in the source. -/
structure Fits (totalSource : ℕ) (piece : Piece) : Prop where
  text_ne_nil : piece.2 ≠ []
  start_le : piece.1.visibleSourceStart ≤ piece.1.visibleSourceEnd
  text_le : min totalSource (piece.1.visibleSourceStart + piece.2.length) ≤ piece.1.visibleSourceEnd
  end_le : piece.1.visibleSourceEnd ≤ piece.1.sourceEnd
  sourceEnd_le : piece.1.sourceEnd ≤ totalSource
  renderedEnd_eq : piece.1.renderedEnd = piece.1.renderedStart + piece.2.length

/-- Pieces that follow each other, from some places in the source and in the rendered text on. -/
def Laid (totalSource : ℕ) : ℕ → ℕ → List Piece → Prop
  | _, _, [] => True
  | low, offset, piece :: pieces =>
    Fits totalSource piece ∧ low ≤ piece.1.visibleSourceStart ∧ piece.1.renderedStart = offset ∧
      (pieces = [] → piece.1.sourceEnd = totalSource) ∧
        Laid totalSource piece.1.sourceEnd piece.1.renderedEnd pieces

/-- The map of some pieces. -/
def mapOf (source : List Char) (pieces : List Piece) : TableCellOffsetMap where
  fragmentRanges := pieces.map Prod.fst
  renderedLength := (pieces.map Prod.snd).flatten.length
  sourceLength := source.length

/-- The piece's text stands in the source in one piece. -/
def Whole (source : List Char) (piece : Piece) : Prop :=
  piece.2 <+: source.drop piece.1.visibleSourceStart ∧
    piece.1.visibleSourceEnd ≤ piece.1.visibleSourceStart + piece.2.length + 1

theorem skipMarkers_suffix (firstRendered : Char) (rest : List Char) :
    skipMarkers firstRendered rest <:+ rest := by
  induction rest with
  | nil => exact List.suffix_rfl
  | cons sc rest ih =>
    rw [skipMarkers]
    split
    · exact List.suffix_cons sc rest
    · split
      · exact List.suffix_rfl
      · exact ih.trans (List.suffix_cons sc rest)

theorem readFragment_spec (rendered rest : List Char) :
    readFragment rendered rest <:+ rest ∧
      (readFragment rendered rest).length ≤ rest.length - rendered.length := by
  fun_induction readFragment rendered rest with
  | case1 rest => exact ⟨List.suffix_rfl, by simp⟩
  | case2 => exact ⟨List.suffix_rfl, by simp⟩
  | case3 renderedChar rendered sc rest hescape ih =>
    refine ⟨ih.1.trans ((List.tail_suffix rest).trans (List.suffix_cons sc rest)), ?_⟩
    have hlen := ih.2
    rw [List.length_tail] at hlen
    simp only [List.length_cons]
    omega
  | case4 renderedChar rendered sc rest hplain ih =>
    refine ⟨ih.1.trans (List.suffix_cons sc rest), ?_⟩
    have hlen := ih.2
    simp only [List.length_cons]
    omega

theorem drop_of_suffix {α : Type} {suffix source : List α} (h : suffix <:+ source) :
    source.drop (source.length - suffix.length) = suffix := by
  obtain ⟨before, rfl⟩ := h
  rw [List.length_append, Nat.add_sub_cancel, List.drop_left]

theorem setSourceEnds_head? (totalSource : ℕ) (ranges : List TableCellFragmentRange) :
    (setSourceEnds totalSource ranges).head?.map (·.visibleSourceStart) =
      ranges.head?.map (·.visibleSourceStart) := by
  cases ranges <;> rfl

/-- The lower bound is one for the first piece. -/
theorem Laid.of_head {totalSource low low' offset : ℕ} {pieces : List Piece}
    (h : Laid totalSource low offset pieces)
    (hhead : ∀ piece, pieces.head? = some piece → low' ≤ piece.1.visibleSourceStart) :
    Laid totalSource low' offset pieces := by
  cases pieces with
  | nil => trivial
  | cons piece pieces =>
    obtain ⟨hfits, -, hrest⟩ := h
    exact ⟨hfits, hhead piece rfl, hrest⟩

/-- **The ranges are those of pieces that follow each other.** -/
theorem exists_pieces {source : List Char} (inline : List (List Char)) {rest : List Char}
    (hrest : rest <:+ source) (offset : ℕ) :
    ∃ pieces : List Piece,
      setSourceEnds source.length (rangesFrom source.length inline rest offset) =
        pieces.map Prod.fst ∧
      (pieces.map Prod.snd).flatten = inline.flatten ∧
      Laid source.length (source.length - rest.length) offset pieces ∧
      (Stands inline rest ↔ ∀ piece ∈ pieces, Whole source piece) := by
  fun_induction rangesFrom source.length inline rest offset with
  | case1 rest offset => exact ⟨[], rfl, rfl, trivial, by simp [Stands]⟩
  | case2 inline rest offset ih =>
    obtain ⟨pieces, hranges, hflatten, hlaid, hstands⟩ := ih hrest
    exact ⟨pieces, hranges, by rw [hflatten]; rfl, hlaid, by rw [Stands]; exact hstands⟩
  | case3 firstRendered rendered inline rest offset visible after renderedEnd ih =>
    have hvisible : visible <:+ source := (skipMarkers_suffix firstRendered rest).trans hrest
    have hspec := readFragment_spec (firstRendered :: rendered) visible
    have hafter : after <:+ visible := hspec.1
    have hread : after.length ≤ visible.length - (firstRendered :: rendered).length := hspec.2
    obtain ⟨pieces, hranges, hflatten, hlaid, hstands⟩ := ih (hafter.trans hvisible)
    have hvisibleLe : visible.length ≤ rest.length :=
      (skipMarkers_suffix firstRendered rest).length_le
    have hrestLe : rest.length ≤ source.length := hrest.length_le
    have hhead : ((rangesFrom source.length inline after renderedEnd).head?.map
        (·.visibleSourceStart)).getD source.length =
        (pieces.head?.map (·.1.visibleSourceStart)).getD source.length := by
      rw [← setSourceEnds_head?, hranges, List.head?_map, Option.map_map]
      rfl
    have hlow : source.length - after.length ≤
        (pieces.head?.map (·.1.visibleSourceStart)).getD source.length := by
      cases pieces with
      | nil => exact Nat.sub_le _ _
      | cons piece pieces => exact hlaid.2.1
    have hhigh : (pieces.head?.map (·.1.visibleSourceStart)).getD source.length ≤ source.length := by
      cases pieces with
      | nil => exact le_rfl
      | cons piece pieces => exact hlaid.1.start_le.trans (hlaid.1.end_le.trans hlaid.1.sourceEnd_le)
    refine ⟨(⟨offset, renderedEnd, (pieces.head?.map (·.1.visibleSourceStart)).getD source.length,
      source.length - visible.length, source.length - after.length⟩, firstRendered :: rendered) ::
        pieces, ?_, ?_, ⟨⟨List.cons_ne_nil _ _, ?_, ?_, hlow, hhigh, rfl⟩, ?_, rfl, ?_, ?_⟩, ?_⟩
    · rw [setSourceEnds, hhead, hranges]
      rfl
    · rw [List.map_cons, List.flatten_cons, hflatten, List.flatten_cons]
    · exact Nat.sub_le_sub_left hafter.length_le _
    · show min source.length (source.length - visible.length + (firstRendered :: rendered).length) ≤
        source.length - after.length
      clear_value visible after
      omega
    · exact Nat.sub_le_sub_left hvisibleLe _
    · rintro rfl
      rfl
    · refine hlaid.of_head fun piece hpiece => ?_
      show (pieces.head?.map (·.1.visibleSourceStart)).getD source.length ≤ _
      rw [hpiece]
      exact le_rfl
    · have hdrop : source.drop (source.length - visible.length) = visible := drop_of_suffix hvisible
      have hlen : visible.length ≤ source.length := hvisible.length_le
      have hread' : source.length - after.length ≤
          source.length - visible.length + (firstRendered :: rendered).length + 1 ↔
            visible.length ≤ after.length + (firstRendered :: rendered).length + 1 := by
        clear_value visible after
        omega
      rw [List.forall_mem_cons, ← hstands, Whole, hdrop, hread', and_assoc]
      exact Iff.rfl

theorem fromInlineAndSource_eq (source : List Char) (inline : List (List Char)) :
    ∃ pieces : List Piece,
      fromInlineAndSource source inline = mapOf source pieces ∧
      (pieces.map Prod.snd).flatten = inline.flatten ∧
      Laid source.length 0 0 pieces ∧
      (Stands inline source ↔ ∀ piece ∈ pieces, Whole source piece) := by
  obtain ⟨pieces, hranges, hflatten, hlaid, hstands⟩ :=
    exists_pieces inline (List.suffix_refl source) 0
  refine ⟨pieces, ?_, hflatten, by rwa [Nat.sub_self] at hlaid, hstands⟩
  rw [fromInlineAndSource, mapOf, hranges, hflatten, List.length_flatten]

/-! ## Pieces that follow each other -/

/-- One piece lies behind another, in the source and in the rendered text. -/
def Follows (a b : Piece) : Prop :=
  a.1.renderedEnd ≤ b.1.renderedStart ∧ a.1.sourceEnd ≤ b.1.visibleSourceStart

namespace Laid

variable {totalSource low offset : ℕ} {pieces : List Piece} {piece : Piece}

theorem mem (h : Laid totalSource low offset pieces) (hpiece : piece ∈ pieces) :
    Fits totalSource piece ∧ low ≤ piece.1.visibleSourceStart ∧ offset ≤ piece.1.renderedStart := by
  induction pieces generalizing low offset with
  | nil => exact absurd hpiece List.not_mem_nil
  | cons first pieces ih =>
    obtain ⟨hfits, hlow, hoffset, -, hrest⟩ := h
    obtain rfl | hpiece := List.mem_cons.1 hpiece
    · exact ⟨hfits, hlow, hoffset.ge⟩
    · obtain ⟨hpieceFits, hstart, hrendered⟩ := ih hrest hpiece
      have h₁ := hfits.start_le
      have h₂ := hfits.end_le
      have h₃ := hfits.renderedEnd_eq
      exact ⟨hpieceFits, by omega, by omega⟩

theorem follows (h : Laid totalSource low offset pieces) : pieces.Pairwise Follows := by
  induction pieces generalizing low offset with
  | nil => exact .nil
  | cons first pieces ih =>
    obtain ⟨-, -, -, -, hrest⟩ := h
    exact .cons (fun piece hpiece => ⟨(hrest.mem hpiece).2.2, (hrest.mem hpiece).2.1⟩) (ih hrest)

/-- The rendered text of a piece is its own. -/
theorem getElem? (h : Laid totalSource low offset pieces) (hpiece : piece ∈ pieces) {k : ℕ}
    (hk : k < piece.2.length) :
    (pieces.map Prod.snd).flatten[piece.1.renderedStart - offset + k]? = piece.2[k]? := by
  induction pieces generalizing low offset with
  | nil => exact absurd hpiece List.not_mem_nil
  | cons first pieces ih =>
    obtain ⟨hfits, -, hoffset, -, hrest⟩ := h
    rw [List.map_cons, List.flatten_cons]
    obtain rfl | hpiece := List.mem_cons.1 hpiece
    · rw [hoffset, Nat.sub_self, Nat.zero_add, List.getElem?_append_left hk]
    · have hle := (hrest.mem hpiece).2.2
      have hlen := hfits.renderedEnd_eq
      rw [List.getElem?_append_right (by omega), ← ih hrest hpiece]
      congr 1
      omega

/-- Each place in the rendered text is in a piece. -/
theorem exists_rendered (h : Laid totalSource low offset pieces) {i : ℕ} (hoffset : offset ≤ i)
    (hi : i < offset + (pieces.map Prod.snd).flatten.length) :
    ∃ piece ∈ pieces, piece.1.renderedStart ≤ i ∧ i < piece.1.renderedEnd := by
  induction pieces generalizing low offset with
  | nil =>
    simp only [List.map_nil, List.flatten_nil, List.length_nil] at hi
    omega
  | cons first pieces ih =>
    obtain ⟨hfits, -, hfirst, -, hrest⟩ := h
    have hlen := hfits.renderedEnd_eq
    rw [List.map_cons, List.flatten_cons, List.length_append] at hi
    by_cases hin : i < first.1.renderedEnd
    · exact ⟨first, List.mem_cons_self, by omega, hin⟩
    · obtain ⟨piece, hpiece, hplace⟩ := ih hrest (by omega) (by omega)
      exact ⟨piece, List.mem_cons_of_mem first hpiece, hplace⟩

/-- Each place in the source is found, where there is a piece at all. -/
theorem exists_source (h : Laid totalSource low offset pieces) (hne : pieces ≠ []) {s : ℕ}
    (hs : s < totalSource) :
    ∃ piece, pieces.find? (fun p => s < p.1.sourceEnd) = some piece := by
  induction pieces generalizing low offset with
  | nil => exact absurd rfl hne
  | cons first pieces ih =>
    obtain ⟨-, -, -, hlast, hrest⟩ := h
    by_cases hin : s < first.1.sourceEnd
    · exact ⟨first, List.find?_cons_of_pos (by simpa using hin)⟩
    · rw [List.find?_cons_of_neg (by simpa using hin)]
      refine ih hrest fun hnil => hin ?_
      rw [hlast hnil]
      exact hs

theorem inRenderedOrder (h : Laid totalSource low offset pieces) :
    InOrder (fun p : Piece => p.1.renderedStart) (fun p => p.1.renderedEnd) pieces :=
  h.follows.imp And.left

theorem inSourceOrder (h : Laid totalSource low offset pieces) :
    InOrder (fun p : Piece => p.1.visibleSourceStart) (fun p => p.1.sourceEnd) pieces :=
  h.follows.imp And.right

theorem rendered_lt (h : Laid totalSource low 0 pieces) (hpiece : piece ∈ pieces) {k : ℕ}
    (hk : k < piece.2.length) :
    piece.1.renderedStart + k < (pieces.map Prod.snd).flatten.length := by
  have hchar := h.getElem? hpiece hk
  rw [Nat.sub_zero, List.getElem?_eq_getElem hk] at hchar
  exact (List.getElem?_eq_some_iff.1 hchar).1

theorem renderedEnd_le (h : Laid totalSource low 0 pieces) (hpiece : piece ∈ pieces) :
    piece.1.renderedEnd ≤ (pieces.map Prod.snd).flatten.length := by
  have hfits := (h.mem hpiece).1
  have hpos : 0 < piece.2.length := List.length_pos_of_ne_nil hfits.text_ne_nil
  have hlt := h.rendered_lt hpiece (Nat.sub_lt hpos Nat.one_pos)
  have hend := hfits.renderedEnd_eq
  omega

theorem exists_place (h : Laid totalSource low 0 pieces) {i : ℕ}
    (hi : i < (pieces.map Prod.snd).flatten.length) :
    ∃ piece ∈ pieces, ∃ k, k < piece.2.length ∧ i = piece.1.renderedStart + k := by
  obtain ⟨piece, hpiece, hstart, hend⟩ := h.exists_rendered (Nat.zero_le i) (by omega)
  have hlen := (h.mem hpiece).1.renderedEnd_eq
  exact ⟨piece, hpiece, i - piece.1.renderedStart, by omega, by omega⟩

end Laid

/-! ## The maps of pieces -/

section Maps

variable {source : List Char} {pieces : List Piece} {piece : Piece}

theorem renderedToSource_mem (h : Laid source.length 0 0 pieces) (hpiece : piece ∈ pieces) {k : ℕ}
    (hk : k < piece.2.length) :
    (mapOf source pieces).renderedToSource (piece.1.renderedStart + k) =
      piece.1.visibleSourceStart + k := by
  have hnot : ¬ (mapOf source pieces).renderedLength ≤ piece.1.renderedStart + k :=
    Nat.not_le.2 (h.rendered_lt hpiece hk)
  have hend := (h.mem hpiece).1.renderedEnd_eq
  have hfind := h.inRenderedOrder.find?_eq hpiece (Nat.le_add_right _ k) (by omega)
  rw [TableCellOffsetMap.renderedToSource, if_neg hnot, mapOf, List.find?_map]
  simp only [Function.comp_def, hfind, Option.map_some, Nat.add_sub_cancel_left]

/-- Behind the rendered text, the place behind what was read for the last fragment. -/
theorem renderedToSource_of_le {i : ℕ} (hi : (pieces.map Prod.snd).flatten.length ≤ i) :
    (mapOf source pieces).renderedToSource i =
      (pieces.getLast?.map (·.1.visibleSourceEnd)).getD source.length := by
  have hpos : (mapOf source pieces).renderedLength ≤ i := hi
  rw [TableCellOffsetMap.renderedToSource, if_pos hpos, mapOf, List.getLast?_map, Option.map_map]
  rfl

theorem sourceToRendered_find (h : Laid source.length 0 0 pieces) {s : ℕ}
    (hfind : pieces.find? (fun p => s < p.1.sourceEnd) = some piece) :
    (mapOf source pieces).sourceToRendered s = piece.1.toRendered s := by
  have hend := (h.mem (List.mem_of_find?_eq_some hfind)).1.sourceEnd_le
  have hs : s < piece.1.sourceEnd := by simpa using List.find?_some hfind
  have hnot : ¬ (mapOf source pieces).sourceLength ≤ s := Nat.not_le.2 (hs.trans_le hend)
  rw [TableCellOffsetMap.sourceToRendered, if_neg hnot, mapOf, List.find?_map]
  simp only [Function.comp_def, hfind, Option.map_some]

theorem sourceToRendered_of_le {s : ℕ} (hs : source.length ≤ s) :
    (mapOf source pieces).sourceToRendered s = (pieces.map Prod.snd).flatten.length := by
  have hpos : (mapOf source pieces).sourceLength ≤ s := hs
  rw [TableCellOffsetMap.sourceToRendered, if_pos hpos, mapOf]

theorem sourceToRendered_nil (s : ℕ) : (mapOf source []).sourceToRendered s = 0 := by
  unfold TableCellOffsetMap.sourceToRendered
  split_ifs <;> rfl

/-- What was read for any fragment ends before what was read for the last one does. -/
theorem Laid.read_le (h : Laid source.length 0 0 pieces) (hpiece : piece ∈ pieces) :
    piece.1.visibleSourceEnd ≤ (pieces.getLast?.map (·.1.visibleSourceEnd)).getD source.length := by
  cases hlast : pieces.getLast? with
  | none => exact absurd (List.getLast?_eq_none_iff.1 hlast) (List.ne_nil_of_mem hpiece)
  | some last =>
    obtain ⟨before, rfl⟩ := List.getLast?_eq_some_iff.1 hlast
    show piece.1.visibleSourceEnd ≤ last.1.visibleSourceEnd
    obtain hbefore | hpiece := List.mem_append.1 hpiece
    · have hfollows := (List.pairwise_append.1 h.follows).2.2 piece hbefore last List.mem_cons_self
      have hlastFits := (h.mem (List.mem_append_right before List.mem_cons_self)).1
      have hread := (h.mem (List.mem_append_left [last] hbefore)).1.end_le
      exact hread.trans (hfollows.2.trans hlastFits.start_le)
    · rw [List.mem_singleton.1 hpiece]

theorem Laid.last_le (h : Laid source.length 0 0 pieces) :
    (pieces.getLast?.map (·.1.visibleSourceEnd)).getD source.length ≤ source.length := by
  cases hlast : pieces.getLast? with
  | none => exact le_rfl
  | some last =>
    have hfits := (h.mem (List.mem_of_getLast? hlast)).1
    exact hfits.end_le.trans hfits.sourceEnd_le

theorem Whole.text_le (hfits : Fits source.length piece) (hwhole : Whole source piece) :
    piece.1.visibleSourceStart + piece.2.length ≤ piece.1.visibleSourceEnd := by
  have hpos : 0 < piece.2.length := List.length_pos_of_ne_nil hfits.text_ne_nil
  have hlen := hwhole.1.length_le
  rw [List.length_drop] at hlen
  have hmin := hfits.text_le
  omega

theorem Whole.toRendered_mem (hfits : Fits source.length piece) (hwhole : Whole source piece)
    (s : ℕ) :
    piece.1.renderedStart ≤ piece.1.toRendered s ∧ piece.1.toRendered s ≤ piece.1.renderedEnd := by
  have hread := hwhole.2
  have hend := hfits.renderedEnd_eq
  unfold TableCellFragmentRange.toRendered
  split_ifs <;> omega

theorem Whole.toRendered_mono (hfits : Fits source.length piece) (hwhole : Whole source piece) :
    Monotone piece.1.toRendered := by
  intro s t hst
  have hread := hwhole.2
  have hend := hfits.renderedEnd_eq
  unfold TableCellFragmentRange.toRendered
  split_ifs <;> omega

end Maps

section Whole

variable {source : List Char} {pieces : List Piece}

theorem renderedToSource_mono (h : Laid source.length 0 0 pieces)
    (hwhole : ∀ piece ∈ pieces, Whole source piece) : Monotone (mapOf source pieces).renderedToSource := by
  intro i j hij
  by_cases hj : (pieces.map Prod.snd).flatten.length ≤ j
  · rw [renderedToSource_of_le hj]
    by_cases hi : (pieces.map Prod.snd).flatten.length ≤ i
    · rw [renderedToSource_of_le hi]
    · obtain ⟨piece, hpiece, k, hk, rfl⟩ := h.exists_place (Nat.not_le.1 hi)
      have htext := (hwhole piece hpiece).text_le (h.mem hpiece).1
      have hlast := h.read_le hpiece
      rw [renderedToSource_mem h hpiece hk]
      omega
  · obtain ⟨a, ha, k, hk, rfl⟩ := h.exists_place (i := i) (by omega)
    obtain ⟨b, hb, l, hl, rfl⟩ := h.exists_place (Nat.not_le.1 hj)
    rw [renderedToSource_mem h ha hk, renderedToSource_mem h hb hl]
    have hendA := (h.mem ha).1.renderedEnd_eq
    have hendB := (h.mem hb).1.renderedEnd_eq
    obtain rfl | hfollows := find?_eq_or h.follows hij
      (h.inRenderedOrder.find?_eq ha (Nat.le_add_right _ k) (by omega))
      (h.inRenderedOrder.find?_eq hb (Nat.le_add_right _ l) (by omega))
    · omega
    · have htext := (hwhole a ha).text_le (h.mem ha).1
      have hread := (h.mem ha).1.end_le
      have hsource := hfollows.2
      omega

theorem renderedToSource_le (h : Laid source.length 0 0 pieces)
    (hwhole : ∀ piece ∈ pieces, Whole source piece) (i : ℕ) :
    (mapOf source pieces).renderedToSource i ≤ source.length := by
  refine (renderedToSource_mono h hwhole (Nat.le_max_left i (pieces.map Prod.snd).flatten.length)).trans ?_
  rw [renderedToSource_of_le (Nat.le_max_right i _)]
  exact h.last_le

theorem sourceToRendered_le (h : Laid source.length 0 0 pieces)
    (hwhole : ∀ piece ∈ pieces, Whole source piece) (s : ℕ) :
    (mapOf source pieces).sourceToRendered s ≤ (pieces.map Prod.snd).flatten.length := by
  by_cases hs : source.length ≤ s
  · rw [sourceToRendered_of_le hs]
  · by_cases hne : pieces = []
    · subst hne
      rw [sourceToRendered_nil]
      exact Nat.zero_le _
    · obtain ⟨piece, hfind⟩ := h.exists_source hne (Nat.not_le.1 hs)
      have hpiece := List.mem_of_find?_eq_some hfind
      rw [sourceToRendered_find h hfind]
      exact ((hwhole piece hpiece).toRendered_mem (h.mem hpiece).1 s).2.trans (h.renderedEnd_le hpiece)

theorem sourceToRendered_mono (h : Laid source.length 0 0 pieces)
    (hwhole : ∀ piece ∈ pieces, Whole source piece) :
    Monotone (mapOf source pieces).sourceToRendered := by
  intro s t hst
  by_cases ht : source.length ≤ t
  · rw [sourceToRendered_of_le ht]
    exact sourceToRendered_le h hwhole s
  · by_cases hne : pieces = []
    · subst hne
      rw [sourceToRendered_nil, sourceToRendered_nil]
    · obtain ⟨a, ha⟩ := h.exists_source hne (s := s) (by omega)
      obtain ⟨b, hb⟩ := h.exists_source hne (Nat.not_le.1 ht)
      have hmemA := List.mem_of_find?_eq_some ha
      have hmemB := List.mem_of_find?_eq_some hb
      have hfitsA := (h.mem hmemA).1
      have hfitsB := (h.mem hmemB).1
      rw [sourceToRendered_find h ha, sourceToRendered_find h hb]
      obtain rfl | hfollows := find?_eq_or h.follows hst ha hb
      · exact (hwhole a hmemA).toRendered_mono hfitsA hst
      · calc a.1.toRendered s
          _ ≤ a.1.renderedEnd := ((hwhole a hmemA).toRendered_mem hfitsA s).2
          _ ≤ b.1.renderedStart := hfollows.1
          _ ≤ b.1.toRendered t := ((hwhole b hmemB).toRendered_mem hfitsB t).1

/-- A piece's place, there and back. -/
theorem sourceToRendered_mem (h : Laid source.length 0 0 pieces)
    (hwhole : ∀ piece ∈ pieces, Whole source piece) {piece : Piece} (hpiece : piece ∈ pieces) {k : ℕ}
    (hk : k < piece.2.length) :
    (mapOf source pieces).sourceToRendered (piece.1.visibleSourceStart + k) =
      piece.1.renderedStart + k := by
  have hfits := (h.mem hpiece).1
  have htext := (hwhole piece hpiece).text_le hfits
  have hread := hfits.end_le
  have hfind := h.inSourceOrder.find?_eq hpiece (Nat.le_add_right _ k) (by omega)
  rw [sourceToRendered_find h hfind, TableCellFragmentRange.toRendered]
  split_ifs <;> omega

end Whole

/-- **Whole pieces are mapped exactly.** -/
theorem exact_of_whole {source : List Char} {inline : List (List Char)} {pieces : List Piece}
    (h : Laid source.length 0 0 pieces) (hflatten : (pieces.map Prod.snd).flatten = inline.flatten)
    (hwhole : ∀ piece ∈ pieces, Whole source piece) : Exact source inline (mapOf source pieces) where
  renderedToSource_mono := renderedToSource_mono h hwhole
  renderedToSource_le := renderedToSource_le h hwhole
  sourceToRendered_mono := sourceToRendered_mono h hwhole
  sourceToRendered_le s := hflatten ▸ sourceToRendered_le h hwhole s
  char i hi := by
    rw [← hflatten] at hi ⊢
    obtain ⟨piece, hpiece, k, hk, rfl⟩ := h.exists_place hi
    have hchar := h.getElem? hpiece hk
    rw [Nat.sub_zero] at hchar
    rw [renderedToSource_mem h hpiece hk, hchar, ← List.getElem?_drop,
      List.prefix_iff_getElem?.1 (hwhole piece hpiece).1 k hk, List.getElem?_eq_getElem hk]
  inverse i hi := by
    rw [← hflatten] at hi
    obtain ⟨piece, hpiece, k, hk, rfl⟩ := h.exists_place hi
    rw [renderedToSource_mem h hpiece hk, sourceToRendered_mem h hwhole hpiece hk]

/-- **Pieces that are mapped exactly are whole.** -/
theorem whole_of_exact {source : List Char} {inline : List (List Char)} {pieces : List Piece}
    (h : Laid source.length 0 0 pieces) (hflatten : (pieces.map Prod.snd).flatten = inline.flatten)
    (hexact : Exact source inline (mapOf source pieces)) {piece : Piece} (hpiece : piece ∈ pieces) :
    Whole source piece := by
  have hfits := (h.mem hpiece).1
  constructor
  · rw [List.prefix_iff_getElem?]
    intro k hk
    have hlt := h.rendered_lt hpiece hk
    have htext := h.getElem? hpiece hk
    rw [hflatten] at hlt htext
    have hchar := hexact.char _ hlt
    rw [Nat.sub_zero] at htext
    rw [renderedToSource_mem h hpiece hk, htext] at hchar
    rw [List.getElem?_drop, hchar, List.getElem?_eq_getElem hk]
  · -- one place more, and a place behind the fragment's text would be mapped behind its end
    by_contra hlong
    have hend := hfits.renderedEnd_eq
    have hread := hfits.end_le
    have hpos : 0 < piece.2.length := List.length_pos_of_ne_nil hfits.text_ne_nil
    have hvalue : piece.1.renderedEnd <
        (mapOf source pieces).sourceToRendered (piece.1.visibleSourceEnd - 1) := by
      rw [sourceToRendered_find h (h.inSourceOrder.find?_eq hpiece (by omega) (by omega)),
        TableCellFragmentRange.toRendered]
      split_ifs <;> omega
    by_cases hlast : inline.flatten.length ≤ piece.1.renderedEnd
    · have hle := hexact.sourceToRendered_le (piece.1.visibleSourceEnd - 1)
      omega
    · rw [← hflatten] at hlast
      obtain ⟨next, hnext, k, hk, hplace⟩ := h.exists_place (Nat.not_le.1 hlast)
      have hnextEnd := (h.mem hnext).1.renderedEnd_eq
      have hbehind : piece.1.sourceEnd ≤ next.1.visibleSourceStart := by
        obtain heq | hfollows := find?_eq_or h.follows (Nat.sub_le piece.1.renderedEnd 1)
          (h.inRenderedOrder.find?_eq hpiece (by omega) (by omega))
          (h.inRenderedOrder.find?_eq hnext (by omega) (by omega))
        · subst heq
          omega
        · exact hfollows.2
      have hmono := hexact.sourceToRendered_mono
        (show piece.1.visibleSourceEnd - 1 ≤ next.1.visibleSourceStart + k by omega)
      have hinverse := hexact.inverse piece.1.renderedEnd (by rw [← hflatten]; omega)
      rw [hplace, renderedToSource_mem h hnext hk] at hinverse
      omega

/-- **The maps of a cell are exact exactly when each fragment stands in the source.** -/
theorem exact_iff (source : List Char) (inline : List (List Char)) :
    Exact source inline (fromInlineAndSource source inline) ↔ Stands inline source := by
  obtain ⟨pieces, hmap, hflatten, hlaid, hstands⟩ := fromInlineAndSource_eq source inline
  rw [hmap, hstands]
  exact ⟨fun hexact _ => whole_of_exact hlaid hflatten hexact, exact_of_whole hlaid hflatten⟩

end Clinch.TableMap
