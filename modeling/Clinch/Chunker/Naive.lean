import Clinch.Chunker.Fragment

/-!
# Chunking by lines

Lines are taken in groups. A group that is too long is cut into its lines, and a line that is too
long between characters, into pieces that fit; then the pieces are coalesced.

* `LineSpans`: the lines of a text, without their line breaks;
* `chunkLineByBytes`, `chunkCode`;
* `Narrow`: each character of a line fits into a fragment;
* **`chunkCode_law_iff`**: the law is kept exactly when the characters are narrow.
-/

set_option autoImplicit false

namespace Clinch.Chunker.Naive

open ByteText

variable (code : List Char)

/-- The byte ranges that `line_spans` returns: lines in order, between which there are only line
breaks. -/
structure LineSpans where
  spans : List (ℕ × ℕ)
  ordered : spans.Pairwise fun s t => s.2 ≤ t.1
  between : ∀ s ∈ spans, s.1 ≤ s.2 ∧ isCharBoundary code s.1 = true ∧ isCharBoundary code s.2 = true
  breaks : ∀ n, NonWhite code n → ∃ s ∈ spans, s.1 ≤ n ∧ n < s.2

variable (path : List Char) (maxBytesPerChunk : ℕ)

/-- The last boundary up to a byte, but not before `low`. -/
def boundaryBefore (low : ℕ) : ℕ → ℕ
  | 0 => 0
  | n + 1 => if low < n + 1 ∧ isCharBoundary code (n + 1) = false then boundaryBefore low n else n + 1

/-- The first boundary among `fuel` bytes from one on. -/
def boundaryAfter (n : ℕ) : ℕ → ℕ
  | 0 => n
  | fuel + 1 => if isCharBoundary code n = false then boundaryAfter (n + 1) fuel else n

/-- Where a piece of a line ends. -/
def chunkEnd (lineEnd currentStart : ℕ) : ℕ :=
  let chunkSize := min (lineEnd - currentStart) maxBytesPerChunk
  let before := boundaryBefore code currentStart (currentStart + chunkSize)
  if before ≤ currentStart then
    boundaryAfter code (currentStart + chunkSize) (lineEnd - (currentStart + chunkSize))
  else before

/-- The pieces of a line from a byte on. Without progress the loop does not end. -/
def chunkLineFrom (lineNumber lineEnd currentStart : ℕ) : Option (List Fragment) :=
  if _h : currentStart < lineEnd then
    let stop := chunkEnd code maxBytesPerChunk lineEnd currentStart
    if _h' : stop ≤ currentStart then none
    else do
      let content ← slice code currentStart stop
      let fragments ← chunkLineFrom lineNumber lineEnd stop
      some (⟨content, lineNumber, lineNumber, currentStart, stop, path⟩ :: fragments)
  else some []
termination_by lineEnd - currentStart
decreasing_by omega

def chunkLineByBytes (lineNumber : ℕ) (line : ℕ × ℕ) : Option (List Fragment) := do
  let content ← slice code line.1 line.2
  if line.2 - line.1 ≤ maxBytesPerChunk then
    some [⟨content, lineNumber, lineNumber, line.1, line.2, path⟩]
  else chunkLineFrom code path maxBytesPerChunk lineNumber line.2 line.1

/-- The pieces of some numbered lines. -/
def chunkLines : List ((ℕ × ℕ) × ℕ) → Option (List Fragment)
  | [] => some []
  | (line, lineNumber) :: lines => do
    let fragments ← chunkLineByBytes code path maxBytesPerChunk lineNumber line
    let rest ← chunkLines lines
    some (fragments ++ rest)

/-- `slice::chunks`. -/
def chunks {α : Type} (n : ℕ) (xs : List α) : List (List α) :=
  if _h : n = 0 ∨ xs = [] then [] else xs.take n :: chunks n (xs.drop n)
termination_by xs.length
decreasing_by
  rw [not_or] at _h
  have := List.length_pos_of_ne_nil _h.2
  rw [List.length_drop]
  omega

/-- The fragments of a group of numbered lines. -/
def chunkGroup : List ((ℕ × ℕ) × ℕ) → Option (List Fragment)
  | [] => none
  | first :: group =>
    let last := group.getLastD first
    if maxBytesPerChunk < last.1.2 - first.1.1 then
      (chunkLines code path maxBytesPerChunk (first :: group)).bind
        (coalesceFragments code maxBytesPerChunk)
    else (slice code first.1.1 last.1.2).map fun content =>
      [⟨content, first.2, last.2, first.1.1, last.1.2, path⟩]

/-- The fragments of some groups. -/
def chunkGroups : List (List ((ℕ × ℕ) × ℕ)) → Option (List Fragment)
  | [] => some []
  | group :: groups => do
    let fragments ← chunkGroup code path maxBytesPerChunk group
    let rest ← chunkGroups groups
    some (fragments ++ rest)

variable {code}

/-- `chunk_code`, which panics for groups of no lines. -/
def chunkCode (lines : LineSpans code) (numLinesPerChunk : ℕ) : Option (List Fragment) :=
  if numLinesPerChunk = 0 then none
  else chunkGroups code path maxBytesPerChunk (chunks numLinesPerChunk lines.spans.zipIdx)

/-! ## Cutting a line -/

variable (code) in
/-- From each boundary in a range the next one is near. -/
def NarrowIn (start stop : ℕ) : Prop :=
  ∀ n, start ≤ n → n < stop → isCharBoundary code n = true →
    ∃ m, n < m ∧ m ≤ n + maxBytesPerChunk ∧ isCharBoundary code m = true

def InLines (lines : List (ℕ × ℕ)) (n : ℕ) : Prop := ∃ s ∈ lines, s.1 ≤ n ∧ n < s.2

variable (code) in
/-- The fragments made of some lines, if there are any: they have the lines, and are not too long
when the characters of the lines are narrow. -/
structure Chunked (lines : List (ℕ × ℕ)) (start stop : ℕ) (result : Option (List Fragment)) :
    Prop where
  within : ∀ fs, result = some fs → Within code start stop fs
  holds : ∀ fs, result = some fs → ∀ n, InLines lines n → Holds fs n
  bounded : (∀ s ∈ lines, NarrowIn code maxBytesPerChunk s.1 s.2) →
    ∃ fs, result = some fs ∧ Bounded maxBytesPerChunk fs

variable {path maxBytesPerChunk}

variable (code) in
theorem boundaryBefore_spec {low n : ℕ} (hle : low ≤ n) :
    low ≤ boundaryBefore code low n ∧ boundaryBefore code low n ≤ n ∧
      (low < boundaryBefore code low n → isCharBoundary code (boundaryBefore code low n) = true) ∧
      ∀ m, boundaryBefore code low n < m → m ≤ n → isCharBoundary code m = false := by
  induction n with
  | zero =>
    rw [boundaryBefore]
    exact ⟨hle, le_rfl, fun h => by omega, fun m h h' => by omega⟩
  | succ n ih =>
    rw [boundaryBefore]
    split
    · rename_i hstep
      obtain ⟨h₁, h₂, h₃, h₄⟩ := ih (by omega)
      refine ⟨h₁, by omega, h₃, fun m hm hmn => ?_⟩
      by_cases hlast : m = n + 1
      · exact hlast ▸ hstep.2
      · exact h₄ m hm (by omega)
    · rename_i hstop
      refine ⟨hle, le_rfl, fun hlt => ?_, fun m h h' => by omega⟩
      by_contra hfalse
      exact hstop ⟨hlt, by simpa using hfalse⟩

variable (code) in
theorem boundaryAfter_spec (n fuel : ℕ) (h : isCharBoundary code (n + fuel) = true) :
    n ≤ boundaryAfter code n fuel ∧ boundaryAfter code n fuel ≤ n + fuel ∧
      isCharBoundary code (boundaryAfter code n fuel) = true := by
  induction fuel generalizing n with
  | zero => exact ⟨le_rfl, le_rfl, h⟩
  | succ fuel ih =>
    rw [boundaryAfter]
    split
    · obtain ⟨h₁, h₂, h₃⟩ := ih (n + 1) (by rwa [show n + 1 + fuel = n + (fuel + 1) by omega])
      exact ⟨by omega, by omega, h₃⟩
    · rename_i hboundary
      exact ⟨le_rfl, by omega, by simpa using hboundary⟩

/-- A piece ends at a boundary of its line. -/
theorem chunkEnd_spec {lineEnd start : ℕ}
    (hend : isCharBoundary code lineEnd = true) (hlt : start < lineEnd) :
    chunkEnd code maxBytesPerChunk lineEnd start ≤ lineEnd ∧
      isCharBoundary code (chunkEnd code maxBytesPerChunk lineEnd start) = true := by
  obtain ⟨h₁, h₂, h₃, -⟩ := boundaryBefore_spec code
    (show start ≤ start + min (lineEnd - start) maxBytesPerChunk by omega)
  unfold chunkEnd
  dsimp only
  split
  · obtain ⟨-, h₅, h₆⟩ := boundaryAfter_spec code
      (start + min (lineEnd - start) maxBytesPerChunk)
      (lineEnd - (start + min (lineEnd - start) maxBytesPerChunk))
      (by rwa [show start + min (lineEnd - start) maxBytesPerChunk +
        (lineEnd - (start + min (lineEnd - start) maxBytesPerChunk)) = lineEnd by omega])
    exact ⟨by omega, h₆⟩
  · exact ⟨by omega, h₃ (by omega)⟩

/-- A narrow character gives a piece that fits. -/
theorem chunkEnd_narrow {lineEnd start : ℕ} (hend : isCharBoundary code lineEnd = true)
    (hlt : start < lineEnd)
    (hnarrow : ∃ m, start < m ∧ m ≤ start + maxBytesPerChunk ∧ isCharBoundary code m = true) :
    start < chunkEnd code maxBytesPerChunk lineEnd start ∧
      chunkEnd code maxBytesPerChunk lineEnd start ≤ start + maxBytesPerChunk := by
  obtain ⟨h₁, h₂, -, h₄⟩ := boundaryBefore_spec code
    (show start ≤ start + min (lineEnd - start) maxBytesPerChunk by omega)
  obtain ⟨m, hm, hmle, hmb⟩ := hnarrow
  have hbefore : start < boundaryBefore code start (start + min (lineEnd - start) maxBytesPerChunk) := by
    by_contra hnot
    -- the next boundary, or the end of the line, would have been found
    by_cases hme : m ≤ lineEnd
    · have hfalse := h₄ m (by omega) (by omega)
      rw [hmb] at hfalse
      cases hfalse
    · have hfalse := h₄ lineEnd (by omega) (by omega)
      rw [hend] at hfalse
      cases hfalse
  unfold chunkEnd
  dsimp only
  rw [if_neg (by omega)]
  omega

theorem inLines_single {start stop n : ℕ} : InLines [(start, stop)] n ↔ start ≤ n ∧ n < stop := by
  simp [InLines]

theorem InLines.append {lines₁ lines₂ : List (ℕ × ℕ)} {n : ℕ} (h : InLines (lines₁ ++ lines₂) n) :
    InLines lines₁ n ∨ InLines lines₂ n := by
  obtain ⟨s, hs, hrange⟩ := h
  obtain hs | hs := List.mem_append.1 hs
  · exact .inl ⟨s, hs, hrange⟩
  · exact .inr ⟨s, hs, hrange⟩

namespace Chunked

variable {start mid stop : ℕ} {lines₁ lines₂ : List (ℕ × ℕ)}

theorem nil : Chunked code maxBytesPerChunk [] start stop (some []) where
  within := by
    intro fs h
    cases h
    exact within_nil
  holds := by
    rintro fs - n ⟨s, hs, -⟩
    exact absurd hs List.not_mem_nil
  bounded := fun _ => ⟨[], rfl, fun f hf => absurd hf List.not_mem_nil⟩

/-- One fragment for a range that fits. -/
theorem single {f : Fragment} (htext : IsText code f.startByteIndex f.endByteIndex f.content)
    (hfits : f.endByteIndex - f.startByteIndex ≤ maxBytesPerChunk)
    (hlines : ∀ s ∈ lines₁, f.startByteIndex ≤ s.1 ∧ s.2 ≤ f.endByteIndex) :
    Chunked code maxBytesPerChunk lines₁ f.startByteIndex f.endByteIndex (some [f]) where
  within := by
    intro fs h
    cases h
    exact within_single htext le_rfl
  holds := by
    rintro fs h n ⟨s, hs, hle, hlt⟩
    cases h
    exact ⟨f, List.mem_cons_self, (hlines s hs).1.trans hle, hlt.trans_le (hlines s hs).2⟩
  bounded := by
    refine fun _ => ⟨[f], rfl, fun g hg => ?_⟩
    obtain rfl := List.mem_singleton.1 hg
    rw [Fragment.size, htext.byteLen_eq]
    exact hfits

/-- The fragments of some lines and then of others. -/
theorem append {result₁ result₂ : Option (List Fragment)}
    (h₁ : Chunked code maxBytesPerChunk lines₁ start mid result₁)
    (h₂ : Chunked code maxBytesPerChunk lines₂ mid stop result₂) (hstart : start ≤ mid)
    (hstop : mid ≤ stop) :
    Chunked code maxBytesPerChunk (lines₁ ++ lines₂) start stop
      (result₁.bind fun fs => result₂.bind fun gs => some (fs ++ gs)) where
  within := by
    intro _ h
    obtain ⟨fs, hfs, h⟩ := Option.bind_eq_some_iff.1 h
    obtain ⟨gs, hgs, h⟩ := Option.bind_eq_some_iff.1 h
    cases h
    exact (h₁.within fs hfs).append (h₂.within gs hgs) hstart hstop
  holds := by
    intro _ h n hn
    obtain ⟨fs, hfs, h⟩ := Option.bind_eq_some_iff.1 h
    obtain ⟨gs, hgs, h⟩ := Option.bind_eq_some_iff.1 h
    cases h
    exact holds_append.2 (hn.append.imp (h₁.holds fs hfs n) (h₂.holds gs hgs n))
  bounded := by
    intro hnarrow
    obtain ⟨fs, rfl, hfs⟩ := h₁.bounded fun s hs => hnarrow s (List.mem_append_left _ hs)
    obtain ⟨gs, rfl, hgs⟩ := h₂.bounded fun s hs => hnarrow s (List.mem_append_right _ hs)
    exact ⟨fs ++ gs, rfl, bounded_append_iff.2 ⟨hfs, hgs⟩⟩

theorem mono {start' stop' : ℕ} {result : Option (List Fragment)}
    (h : Chunked code maxBytesPerChunk lines₁ start stop result) (hstart : start' ≤ start)
    (hstop : stop ≤ stop') : Chunked code maxBytesPerChunk lines₁ start' stop' result where
  within := fun fs hfs => (h.within fs hfs).mono hstart hstop
  holds := h.holds
  bounded := h.bounded

theorem coalesce {result : Option (List Fragment)}
    (h : Chunked code maxBytesPerChunk lines₁ start stop result) :
    Chunked code maxBytesPerChunk lines₁ start stop
      (result.bind (coalesceFragments code maxBytesPerChunk)) := by
  cases result with
  | none =>
    refine ⟨fun fs hfs => (nomatch hfs), fun fs hfs => (nomatch hfs), fun hnarrow => ?_⟩
    obtain ⟨fs, hfs, -⟩ := h.bounded hnarrow
    cases hfs
  | some fs =>
    obtain ⟨gs, hgs, hwithin, hkept⟩ :=
      @coalesceFragments_kept code maxBytesPerChunk start stop fs (h.within fs rfl)
    rw [Option.bind_some, hgs]
    refine ⟨?_, ?_, ?_⟩
    · intro _ h'
      cases h'
      exact hwithin
    · intro _ h' n hn
      cases h'
      exact hkept.holds n (h.holds fs rfl n hn)
    · intro hnarrow
      obtain ⟨fs', hfs', hbounded⟩ := h.bounded hnarrow
      cases hfs'
      exact ⟨gs, rfl, hkept.bounded hbounded⟩

end Chunked

/-- A piece in front of the other pieces of its line. -/
theorem Chunked.piece {f : Fragment} {stop : ℕ} {result : Option (List Fragment)}
    (h : Chunked code maxBytesPerChunk [(f.endByteIndex, stop)] f.endByteIndex stop result)
    (htext : IsText code f.startByteIndex f.endByteIndex f.content) (hstop : f.endByteIndex ≤ stop)
    (hfits : NarrowIn code maxBytesPerChunk f.startByteIndex stop →
      f.endByteIndex - f.startByteIndex ≤ maxBytesPerChunk) :
    Chunked code maxBytesPerChunk [(f.startByteIndex, stop)] f.startByteIndex stop
      (result.bind fun fs => some (f :: fs)) where
  within := by
    intro _ h'
    obtain ⟨fs, hfs, h'⟩ := Option.bind_eq_some_iff.1 h'
    cases h'
    exact (h.within fs hfs).cons htext le_rfl hstop
  holds := by
    intro _ h' n hn
    obtain ⟨fs, hfs, h'⟩ := Option.bind_eq_some_iff.1 h'
    cases h'
    rw [inLines_single] at hn
    by_cases hlt : n < f.endByteIndex
    · exact ⟨f, List.mem_cons_self, hn.1, hlt⟩
    · obtain ⟨g, hg, hrange⟩ := h.holds fs hfs n (inLines_single.2 ⟨by omega, hn.2⟩)
      exact ⟨g, List.mem_cons_of_mem f hg, hrange⟩
  bounded := by
    intro hnarrow
    have hline := hnarrow _ List.mem_cons_self
    obtain ⟨fs, rfl, hfs⟩ := h.bounded fun s hs => by
      obtain rfl := List.mem_singleton.1 hs
      exact fun n hle hlt => hline n (htext.le.trans hle) hlt
    refine ⟨f :: fs, rfl, fun g hg => ?_⟩
    obtain rfl | hg := List.mem_cons.1 hg
    · rw [Fragment.size, htext.byteLen_eq]
      exact hfits hline
    · exact hfs g hg

theorem chunkLineFrom_chunked {lineNumber lineEnd start : ℕ}
    (hstart : isCharBoundary code start = true) (hend : isCharBoundary code lineEnd = true)
    (hle : start ≤ lineEnd) :
    Chunked code maxBytesPerChunk [(start, lineEnd)] start lineEnd
      (chunkLineFrom code path maxBytesPerChunk lineNumber lineEnd start) := by
  fun_induction chunkLineFrom code path maxBytesPerChunk lineNumber lineEnd start with
  | case1 start hlt stop hstuck =>
    refine ⟨fun fs hfs => (nomatch hfs), fun fs hfs => (nomatch hfs), fun hnarrow => ?_⟩
    -- a narrow character gives progress
    have hmoves := (chunkEnd_narrow hend hlt
      (hnarrow (start, lineEnd) List.mem_cons_self start le_rfl hlt hstart)).1
    omega
  | case2 start hlt stop hmoves ih =>
    have hspec : stop ≤ lineEnd ∧ isCharBoundary code stop = true := chunkEnd_spec hend hlt
    obtain ⟨content, hcontent⟩ := exists_isText hstart hspec.2 (by omega)
    rw [slice_eq_some_iff.2 hcontent]
    refine Chunked.piece (f := ⟨content, lineNumber, lineNumber, start, stop, path⟩)
      (ih hspec.2 hspec.1) hcontent hspec.1 fun hnarrow => ?_
    have hfits : stop ≤ start + maxBytesPerChunk :=
      (chunkEnd_narrow hend hlt (hnarrow start le_rfl hlt hstart)).2
    dsimp only
    omega
  | case3 start hnot =>
    obtain rfl : start = lineEnd := by omega
    have hnil : Chunked code maxBytesPerChunk [] start start (some []) := Chunked.nil
    refine ⟨hnil.within, fun fs _ n hn => ?_, fun _ => hnil.bounded (by simp)⟩
    rw [inLines_single] at hn
    omega

theorem chunkLineByBytes_chunked {lineNumber : ℕ} {line : ℕ × ℕ} (hle : line.1 ≤ line.2)
    (hstart : isCharBoundary code line.1 = true) (hend : isCharBoundary code line.2 = true) :
    Chunked code maxBytesPerChunk [line] line.1 line.2
      (chunkLineByBytes code path maxBytesPerChunk lineNumber line) := by
  obtain ⟨content, hcontent⟩ := exists_isText hstart hend hle
  unfold chunkLineByBytes
  rw [slice_eq_some_iff.2 hcontent, Option.bind_eq_bind, Option.bind_some]
  split
  · rename_i hfits
    exact Chunked.single (f := ⟨content, lineNumber, lineNumber, line.1, line.2, path⟩) hcontent hfits
      (by simp)
  · exact chunkLineFrom_chunked hstart hend hle

/-! ## Groups of lines -/

variable (code) in
/-- Lines in order inside a byte range. -/
structure LinesIn (start stop : ℕ) (lines : List (ℕ × ℕ)) : Prop where
  ordered : lines.Pairwise fun s t => s.2 ≤ t.1
  between : ∀ s ∈ lines, s.1 ≤ s.2 ∧ isCharBoundary code s.1 = true ∧ isCharBoundary code s.2 = true
  start_le : ∀ s ∈ lines, start ≤ s.1
  le_stop : ∀ s ∈ lines, s.2 ≤ stop

theorem LinesIn.tail {start stop : ℕ} {line : ℕ × ℕ} {lines : List (ℕ × ℕ)}
    (h : LinesIn code start stop (line :: lines)) : LinesIn code line.2 stop lines where
  ordered := (List.pairwise_cons.1 h.ordered).2
  between := fun s hs => h.between s (List.mem_cons_of_mem line hs)
  start_le := (List.pairwise_cons.1 h.ordered).1
  le_stop := fun s hs => h.le_stop s (List.mem_cons_of_mem line hs)

theorem chunkLines_chunked {start stop : ℕ} {lines : List ((ℕ × ℕ) × ℕ)}
    (h : LinesIn code start stop (lines.map Prod.fst)) :
    Chunked code maxBytesPerChunk (lines.map Prod.fst) start stop
      (chunkLines code path maxBytesPerChunk lines) := by
  induction lines generalizing start with
  | nil => exact Chunked.nil
  | cons numbered lines ih =>
    obtain ⟨line, lineNumber⟩ := numbered
    have hmem : line ∈ List.map Prod.fst ((line, lineNumber) :: lines) := List.mem_cons_self
    obtain ⟨hle, hstart, hend⟩ := h.between line hmem
    exact ((chunkLineByBytes_chunked hle hstart hend).mono (h.start_le line hmem) le_rfl).append
      (ih h.tail) ((h.start_le line hmem).trans hle) (h.le_stop line hmem)

/-- The last of some lines in order ends last. -/
theorem LinesIn.le_last {start stop : ℕ} {first : ℕ × ℕ} {lines : List (ℕ × ℕ)}
    (h : LinesIn code start stop (first :: lines)) :
    ∀ s ∈ first :: lines, s.2 ≤ (lines.getLastD first).2 := by
  induction lines generalizing start first with
  | nil => simp
  | cons line lines ih =>
    have hrest := ih h.tail
    have hline := hrest line List.mem_cons_self
    have hfirst := h.tail.start_le line List.mem_cons_self
    have hle := (h.tail.between line List.mem_cons_self).1
    intro s hs
    rw [List.getLastD_cons]
    obtain rfl | hs := List.mem_cons.1 hs
    · exact hfirst.trans (hle.trans hline)
    · exact hrest s hs

theorem chunkGroup_chunked {start stop : ℕ} {first : (ℕ × ℕ) × ℕ} {group : List ((ℕ × ℕ) × ℕ)}
    (h : LinesIn code start stop ((first :: group).map Prod.fst)) :
    Chunked code maxBytesPerChunk ((first :: group).map Prod.fst) start stop
      (chunkGroup code path maxBytesPerChunk (first :: group)) := by
  unfold chunkGroup
  dsimp only
  split
  · exact (chunkLines_chunked h).coalesce
  · rename_i hfits
    have hfirst : first.1 ∈ (first :: group).map Prod.fst := List.mem_cons_self
    have hlast : (group.getLastD first).1 ∈ (first :: group).map Prod.fst :=
      List.mem_map_of_mem List.getLastD_mem_cons
    have hends : ∀ s ∈ (first :: group).map Prod.fst, s.2 ≤ (group.getLastD first).1.2 := by
      have hends := h.le_last
      rwa [List.getLastD_map] at hends
    have hstarts : ∀ s ∈ (first :: group).map Prod.fst, first.1.1 ≤ s.1 := by
      intro s hs
      obtain rfl | hs := List.mem_cons.1 hs
      · exact le_rfl
      · exact (h.between _ hfirst).1.trans (h.tail.start_le s hs)
    obtain ⟨content, hcontent⟩ := exists_isText (h.between _ hfirst).2.1 (h.between _ hlast).2.2
      ((h.between _ hfirst).1.trans (hends _ hfirst))
    rw [slice_eq_some_iff.2 hcontent, Option.map_some]
    refine (Chunked.single (f := ⟨content, first.2, (group.getLastD first).2, first.1.1,
      (group.getLastD first).1.2, path⟩) hcontent ?_ ?_).mono (h.start_le _ hfirst) (h.le_stop _ hlast)
    · exact Nat.le_of_not_lt hfits
    · exact fun s hs => ⟨hstarts s hs, hends s hs⟩

/-- Where some lines end, others begin. -/
theorem LinesIn.append {start stop : ℕ} {first : ℕ × ℕ} {lines₁ lines₂ : List (ℕ × ℕ)}
    (h : LinesIn code start stop (first :: lines₁ ++ lines₂)) :
    LinesIn code start (lines₁.getLastD first).2 (first :: lines₁) ∧
      LinesIn code (lines₁.getLastD first).2 stop lines₂ ∧ start ≤ (lines₁.getLastD first).2 ∧
        (lines₁.getLastD first).2 ≤ stop := by
  have hleft : ∀ s ∈ first :: lines₁, s ∈ first :: lines₁ ++ lines₂ :=
    fun s hs => List.mem_append_left _ hs
  have hright : ∀ s ∈ lines₂, s ∈ first :: lines₁ ++ lines₂ := fun s hs => List.mem_append_right _ hs
  have hlastMem : lines₁.getLastD first ∈ first :: lines₁ := List.getLastD_mem_cons
  obtain ⟨hordered₁, hordered₂, hcross⟩ := List.pairwise_append.1 h.ordered
  have hlines₁ : LinesIn code start stop (first :: lines₁) :=
    { ordered := hordered₁
      between := fun s hs => h.between s (hleft s hs)
      start_le := fun s hs => h.start_le s (hleft s hs)
      le_stop := fun s hs => h.le_stop s (hleft s hs) }
  refine ⟨{ hlines₁ with le_stop := hlines₁.le_last }, ?_, ?_, hlines₁.le_stop _ hlastMem⟩
  · exact
      { ordered := hordered₂
        between := fun s hs => h.between s (hright s hs)
        start_le := fun s hs => hcross _ hlastMem s hs
        le_stop := fun s hs => h.le_stop s (hright s hs) }
  · exact (hlines₁.start_le _ hlastMem).trans (hlines₁.between _ hlastMem).1

theorem chunkGroups_chunked {start stop : ℕ} {groups : List (List ((ℕ × ℕ) × ℕ))}
    (hne : ∀ group ∈ groups, group ≠ [])
    (h : LinesIn code start stop (groups.flatten.map Prod.fst)) :
    Chunked code maxBytesPerChunk (groups.flatten.map Prod.fst) start stop
      (chunkGroups code path maxBytesPerChunk groups) := by
  induction groups generalizing start with
  | nil => exact Chunked.nil
  | cons group groups ih =>
    cases group with
    | nil => exact absurd rfl (hne [] List.mem_cons_self)
    | cons first group =>
      rw [List.flatten_cons, List.map_append] at h ⊢
      obtain ⟨hfirst, hrest, hstart, hstop⟩ := LinesIn.append h
      exact (chunkGroup_chunked hfirst).append
        (ih (fun other hother => hne other (List.mem_cons_of_mem _ hother)) hrest) hstart hstop

theorem flatten_chunks {α : Type} {n : ℕ} (hn : n ≠ 0) (xs : List α) : (chunks n xs).flatten = xs := by
  fun_induction chunks n xs with
  | case1 xs h =>
    obtain h | rfl := h
    · exact absurd h hn
    · rfl
  | case2 xs h ih => rw [List.flatten_cons, ih, List.take_append_drop]

theorem ne_nil_of_mem_chunks {α : Type} {n : ℕ} {xs : List α} :
    ∀ group ∈ chunks n xs, group ≠ [] := by
  fun_induction chunks n xs with
  | case1 xs h => simp
  | case2 xs h ih =>
    rw [not_or] at h
    intro group hgroup
    obtain rfl | hgroup := List.mem_cons.1 hgroup
    · simpa [h.1] using h.2
    · exact ih group hgroup

variable (maxBytesPerChunk) in
/-- Each character of a line fits into a fragment. -/
def Narrow (lines : LineSpans code) : Prop :=
  ∀ s ∈ lines.spans, NarrowIn code maxBytesPerChunk s.1 s.2

/-- **The naive chunker keeps the law exactly when the characters are narrow.** -/
theorem chunkCode_law_iff {lines : LineSpans code} {numLinesPerChunk : ℕ} :
    (∃ fragments, chunkCode path maxBytesPerChunk lines numLinesPerChunk = some fragments ∧
      Law code maxBytesPerChunk fragments) ↔
        numLinesPerChunk ≠ 0 ∧ Narrow maxBytesPerChunk lines := by
  by_cases hn : numLinesPerChunk = 0
  · simp [chunkCode, hn]
  have hflatten : (chunks numLinesPerChunk lines.spans.zipIdx).flatten.map Prod.fst = lines.spans := by
    rw [flatten_chunks hn, List.zipIdx_map_fst]
  have hlines : LinesIn code 0 (byteLen code) lines.spans :=
    { ordered := lines.ordered
      between := lines.between
      start_le := fun s _ => Nat.zero_le _
      le_stop := fun s hs => le_byteLen (lines.between s hs).2.2 }
  have hchunked : Chunked code maxBytesPerChunk lines.spans 0 (byteLen code)
      (chunkCode path maxBytesPerChunk lines numLinesPerChunk) := by
    have hgroups := @chunkGroups_chunked code path maxBytesPerChunk 0 (byteLen code)
      (chunks numLinesPerChunk lines.spans.zipIdx) ne_nil_of_mem_chunks (by rwa [hflatten])
    rw [hflatten] at hgroups
    rwa [chunkCode, if_neg hn]
  constructor
  · rintro ⟨fragments, hfragments, hlaw⟩
    refine ⟨hn, fun s hs n hle hlt hboundary => ?_⟩
    -- the fragment that has the byte ends at a boundary
    obtain ⟨f, hf, hfle, hflt⟩ := hchunked.holds fragments hfragments n ⟨s, hs, hle, hlt⟩
    have htext := hlaw.within.text f hf
    have hsize := hlaw.bounded f hf
    rw [Fragment.size, htext.byteLen_eq] at hsize
    exact ⟨f.endByteIndex, hflt, by omega, htext.stop_boundary⟩
  · rintro ⟨-, hnarrow⟩
    obtain ⟨fragments, hfragments, hbounded⟩ := hchunked.bounded hnarrow
    refine ⟨fragments, hfragments, hchunked.within fragments hfragments, hbounded, ?_⟩
    exact fun n _ _ hwhite => hchunked.holds fragments hfragments n (lines.breaks n hwhite)

/-- Four bytes are enough for each character. -/
theorem narrow_of_four_le (lines : LineSpans code) (h : 4 ≤ maxBytesPerChunk) :
    Narrow maxBytesPerChunk lines := by
  intro s hs n _ hlt hboundary
  have hlen := le_byteLen (lines.between s hs).2.2
  obtain ⟨m, hm, hmle, hmb⟩ := exists_boundary_after hboundary (by omega)
  exact ⟨m, hm, by omega, hmb⟩

end Clinch.Chunker.Naive
