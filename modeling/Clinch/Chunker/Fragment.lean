import Clinch.ByteText

/-!
# Fragments of a file

* `Fragment`, `coalesceFragments`: neighbouring fragments are merged from the end on while they fit;
* `Within`, `Covers`, `Law`: fragments in order inside a byte range, that have each byte of it that is
  not white space, and what chunking promises of them;
* **`Law.coalesce`**: coalescing keeps the law.
-/

set_option autoImplicit false

namespace Clinch.Chunker

open ByteText

/-- A code fragment with line range information. -/
structure Fragment where
  content : List Char
  startLine : ℕ
  endLine : ℕ
  startByteIndex : ℕ
  endByteIndex : ℕ
  filePath : List Char
deriving DecidableEq

variable (code : List Char) (maxBytesPerChunk : ℕ)

namespace Fragment

def size (fragment : Fragment) : ℕ := byteLen fragment.content

/-- The fragment up to the end of another one. -/
def append (fragment other : Fragment) : Option Fragment :=
  (slice code fragment.startByteIndex other.endByteIndex).map fun content =>
    { fragment with
      endLine := other.endLine
      endByteIndex := other.endByteIndex
      content := content }

end Fragment

/-- One step of the fold over the reversed fragments, where `acc` begins with the last item. -/
def coalesceStep (fragment : Fragment) : List Fragment → Option (List Fragment)
  | [] => some [fragment]
  | lastItem :: acc => do
    let newFragment ← slice code fragment.startByteIndex lastItem.endByteIndex
    if byteLen newFragment ≤ maxBytesPerChunk then
      let fragment ← fragment.append code lastItem
      some (fragment :: acc)
    else some (fragment :: lastItem :: acc)

def coalesceFragments : List Fragment → Option (List Fragment)
  | [] => some []
  | fragment :: fragments =>
    (coalesceFragments fragments).bind (coalesceStep code maxBytesPerChunk fragment)

/-! ## What is promised -/

/-- The fragments lie in order in a byte range, and have the text of their own. -/
structure Within (start stop : ℕ) (fragments : List Fragment) : Prop where
  ordered : fragments.Pairwise fun f g => f.endByteIndex ≤ g.startByteIndex
  text : ∀ f ∈ fragments, IsText code f.startByteIndex f.endByteIndex f.content
  start_le : ∀ f ∈ fragments, start ≤ f.startByteIndex
  le_stop : ∀ f ∈ fragments, f.endByteIndex ≤ stop

/-- Some fragment has a byte. -/
def Holds (fragments : List Fragment) (n : ℕ) : Prop :=
  ∃ f ∈ fragments, f.startByteIndex ≤ n ∧ n < f.endByteIndex

/-- The fragments have each byte of a range that satisfies `P`. -/
def Covers (P : ℕ → Prop) (start stop : ℕ) (fragments : List Fragment) : Prop :=
  ∀ n, start ≤ n → n < stop → P n → Holds fragments n

def Bounded (fragments : List Fragment) : Prop := ∀ f ∈ fragments, f.size ≤ maxBytesPerChunk

/-- **What chunking promises**: fragments in order, with the text of their ranges, none too long,
that lose white space only. -/
structure Law (fragments : List Fragment) : Prop where
  within : Within code 0 (byteLen code) fragments
  bounded : Bounded maxBytesPerChunk fragments
  covers : Covers (NonWhite code) 0 (byteLen code) fragments

variable {code maxBytesPerChunk}

theorem Within.le {start stop : ℕ} {fragments : List Fragment} (h : Within code start stop fragments) :
    ∀ f ∈ fragments, f.startByteIndex ≤ f.endByteIndex := fun f hf => (h.text f hf).le

theorem Within.mono {start start' stop stop' : ℕ} {fragments : List Fragment}
    (h : Within code start stop fragments) (hstart : start' ≤ start) (hstop : stop ≤ stop') :
    Within code start' stop' fragments where
  ordered := h.ordered
  text := h.text
  start_le := fun f hf => hstart.trans (h.start_le f hf)
  le_stop := fun f hf => (h.le_stop f hf).trans hstop

theorem within_nil {start stop : ℕ} : Within code start stop [] where
  ordered := .nil
  text := by simp
  start_le := by simp
  le_stop := by simp

/-- Two ranges one after the other. -/
theorem Within.append {start mid stop : ℕ} {fs gs : List Fragment} (hfs : Within code start mid fs)
    (hgs : Within code mid stop gs) (hstart : start ≤ mid) (hstop : mid ≤ stop) :
    Within code start stop (fs ++ gs) where
  ordered := by
    rw [List.pairwise_append]
    exact ⟨hfs.ordered, hgs.ordered, fun f hf g hg => (hfs.le_stop f hf).trans (hgs.start_le g hg)⟩
  text := by
    intro f hf
    obtain hf | hf := List.mem_append.1 hf
    · exact hfs.text f hf
    · exact hgs.text f hf
  start_le := by
    intro f hf
    obtain hf | hf := List.mem_append.1 hf
    · exact hfs.start_le f hf
    · exact hstart.trans (hgs.start_le f hf)
  le_stop := by
    intro f hf
    obtain hf | hf := List.mem_append.1 hf
    · exact (hfs.le_stop f hf).trans hstop
    · exact hgs.le_stop f hf

theorem within_single {f : Fragment} (h : IsText code f.startByteIndex f.endByteIndex f.content)
    {stop : ℕ} (hstop : f.endByteIndex ≤ stop) : Within code f.startByteIndex stop [f] where
  ordered := List.pairwise_singleton _ _
  text := by simpa using h
  start_le := by simp
  le_stop := by simpa using hstop

theorem holds_append {fs gs : List Fragment} {n : ℕ} :
    Holds (fs ++ gs) n ↔ Holds fs n ∨ Holds gs n := by
  simp only [Holds, List.mem_append, or_and_right, exists_or]

/-- **Each range is covered by its own fragments.** -/
theorem covers_append_iff {P : ℕ → Prop} {start mid stop : ℕ} {fs gs : List Fragment}
    (hfs : Within code start mid fs) (hgs : Within code mid stop gs) (hstart : start ≤ mid)
    (hstop : mid ≤ stop) :
    Covers P start stop (fs ++ gs) ↔ Covers P start mid fs ∧ Covers P mid stop gs := by
  constructor
  · intro h
    refine ⟨fun n hle hlt hP => ?_, fun n hle hlt hP => ?_⟩
    · obtain hn | ⟨g, hg, hgle, -⟩ := holds_append.1 (h n hle (hlt.trans_le hstop) hP)
      · exact hn
      · exact absurd (hgs.start_le g hg) (by omega)
    · obtain ⟨f, hf, -, hflt⟩ | hn := holds_append.1 (h n (hstart.trans hle) hlt hP)
      · exact absurd (hfs.le_stop f hf) (by omega)
      · exact hn
  · rintro ⟨hf, hg⟩ n hle hlt hP
    rw [holds_append]
    by_cases hn : n < mid
    · exact .inl (hf n hle hn hP)
    · exact .inr (hg n (by omega) hlt hP)

theorem bounded_append_iff {fs gs : List Fragment} : Bounded maxBytesPerChunk (fs ++ gs) ↔
    Bounded maxBytesPerChunk fs ∧ Bounded maxBytesPerChunk gs := by
  simp only [Bounded, List.mem_append, or_imp, forall_and]

theorem Within.tail {start stop : ℕ} {f : Fragment} {fs : List Fragment}
    (h : Within code start stop (f :: fs)) : Within code f.endByteIndex stop fs where
  ordered := (List.pairwise_cons.1 h.ordered).2
  text := fun g hg => h.text g (List.mem_cons_of_mem f hg)
  start_le := (List.pairwise_cons.1 h.ordered).1
  le_stop := fun g hg => h.le_stop g (List.mem_cons_of_mem f hg)

theorem Within.cons {start stop : ℕ} {f : Fragment} {fs : List Fragment}
    (h : Within code f.endByteIndex stop fs)
    (htext : IsText code f.startByteIndex f.endByteIndex f.content) (hstart : start ≤ f.startByteIndex)
    (hstop : f.endByteIndex ≤ stop) : Within code start stop (f :: fs) :=
  ((within_single htext le_rfl).append h htext.le hstop).mono hstart le_rfl

/-! ## Coalescing -/

variable (maxBytesPerChunk) in
/-- What coalescing keeps. -/
structure Coalesced (fs gs : List Fragment) : Prop where
  bounded : Bounded maxBytesPerChunk fs → Bounded maxBytesPerChunk gs
  holds : ∀ n, Holds fs n → Holds gs n

theorem coalesceStep_cons {f lastItem : Fragment} {acc : List Fragment} {content : List Char}
    (h : slice code f.startByteIndex lastItem.endByteIndex = some content) :
    coalesceStep code maxBytesPerChunk f (lastItem :: acc) =
      if byteLen content ≤ maxBytesPerChunk then
        some ({ f with
          endLine := lastItem.endLine, endByteIndex := lastItem.endByteIndex, content := content } ::
            acc)
      else some (f :: lastItem :: acc) := by
  simp only [coalesceStep, Fragment.append, h, Option.bind_eq_bind, Option.bind_some, Option.map_some]

theorem coalesceStep_kept {start stop : ℕ} {f : Fragment} {acc : List Fragment}
    (h : Within code start stop (f :: acc)) :
    ∃ gs, coalesceStep code maxBytesPerChunk f acc = some gs ∧ Within code start stop gs ∧
      Coalesced maxBytesPerChunk (f :: acc) gs := by
  cases acc with
  | nil => exact ⟨[f], rfl, h, id, fun _ => id⟩
  | cons lastItem acc =>
    have hf := h.text f List.mem_cons_self
    have hlast := h.text lastItem (by simp)
    have hle : f.endByteIndex ≤ lastItem.startByteIndex := h.tail.start_le lastItem List.mem_cons_self
    obtain ⟨content, hcontent⟩ := exists_isText hf.start_boundary hlast.stop_boundary
      (hf.le.trans (hle.trans hlast.le))
    rw [coalesceStep_cons (slice_eq_some_iff.2 hcontent)]
    split
    · rename_i hfits
      refine ⟨{ f with
          endLine := lastItem.endLine, endByteIndex := lastItem.endByteIndex, content := content } ::
            acc, rfl, ?_, ?_, ?_⟩
      · refine Within.cons ?_ hcontent (h.start_le f List.mem_cons_self) (h.le_stop lastItem (by simp))
        exact h.tail.tail
      · intro hbounded g hg
        obtain rfl | hg := List.mem_cons.1 hg
        · exact hfits
        · exact hbounded g (by simp [hg])
      · rintro n ⟨g, hg, hgle, hglt⟩
        have hlastLe := hlast.le
        have hfLe := hf.le
        obtain rfl | rfl | hg : g = f ∨ g = lastItem ∨ g ∈ acc := by simpa using hg
        · exact ⟨_, List.mem_cons_self, hgle, by dsimp only; omega⟩
        · exact ⟨_, List.mem_cons_self, by dsimp only; omega, hglt⟩
        · exact ⟨g, List.mem_cons_of_mem _ hg, hgle, hglt⟩
    · exact ⟨_, rfl, h, id, fun _ => id⟩

/-- **Coalescing merges neighbours that fit.** -/
theorem coalesceFragments_kept {start stop : ℕ} {fs : List Fragment} (h : Within code start stop fs) :
    ∃ gs, coalesceFragments code maxBytesPerChunk fs = some gs ∧ Within code start stop gs ∧
      Coalesced maxBytesPerChunk fs gs := by
  induction fs generalizing start with
  | nil => exact ⟨[], rfl, h, id, fun _ => id⟩
  | cons f fs ih =>
    have hf := h.text f List.mem_cons_self
    obtain ⟨acc, hacc, hwithin, hkept⟩ := ih h.tail
    obtain ⟨gs, hgs, hgsWithin, hgsKept⟩ := coalesceStep_kept (hwithin.cons hf
      (h.start_le f List.mem_cons_self) (h.le_stop f List.mem_cons_self))
    refine ⟨gs, by rw [coalesceFragments, hacc, Option.bind_some, hgs], hgsWithin, ?_, ?_⟩
    · intro hbounded
      refine hgsKept.bounded fun g hg => ?_
      obtain rfl | hg := List.mem_cons.1 hg
      · exact hbounded g List.mem_cons_self
      · exact hkept.bounded (fun g' hg' => hbounded g' (List.mem_cons_of_mem f hg')) g hg
    · intro n hn
      refine hgsKept.holds n ?_
      obtain ⟨g, hg, hrange⟩ := hn
      obtain rfl | hg := List.mem_cons.1 hg
      · exact ⟨g, List.mem_cons_self, hrange⟩
      · obtain ⟨g', hg', hrange'⟩ := hkept.holds n ⟨g, hg, hrange⟩
        exact ⟨g', List.mem_cons_of_mem f hg', hrange'⟩

/-- **Coalescing keeps the law.** -/
theorem Law.coalesce {fs : List Fragment} (h : Law code maxBytesPerChunk fs) :
    ∃ gs, coalesceFragments code maxBytesPerChunk fs = some gs ∧ Law code maxBytesPerChunk gs := by
  obtain ⟨gs, hgs, hwithin, hkept⟩ := coalesceFragments_kept h.within
  exact ⟨gs, hgs, hwithin, hkept.bounded h.bounded,
    fun n hle hlt hn => hkept.holds n (h.covers n hle hlt hn)⟩

end Clinch.Chunker
