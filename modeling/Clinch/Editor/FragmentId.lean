import Clinch.Rust

/-!
# Fragment ids

`editor/view/model/buffer/mod.rs`. The fragments of a buffer are in the order of their ids, which
are compared lexicographically. A new fragment between two neighbours takes an id between theirs:
their digits are read one pair after another, the left id continued by zeros and the right one by
the largest digit, up to the first pair with a digit in between.

* `betweenLoop`, `Between`: the loop, and what it returns;
* `FragmentIds`: the ids after any insertions;
* `between_of_left_nil`, `between_of_right_nil`, `between_of_lt`: where the loop returns;
* `Dividable`, `FragmentIds.dividable`: what holds of all ids that are made in this way;
* `fragmentIds_between`: between neighbours there is always an id.
-/

set_option autoImplicit false

namespace Clinch

namespace Editor

/-- `u16::MAX`. -/
def u16Max : ℕ := 65535

/-- `FragmentId`: its digits. -/
abbrev FragmentId := List ℕ

/-- The loop of `between_with_max`, for a number of turns: both iterators go on without end. There
is no id when it has not ended. -/
def betweenLoop (maxValue : ℕ) : ℕ → FragmentId → FragmentId → Result (Option FragmentId)
  | 0, _, _ => .ok none
  | turns + 1, left, right => do
    let l := left.headD 0
    let r := right.headD maxValue
    let interval ← checkedSub r l
    if 1 < interval then
      let entry ← checkedAdd u16Max l (max 1 (min (interval / 2) 8))
      return some [entry]
    else
      let id ← betweenLoop maxValue turns left.tail right.tail
      return id.map (l :: ·)

/-- `between_with_max` returns: the loop ends after some turns, and no turn of it panics. -/
def BetweenWithMax (maxValue : ℕ) (left right id : FragmentId) : Prop :=
  ∃ needed, ∀ turns,
    betweenLoop maxValue turns left right = .ok (if needed ≤ turns then some id else none)

/-- `between` returns. -/
def Between (left right id : FragmentId) : Prop := BetweenWithMax u16Max left right id

/-- The ids after any insertions between neighbours, from the least and the largest id on. -/
inductive FragmentIds (maxValue : ℕ) : List FragmentId → Prop
  | new : FragmentIds maxValue [[0], [maxValue]]
  | insert (before after : List FragmentId) {left right id : FragmentId}
      (h : FragmentIds maxValue (before ++ left :: right :: after))
      (hid : BetweenWithMax maxValue left right id) :
      FragmentIds maxValue (before ++ left :: id :: right :: after)

/-! ## The loop -/

variable {maxValue l r : ℕ} {left right id : FragmentId}

/-- A digit in between ends the loop. -/
theorem betweenWithMax_stop (left right : FragmentId) (hmax : right.headD maxValue ≤ u16Max)
    (h : left.headD 0 + 1 < right.headD maxValue) :
    ∃ entry, left.headD 0 < entry ∧ entry < right.headD maxValue ∧
      BetweenWithMax maxValue left right [entry] := by
  generalize hl : left.headD 0 = l at h ⊢
  generalize hr : right.headD maxValue = r at hmax h ⊢
  have hentry : l + max 1 (min ((r - l) / 2) 8) < r := by omega
  refine ⟨l + max 1 (min ((r - l) / 2) 8), by omega, hentry, 1, fun turns => ?_⟩
  cases turns with
  | zero => rfl
  | succ turns =>
    rw [betweenLoop, hl, hr, checkedSub_ok (by omega), ok_bind, if_pos (by omega),
      checkedAdd_ok (hentry.le.trans hmax), ok_bind, if_pos (Nat.le_add_left 1 turns)]
    rfl

/-- Otherwise the digit of the left id is taken. -/
theorem betweenWithMax_step (left right : FragmentId) (hle : left.headD 0 ≤ right.headD maxValue)
    (h : right.headD maxValue ≤ left.headD 0 + 1)
    (hid : BetweenWithMax maxValue left.tail right.tail id) :
    BetweenWithMax maxValue left right (left.headD 0 :: id) := by
  obtain ⟨needed, hneeded⟩ := hid
  refine ⟨needed + 1, fun turns => ?_⟩
  cases turns with
  | zero => rfl
  | succ turns =>
    rw [betweenLoop, checkedSub_ok hle, ok_bind, if_neg (by omega), hneeded turns, ok_bind]
    by_cases hturns : needed ≤ turns
    · rw [if_pos hturns, if_pos (Nat.succ_le_succ hturns)]
      rfl
    · rw [if_neg hturns, if_neg (by omega)]
      rfl

/-- A digit of an id is at most the largest digit. -/
def Digits (maxValue : ℕ) (id : FragmentId) : Prop := ∀ d ∈ id, d ≤ maxValue

/-- The last digit is not zero. -/
def EndsAboveZero (id : FragmentId) : Prop := ∃ p d, id = p ++ [d] ∧ 0 < d

theorem EndsAboveZero.tail (h : EndsAboveZero (r :: right)) (hne : right ≠ []) :
    EndsAboveZero right := by
  obtain ⟨p, d, heq, hd⟩ := h
  cases p with
  | nil => exact absurd (List.cons.inj heq).2 hne
  | cons _ p => exact ⟨p, d, (List.cons.inj heq).2, hd⟩

section

variable (hmin : 2 ≤ maxValue) (hmax : maxValue ≤ u16Max)

include hmin hmax

/-- Behind the right id there is always an id above the left one. -/
theorem between_of_right_nil (hleft : Digits maxValue left) :
    ∃ id, left < id ∧ BetweenWithMax maxValue left [] id := by
  induction left with
  | nil =>
    obtain ⟨entry, -, -, hid⟩ := betweenWithMax_stop [] [] hmax (by simpa)
    exact ⟨[entry], List.nil_lt_cons .., hid⟩
  | cons l left ih =>
    by_cases hl : l + 1 < maxValue
    · obtain ⟨entry, hlt, -, hid⟩ := betweenWithMax_stop (l :: left) [] hmax hl
      exact ⟨[entry], List.cons_lt_cons_iff.mpr (Or.inl hlt), hid⟩
    · obtain ⟨id, hlt, hid⟩ := ih fun d hd => hleft d (List.mem_cons_of_mem _ hd)
      refine ⟨l :: id, List.cons_lt_cons_iff.mpr (Or.inr ⟨rfl, hlt⟩), ?_⟩
      exact betweenWithMax_step (l :: left) [] (hleft l List.mem_cons_self) (by simpa using hl) hid

/-- Behind the left id the loop always ends. -/
theorem between_of_left_nil (hright : Digits maxValue right) :
    ∃ id, id ≠ [] ∧ BetweenWithMax maxValue [] right id := by
  induction right with
  | nil =>
    obtain ⟨entry, -, -, hid⟩ := betweenWithMax_stop [] [] hmax (by simpa)
    exact ⟨[entry], List.cons_ne_nil _ _, hid⟩
  | cons r right ih =>
    by_cases hr : 1 < r
    · obtain ⟨entry, -, -, hid⟩ := betweenWithMax_stop [] (r :: right)
        ((hright r List.mem_cons_self).trans hmax) hr
      exact ⟨[entry], List.cons_ne_nil _ _, hid⟩
    · obtain ⟨id, -, hid⟩ := ih fun d hd => hright d (List.mem_cons_of_mem _ hd)
      exact ⟨0 :: id, List.cons_ne_nil _ _,
        betweenWithMax_step [] (r :: right) (Nat.zero_le r) (by simpa using hr) hid⟩

/-- When the left id has ended, the right one has a digit above zero to come. -/
theorem between_of_left_nil_lt (hright : Digits maxValue right) (hlast : EndsAboveZero right) :
    ∃ id, id ≠ [] ∧ id < right ∧ BetweenWithMax maxValue [] right id := by
  induction right with
  | nil =>
    obtain ⟨p, d, heq, -⟩ := hlast
    simp at heq
  | cons r right ih =>
    have hrest : Digits maxValue right := fun d hd => hright d (List.mem_cons_of_mem _ hd)
    have hr := hright r List.mem_cons_self
    rcases lt_trichotomy r 1 with hzero | rfl | hone
    · have hr0 : r = 0 := by omega
      have hne : right ≠ [] := by
        rintro rfl
        obtain ⟨p, d, heq, hd⟩ := hlast
        have hd' : d = r := by simpa using congrArg List.getLast? heq.symm
        omega
      obtain ⟨id, -, hlt, hid⟩ := ih hrest (hlast.tail hne)
      refine ⟨0 :: id, List.cons_ne_nil _ _, List.cons_lt_cons_iff.mpr (Or.inr ⟨hr0.symm, hlt⟩), ?_⟩
      exact betweenWithMax_step [] (r :: right) (Nat.zero_le r) (hzero.le) hid
    · obtain ⟨id, -, hid⟩ := between_of_left_nil hmin hmax hrest
      refine ⟨0 :: id, List.cons_ne_nil _ _, List.cons_lt_cons_iff.mpr (Or.inl Nat.zero_lt_one), ?_⟩
      exact betweenWithMax_step [] (1 :: right) (Nat.zero_le 1) le_rfl hid
    · obtain ⟨entry, -, hlt, hid⟩ := betweenWithMax_stop [] (r :: right) (hr.trans hmax) hone
      exact ⟨[entry], List.cons_ne_nil _ _, List.cons_lt_cons_iff.mpr (Or.inl hlt), hid⟩

/-- Where the right id is one above the left one, it ends: then the loop returns an id between
them. -/
theorem between_of_lt (hlt : left < right) (hleft : Digits maxValue left)
    (hright : Digits maxValue right) (hlast : EndsAboveZero right)
    (hopen : ∀ p d l r, left = p ++ d :: l → right = p ++ (d + 1) :: r → r = []) :
    ∃ id, left < id ∧ id < right ∧ BetweenWithMax maxValue left right id := by
  induction left generalizing right with
  | nil =>
    obtain ⟨id, hne, hid⟩ := between_of_left_nil_lt hmin hmax hright hlast
    obtain ⟨d, id, rfl⟩ := List.exists_cons_of_ne_nil hne
    exact ⟨d :: id, List.nil_lt_cons .., hid⟩
  | cons l left ih =>
    cases right with
    | nil => exact absurd hlt (List.not_lt_nil _)
    | cons r right =>
      have hl := hleft l List.mem_cons_self
      have hr := hright r List.mem_cons_self
      have hleft' : Digits maxValue left := fun d hd => hleft d (List.mem_cons_of_mem _ hd)
      rcases List.cons_lt_cons_iff.mp hlt with hlr | ⟨rfl, hlt'⟩
      · by_cases hnext : l + 1 < r
        · obtain ⟨entry, hgt, hlt'', hid⟩ :=
            betweenWithMax_stop (l :: left) (r :: right) (hr.trans hmax) hnext
          exact ⟨[entry], List.cons_lt_cons_iff.mpr (Or.inl hgt),
            List.cons_lt_cons_iff.mpr (Or.inl hlt''), hid⟩
        · -- the right id has ended: the rest has to be above the left one only
          have hr' : r = l + 1 := by omega
          have hnil : right = [] := hopen [] l left right rfl (by rw [hr']; rfl)
          rw [hnil, hr']
          obtain ⟨id, hgt, hid⟩ := between_of_right_nil hmin hmax hleft'
          refine ⟨l :: id, List.cons_lt_cons_iff.mpr (Or.inr ⟨rfl, hgt⟩),
            List.cons_lt_cons_iff.mpr (Or.inl (Nat.lt_succ_self l)), ?_⟩
          exact betweenWithMax_step (l :: left) [l + 1] (Nat.le_succ l) le_rfl hid
      · have hne : right ≠ [] := by
          rintro rfl
          exact absurd hlt' (List.not_lt_nil _)
        obtain ⟨id, hgt, hlt'', hid⟩ := ih hlt' hleft'
          (fun d hd => hright d (List.mem_cons_of_mem _ hd)) (hlast.tail hne)
          fun p d l' r' hp hq => hopen (l :: p) d l' r' (by rw [hp]; rfl) (by rw [hq]; rfl)
        refine ⟨l :: id, List.cons_lt_cons_iff.mpr (Or.inr ⟨rfl, hgt⟩),
          List.cons_lt_cons_iff.mpr (Or.inr ⟨rfl, hlt''⟩), ?_⟩
        exact betweenWithMax_step (l :: left) (l :: right) le_rfl (Nat.le_succ l) hid

end

/-! ## The digits of a new id -/

/-- An id that is returned is the beginning of the left id with zeros behind it, and a digit above
zero. -/
theorem betweenLoop_digits {turns : ℕ} (hright : Digits maxValue right)
    (h : betweenLoop maxValue turns left right = .ok (some id)) :
    ∃ n d, id = (left ++ List.replicate n 0).take n ++ [d] ∧ 0 < d ∧ d ≤ maxValue := by
  induction turns generalizing left right id with
  | zero => cases h
  | succ turns ih =>
    rw [betweenLoop] at h
    obtain ⟨interval, hinterval, h⟩ := bind_eq_ok h
    have hr : right.headD maxValue ≤ maxValue := by
      cases right with
      | nil => exact le_rfl
      | cons r right => exact hright r List.mem_cons_self
    have hsub : interval = right.headD maxValue - left.headD 0 := by
      rw [checkedSub] at hinterval
      split at hinterval
      · exact (Except.ok.inj hinterval).symm
      · cases hinterval
    split at h
    · rename_i hstop
      obtain ⟨entry, hentry, h⟩ := bind_eq_ok h
      rw [checkedAdd] at hentry
      split at hentry
      · cases hentry
        cases h
        exact ⟨0, _, rfl, by omega, by omega⟩
      · cases hentry
    · obtain ⟨rest, hrest, h⟩ := bind_eq_ok h
      cases rest with
      | none => cases h
      | some rest =>
        have hid : left.headD 0 :: rest = id := Option.some.inj (Except.ok.inj h)
        have hright' : Digits maxValue right.tail := fun d hd => hright d (List.mem_of_mem_tail hd)
        obtain ⟨n, d, hrest, hd⟩ := ih hright' hrest
        refine ⟨n + 1, d, ?_, hd⟩
        rw [← hid, hrest]
        cases left with
        | nil => simp [List.replicate_succ]
        | cons l left =>
          have htake : (left ++ List.replicate (n + 1) 0).take n =
              (left ++ List.replicate n 0).take n := by
            rw [List.replicate_succ', ← List.append_assoc, List.take_append_of_le_length (by simp)]
          rw [List.cons_append, List.take_succ_cons, htake]
          rfl

/-! ## The ids of a buffer -/

/-- Between any two neighbours of the ids there is room: the ids are sorted, only the least one ends
in zero, and with an id its beginnings that do not end in zero are ids. -/
structure Dividable (maxValue : ℕ) (ids : List FragmentId) : Prop where
  sorted : ids.Pairwise (· < ·)
  digits : ∀ id ∈ ids, Digits maxValue id
  least : ids.head? = some [0]
  ends : ∀ id ∈ ids.tail, EndsAboveZero id
  closed : ∀ p d q, p ++ d :: q ∈ ids → 0 < d → p ++ [d] ∈ ids

namespace Dividable

variable {before after : List FragmentId}

theorem new (hmin : 2 ≤ maxValue) : Dividable maxValue [[0], [maxValue]] where
  sorted := by
    have hlt : ([0] : FragmentId) < [maxValue] := List.cons_lt_cons_iff.mpr (Or.inl (by omega))
    simpa using hlt
  digits := by
    intro id hid d hd
    rcases List.mem_pair.mp hid with rfl | rfl
    · rw [List.mem_singleton.mp hd]
      exact Nat.zero_le _
    · exact (List.mem_singleton.mp hd).le
  least := rfl
  ends := by
    intro id hid
    rw [List.mem_singleton.mp hid]
    exact ⟨[], maxValue, rfl, by omega⟩
  closed := by
    intro p d q hmem hd
    have hp : p = [] := by
      rcases List.mem_pair.mp hmem with heq | heq
      · exact (List.append_eq_singleton_iff.mp heq).elim And.left fun h => absurd h.2 (by simp)
      · exact (List.append_eq_singleton_iff.mp heq).elim And.left fun h => absurd h.2 (by simp)
    subst hp
    rcases List.mem_pair.mp hmem with heq | heq
    · obtain ⟨rfl, -⟩ := List.cons.inj heq
      exact absurd hd (lt_irrefl 0)
    · obtain ⟨rfl, -⟩ := List.cons.inj heq
      exact List.mem_pair.mpr (Or.inr rfl)

theorem lt_right (h : Dividable maxValue (before ++ left :: right :: after)) : left < right := by
  have hsorted := (List.pairwise_append.mp h.sorted).2.1
  exact (List.pairwise_cons.mp hsorted).1 right List.mem_cons_self

/-- There is nothing between neighbours. -/
theorem not_between (h : Dividable maxValue (before ++ left :: right :: after))
    (hid : id ∈ before ++ left :: right :: after) : ¬ (left < id ∧ id < right) := by
  rintro ⟨hleft, hright⟩
  obtain ⟨-, hsorted, hbefore⟩ := List.pairwise_append.mp h.sorted
  obtain ⟨-, hafter⟩ := List.pairwise_cons.mp hsorted
  rcases List.mem_append.mp hid with hid | hid
  · exact lt_asymm hleft (hbefore id hid left List.mem_cons_self)
  · rcases List.mem_cons.mp hid with rfl | hid
    · exact lt_irrefl _ hleft
    · rcases List.mem_cons.mp hid with rfl | hid
      · exact lt_irrefl _ hright
      · exact lt_asymm hright ((List.pairwise_cons.mp hafter).1 id hid)

theorem right_mem_tail (before after : List FragmentId) (left right : FragmentId) :
    right ∈ (before ++ left :: right :: after).tail := by
  cases before with
  | nil => exact List.mem_cons_self
  | cons _ before => simp

/-- The loop returns an id between neighbours. -/
theorem between (h : Dividable maxValue (before ++ left :: right :: after)) (hmin : 2 ≤ maxValue)
    (hmax : maxValue ≤ u16Max) :
    ∃ id, left < id ∧ id < right ∧ BetweenWithMax maxValue left right id := by
  have hright := h.ends right (right_mem_tail before after left right)
  refine between_of_lt hmin hmax h.lt_right (h.digits left (by simp)) (h.digits right (by simp))
    hright ?_
  -- otherwise the beginning of the right id would be an id between them
  rintro p d l r rfl rfl
  by_contra hr
  have hmem : p ++ [d + 1] ∈ before ++ (p ++ d :: l) :: (p ++ (d + 1) :: r) :: after :=
    h.closed p (d + 1) r (by simp) (Nat.succ_pos d)
  refine h.not_between hmem ⟨?_, ?_⟩
  · exact List.Lex.append_left _ (List.Lex.rel (Nat.lt_succ_self d)) p
  · obtain ⟨e, r, rfl⟩ := List.exists_cons_of_ne_nil hr
    exact List.Lex.append_left _ (List.Lex.cons List.Lex.nil) p

theorem insert (h : Dividable maxValue (before ++ left :: right :: after)) (hleft : left < id)
    (hright : id < right)
    (hid : ∃ n d, id = (left ++ List.replicate n 0).take n ++ [d] ∧ 0 < d ∧ d ≤ maxValue) :
    Dividable maxValue (before ++ left :: id :: right :: after) := by
  obtain ⟨n, d, heq, hpos, hle⟩ := hid
  have hmem : ∀ x, x ∈ before ++ left :: id :: right :: after ↔
      x = id ∨ x ∈ before ++ left :: right :: after := by
    intro x
    simp only [List.mem_append, List.mem_cons]
    tauto
  have hleftMem : left ∈ before ++ left :: right :: after := by simp
  refine ⟨?_, ?_, ?_, ?_, ?_⟩
  · obtain ⟨hbefore, hsorted, hlt⟩ := List.pairwise_append.mp h.sorted
    obtain ⟨hleftLt, hsorted⟩ := List.pairwise_cons.mp hsorted
    have hrightLt := (List.pairwise_cons.mp hsorted).1
    have hidLt : ∀ x ∈ right :: after, id < x := by
      intro x hx
      rcases List.mem_cons.mp hx with rfl | hx
      · exact hright
      · exact hright.trans (hrightLt x hx)
    refine List.pairwise_append.mpr ⟨hbefore, ?_, ?_⟩
    · refine List.pairwise_cons.mpr ⟨?_, List.pairwise_cons.mpr ⟨hidLt, hsorted⟩⟩
      intro x hx
      rcases List.mem_cons.mp hx with rfl | hx
      · exact hleft
      · exact hleftLt x hx
    · intro x hx y hy
      have hxleft := hlt x hx left List.mem_cons_self
      rcases List.mem_cons.mp hy with rfl | hy
      · exact hxleft
      · rcases List.mem_cons.mp hy with rfl | hy
        · exact hxleft.trans hleft
        · exact hlt x hx y (List.mem_cons_of_mem _ hy)
  · intro x hx e he
    rcases (hmem x).mp hx with rfl | hx
    · rw [heq] at he
      rcases List.mem_append.mp he with he | he
      · rcases List.mem_append.mp (List.mem_of_mem_take he) with he | he
        · exact h.digits left hleftMem e he
        · rw [List.eq_of_mem_replicate he]
          exact Nat.zero_le _
      · rw [List.mem_singleton.mp he]
        exact hle
    · exact h.digits x hx e he
  · rw [← h.least]
    cases before with
    | nil => rfl
    | cons _ before => rfl
  · intro x hx
    have hx' : x = id ∨ x ∈ (before ++ left :: right :: after).tail := by
      cases before with
      | nil => exact List.mem_cons.mp hx
      | cons y before =>
        simp only [List.cons_append, List.tail_cons, List.mem_append, List.mem_cons] at hx ⊢
        tauto
    rcases hx' with rfl | hx'
    · exact ⟨_, d, heq, hpos⟩
    · exact h.ends x hx'
  · intro p e q hx he
    rcases (hmem _).mp hx with hx | hx
    · rw [hmem]
      rcases List.eq_nil_or_concat q with rfl | ⟨q, e', rfl⟩
      · exact Or.inl hx
      · -- a proper beginning that does not end in zero is a beginning of the left id
        right
        have hprefix : p ++ e :: q = (left ++ List.replicate n 0).take n := by
          rw [heq, List.concat_eq_append, ← List.cons_append, ← List.append_assoc] at hx
          exact (List.append_inj' hx rfl).1
        have hget : (left ++ List.replicate n 0)[p.length]? = some e := by
          have hlt : p.length < n := by
            have hlen := congrArg List.length hprefix
            simp only [List.length_append, List.length_cons, List.length_take] at hlen
            omega
          rw [← List.getElem?_take_of_lt hlt, ← hprefix]
          simp
        have hlen : p.length < left.length := by
          by_contra hge
          rw [List.getElem?_append_right (by omega)] at hget
          have hzero := List.eq_of_mem_replicate (List.mem_of_getElem? hget)
          omega
        have htake : left.take p.length = p := by
          have hp := congrArg (List.take p.length) hprefix
          rw [List.take_left, List.take_take, List.take_append_of_le_length (by omega)] at hp
          have hmin : min p.length n = p.length := by
            have hlen := congrArg List.length hprefix
            simp only [List.length_append, List.length_cons, List.length_take] at hlen
            omega
          rw [hmin] at hp
          exact hp.symm
        rw [List.getElem?_append_left hlen] at hget
        have hsplit : left = p ++ e :: left.drop (p.length + 1) := by
          obtain ⟨hlt, hget⟩ := List.getElem?_eq_some_iff.mp hget
          conv_lhs => rw [← List.take_append_drop p.length left, List.drop_eq_getElem_cons hlt, hget,
            htake]
        have hmemLeft : p ++ e :: left.drop (p.length + 1) ∈ before ++ left :: right :: after := by
          rw [← hsplit]
          exact hleftMem
        exact h.closed p e _ hmemLeft he
    · exact (hmem _).mpr (Or.inr (h.closed p e q hx he))

end Dividable

/-- The loop returns one id. -/
theorem BetweenWithMax.unique {id' : FragmentId} (h : BetweenWithMax maxValue left right id)
    (h' : BetweenWithMax maxValue left right id') : id = id' := by
  obtain ⟨needed, h⟩ := h
  obtain ⟨needed', h'⟩ := h'
  have hboth := (h (max needed needed')).symm.trans (h' (max needed needed'))
  rw [if_pos (le_max_left _ _), if_pos (le_max_right _ _)] at hboth
  exact Option.some.inj (Except.ok.inj hboth)

/-- Every insertion leaves room between all neighbours. -/
theorem FragmentIds.dividable {ids : List FragmentId} (h : FragmentIds maxValue ids)
    (hmin : 2 ≤ maxValue) (hmax : maxValue ≤ u16Max) : Dividable maxValue ids := by
  induction h with
  | new => exact Dividable.new hmin
  | insert _ _ _ hid ih =>
    obtain ⟨id, hleft, hright, hid'⟩ := ih.between hmin hmax
    rw [hid.unique hid']
    obtain ⟨needed, hneeded⟩ := hid'
    have hok := hneeded needed
    rw [if_pos le_rfl] at hok
    exact ih.insert hleft hright (betweenLoop_digits (ih.digits _ (by simp)) hok)

/-- **Fragment ids can always be subdivided.** After any insertions between neighbours, the ids are
in order, and between any two neighbours `between` returns, with no underflow on the way, an id that
is strictly between them. -/
theorem fragmentIds_between {ids : List FragmentId} (h : FragmentIds u16Max ids) :
    ids.Pairwise (· < ·) ∧
      ∀ before after left right, ids = before ++ left :: right :: after →
        (∃ id, Between left right id) ∧ ∀ id, Between left right id → left < id ∧ id < right := by
  have hdividable := h.dividable (by decide) le_rfl
  refine ⟨hdividable.sorted, ?_⟩
  rintro before after left right rfl
  obtain ⟨id, hleft, hright, hid⟩ := hdividable.between (by decide) le_rfl
  refine ⟨⟨id, hid⟩, fun id' hid' => ?_⟩
  rw [BetweenWithMax.unique hid' hid]
  exact ⟨hleft, hright⟩

/-- The first fragment of a buffer and a fragment before it. -/
theorem fragmentIds_between_first : ∃ id, Between [0] [8] id ∧ [0] < id ∧ id < [8] := by
  have hid : Between [0] [u16Max] [8] :=
    ⟨1, fun turns => by cases turns <;> rfl⟩
  obtain ⟨⟨id, hid'⟩, hall⟩ := (fragmentIds_between
    (FragmentIds.insert [] [] FragmentIds.new hid)).2 [] [[u16Max]] [0] [8] rfl
  exact ⟨id, hid', hall id hid'⟩

end Editor

end Clinch
