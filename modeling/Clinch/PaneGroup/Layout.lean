import Clinch.PaneGroup.Neighbours

/-!
# Directional navigation is geometric

The panes are drawn in a rectangle: the nodes of a branch follow each other along its axis, a
divider apart, and across it each of them is as long as the branch.

* `RectF.lo`, `RectF.hi`, `Laid`: the rectangles of a tree;
* `Borders`: two rectangles face each other across one divider;
* `Laid.mem_firstPanes`: the first panes of a node are those on its edge;
* `Laid.exists_firstPanes`: they leave no room but for dividers;
* **`panesByDirection_geometric`**: the panes found are those that border on the current one.
-/

set_option autoImplicit false

namespace Clinch

/-- The axis across. -/
def SplitDirection.other : SplitDirection → SplitDirection
  | horizontal => vertical
  | vertical => horizontal

theorem SplitDirection.eq_other {a b : SplitDirection} (h : a ≠ b) : b = a.other := by
  cases a <;> cases b <;> first | rfl | exact absurd rfl h

variable {P K : Type}

namespace RectF

/-- Where the rectangle begins along an axis. -/
def lo (rect : RectF K) : SplitDirection → K
  | .horizontal => rect.minX
  | .vertical => rect.minY

/-- Where it ends. -/
def hi (rect : RectF K) : SplitDirection → K
  | .horizontal => rect.maxX
  | .vertical => rect.maxY

/-- The side of the current pane that is looked out of. -/
def side (direction : Direction) (rect : RectF K) : K :=
  if direction.isBefore then rect.lo direction.axis else rect.hi direction.axis

/-- The side of a neighbour that is looked at. -/
def facing (direction : Direction) (rect : RectF K) : K :=
  if direction.isBefore then rect.hi direction.axis else rect.lo direction.axis

variable [LinearOrder K]

/-- The rectangle has an extent along both axes. -/
def Proper (rect : RectF K) : Prop := ∀ axis, rect.lo axis < rect.hi axis

def Inside (inner outer : RectF K) : Prop :=
  ∀ axis, outer.lo axis ≤ inner.lo axis ∧ inner.hi axis ≤ outer.hi axis

theorem Inside.trans {a b c : RectF K} (h₁ : a.Inside b) (h₂ : b.Inside c) : a.Inside c :=
  fun axis => ⟨(h₂ axis).1.trans (h₁ axis).1, (h₁ axis).2.trans (h₂ axis).2⟩

end RectF

theorem areRectsOverlapping_iff [LinearOrder K] (rect1 rect2 : RectF K) (axis : SplitDirection) :
    areRectsOverlapping rect1 rect2 axis = true ↔
      rect2.lo axis.other < rect1.hi axis.other ∧ rect1.lo axis.other < rect2.hi axis.other := by
  cases axis <;> simp [areRectsOverlapping, SplitDirection.other, RectF.lo, RectF.hi]

variable [AddCommGroup K] [LinearOrder K]

/-- The rectangle is made of a first one and, a divider further along the axis, the rest. -/
structure RectF.Follows (thickness : K) (axis : SplitDirection) (rect first rest : RectF K) :
    Prop where
  lo : first.lo axis = rect.lo axis
  gap : rest.lo axis = first.hi axis + thickness
  hi : rest.hi axis = rect.hi axis
  first_lo : first.lo axis.other = rect.lo axis.other
  first_hi : first.hi axis.other = rect.hi axis.other
  rest_lo : rest.lo axis.other = rect.lo axis.other
  rest_hi : rest.hi axis.other = rect.hi axis.other

mutual

/-- The node is drawn in the rectangle, each pane at its position. -/
def Laid (thickness : K) (position : P → Option (RectF K)) : PaneNode P → RectF K → Prop
  | .leaf id, rect => rect.Proper ∧ position id = some rect
  | .branch axis nodes _, rect => LaidNodes thickness position axis nodes rect

/-- The nodes of a branch share the rectangle. -/
def LaidNodes (thickness : K) (position : P → Option (RectF K)) (axis : SplitDirection) :
    List (PaneNode P) → RectF K → Prop
  | [], _ => False
  | node :: nodes, rect => (nodes = [] ∧ Laid thickness position node rect) ∨
      ∃ first rest, Laid thickness position node first ∧
        LaidNodes thickness position axis nodes rest ∧ rect.Follows thickness axis first rest

end

/-- **The second rectangle borders on the first one in a direction**: a divider apart, and opposite
to some part of it. -/
def Borders (thickness : K) (direction : Direction) (current candidate : RectF K) : Prop :=
  (if direction.isBefore then current.lo direction.axis = candidate.hi direction.axis + thickness
    else candidate.lo direction.axis = current.hi direction.axis + thickness) ∧
  candidate.lo direction.axis.other < current.hi direction.axis.other ∧
  current.lo direction.axis.other < candidate.hi direction.axis.other

variable {thickness : K} {position : P → Option (RectF K)} {axis : SplitDirection}

namespace RectF.Follows

variable [IsOrderedAddMonoid K] {rect first rest : RectF K}
  (h : rect.Follows thickness axis first rest)

include h

theorem proper (h0 : 0 ≤ thickness) (h₁ : first.Proper) (h₂ : rest.Proper) : rect.Proper := by
  have hlt : rect.lo axis < rect.hi axis := by
    calc rect.lo axis = first.lo axis := h.lo.symm
      _ < first.hi axis := h₁ axis
      _ ≤ first.hi axis + thickness := le_add_of_nonneg_right h0
      _ = rest.lo axis := h.gap.symm
      _ < rest.hi axis := h₂ axis
      _ = rect.hi axis := h.hi
  intro a
  by_cases ha : axis = a
  · exact ha ▸ hlt
  · rw [SplitDirection.eq_other ha, ← h.first_lo, ← h.first_hi]
    exact h₁ _

theorem first_hi_lt (h0 : 0 ≤ thickness) (h₂ : rest.Proper) : first.hi axis < rect.hi axis := by
  calc first.hi axis ≤ first.hi axis + thickness := le_add_of_nonneg_right h0
    _ = rest.lo axis := h.gap.symm
    _ < rest.hi axis := h₂ axis
    _ = rect.hi axis := h.hi

theorem lo_lt_rest (h0 : 0 ≤ thickness) (h₁ : first.Proper) : rect.lo axis < rest.lo axis := by
  calc rect.lo axis = first.lo axis := h.lo.symm
    _ < first.hi axis := h₁ axis
    _ ≤ first.hi axis + thickness := le_add_of_nonneg_right h0
    _ = rest.lo axis := h.gap.symm

theorem first_inside (h0 : 0 ≤ thickness) (h₂ : rest.Proper) : first.Inside rect := by
  intro a
  by_cases ha : axis = a
  · exact ha ▸ ⟨h.lo.ge, (h.first_hi_lt h0 h₂).le⟩
  · exact SplitDirection.eq_other ha ▸ ⟨h.first_lo.ge, h.first_hi.le⟩

theorem rest_inside (h0 : 0 ≤ thickness) (h₁ : first.Proper) : rest.Inside rect := by
  intro a
  by_cases ha : axis = a
  · exact ha ▸ ⟨(h.lo_lt_rest h0 h₁).le, h.hi.le⟩
  · exact SplitDirection.eq_other ha ▸ ⟨h.rest_lo.ge, h.rest_hi.le⟩

end RectF.Follows

/-! ## Every pane is inside -/

mutual

theorem Laid.inside [IsOrderedAddMonoid K]
    (h0 : 0 ≤ thickness) : ∀ {t : PaneNode P} {rect : RectF K},
    Laid thickness position t rect → rect.Proper ∧
      ∀ p ∈ t.paneIds, ∃ r, position p = some r ∧ r.Proper ∧ r.Inside rect
  | .leaf id, rect, h => by
    rw [Laid] at h
    refine ⟨h.1, fun p hp => ?_⟩
    rw [PaneNode.paneIds, List.mem_singleton] at hp
    exact ⟨rect, hp ▸ h.2, h.1, fun _ => ⟨le_rfl, le_rfl⟩⟩
  | .branch axis nodes _, rect, h => by
    rw [Laid] at h
    rw [PaneNode.paneIds]
    exact LaidNodes.inside h0 h

theorem LaidNodes.inside [IsOrderedAddMonoid K]
    (h0 : 0 ≤ thickness) : ∀ {axis : SplitDirection}
    {nodes : List (PaneNode P)} {rect : RectF K},
    LaidNodes thickness position axis nodes rect → rect.Proper ∧
      ∀ p ∈ PaneNode.paneIdsAll nodes, ∃ r, position p = some r ∧ r.Proper ∧ r.Inside rect
  | _, [], _, h => by simp [LaidNodes] at h
  | axis, node :: nodes, rect, h => by
    rw [LaidNodes] at h
    rcases h with ⟨rfl, h⟩ | ⟨first, rest, hfirst, hrest, hf⟩
    · rw [PaneNode.paneIdsAll, PaneNode.paneIdsAll, List.append_nil]
      exact Laid.inside h0 h
    · obtain ⟨hp₁, hin₁⟩ := Laid.inside h0 hfirst
      obtain ⟨hp₂, hin₂⟩ := LaidNodes.inside h0 hrest
      refine ⟨hf.proper h0 hp₁ hp₂, fun p hp => ?_⟩
      rw [PaneNode.paneIdsAll, List.mem_append] at hp
      rcases hp with hp | hp
      · obtain ⟨r, e, hr, hin⟩ := hin₁ p hp
        exact ⟨r, e, hr, hin.trans (hf.first_inside h0 hp₂)⟩
      · obtain ⟨r, e, hr, hin⟩ := hin₂ p hp
        exact ⟨r, e, hr, hin.trans (hf.rest_inside h0 hp₁)⟩

end

/-! ## The first panes are those on the edge -/

section FirstPanes

variable [DecidableEq P] {direction : Direction}

mutual

theorem Laid.mem_firstPanes [IsOrderedAddMonoid K]
    (h0 : 0 ≤ thickness) : ∀ {t : PaneNode P} {rect : RectF K}
    {ids : Finset P}, t.WellFormed → Laid thickness position t rect →
    t.firstPanesInDirection direction = .ok ids → ∀ p ∈ t.paneIds, ∀ r, position p = some r →
      (p ∈ ids ↔ r.facing direction = rect.facing direction)
  | .leaf id, rect, ids, _, h, e, p, hp, r, hr => by
    rw [Laid] at h
    rw [PaneNode.firstPanesInDirection] at e
    obtain rfl := Except.ok.inj e
    rw [PaneNode.paneIds, List.mem_singleton] at hp
    rw [hp, h.2] at hr
    obtain rfl := Option.some.inj hr
    simp [hp]
  | .branch axis nodes _, rect, ids, hwf, h, e, p, hp, r, hr => by
    rw [Laid] at h
    rw [PaneNode.WellFormed] at hwf
    rw [PaneNode.paneIds] at hp
    rw [PaneNode.firstPanesInDirection] at e
    split at e
    · rename_i haxis
      subst haxis
      split at e
      · rename_i hbefore
        exact LaidNodes.mem_firstPanesOfLast h0 hbefore hwf.2.2 h e p hp r hr
      · rename_i hbefore
        exact LaidNodes.mem_firstPanesOfHead h0 (by simpa using hbefore) hwf.2.2 h e p hp r hr
    · rename_i haxis
      exact LaidNodes.mem_firstPanesOfAll h0 (SplitDirection.eq_other haxis) hwf.2.2 h e p hp r hr

theorem LaidNodes.mem_firstPanesOfLast [IsOrderedAddMonoid K]
    (h0 : 0 ≤ thickness) (hbefore : direction.isBefore = true) :
    ∀ {nodes : List (PaneNode P)} {rect : RectF K} {ids : Finset P}, PaneNode.WellFormedAll nodes →
    LaidNodes thickness position direction.axis nodes rect →
    PaneNode.firstPanesOfLast direction nodes = .ok ids →
    ∀ p ∈ PaneNode.paneIdsAll nodes, ∀ r, position p = some r →
      (p ∈ ids ↔ r.facing direction = rect.facing direction)
  | [], _, _, _, h, _, _, _, _, _ => by simp [LaidNodes] at h
  | node :: nodes, rect, ids, hwf, h, e, p, hp, r, hr => by
    rw [LaidNodes] at h
    rw [PaneNode.paneIdsAll, List.mem_append] at hp
    rcases h with ⟨rfl, h⟩ | ⟨first, rest, hfirst, hrest, hf⟩
    · rw [PaneNode.firstPanesOfLast] at e
      exact Laid.mem_firstPanes h0 hwf.1 h e p (by simpa [PaneNode.paneIdsAll] using hp) r hr
    · cases nodes with
      | nil => simp [LaidNodes] at hrest
      | cons node' nodes =>
        rw [PaneNode.firstPanesOfLast] at e
        have hfacing : rest.facing direction = rect.facing direction := by
          simp only [RectF.facing, hbefore, if_true, hf.hi]
        have hlast := fun hp => LaidNodes.mem_firstPanesOfLast h0 hbefore hwf.2 hrest e p hp r hr
        rw [hfacing] at hlast
        by_cases hp' : p ∈ PaneNode.paneIdsAll (node' :: nodes)
        · exact hlast hp'
        · -- a pane of the first node ends before the branch does
          have hnode := (Laid.inside h0 hfirst).2 p (hp.resolve_right hp')
          obtain ⟨r', hr', -, hin⟩ := hnode
          obtain rfl := Option.some.inj (hr.symm.trans hr')
          have hlt := (hin direction.axis).2.trans_lt
            (hf.first_hi_lt h0 (LaidNodes.inside h0 hrest).1)
          obtain ⟨ids', e', hids⟩ := PaneNode.firstPanesOfLast_spec direction
            (List.cons_ne_nil _ _) hwf.2
          obtain rfl := Except.ok.inj (e'.symm.trans e)
          simp only [RectF.facing, hbefore, if_true]
          exact iff_of_false (fun hids' => hp' (hids p hids')) hlt.ne

theorem LaidNodes.mem_firstPanesOfHead [IsOrderedAddMonoid K]
    (h0 : 0 ≤ thickness) (hbefore : direction.isBefore = false) :
    ∀ {nodes : List (PaneNode P)} {rect : RectF K} {ids : Finset P}, PaneNode.WellFormedAll nodes →
    LaidNodes thickness position direction.axis nodes rect →
    PaneNode.firstPanesOfHead direction nodes = .ok ids →
    ∀ p ∈ PaneNode.paneIdsAll nodes, ∀ r, position p = some r →
      (p ∈ ids ↔ r.facing direction = rect.facing direction)
  | [], _, _, _, h, _, _, _, _, _ => by simp [LaidNodes] at h
  | node :: nodes, rect, ids, hwf, h, e, p, hp, r, hr => by
    rw [LaidNodes] at h
    rw [PaneNode.paneIdsAll, List.mem_append] at hp
    rw [PaneNode.firstPanesOfHead] at e
    rcases h with ⟨rfl, h⟩ | ⟨first, rest, hfirst, hrest, hf⟩
    · exact Laid.mem_firstPanes h0 hwf.1 h e p (by simpa [PaneNode.paneIdsAll] using hp) r hr
    · have hfacing : first.facing direction = rect.facing direction := by
        simp [RectF.facing, hbefore, hf.lo]
      have hhead := fun hp => Laid.mem_firstPanes h0 hwf.1 hfirst e p hp r hr
      rw [hfacing] at hhead
      by_cases hp' : p ∈ node.paneIds
      · exact hhead hp'
      · -- a pane of a later node begins after the branch does
        obtain ⟨r', hr', -, hin⟩ := (LaidNodes.inside h0 hrest).2 p (hp.resolve_left hp')
        obtain rfl := Option.some.inj (hr.symm.trans hr')
        have hlt := (hf.lo_lt_rest h0 (Laid.inside h0 hfirst).1).trans_le (hin direction.axis).1
        obtain ⟨ids', e', hids⟩ := PaneNode.firstPanesInDirection_spec direction hwf.1
        obtain rfl := Except.ok.inj (e'.symm.trans e)
        simp only [RectF.facing, hbefore, Bool.false_eq_true, if_false]
        exact iff_of_false (fun hids' => hp' (hids p hids')) hlt.ne'

theorem LaidNodes.mem_firstPanesOfAll [IsOrderedAddMonoid K]
    (h0 : 0 ≤ thickness) : ∀ {axis : SplitDirection}
    {nodes : List (PaneNode P)} {rect : RectF K} {ids : Finset P},
    direction.axis = axis.other → PaneNode.WellFormedAll nodes →
    LaidNodes thickness position axis nodes rect →
    PaneNode.firstPanesOfAll direction nodes = .ok ids →
    ∀ p ∈ PaneNode.paneIdsAll nodes, ∀ r, position p = some r →
      (p ∈ ids ↔ r.facing direction = rect.facing direction)
  | _, [], _, _, _, _, h, _, _, _, _, _ => by simp [LaidNodes] at h
  | axis, node :: nodes, rect, ids, haxis, hwf, h, e, p, hp, r, hr => by
    rw [LaidNodes] at h
    rw [PaneNode.paneIdsAll, List.mem_append] at hp
    rw [PaneNode.firstPanesOfAll] at e
    obtain ⟨ids₁, e₁, e⟩ := bind_eq_ok e
    obtain ⟨ids₂, e₂, e⟩ := bind_eq_ok e
    obtain rfl := Except.ok.inj e
    rcases h with ⟨rfl, h⟩ | ⟨first, rest, hfirst, hrest, hf⟩
    · rw [PaneNode.firstPanesOfAll] at e₂
      obtain rfl := Except.ok.inj e₂
      rw [Finset.union_empty]
      exact Laid.mem_firstPanes h0 hwf.1 h e₁ p (by simpa [PaneNode.paneIdsAll] using hp) r hr
    · have hfacing₁ : first.facing direction = rect.facing direction := by
        simp only [RectF.facing, haxis, hf.first_lo, hf.first_hi]
      have hfacing₂ : rest.facing direction = rect.facing direction := by
        simp only [RectF.facing, haxis, hf.rest_lo, hf.rest_hi]
      have hnode := fun hp => Laid.mem_firstPanes h0 hwf.1 hfirst e₁ p hp r hr
      have hnodes := fun hp => LaidNodes.mem_firstPanesOfAll h0 haxis hwf.2 hrest e₂ p hp r hr
      rw [hfacing₁] at hnode
      rw [hfacing₂] at hnodes
      obtain ⟨ids₁', e₁', hids₁⟩ := PaneNode.firstPanesInDirection_spec direction hwf.1
      obtain ⟨ids₂', e₂', hids₂⟩ := PaneNode.firstPanesOfAll_spec direction hwf.2
      obtain rfl := Except.ok.inj (e₁'.symm.trans e₁)
      obtain rfl := Except.ok.inj (e₂'.symm.trans e₂)
      rw [Finset.mem_union]
      constructor
      · rintro (hids | hids)
        · exact (hnode (hids₁ p hids)).mp hids
        · exact (hnodes (hids₂ p hids)).mp hids
      · intro hr
        exact hp.imp (fun hp => (hnode hp).mpr hr) fun hp => (hnodes hp).mpr hr

end

/-! ## The first panes leave no room but for dividers -/

mutual

theorem Laid.exists_firstPanes [IsOrderedAddMonoid K]
    (h0 : 0 ≤ thickness) {a b : K} (hab : thickness < b - a) :
    ∀ {t : PaneNode P} {rect : RectF K} {ids : Finset P}, Laid thickness position t rect →
    t.firstPanesInDirection direction = .ok ids →
    a < rect.hi direction.axis.other → rect.lo direction.axis.other < b →
    ∃ p ∈ ids, ∃ r, position p = some r ∧
      a < r.hi direction.axis.other ∧ r.lo direction.axis.other < b
  | .leaf id, rect, ids, h, e, ha, hb => by
    rw [Laid] at h
    rw [PaneNode.firstPanesInDirection] at e
    obtain rfl := Except.ok.inj e
    exact ⟨id, Finset.mem_singleton_self id, rect, h.2, ha, hb⟩
  | .branch axis nodes _, rect, ids, h, e, ha, hb => by
    rw [Laid] at h
    rw [PaneNode.firstPanesInDirection] at e
    split at e
    · rename_i haxis
      subst haxis
      split at e
      · exact LaidNodes.exists_firstPanesOfLast h0 hab h e ha hb
      · exact LaidNodes.exists_firstPanesOfHead h0 hab h e ha hb
    · rename_i haxis
      have hother : direction.axis.other = axis := by
        rw [SplitDirection.eq_other haxis]
        cases axis <;> rfl
      exact LaidNodes.exists_firstPanesOfAll h0 hab hother h e ha hb

theorem LaidNodes.exists_firstPanesOfLast [IsOrderedAddMonoid K]
    (h0 : 0 ≤ thickness) {a b : K}
    (hab : thickness < b - a) : ∀ {nodes : List (PaneNode P)} {rect : RectF K} {ids : Finset P},
    LaidNodes thickness position direction.axis nodes rect →
    PaneNode.firstPanesOfLast direction nodes = .ok ids →
    a < rect.hi direction.axis.other → rect.lo direction.axis.other < b →
    ∃ p ∈ ids, ∃ r, position p = some r ∧
      a < r.hi direction.axis.other ∧ r.lo direction.axis.other < b
  | [], _, _, h, _, _, _ => by simp [LaidNodes] at h
  | node :: nodes, rect, ids, h, e, ha, hb => by
    rw [LaidNodes] at h
    rcases h with ⟨rfl, h⟩ | ⟨first, rest, -, hrest, hf⟩
    · rw [PaneNode.firstPanesOfLast] at e
      exact Laid.exists_firstPanes h0 hab h e ha hb
    · cases nodes with
      | nil => simp [LaidNodes] at hrest
      | cons node' nodes =>
        rw [PaneNode.firstPanesOfLast] at e
        rw [← hf.rest_hi] at ha
        rw [← hf.rest_lo] at hb
        exact LaidNodes.exists_firstPanesOfLast h0 hab hrest e ha hb

theorem LaidNodes.exists_firstPanesOfHead [IsOrderedAddMonoid K]
    (h0 : 0 ≤ thickness) {a b : K}
    (hab : thickness < b - a) : ∀ {nodes : List (PaneNode P)} {rect : RectF K} {ids : Finset P},
    LaidNodes thickness position direction.axis nodes rect →
    PaneNode.firstPanesOfHead direction nodes = .ok ids →
    a < rect.hi direction.axis.other → rect.lo direction.axis.other < b →
    ∃ p ∈ ids, ∃ r, position p = some r ∧
      a < r.hi direction.axis.other ∧ r.lo direction.axis.other < b
  | [], _, _, h, _, _, _ => by simp [LaidNodes] at h
  | node :: nodes, rect, ids, h, e, ha, hb => by
    rw [LaidNodes] at h
    rw [PaneNode.firstPanesOfHead] at e
    rcases h with ⟨rfl, h⟩ | ⟨first, rest, hfirst, -, hf⟩
    · exact Laid.exists_firstPanes h0 hab h e ha hb
    · rw [← hf.first_hi] at ha
      rw [← hf.first_lo] at hb
      exact Laid.exists_firstPanes h0 hab hfirst e ha hb

theorem LaidNodes.exists_firstPanesOfAll [IsOrderedAddMonoid K]
    (h0 : 0 ≤ thickness) {a b : K}
    (hab : thickness < b - a) : ∀ {axis : SplitDirection} {nodes : List (PaneNode P)}
    {rect : RectF K} {ids : Finset P}, direction.axis.other = axis →
    LaidNodes thickness position axis nodes rect →
    PaneNode.firstPanesOfAll direction nodes = .ok ids →
    a < rect.hi direction.axis.other → rect.lo direction.axis.other < b →
    ∃ p ∈ ids, ∃ r, position p = some r ∧
      a < r.hi direction.axis.other ∧ r.lo direction.axis.other < b
  | _, [], _, _, _, h, _, _, _ => by simp [LaidNodes] at h
  | axis, node :: nodes, rect, ids, haxis, h, e, ha, hb => by
    rw [LaidNodes] at h
    rw [PaneNode.firstPanesOfAll] at e
    obtain ⟨ids₁, e₁, e⟩ := bind_eq_ok e
    obtain ⟨ids₂, e₂, e⟩ := bind_eq_ok e
    obtain rfl := Except.ok.inj e
    rcases h with ⟨rfl, h⟩ | ⟨first, rest, hfirst, hrest, hf⟩
    · obtain ⟨p, hp, hr⟩ := Laid.exists_firstPanes h0 hab h e₁ ha hb
      exact ⟨p, Finset.mem_union_left _ hp, hr⟩
    · subst haxis
      rw [← hf.hi] at ha
      rw [← hf.lo] at hb
      rcases lt_or_ge a (first.hi direction.axis.other) with hlt | hge
      · obtain ⟨p, hp, hr⟩ := Laid.exists_firstPanes h0 hab hfirst e₁ hlt hb
        exact ⟨p, Finset.mem_union_left _ hp, hr⟩
      · -- the interval is longer than the divider after the first node
        have hlt : rest.lo direction.axis.other < b := by
          calc rest.lo direction.axis.other = first.hi direction.axis.other + thickness := hf.gap
            _ ≤ a + thickness := by gcongr
            _ < a + (b - a) := by gcongr
            _ = b := add_sub_cancel a b
        obtain ⟨p, hp, hr⟩ := LaidNodes.exists_firstPanesOfAll h0 hab rfl hrest e₂ ha hlt
        exact ⟨p, Finset.mem_union_right _ hp, hr⟩

end

end FirstPanes

/-! ## The way to a pane, drawn -/

section Frames

variable [IsOrderedAddMonoid K]

/-- Where a node of a branch is drawn. -/
theorem LaidNodes.middle (h0 : 0 ≤ thickness) {node : PaneNode P} {after : List (PaneNode P)} :
    ∀ {before : List (PaneNode P)} {rect : RectF K},
    LaidNodes thickness position axis (before ++ node :: after) rect →
    ∃ r, Laid thickness position node r ∧ r.Inside rect ∧
      (before = [] → r.lo axis = rect.lo axis) ∧ (after = [] → r.hi axis = rect.hi axis) ∧
      r.lo axis.other = rect.lo axis.other ∧ r.hi axis.other = rect.hi axis.other
  | [], rect, h => by
    rw [List.nil_append, LaidNodes] at h
    rcases h with ⟨rfl, h⟩ | ⟨first, rest, hfirst, hrest, hf⟩
    · exact ⟨rect, h, fun _ => ⟨le_rfl, le_rfl⟩, fun _ => rfl, fun _ => rfl, rfl, rfl⟩
    · refine ⟨first, hfirst, hf.first_inside h0 (LaidNodes.inside h0 hrest).1, fun _ => hf.lo,
        fun hafter => ?_, hf.first_lo, hf.first_hi⟩
      rw [hafter, LaidNodes] at hrest
      exact hrest.elim
  | n :: before, rect, h => by
    rw [List.cons_append, LaidNodes] at h
    rcases h with ⟨hnil, -⟩ | ⟨first, rest, hfirst, hrest, hf⟩
    · simp at hnil
    · obtain ⟨r, hr, hin, -, hhi, hlo', hhi'⟩ := LaidNodes.middle h0 hrest
      exact ⟨r, hr, hin.trans (hf.rest_inside h0 (Laid.inside h0 hfirst).1), by simp,
        fun hafter => (hhi hafter).trans hf.hi, hlo'.trans hf.rest_lo, hhi'.trans hf.rest_hi⟩

/-- Two nodes of a branch that follow each other are drawn next to each other. -/
theorem LaidNodes.adjacent (h0 : 0 ≤ thickness) {node node' : PaneNode P}
    {after : List (PaneNode P)} : ∀ {before : List (PaneNode P)} {rect : RectF K},
    LaidNodes thickness position axis (before ++ node :: node' :: after) rect →
    ∃ r r', Laid thickness position node r ∧ Laid thickness position node' r' ∧
      r'.lo axis = r.hi axis + thickness ∧ r.lo axis.other = r'.lo axis.other ∧
      r.hi axis.other = r'.hi axis.other
  | [], rect, h => by
    rw [List.nil_append, LaidNodes] at h
    rcases h with ⟨hnil, -⟩ | ⟨first, rest, hfirst, hrest, hf⟩
    · simp at hnil
    · rw [← List.nil_append (node' :: after)] at hrest
      obtain ⟨r', hr', -, hlo, -, hlo', hhi'⟩ := LaidNodes.middle h0 hrest
      exact ⟨first, r', hfirst, hr', (hlo rfl).trans hf.gap,
        hf.first_lo.trans (hlo'.trans hf.rest_lo).symm,
        hf.first_hi.trans (hhi'.trans hf.rest_hi).symm⟩
  | n :: before, rect, h => by
    rw [List.cons_append, LaidNodes] at h
    rcases h with ⟨hnil, -⟩ | ⟨first, rest, -, hrest, -⟩
    · simp at hnil
    · exact LaidNodes.adjacent h0 hrest

/-- A node without a sibling on one side reaches as far on that side as the branch. -/
theorem Laid.frame (h0 : 0 ≤ thickness) (direction : Direction) {frame : PaneFrame P}
    {node : PaneNode P} {rect : RectF K} (h : Laid thickness position (frame.plug node) rect) :
    ∃ r, Laid thickness position node r ∧
      (frame.sibling direction = none → r.side direction = rect.side direction) := by
  rw [PaneFrame.plug, Laid] at h
  obtain ⟨r, hr, -, hlo, hhi, hlo', hhi'⟩ := LaidNodes.middle h0 h
  refine ⟨r, hr, fun hnone => ?_⟩
  rw [PaneFrame.sibling] at hnone
  by_cases haxis : frame.axis = direction.axis
  · rw [if_pos haxis] at hnone
    simp only [RectF.side]
    split at hnone
    · rw [if_pos ‹_›, if_pos ‹_›, ← haxis]
      exact hlo (List.getLast?_eq_none_iff.mp hnone)
    · rw [if_neg ‹_›, if_neg ‹_›, ← haxis]
      exact hhi (List.head?_eq_none_iff.mp hnone)
  · simp only [RectF.side, SplitDirection.eq_other haxis, hlo', hhi']

theorem Laid.of_plug (h0 : 0 ≤ thickness) (direction : Direction) {frames : List (PaneFrame P)}
    {node : PaneNode P} {rect : RectF K} (h : Laid thickness position (plug frames node) rect) :
    ∃ r, Laid thickness position node r ∧
      ((∀ frame ∈ frames, frame.sibling direction = none) →
        r.side direction = rect.side direction) := by
  induction frames generalizing node with
  | nil => exact ⟨rect, h, fun _ => rfl⟩
  | cons frame frames ih =>
    obtain ⟨r', hr', hside'⟩ := ih h
    obtain ⟨r, hr, hside⟩ := hr'.frame h0 direction
    refine ⟨r, hr, fun hnone => ?_⟩
    rw [List.forall_mem_cons] at hnone
    exact (hside hnone.1).trans (hside' hnone.2)

/-- **A sibling faces the side of its neighbour across one divider.** -/
theorem Laid.sibling (h0 : 0 ≤ thickness) {direction : Direction} {frame : PaneFrame P}
    {node target : PaneNode P} {rect : RectF K}
    (h : Laid thickness position (frame.plug node) rect)
    (htarget : frame.sibling direction = some target) :
    ∃ r r', Laid thickness position node r ∧ Laid thickness position target r' ∧
      (if direction.isBefore then r.side direction = r'.facing direction + thickness
        else r'.facing direction = r.side direction + thickness) ∧
      r.lo direction.axis.other = r'.lo direction.axis.other ∧
      r.hi direction.axis.other = r'.hi direction.axis.other := by
  obtain ⟨haxis, hside⟩ := PaneFrame.mem_of_sibling htarget
  rw [PaneFrame.plug, Laid, haxis] at h
  rcases hside with ⟨hbefore, before, heq⟩ | ⟨hbefore, after, heq⟩
  · rw [heq, List.append_assoc, List.singleton_append] at h
    obtain ⟨r', r, hr', hr, hgap, hlo, hhi⟩ := LaidNodes.adjacent h0 h
    refine ⟨r, r', hr, hr', ?_, hlo.symm, hhi.symm⟩
    simpa only [RectF.side, RectF.facing, hbefore, if_true] using hgap
  · rw [heq] at h
    obtain ⟨r, r', hr, hr', hgap, hlo, hhi⟩ := LaidNodes.adjacent h0 h
    refine ⟨r, r', hr, hr', ?_, hlo, hhi⟩
    simpa only [RectF.side, RectF.facing, hbefore, Bool.false_eq_true, if_false] using hgap

end Frames

/-! ## The panes that are found -/

/-- The subtrees with the two panes are neighbouring nodes of one branch: that of `p` comes after the
one of `q` in the direction. -/
def DirectSiblings (direction : Direction) (root : PaneNode P) (q p : P) : Prop :=
  ∃ frames before node target after dividers,
    root = plug frames
      (.branch direction.axis (before ++ (beside direction node target ++ after)) dividers) ∧
      q ∈ node.paneIds ∧ p ∈ target.paneIds

theorem DirectSiblings.of_neighbour {direction : Direction} {frames : List (PaneFrame P)}
    {target : PaneNode P} {q p : P} (h : neighbour direction frames = some target)
    (hp : p ∈ target.paneIds) : DirectSiblings direction (plug frames (.leaf q)) q p := by
  obtain ⟨inner, frame, outer, rfl, htarget, -⟩ := List.findSome?_eq_some_iff.mp h
  have hq : q ∈ (plug inner (.leaf q)).paneIds :=
    (PaneNode.paneIds_plug_sublist inner (.leaf q)).subset (by simp [PaneNode.paneIds])
  obtain ⟨haxis, hside⟩ := PaneFrame.mem_of_sibling htarget
  rw [plug_append, plug, PaneFrame.plug, haxis]
  rcases hside with ⟨hbefore, before, heq⟩ | ⟨hbefore, after, heq⟩
  · refine ⟨outer, before, plug inner (.leaf q), target, frame.after, frame.dividers, ?_, hq, hp⟩
    rw [heq, beside, if_pos hbefore]
    simp
  · refine ⟨outer, frame.before, plug inner (.leaf q), target, after, frame.dividers, ?_, hq, hp⟩
    rw [heq, beside, if_neg (by simp [hbefore])]
    simp

section Geometric

variable [IsOrderedAddMonoid K] [DecidableEq P]

/-- What is found in the nearest neighbouring subtree. -/
theorem Laid.found (h0 : 0 ≤ thickness) {direction : Direction} {frames : List (PaneFrame P)}
    {q : P} {rect : RectF K} {target : PaneNode P}
    (h : Laid thickness position (plug frames (.leaf q)) rect)
    (hwf : (plug frames (.leaf q)).WellFormed)
    (htarget : neighbour direction frames = some target) {ids : Finset P}
    (hids : target.firstPanesInDirection direction = .ok ids) :
    ∃ current, position q = some current ∧
      (∀ p, (p ∈ ids ∧ touches current direction.axis (position p) = true) ↔
        ∃ r, p ∈ target.paneIds ∧ position p = some r ∧ Borders thickness direction current r) ∧
      (thickness < current.hi direction.axis.other - current.lo direction.axis.other →
        ∃ p ∈ ids, touches current direction.axis (position p) = true) := by
  obtain ⟨inner, frame, outer, rfl, htarget, hinner⟩ := List.findSome?_eq_some_iff.mp htarget
  rw [plug_append, plug] at h hwf
  have hwf' : (frame.plug (plug inner (.leaf q))).WellFormed := PaneNode.WellFormed.of_plug hwf
  obtain ⟨rf, hrf, -⟩ := Laid.of_plug h0 direction h
  obtain ⟨r, r', hr, hr', hgap, hlo, hhi⟩ := hrf.sibling h0 htarget
  obtain ⟨current, hcurrent, hside⟩ := Laid.of_plug h0 direction hr
  replace hside := hside hinner
  rw [Laid] at hcurrent
  obtain ⟨ids', hids', hsub⟩ :=
    PaneNode.firstPanesInDirection_spec direction (hwf'.sibling htarget)
  obtain rfl := Except.ok.inj (hids'.symm.trans hids)
  have hfirst := hr'.mem_firstPanes h0 (hwf'.sibling htarget) hids
  refine ⟨current, hcurrent.2, fun p => ?_, fun hthick => ?_⟩
  · have hborders : ∀ rp : RectF K, Borders thickness direction current rp ↔
        rp.facing direction = r'.facing direction ∧
          areRectsOverlapping current rp direction.axis = true := by
      intro rp
      rw [areRectsOverlapping_iff, Borders]
      refine and_congr_left fun _ => ?_
      simp only [RectF.side, RectF.facing] at hgap hside ⊢
      split at hgap
      · rename_i hbefore
        rw [if_pos hbefore, if_pos hbefore] at hside
        rw [if_pos hbefore, if_pos hbefore, if_pos hbefore, hside, hgap, add_left_inj, eq_comm]
      · rename_i hbefore
        rw [if_neg hbefore, if_neg hbefore] at hside
        rw [if_neg hbefore, if_neg hbefore, if_neg hbefore, hside, hgap]
    constructor
    · rintro ⟨hp, htouch⟩
      obtain ⟨rp, hrp, -⟩ := (Laid.inside h0 hr').2 p (hsub p hp)
      rw [hrp] at htouch
      exact ⟨rp, hsub p hp, hrp,
        (hborders rp).mpr ⟨(hfirst p (hsub p hp) rp hrp).mp hp, htouch⟩⟩
    · rintro ⟨rp, hp, hrp, hb⟩
      obtain ⟨hfacing, htouch⟩ := (hborders rp).mp hb
      exact ⟨(hfirst p hp rp hrp).mpr hfacing, by rw [hrp]; exact htouch⟩
  · -- the current pane lies within the span of the neighbour
    obtain ⟨rq, hrq, hproper, hin⟩ := (Laid.inside h0 hr).2 q
      ((PaneNode.paneIds_plug_sublist inner (.leaf q)).subset (by simp [PaneNode.paneIds]))
    obtain rfl := Option.some.inj (hcurrent.2.symm.trans hrq)
    have hcross := hin direction.axis.other
    have hlt := hproper direction.axis.other
    obtain ⟨p, hp, rp, hrp, h₁, h₂⟩ := hr'.exists_firstPanes h0 hthick hids
      (hlt.trans_le (hhi ▸ hcross.2)) ((hlo ▸ hcross.1).trans_lt hlt)
    refine ⟨p, hp, ?_⟩
    rw [hrp]
    exact (areRectsOverlapping_iff _ _ _).mpr ⟨h₂, h₁⟩

/-- **Directional navigation is geometric.** -/
theorem panesByDirection_geometric (h0 : 0 ≤ thickness) {data : PaneData P}
    (hwf : data.root.WellFormed) (hnodup : data.paneIds.Nodup) {rect : RectF K}
    (hlaid : Laid thickness position data.root rect) {intoIter : Finset P → List P}
    (hiter : ∀ ids, (intoIter ids).Nodup ∧ ∀ p, p ∈ intoIter ids ↔ p ∈ ids)
    {q : P} (hq : q ∈ data.paneIds) (direction : Direction) :
    ∃ frames current panes, data.root = plug frames (.leaf q) ∧ position q = some current ∧
      data.panesByDirection position intoIter q direction = .ok panes ∧ panes.Nodup ∧
      (∀ p, p ∈ panes ↔ ∃ target r, neighbour direction frames = some target ∧
        p ∈ target.paneIds ∧ position p = some r ∧ Borders thickness direction current r) ∧
      (thickness < current.hi direction.axis.other - current.lo direction.axis.other →
        (panes = [] ↔ ∀ frame ∈ frames, frame.sibling direction = none)) ∧
      ∀ p ∈ panes, DirectSiblings direction data.root q p := by
  obtain ⟨frames, hroot⟩ := PaneNode.exists_plug hq
  rw [PaneData.paneIds, hroot] at hnodup
  rw [hroot] at hwf hlaid
  have hsearch := PaneNode.panesByDirection_plug direction frames hwf hnodup
  refine ⟨frames, ?_⟩
  cases htarget : neighbour direction frames with
  | none =>
    rw [htarget] at hsearch
    obtain ⟨current, hcurrent, -⟩ := hlaid.of_plug h0 direction
    rw [Laid] at hcurrent
    refine ⟨current, [], hroot, hcurrent.2, ?_, List.nodup_nil, by simp,
      fun _ => iff_of_true rfl (List.findSome?_eq_none_iff.mp htarget), by simp⟩
    rw [PaneData.panesByDirection, hroot, hsearch]
    rfl
  | some target =>
    rw [htarget] at hsearch
    have hwf' : target.WellFormed := by
      obtain ⟨inner, frame, outer, rfl, hsib, -⟩ := List.findSome?_eq_some_iff.mp htarget
      rw [plug_append] at hwf
      exact PaneNode.WellFormed.sibling (PaneNode.WellFormed.of_plug hwf) hsib
    obtain ⟨ids, hids, -⟩ := PaneNode.firstPanesInDirection_spec direction hwf'
    obtain ⟨current, hcurrent, hmem, hsome⟩ := hlaid.found h0 hwf htarget hids
    have hpanes : ∀ p, p ∈ (intoIter ids).filter (fun id =>
        touches current direction.axis (position id)) ↔ ∃ r, p ∈ target.paneIds ∧
          position p = some r ∧ Borders thickness direction current r := by
      intro p
      rw [List.mem_filter, (hiter ids).2, hmem]
    refine ⟨current, (intoIter ids).filter fun id => touches current direction.axis (position id),
      hroot, hcurrent, ?_, (hiter ids).1.filter _, fun p => ?_, fun hthick => ?_, fun p hp => ?_⟩
    · rw [PaneData.panesByDirection, hroot, hsearch, PaneNode.resume, hids]
      simp only [ok_bind, hcurrent]
      rfl
    · rw [hpanes]
      simp
    · refine iff_of_false (fun hnil => ?_) fun hnone => ?_
      · obtain ⟨p, hp, htouch⟩ := hsome hthick
        exact List.not_mem_nil (hnil ▸ List.mem_filter.mpr ⟨((hiter ids).2 p).mpr hp, htouch⟩)
      · have hnone' : neighbour direction frames = none := List.findSome?_eq_none_iff.mpr hnone
        rw [htarget] at hnone'
        cases hnone'
    · obtain ⟨r, hp', -⟩ := (hpanes p).mp hp
      rw [hroot]
      exact .of_neighbour htarget hp'

end Geometric

/-! ## A pane with two panes beside it -/

/-- Pane 0, and to the right of it pane 1 above pane 2. -/
def stackedBeside : PaneData ℕ where
  root := .branch .horizontal
    [.leaf 0, .branch .vertical [.leaf 1, .leaf 2] [Divider.new]] [Divider.new]
  len := 3
  hiddenPanes := []

/-- Where its panes are drawn. -/
def stackedPosition : ℕ → Option (RectF ℤ)
  | 0 => some ⟨0, 10, 0, 21⟩
  | 1 => some ⟨11, 20, 0, 10⟩
  | 2 => some ⟨11, 20, 11, 21⟩
  | _ => none

theorem laid_stackedBeside : Laid 1 stackedPosition stackedBeside.root ⟨0, 20, 0, 21⟩ := by
  have proper : ∀ {a b c d : ℤ}, a < b → c < d → (⟨a, b, c, d⟩ : RectF ℤ).Proper := by
    rintro a b c d h₁ h₂ (_ | _)
    exacts [h₁, h₂]
  rw [stackedBeside, Laid, LaidNodes]
  refine Or.inr ⟨⟨0, 10, 0, 21⟩, ⟨11, 20, 0, 21⟩, ?_, ?_, ⟨rfl, rfl, rfl, rfl, rfl, rfl, rfl⟩⟩
  · exact ⟨proper (by decide) (by decide), rfl⟩
  · refine Or.inl ⟨rfl, ?_⟩
    rw [Laid, LaidNodes]
    refine Or.inr ⟨⟨11, 20, 0, 10⟩, ⟨11, 20, 11, 21⟩, ?_, ?_, ⟨rfl, rfl, rfl, rfl, rfl, rfl, rfl⟩⟩
    · exact ⟨proper (by decide) (by decide), rfl⟩
    · exact Or.inl ⟨rfl, proper (by decide) (by decide), rfl⟩

/-- The elements from the least one on. -/
def ascending (ids : Finset ℕ) : List ℕ := ids.sort (· ≤ ·)

theorem ascending_spec (ids : Finset ℕ) :
    (ascending ids).Nodup ∧ ∀ p, p ∈ ascending ids ↔ p ∈ ids :=
  ⟨ids.sort_nodup _, fun _ => ids.mem_sort _⟩

theorem panesByDirection_geometric_stacked : ∃ panes,
    stackedBeside.panesByDirection stackedPosition ascending 0 .right = .ok panes ∧
      panes.Nodup ∧ ∀ p ∈ panes, DirectSiblings .right stackedBeside.root 0 p := by
  have hwf : stackedBeside.root.WellFormed := by
    simp [stackedBeside, PaneNode.WellFormed, PaneNode.WellFormedAll]
  have hmem : 0 ∈ stackedBeside.paneIds := by decide
  obtain ⟨_, _, panes, -, -, h, hnodup, -, -, hsib⟩ :=
    panesByDirection_geometric zero_le_one hwf (by decide) laid_stackedBeside ascending_spec hmem
      .right
  exact ⟨panes, h, hnodup, hsib⟩

/-- **The panes come in the order of a hash set**: with this one, the lower pane is first. -/
theorem panesByDirection_unordered : ∃ intoIter : Finset ℕ → List ℕ,
    (∀ ids, (intoIter ids).Nodup ∧ ∀ p, p ∈ intoIter ids ↔ p ∈ ids) ∧
      Laid 1 stackedPosition stackedBeside.root ⟨0, 20, 0, 21⟩ ∧
      stackedBeside.panesByDirection stackedPosition intoIter 0 .right = .ok [2, 1] ∧
      ¬ [2, 1].Sublist stackedBeside.paneIds := by
  refine ⟨fun ids => if ids = {1, 2} then [2, 1] else ascending ids, fun ids => ?_,
    laid_stackedBeside, ?_, by decide⟩
  · dsimp only
    split
    · rename_i hids
      subst hids
      exact ⟨by decide, fun p => by simp [or_comm]⟩
    · exact ascending_spec ids
  · have hsearch : stackedBeside.root.panesByDirection 0 .right = .ok (.found {1, 2}) := rfl
    rw [PaneData.panesByDirection, hsearch, ok_bind]
    simp only [if_true]
    rfl

end Clinch
