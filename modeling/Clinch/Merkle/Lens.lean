import Clinch.Merkle.Node

/-!
# The nodes that a mask names

`nodes_from_mask` goes through a tree from the top and returns the nodes in the opposite order. The
nodes are told apart by their addresses: the indices of the children on the way.

* `MerkleNode.nodeAt`, `ValidPath`, `Named`;
* `Search`: what the loop keeps, `Search.step`;
* **`nodesFromMask_spec`**: a valid mask resolves to the nodes that it names, children first.
-/

set_option autoImplicit false

namespace Clinch

namespace MerkleNode

variable {H : Type}

/-- The node at an address. -/
def nodeAt : MerkleNode H → List ℕ → Option (MerkleNode H)
  | node, [] => some node
  | node, index :: address => node.children[index]?.bind (nodeAt · address)

theorem nodeAt_append (address rest : List ℕ) : ∀ node : MerkleNode H,
    node.nodeAt (address ++ rest) = (node.nodeAt address).bind (nodeAt · rest) := by
  induction address with
  | nil => exact fun _ => rfl
  | cons index address ih =>
    intro node
    rw [List.cons_append, nodeAt, nodeAt, Option.bind_assoc]
    exact Option.bind_congr fun child _ => ih child

/-- The indices of a mask are those of children, and none is there twice. -/
inductive ValidPath : MerkleNode H → ChildrenPath → Prop
  | all (node : MerkleNode H) : ValidPath node none
  | specific {node : MerkleNode H} {masks : List NodeMask} :
    (masks.map NodeMask.index).Nodup → (∀ mask ∈ masks, mask.index < node.children.length) →
    (∀ mask ∈ masks, ∀ child, node.children[mask.index]? = some child →
      ValidPath child mask.children) → ValidPath node (some masks)

/-- The addresses that a mask names. -/
inductive Named : ChildrenPath → List ℕ → Prop
  | here (path : ChildrenPath) : Named path []
  | all (address : List ℕ) : Named none address
  | child {masks : List NodeMask} {mask : NodeMask} {address : List ℕ} :
    mask ∈ masks → Named mask.children address → Named (some masks) (mask.index :: address)

/-- The children of a node that a mask names, with their indices and masks. -/
structure Successors (node : MerkleNode H) (path : ChildrenPath)
    (next : List (ℕ × MerkleNode H × ChildrenPath)) : Prop where
  nodup : (next.map Prod.fst).Nodup
  child : ∀ e ∈ next, node.children[e.1]? = some e.2.1 ∧ ValidPath e.2.1 e.2.2
  named : ∀ index address, Named path (index :: address) → index < node.children.length →
    ∃ e ∈ next, e.1 = index ∧ Named e.2.2 address
  weight : pathWeight node path = 1 + (next.map fun e => pathWeight e.2.1 e.2.2).sum

theorem sizeAll_eq (children : List (MerkleNode H)) :
    sizeAll children = (children.map size).sum := by
  induction children with
  | nil => rw [sizeAll]; rfl
  | cons child children ih => rw [sizeAll, ih, List.map_cons, List.sum_cons]

theorem map_fst_zipIdx {α β : Type} (f : α → β) (l : List α) :
    (l.zipIdx.map fun e => f e.1) = l.map f := by
  rw [show (fun e : α × ℕ => f e.1) = f ∘ Prod.fst from rfl, ← List.map_map, List.zipIdx_map_fst]

/-- `All` names every child. -/
theorem successors_all (node : MerkleNode H) : ∃ next, Successors node none next ∧
    next.map Prod.snd = node.children.map (·, (none : ChildrenPath)) := by
  refine ⟨node.children.zipIdx.map fun e => (e.2, e.1, none), ⟨?_, ?_, ?_, ?_⟩, ?_⟩
  · rw [List.map_map]
    exact List.nodup_zipIdx_map_snd node.children
  · rintro e he
    obtain ⟨⟨child, index⟩, hmem, rfl⟩ := List.mem_map.mp he
    exact ⟨List.mem_zipIdx_iff_getElem?.mp hmem, .all child⟩
  · intro index address _ hlt
    exact ⟨(index, node.children[index], none), List.mem_map.mpr ⟨(node.children[index], index),
      List.mem_zipIdx_iff_getElem?.mpr (List.getElem?_eq_getElem hlt), rfl⟩, rfl, .all address⟩
  · cases node with
    | mk hash children nodeId =>
      rw [pathWeight, size, sizeAll_eq, List.map_map]
      exact congrArg _ (congrArg _ (map_fst_zipIdx size children).symm)
  · rw [List.map_map]
    exact map_fst_zipIdx (·, (none : ChildrenPath)) node.children

/-- The masks of children that are there are resolved one by one. -/
theorem namedChildren_eq (node : MerkleNode H) {masks : List NodeMask}
    (h : ∀ mask ∈ masks, mask.index < node.children.length) :
    ∃ next : List (ℕ × MerkleNode H × ChildrenPath),
      namedChildren node masks = .ok (next.map Prod.snd) ∧
      List.Forall₂ (fun mask e => e.1 = mask.index ∧ node.children[mask.index]? = some e.2.1 ∧
        e.2.2 = mask.children) masks next := by
  induction masks with
  | nil => exact ⟨[], rfl, .nil⟩
  | cons mask masks ih =>
    obtain ⟨next, hnamed, hforall⟩ := ih fun mask hmem => h mask (List.mem_cons_of_mem _ hmem)
    have hlt := h mask List.mem_cons_self
    obtain ⟨index, path⟩ := mask
    change index < node.children.length at hlt
    have hget : node.children[index]? = some node.children[index] := List.getElem?_eq_getElem hlt
    refine ⟨(index, node.children[index], path) :: next, ?_, .cons ⟨rfl, hget, rfl⟩ hforall⟩
    rw [namedChildren, hget, hnamed]
    rfl

theorem masksWeight_eq (node : MerkleNode H) {masks : List NodeMask}
    {next : List (ℕ × MerkleNode H × ChildrenPath)}
    (h : List.Forall₂ (fun mask e => e.1 = mask.index ∧ node.children[mask.index]? = some e.2.1 ∧
      e.2.2 = mask.children) masks next) :
    masksWeight node masks = (next.map fun e => pathWeight e.2.1 e.2.2).sum := by
  induction h with
  | nil => rw [masksWeight]; rfl
  | @cons mask e masks next hmask _ ih =>
    obtain ⟨index, path⟩ := mask
    obtain ⟨-, hget, hpath⟩ := hmask
    rw [masksWeight, ih, List.map_cons, List.sum_cons, hpath]
    congr 1
    change node.children[index]? = _ at hget
    cases path with
    | none => rw [maskWeight, hget]; rfl
    | some masks => rw [maskWeight, hget]; rfl

/-- A valid list of masks names different children. -/
theorem successors_specific {node : MerkleNode H} {masks : List NodeMask}
    (h : ValidPath node (some masks)) : ∃ next, Successors node (some masks) next ∧
      namedChildren node masks = .ok (next.map Prod.snd) := by
  cases h with
  | specific hnodup hlt hvalid =>
    obtain ⟨next, hnamed, hforall⟩ := namedChildren_eq node hlt
    have hindex : next.map Prod.fst = masks.map NodeMask.index := by
      clear hnodup hlt hvalid hnamed
      induction hforall with
      | nil => rfl
      | cons h _ ih => rw [List.map_cons, List.map_cons, h.1, ih]
    have hback : ∀ e ∈ next, ∃ mask ∈ masks, e.1 = mask.index ∧
        node.children[mask.index]? = some e.2.1 ∧ e.2.2 = mask.children := fun e he => by
      obtain ⟨n, hn, rfl⟩ := List.getElem_of_mem he
      have hn' : n < masks.length := hforall.length_eq ▸ hn
      exact ⟨masks[n], List.getElem_mem hn', hforall.get hn' hn⟩
    have hforth : ∀ mask ∈ masks, ∃ e ∈ next, e.1 = mask.index ∧
        node.children[mask.index]? = some e.2.1 ∧ e.2.2 = mask.children := fun mask hmask => by
      obtain ⟨n, hn, rfl⟩ := List.getElem_of_mem hmask
      have hn' : n < next.length := hforall.length_eq ▸ hn
      exact ⟨next[n], List.getElem_mem hn', hforall.get hn hn'⟩
    refine ⟨next, ⟨hindex ▸ hnodup, fun e he => ?_, fun index address hnamed' _ => ?_, ?_⟩, hnamed⟩
    · obtain ⟨mask, hmask, hi, hget, hpath⟩ := hback e he
      exact ⟨hi ▸ hget, hpath ▸ hvalid mask hmask e.2.1 hget⟩
    · cases hnamed' with
      | child hmask hrest =>
        obtain ⟨e, he, hi, -, hpath⟩ := hforth _ hmask
        exact ⟨e, he, hi, hpath ▸ hrest⟩
    · rw [pathWeight, masksWeight_eq node hforall]

/-- One round of the loop. -/
theorem nodesFromQueue_step {node : MerkleNode H} {path : ChildrenPath} (h : ValidPath node path) :
    ∃ next, Successors node path next ∧ ∀ fuel queue result,
      nodesFromQueue (fuel + 1) ((node, path) :: queue) result =
        nodesFromQueue fuel (queue ++ next.map Prod.snd) (node :: result) := by
  cases path with
  | none =>
    obtain ⟨next, hnext, hmap⟩ := successors_all node
    exact ⟨next, hnext, fun fuel queue result => by rw [nodesFromQueue, hmap]⟩
  | some masks =>
    obtain ⟨next, hnext, hnamed⟩ := successors_specific h
    exact ⟨next, hnext, fun fuel queue result => by rw [nodesFromQueue]; simp only [hnamed]⟩

/-- **What the loop keeps**: the addresses of the queue and of the nodes that are already taken, the
last one first. -/
structure Search (root : MerkleNode H) (mask : ChildrenPath)
    (queue : List (List ℕ × MerkleNode H × ChildrenPath)) (visited : List (List ℕ))
    (result : List (MerkleNode H)) : Prop where
  result : result.map some = visited.map root.nodeAt
  node : ∀ e ∈ queue, root.nodeAt e.1 = some e.2.1 ∧ ValidPath e.2.1 e.2.2
  nodup : (visited.reverse ++ queue.map Prod.fst).Nodup
  order : (visited.reverse ++ queue.map Prod.fst).Pairwise fun a b => a.length ≤ b.length
  close : ∀ address ∈ visited.reverse ++ queue.map Prod.fst, ∀ e ∈ queue,
    address.length ≤ e.1.length + 1
  parent : ∀ e ∈ queue, ∀ address index, e.1 = address ++ [index] → address ∈ visited
  complete : ∀ address, Named mask address → (root.nodeAt address).isSome → address ∈ visited ∨
    ∃ e ∈ queue, ∃ rest, address = e.1 ++ rest ∧ Named e.2.2 rest

variable {root : MerkleNode H} {mask : ChildrenPath}

theorem Search.init (h : ValidPath root mask) : Search root mask [([], root, mask)] [] [] where
  result := rfl
  node e he := by
    rw [List.mem_singleton.mp he]
    exact ⟨rfl, h⟩
  nodup := List.nodup_singleton _
  order := List.pairwise_singleton _ _
  close address ha e he := by
    rw [List.mem_singleton.mp ha]
    exact Nat.zero_le _
  parent e he address index heq := by
    rw [List.mem_singleton.mp he] at heq
    exact absurd heq.symm (List.append_ne_nil_of_right_ne_nil _ (List.cons_ne_nil _ _))
  complete address hnamed _ := .inr ⟨_, List.mem_singleton.mpr rfl, address, rfl, hnamed⟩

/-- The addresses of the children that are added to the queue. -/
def addressed (address : List ℕ) (next : List (ℕ × MerkleNode H × ChildrenPath)) :
    List (List ℕ × MerkleNode H × ChildrenPath) :=
  next.map fun e => (address ++ [e.1], e.2)

theorem mem_addressed {address : List ℕ} {next : List (ℕ × MerkleNode H × ChildrenPath)}
    {e : List ℕ × MerkleNode H × ChildrenPath} : e ∈ addressed address next ↔
      ∃ e' ∈ next, e = (address ++ [e'.1], e'.2) := by
  rw [addressed, List.mem_map]
  exact exists_congr fun e' => and_congr_right fun _ => eq_comm

/-- One round keeps the search. -/
theorem Search.step {address : List ℕ} {node : MerkleNode H} {path : ChildrenPath}
    {queue : List (List ℕ × MerkleNode H × ChildrenPath)} {visited : List (List ℕ)}
    {result : List (MerkleNode H)}
    (h : Search root mask ((address, node, path) :: queue) visited result)
    {next : List (ℕ × MerkleNode H × ChildrenPath)} (hnext : Successors node path next) :
    Search root mask (queue ++ addressed address next) (address :: visited) (node :: result) := by
  have hnode := (h.node _ List.mem_cons_self).1
  have hlist : (address :: visited).reverse ++ (queue ++ addressed address next).map Prod.fst =
      (visited.reverse ++ ((address, node, path) :: queue).map Prod.fst) ++
        (addressed address next).map Prod.fst := by
    simp
  have hlength : ∀ a ∈ (addressed address next).map Prod.fst, a.length = address.length + 1 :=
    fun a ha => by
      obtain ⟨e, he, rfl⟩ := List.mem_map.mp ha
      obtain ⟨e', -, rfl⟩ := mem_addressed.mp he
      simp
  have hfar : ∀ a ∈ visited.reverse ++ ((address, node, path) :: queue).map Prod.fst,
      a.length ≤ address.length + 1 := fun a ha => h.close a ha _ List.mem_cons_self
  -- the parents of the other addresses of the queue are taken already
  have hnew : ∀ a ∈ visited.reverse ++ ((address, node, path) :: queue).map Prod.fst,
      a ∉ (addressed address next).map Prod.fst := fun a ha hmem => by
    obtain ⟨e, he, rfl⟩ := List.mem_map.mp hmem
    obtain ⟨e', -, rfl⟩ := mem_addressed.mp he
    have hdisjoint := List.nodup_append.mp h.nodup
    have hpairwise := List.pairwise_append.mp h.order
    rcases List.mem_append.mp ha with ha | ha
    · have := hpairwise.2.2 _ ha address List.mem_cons_self
      simp at this
    · obtain ⟨e, he, heq⟩ := List.mem_map.mp ha
      have := h.parent e he address e'.1 heq
      exact hdisjoint.2.2 address (List.mem_reverse.mpr this) address List.mem_cons_self rfl
  refine ⟨?_, fun e he => ?_, ?_, ?_, fun a ha e he => ?_, fun e he a index heq => ?_,
    fun a hnamed hs => ?_⟩
  · rw [List.map_cons, List.map_cons, h.result, hnode]
  · rcases List.mem_append.mp he with he | he
    · exact h.node e (List.mem_cons_of_mem _ he)
    · obtain ⟨e', he', rfl⟩ := mem_addressed.mp he
      obtain ⟨hget, hvalid⟩ := hnext.child e' he'
      refine ⟨?_, hvalid⟩
      rw [nodeAt_append, hnode]
      change node.children[e'.1]?.bind _ = _
      rw [hget]
      rfl
  · rw [hlist, List.nodup_append]
    refine ⟨h.nodup, ?_, fun a ha b hb hab => hnew a ha (hab ▸ hb)⟩
    have : ((next.map Prod.fst).map fun index => address ++ [index]).Nodup :=
      hnext.nodup.map fun a b hab => by simpa using hab
    rw [List.map_map] at this
    rw [addressed, List.map_map]
    exact this
  · rw [hlist, List.pairwise_append]
    refine ⟨h.order, ?_, fun a ha b hb => (hfar a ha).trans (hlength b hb).ge⟩
    exact List.pairwise_of_forall_mem_list fun a ha b hb =>
      ((hlength a ha).trans (hlength b hb).symm).le
  · rw [hlist] at ha
    have he' : address.length ≤ e.1.length := by
      rcases List.mem_append.mp he with he | he
      · have := (List.pairwise_append.mp h.order).2.1
        rw [List.map_cons, List.pairwise_cons] at this
        exact this.1 _ (List.mem_map_of_mem he)
      · rw [hlength _ (List.mem_map_of_mem he)]
        exact Nat.le_succ _
    rcases List.mem_append.mp ha with ha | ha
    · exact (hfar a ha).trans (Nat.add_le_add_right he' 1)
    · exact (hlength a ha).le.trans (Nat.add_le_add_right he' 1)
  · rcases List.mem_append.mp he with he | he
    · exact List.mem_cons_of_mem _ (h.parent e (List.mem_cons_of_mem _ he) a index heq)
    · obtain ⟨e', -, rfl⟩ := mem_addressed.mp he
      rw [(List.append_inj' heq rfl).1]
      exact List.mem_cons_self
  · rcases h.complete a hnamed hs with hv | ⟨e, he, rest, rfl, hrest⟩
    · exact .inl (List.mem_cons_of_mem _ hv)
    · rcases List.mem_cons.mp he with rfl | he
      · cases rest with
        | nil => exact .inl (by rw [List.append_nil]; exact List.mem_cons_self)
        | cons index rest =>
          change (root.nodeAt (address ++ index :: rest)).isSome at hs
          rw [nodeAt_append, hnode] at hs
          change (node.children[index]?.bind _).isSome at hs
          have hlt : index < node.children.length := by
            by_contra hge
            rw [List.getElem?_eq_none (not_lt.mp hge)] at hs
            exact nomatch hs
          obtain ⟨e', he', rfl, hrest'⟩ := hnext.named index rest hrest hlt
          exact .inr ⟨_, List.mem_append_right _ (mem_addressed.mpr ⟨e', he', rfl⟩), rest,
            by simp, hrest'⟩
      · exact .inr ⟨e, List.mem_append_left _ he, rest, rfl, hrest⟩

/-- The loop takes everything that its queue names, when it has the fuel for it. -/
theorem Search.run : ∀ (fuel : ℕ) {queue : List (List ℕ × MerkleNode H × ChildrenPath)}
    {visited : List (List ℕ)} {result : List (MerkleNode H)}, Search root mask queue visited result →
    (queue.map fun e => pathWeight e.2.1 e.2.2).sum ≤ fuel → ∃ nodes addresses,
      nodesFromQueue fuel (queue.map Prod.snd) result = .ok nodes ∧
        Search root mask [] addresses nodes := by
  intro fuel
  induction fuel with
  | zero =>
    intro queue visited result h hfuel
    cases queue with
    | nil => exact ⟨result, visited, rfl, h⟩
    | cons e queue =>
      obtain ⟨next, hnext, -⟩ := nodesFromQueue_step (h.node e List.mem_cons_self).2
      rw [List.map_cons, List.sum_cons, hnext.weight] at hfuel
      omega
  | succ fuel ih =>
    intro queue visited result h hfuel
    cases queue with
    | nil => exact ⟨result, visited, rfl, h⟩
    | cons e queue =>
      obtain ⟨address, node, path⟩ := e
      obtain ⟨next, hnext, hstep⟩ := nodesFromQueue_step (h.node _ List.mem_cons_self).2
      have hmap : (queue ++ addressed address next).map Prod.snd =
          queue.map Prod.snd ++ next.map Prod.snd := by
        rw [List.map_append, addressed, List.map_map]
        rfl
      rw [List.map_cons, hstep, ← hmap]
      refine ih (h.step hnext) ?_
      rw [List.map_cons, List.sum_cons, hnext.weight] at hfuel
      rw [List.map_append, List.sum_append, addressed, List.map_map]
      change (queue.map _).sum + (next.map fun e => pathWeight e.2.1 e.2.2).sum ≤ fuel
      omega

/-- The nodes at some addresses, no node before one that is below it. -/
structure ListedAt (root : MerkleNode H) (addresses : List (List ℕ)) (nodes : List (MerkleNode H)) :
    Prop where
  nodes : nodes.map some = addresses.map root.nodeAt
  childrenFirst : addresses.Pairwise fun a b => ¬ a <+: b

/-- **A valid mask resolves to the nodes that it names, children before parents.** -/
theorem nodesFromMask_spec (h : ValidPath root mask) : ∃ nodes addresses,
    nodesFromMask root mask = .ok nodes ∧ ListedAt root addresses nodes ∧
      ∀ address, Named mask address → (root.nodeAt address).isSome → address ∈ addresses := by
  obtain ⟨nodes, addresses, hok, hsearch⟩ := (Search.init h).run (pathWeight root mask)
    (by rw [List.map_singleton, List.sum_singleton])
  refine ⟨nodes, addresses, hok, ⟨hsearch.result, ?_⟩, fun address hnamed hs => ?_⟩
  · have hnodup := hsearch.nodup
    have horder := hsearch.order
    rw [List.map_nil, List.append_nil] at hnodup horder
    refine ((List.pairwise_reverse.mp horder).and (List.nodup_reverse.mp hnodup)).imp ?_
    rintro a b ⟨hle, hne⟩ habove
    exact hne (habove.eq_of_length (habove.length_le.antisymm hle))
  · exact (hsearch.complete address hnamed hs).resolve_right fun ⟨_, he, _⟩ => nomatch he

end MerkleNode

end Clinch
