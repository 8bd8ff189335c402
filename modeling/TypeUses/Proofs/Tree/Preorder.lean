import TypeUses.Proofs.Tree.Uses

/-!
# Trees — the walk in pre-order

`Tree.preorder` lists the nodes at and below a node, the node before what is below it and children in
their order.  A search goes along it (`uses_eq_filterMap`).

A tree is `WellFormed` if every node but the root is a child of one node, and the children of a node
come in the order of their numbers.  Then the walk from the root comes to every node
(`WellFormed.mem_preorder_rootId`), and no walk comes to a node twice (`WellFormed.nodup_preorder`).
-/

namespace TypeUses.Tree

/-- The nodes at and below a node, in pre-order. -/
def preorder (t : Tree) (id : NodeId) : List NodeId :=
  id :: (t.children id).attach.flatMap fun c => t.preorder c.1
termination_by t.size - id.index
decreasing_by
  have := lt_of_mem_children c.2
  omega

variable {t : Tree} {id x c : NodeId}

/-! ### What the walk comes to -/

/-- A node comes first, and then its children with all that is below each. -/
theorem preorder_eq (t : Tree) (id : NodeId) :
    t.preorder id = id :: (t.children id).flatMap t.preorder := by
  rw [preorder]
  congr 1
  simp only [List.flatMap_def, List.map_attach_eq_pmap, List.pmap_eq_map]

/-- At and below a node are the node itself and what is at and below its children. -/
theorem mem_preorder_iff :
    x ∈ t.preorder id ↔ x = id ∨ ∃ c ∈ t.children id, x ∈ t.preorder c := by
  rw [preorder_eq, List.mem_cons, List.mem_flatMap]

theorem mem_preorder_self (t : Tree) (id : NodeId) : id ∈ t.preorder id :=
  mem_preorder_iff.2 (Or.inl rfl)

theorem le_of_mem_preorder (hx : x ∈ t.preorder id) : id.index ≤ x.index := by
  induction id using t.children_induction with
  | h id ih =>
      rcases mem_preorder_iff.1 hx with rfl | ⟨c, hc, hx⟩
      · exact Nat.le_refl _
      · exact Nat.le_trans (Nat.le_of_lt (lt_of_mem_children hc).1) (ih c hc hx)

/-- With a node the walk comes to its children. -/
theorem mem_preorder_of_child (hx : x ∈ t.preorder id) (hc : c ∈ t.children x) :
    c ∈ t.preorder id := by
  induction id using t.children_induction with
  | h id ih =>
      rcases mem_preorder_iff.1 hx with rfl | ⟨y, hy, hx⟩
      · exact mem_preorder_iff.2 (Or.inr ⟨c, hc, mem_preorder_self t c⟩)
      · exact mem_preorder_iff.2 (Or.inr ⟨y, hy, ih y hy hx⟩)

/-- Every node below the one at which the walk starts is a child of one to which it comes. -/
theorem parent_of_mem_preorder (hx : x ∈ t.preorder id) :
    x = id ∨ ∃ p ∈ t.preorder id, x ∈ t.children p := by
  induction id using t.children_induction with
  | h id ih =>
      rcases mem_preorder_iff.1 hx with rfl | ⟨c, hc, hx⟩
      · exact Or.inl rfl
      · right
        rcases ih c hc hx with rfl | ⟨p, hp, hx⟩
        · exact ⟨id, mem_preorder_self t id, hc⟩
        · exact ⟨p, mem_preorder_iff.2 (Or.inr ⟨c, hc, hp⟩), hx⟩

/-- **A search goes along the walk.** -/
theorem uses_eq_filterMap (t : Tree) (name : String) (id : NodeId) :
    t.uses name id = (t.preorder id).filterMap (t.useAt? name) := by
  induction id using t.children_induction with
  | h id ih =>
      have hbelow : (t.children id).flatMap (t.uses name) =
          (t.children id).flatMap fun c => (t.preorder c).filterMap (t.useAt? name) := by
        rw [List.flatMap_def, List.flatMap_def, List.map_congr_left ih]
      rw [uses_eq, preorder_eq, List.filterMap_cons, List.filterMap_flatMap, hbelow]
      cases t.useAt? name id <;> rfl

/-! ### Trees in which each node has one place -/

/-- Every node but the root is a child of one node, and the numbers of a node's children rise. -/
structure WellFormed (t : Tree) : Prop where
  root : rootId.index < t.size
  parent : ∀ {id : NodeId}, id ≠ rootId → id.index < t.size → ∃ p, id ∈ t.children p
  unique : ∀ {p q id}, id ∈ t.children p → id ∈ t.children q → p = q
  rising : ∀ p, (t.children p).Pairwise fun c c' => c.index < c'.index

namespace WellFormed

/-- A node is a child of its parent once. -/
theorem nodup_children (h : t.WellFormed) (p : NodeId) : (t.children p).Nodup :=
  (h.rising p).imp fun hlt he => Nat.ne_of_lt hlt (congrArg NodeId.index he)

/-- **The walk from the root comes to every node.** -/
theorem mem_preorder_rootId (h : t.WellFormed) :
    id ∈ t.preorder rootId ↔ id.index < t.size := by
  constructor
  · intro hid
    rcases parent_of_mem_preorder hid with rfl | ⟨p, -, hp⟩
    · exact h.root
    · exact (lt_of_mem_children hp).2
  · -- the numbers fall from a node to its parent
    intro hlt
    induction hn : id.index using Nat.strongRecOn generalizing id with
    | ind n ih =>
        by_cases hroot : id = rootId
        · rw [hroot]
          exact mem_preorder_self t rootId
        · obtain ⟨p, hp⟩ := h.parent hroot hlt
          have hpid := (lt_of_mem_children hp).1
          exact mem_preorder_of_child
            (ih p.index (hn ▸ hpid) (Nat.lt_trans hpid hlt) rfl) hp

/-- If walks from two nodes come to one node, one of them comes to the start of the other. -/
theorem start_mem_preorder (h : t.WellFormed) {a b : NodeId} (ha : x ∈ t.preorder a)
    (hb : x ∈ t.preorder b) : a ∈ t.preorder b ∨ b ∈ t.preorder a := by
  induction hn : x.index using Nat.strongRecOn generalizing x with
  | ind n ih =>
      rcases parent_of_mem_preorder ha with rfl | ⟨p, hpa, hxp⟩
      · exact Or.inl hb
      · rcases parent_of_mem_preorder hb with rfl | ⟨q, hqb, hxq⟩
        · exact Or.inr ha
        · -- both come to the parent
          cases h.unique hxp hxq
          exact ih p.index (hn ▸ (lt_of_mem_children hxp).1) hpa hqb rfl

/-- The walk from a child does not come to another child of the same node. -/
theorem not_mem_preorder_sibling (h : t.WellFormed) {p c' : NodeId} (hc : c ∈ t.children p)
    (hc' : c' ∈ t.children p) (hne : c ≠ c') : c ∉ t.preorder c' := by
  intro hmem
  rcases parent_of_mem_preorder hmem with he | ⟨q, hq, hcq⟩
  · exact hne he
  · cases h.unique hc hcq
    exact Nat.lt_irrefl _
      (Nat.lt_of_lt_of_le (lt_of_mem_children hc').1 (le_of_mem_preorder hq))

/-- **A walk comes to no node twice.** -/
theorem nodup_preorder (h : t.WellFormed) (id : NodeId) : (t.preorder id).Nodup := by
  induction id using t.children_induction with
  | h id ih =>
      rw [preorder_eq, List.nodup_cons]
      constructor
      · intro hid
        obtain ⟨c, hc, hid⟩ := List.mem_flatMap.1 hid
        exact Nat.lt_irrefl _
          (Nat.lt_of_lt_of_le (lt_of_mem_children hc).1 (le_of_mem_preorder hid))
      · refine List.pairwise_flatMap.2 ⟨ih, ?_⟩
        refine (h.nodup_children id).imp_of_mem fun {c c'} hc hc' hne x hx y hy hxy => ?_
        subst hxy
        rcases h.start_mem_preorder hx hy with hmem | hmem
        · exact h.not_mem_preorder_sibling hc hc' hne hmem
        · exact h.not_mem_preorder_sibling hc' hc hne.symm hmem

/-- The walk from the root comes to every node once. -/
theorem count_preorder (h : t.WellFormed) (id : NodeId) :
    (t.preorder rootId).count id = if id.index < t.size then 1 else 0 := by
  simp only [(h.nodup_preorder rootId).count, h.mem_preorder_rootId]

end WellFormed

end TypeUses.Tree
