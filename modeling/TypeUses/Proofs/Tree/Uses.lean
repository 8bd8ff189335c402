import TypeUses.Proofs.Tree.Growth
import TypeUses.Tree.Uses

/-!
# Trees — a search finds what the recursion on the tree finds

A search keeps a list of pending nodes and visits the nearest first.  What it has still to give is
what the recursion `Tree.uses` gives for the pending nodes, one after the other (`usesFrom_eq`), so
a search below a node gives what the recursion gives there (`findUses_eq`).

`useAt?_eq_some_iff` says when a node is a use of a name.
-/

namespace TypeUses.Tree

/-! ### One node -/

/-- A reference leads to the name of the entity that its target introduces. -/
theorem referredName?_eq (t : Tree) (id : NodeId) :
    t.referredName? id =
      (t.target? id).bind fun d => (t.content? d).bind fun c => c.entity?.map Entity.name := by
  simp only [referredName?, definition?, target?, reference?, content?, Node.name?, bind, pure,
    Option.bind_map, Option.bind_assoc, Function.comp_def, Option.bind_some]

/-- A node is a use of a name if its target introduces an entity with that name. -/
theorem useAt?_eq_some_iff {t : Tree} {name : String} {id : NodeId} {u : Use} :
    t.useAt? name id = some u ↔
      (∃ d c e, t.target? id = some d ∧ t.content? d = some c ∧ c.entity? = some e ∧
        e.name = name) ∧ ∃ l, t.location? id = some l ∧ u = ⟨name, l⟩ := by
  have href : t.referredName? id = some name ↔
      ∃ d c e, t.target? id = some d ∧ t.content? d = some c ∧ c.entity? = some e ∧
        e.name = name := by
    simp only [referredName?_eq, Option.bind_eq_some_iff, Option.map_eq_some_iff]
    constructor
    · rintro ⟨d, hd, c, hc, e, he, hn⟩
      exact ⟨d, c, e, hd, hc, he, hn⟩
    · rintro ⟨d, c, e, hd, hc, he, hn⟩
      exact ⟨d, hd, c, hc, e, he, hn⟩
  have hloc : (t.node? id).map (fun n => (⟨name, n.location⟩ : Use)) = some u ↔
      ∃ l, t.location? id = some l ∧ u = ⟨name, l⟩ := by
    simp only [location?, Option.map_eq_some_iff]
    constructor
    · rintro ⟨n, hn, hu⟩
      exact ⟨_, ⟨n, hn, rfl⟩, hu.symm⟩
    · rintro ⟨_, ⟨n, hn, rfl⟩, hu⟩
      exact ⟨n, hn, hu.symm⟩
  simp only [useAt?]
  by_cases h : t.referredName? id = some name
  · rw [if_pos h, hloc]
    exact ⟨fun hl => ⟨href.1 h, hl⟩, fun hl => hl.2⟩
  · rw [if_neg h]
    constructor
    · intro hu
      cases hu
    · intro hu
      exact absurd (href.2 hu.1) h

/-! ### The nodes at and below a node -/

/-- What holds of a node if it holds of its children holds of every node. -/
theorem children_induction {t : Tree} {P : NodeId → Prop}
    (h : ∀ id, (∀ c ∈ t.children id, P c) → P id) (id : NodeId) : P id :=
  h id fun c _ => children_induction h c
termination_by t.size - id.index
decreasing_by
  have := lt_of_mem_children ‹_›
  omega

/-- The uses below a node are the one that it is and those below its children, in order. -/
theorem uses_eq (t : Tree) (name : String) (id : NodeId) :
    t.uses name id = (t.useAt? name id).toList ++ (t.children id).flatMap (t.uses name) := by
  rw [uses]
  congr 1
  simp only [List.flatMap_def, List.map_attach_eq_pmap, List.pmap_eq_map]

/-- Taking the next use from a stack takes the first of the uses below what is on it. -/
theorem flatMap_uses_of_nextUse {t : Tree} {name : String} (pending : List NodeId) :
    pending.flatMap (t.uses name) =
      match t.nextUse name pending with
      | some (use, rest) => use :: rest.flatMap (t.uses name)
      | none => [] := by
  fun_induction nextUse t name pending with
  | case1 => rfl
  | case2 id rest use h => simp [uses_eq t name id, h]
  | case3 id rest h ih =>
      rw [← ih, List.flatMap_cons, uses_eq t name id, h, List.flatMap_append]
      rfl

/-- What a search has still to give are the uses at and below its pending nodes, in order. -/
theorem usesFrom_eq (t : Tree) (name : String) (pending : List NodeId) :
    t.usesFrom name pending = pending.flatMap (t.uses name) := by
  fun_induction usesFrom t name pending with
  | case1 pending use rest h ih => rw [flatMap_uses_of_nextUse, h, ih]
  | case2 pending h => rw [flatMap_uses_of_nextUse, h]

/-- A search finds the uses below its start, in pre-order. -/
theorem findUses_eq (t : Tree) (name : String) (id : NodeId) :
    t.findUses name id = t.uses name id := by
  rw [findUses, Search.toList, Search.below, usesFrom_eq, List.flatMap_cons, List.flatMap_nil,
    List.append_nil]

end TypeUses.Tree
