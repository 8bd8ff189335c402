import TypeUses.Concrete.Node
import TypeUses.Tree.Basic

/-!
# Resolution — the places of a parse

A node of a parse is kept if it and all the nodes around it, the root apart, are read.  A `Place`
is a kept node with where it stands: the node around it, the path that leads to it from the root,
and the numbers that it and the node around it get in the tree.  The numbers count the kept nodes
in pre-order; the root has number 0.

* `places`: the places of a parse, in the order of their numbers (`map_id_places`).
* `children_of_mem_placesAt`, `children_of_mem_placesIn`: which places have a given place as their
  parent.
-/

namespace TypeUses

/-! ### Counting and paths -/

namespace Concrete.Node

mutual

/-- The number of kept nodes at and below a node that is kept. -/
def keptCount : Node → Nat
  | node _ cs => 1 + keptCounts cs

/-- The number of kept nodes in a list of nodes and below them. -/
def keptCounts : List Node → Nat
  | [] => 0
  | c :: cs => (if c.item.isKept then keptCount c else 0) + keptCounts cs

end

theorem keptCounts_append (cs ds : List Node) :
    keptCounts (cs ++ ds) = keptCounts cs + keptCounts ds := by
  induction cs with
  | nil => simp [keptCounts]
  | cons c cs ih => simp only [List.cons_append, keptCounts, ih, Nat.add_assoc]

theorem keptCount_eq (n : Node) : n.keptCount = 1 + keptCounts n.children := by
  obtain ⟨i, cs⟩ := n
  exact keptCount.eq_1 i cs

theorem keptCount_pos (n : Node) : 0 < n.keptCount := by
  rw [keptCount_eq]
  omega

/-- The node that a path leads to; each number of the path is the position of a child. -/
def at? (n : Node) : List Nat → Option Node
  | [] => some n
  | k :: path => n.children[k]?.bind fun c => c.at? path

/-- A named node in the parse of a source that is one line. -/
def onLine (kind : Kind) (field : Option Field) (start stop : Nat) (children : List Node) : Node :=
  .node { kind := kind, field := field, start := start, stop := stop, column := start } children

/-- A token on the line. -/
def token (text : String) (start : Nat) : Node :=
  .node { kind := .ofName text, isNamed := false, start := start,
          stop := start + text.utf8ByteSize, column := start } []

end Concrete.Node

/-- A parse has at least as many nodes as it has kept ones. -/
theorem Concrete.keptCounts_le_length_itemsFrom (pending : List Concrete.Node) :
    Concrete.Node.keptCounts pending ≤ (itemsFrom pending).length := by
  fun_induction itemsFrom pending with
  | case1 => simp [Node.keptCounts]
  | case2 i cs rest ih =>
      rw [Node.keptCounts_append] at ih
      simp only [Node.keptCounts, Node.keptCount, List.length_cons]
      split <;> omega

namespace Resolution
open Concrete.Node (keptCount keptCounts)

/-! ### Places -/

/-- A kept node of a parse and where it stands. -/
structure Place where
  node : Concrete.Node
  outer : Concrete.Node
  /-- the number of the node around it -/
  parent : NodeId
  /-- its own number -/
  id : NodeId
  path : List Nat

mutual

/-- The places at and below a kept node whose number is `next`. -/
def placesAt (path : List Nat) (outer : Concrete.Node) (parent : NodeId) (next : Nat) :
    Concrete.Node → List Place
  | .node i cs =>
    ⟨.node i cs, outer, parent, ⟨next⟩, path⟩ ::
      placesIn path (.node i cs) ⟨next⟩ (next + 1) 0 cs

/-- The places at and below the children of a node from child number `k` on; the first has the
number `next`. -/
def placesIn (path : List Nat) (node : Concrete.Node) (id : NodeId) (next k : Nat) :
    List Concrete.Node → List Place
  | [] => []
  | c :: cs =>
    if c.item.isKept then
      placesAt (path ++ [k]) node id next c ++
        placesIn path node id (next + c.keptCount) (k + 1) cs
    else placesIn path node id next (k + 1) cs

end

/-- The places of a parse; the root is none of them. -/
def places (parse : Concrete.Parse) : List Place :=
  placesIn [] parse.root Tree.rootId 1 0 parse.root.children

/-! ### Numbers -/

mutual

/-- The places at and below a node have numbers in a row, from the one that it is given. -/
theorem map_id_placesAt (path : List Nat) (outer : Concrete.Node) (parent : NodeId) (next : Nat) :
    ∀ n : Concrete.Node,
      (placesAt path outer parent next n).map (·.id.index) = List.range' next n.keptCount
  | .node i cs => by
      rw [placesAt, List.map_cons, map_id_placesIn path (.node i cs) ⟨next⟩ (next + 1) 0 cs,
        keptCount, Nat.add_comm 1, List.range'_succ]

theorem map_id_placesIn (path : List Nat) (node : Concrete.Node) (id : NodeId) (next k : Nat) :
    ∀ cs : List Concrete.Node,
      (placesIn path node id next k cs).map (·.id.index) = List.range' next (keptCounts cs)
  | [] => rfl
  | c :: cs => by
      rw [placesIn, keptCounts]
      split
      · rw [List.map_append, map_id_placesAt (path ++ [k]) node id next c,
          map_id_placesIn path node id (next + c.keptCount) (k + 1) cs, List.range'_append_1]
      · rw [Nat.zero_add]
        exact map_id_placesIn path node id next (k + 1) cs

end

theorem length_placesIn (path : List Nat) (node : Concrete.Node) (id : NodeId) (next k : Nat)
    (cs : List Concrete.Node) : (placesIn path node id next k cs).length = keptCounts cs := by
  have h := congrArg List.length (map_id_placesIn path node id next k cs)
  rwa [List.length_map, List.length_range'] at h

theorem length_placesAt (path : List Nat) (outer : Concrete.Node) (parent : NodeId) (next : Nat)
    (n : Concrete.Node) : (placesAt path outer parent next n).length = n.keptCount := by
  have h := congrArg List.length (map_id_placesAt path outer parent next n)
  rwa [List.length_map, List.length_range'] at h

/-- The places of a parse are numbered from one, without a gap. -/
theorem map_id_places (parse : Concrete.Parse) :
    (places parse).map (·.id.index) = List.range' 1 (places parse).length := by
  rw [places, map_id_placesIn, length_placesIn]

theorem id_bounds_of_mem_placesIn {path : List Nat} {node : Concrete.Node} {id : NodeId}
    {next k : Nat} {cs : List Concrete.Node} {p : Place} (h : p ∈ placesIn path node id next k cs) :
    next ≤ p.id.index ∧ p.id.index < next + keptCounts cs := by
  have := List.mem_map_of_mem (f := fun p : Place => p.id.index) h
  rwa [map_id_placesIn, List.mem_range'_1] at this

/-- A place at or below a node has one of the numbers in its range. -/
theorem id_bounds_of_mem_placesAt {path : List Nat} {outer : Concrete.Node} {parent : NodeId}
    {next : Nat} {n : Concrete.Node} {p : Place} (h : p ∈ placesAt path outer parent next n) :
    next ≤ p.id.index ∧ p.id.index < next + n.keptCount := by
  have := List.mem_map_of_mem (f := fun p : Place => p.id.index) h
  rwa [map_id_placesAt, List.mem_range'_1] at this

/-! ### Parents and children -/

/-- The numbers of the kept nodes of a list of children, the first of which would get `next`. -/
def childIds (next : Nat) : List Concrete.Node → List NodeId
  | [] => []
  | c :: cs =>
      if c.item.isKept then ⟨next⟩ :: childIds (next + c.keptCount) cs else childIds next cs

mutual

/-- The parent of a place at or below a node is that of the node, or has a smaller number in the
node's range. -/
theorem parent_of_mem_placesAt {path : List Nat} {outer : Concrete.Node} {parent : NodeId}
    {next : Nat} {q : Place} : ∀ n : Concrete.Node, q ∈ placesAt path outer parent next n →
      q.parent = parent ∨ (next ≤ q.parent.index ∧ q.parent.index < q.id.index)
  | .node i cs, h => by
      rw [placesAt] at h
      rcases List.mem_cons.1 h with rfl | h
      · exact Or.inl rfl
      · have hid := (id_bounds_of_mem_placesIn h).1
        rcases parent_of_mem_placesIn cs h with e | ⟨h₁, h₂⟩
        · exact Or.inr ⟨Nat.le_of_eq (congrArg NodeId.index e).symm, e ▸ hid⟩
        · exact Or.inr ⟨Nat.le_of_succ_le h₁, h₂⟩

theorem parent_of_mem_placesIn {path : List Nat} {node : Concrete.Node} {id : NodeId}
    {next k : Nat} {q : Place} : ∀ cs : List Concrete.Node, q ∈ placesIn path node id next k cs →
      q.parent = id ∨ (next ≤ q.parent.index ∧ q.parent.index < q.id.index)
  | [], h => by simp [placesIn] at h
  | c :: cs, h => by
      rw [placesIn] at h
      split at h
      · rcases List.mem_append.1 h with h | h
        · exact parent_of_mem_placesAt c h
        · rcases parent_of_mem_placesIn cs h with e | ⟨h₁, h₂⟩
          · exact Or.inl e
          · exact Or.inr ⟨Nat.le_trans (Nat.le_add_right _ _) h₁, h₂⟩
      · exact parent_of_mem_placesIn cs h

end

theorem filter_parent_eq_nil {ps : List Place} {id : NodeId} (h : ∀ q ∈ ps, q.parent ≠ id) :
    ps.filter (·.parent = id) = [] :=
  List.filter_eq_nil_iff.2 fun q hq => by simpa using h q hq

/-- The places whose parent is the node itself are those of its kept children. -/
theorem filter_parent_placesIn {path : List Nat} {node : Concrete.Node} {id : NodeId}
    {next k : Nat} (hid : id.index < next) (cs : List Concrete.Node) :
    ((placesIn path node id next k cs).filter (·.parent = id)).map Place.id = childIds next cs := by
  induction cs generalizing next k with
  | nil => rfl
  | cons c cs ih =>
      obtain ⟨i, ds⟩ := c
      rw [placesIn, childIds]
      split
      · have below : ∀ q ∈ placesIn (path ++ [k]) (.node i ds) ⟨next⟩ (next + 1) 0 ds,
            q.parent ≠ id := by
          intro q hq e
          rcases parent_of_mem_placesIn ds hq with e' | ⟨h, -⟩
          · rw [← e, e'] at hid; exact Nat.lt_irrefl _ hid
          · rw [e] at h; omega
        rw [placesAt, List.cons_append, List.filter_cons_of_pos (by simp), List.filter_append,
          filter_parent_eq_nil below, List.nil_append, List.map_cons, ih (by omega)]
      · exact ih hid

mutual

/-- The places with a given place as their parent are those of its kept children, in order. -/
theorem children_of_mem_placesAt {path : List Nat} {outer : Concrete.Node} {parent : NodeId}
    {next : Nat} (hp : parent.index < next) {p : Place} :
    ∀ n : Concrete.Node, p ∈ placesAt path outer parent next n →
      ((placesAt path outer parent next n).filter (·.parent = p.id)).map Place.id =
        childIds (p.id.index + 1) p.node.children
  | .node i cs, h => by
      have hid := (id_bounds_of_mem_placesAt h).1
      have hne : ¬ parent = p.id := fun e => by rw [e] at hp; omega
      rw [placesAt] at h ⊢
      rw [List.filter_cons_of_neg (by simpa using hne)]
      rcases List.mem_cons.1 h with rfl | h
      · exact filter_parent_placesIn (Nat.lt_succ_self _) cs
      · exact children_of_mem_placesIn (Nat.lt_succ_self _) cs h

/-- The places whose parent is a given place are those of its kept children. -/
theorem children_of_mem_placesIn {path : List Nat} {node : Concrete.Node} {id : NodeId}
    {next k : Nat} (hid : id.index < next) {p : Place} :
    ∀ cs : List Concrete.Node, p ∈ placesIn path node id next k cs →
      ((placesIn path node id next k cs).filter (·.parent = p.id)).map Place.id =
        childIds (p.id.index + 1) p.node.children
  | [], h => by simp [placesIn] at h
  | c :: cs, h => by
      rw [placesIn] at h ⊢
      split at h <;> rename_i hk
      · rw [if_pos hk, List.filter_append]
        -- the places of one child have no parents among those of another
        rcases List.mem_append.1 h with h | h
        · have later : ∀ q ∈ placesIn path node id (next + c.keptCount) (k + 1) cs,
              q.parent ≠ p.id := by
            intro q hq e
            have hp := id_bounds_of_mem_placesAt h
            rcases parent_of_mem_placesIn cs hq with e' | ⟨h', -⟩
            · rw [← e, e'] at hp; omega
            · rw [e] at h'; omega
          rw [filter_parent_eq_nil later, List.append_nil]
          exact children_of_mem_placesAt hid c h
        · have earlier : ∀ q ∈ placesAt (path ++ [k]) node id next c, q.parent ≠ p.id := by
            intro q hq e
            have hp := id_bounds_of_mem_placesIn h
            have hq' := id_bounds_of_mem_placesAt hq
            rcases parent_of_mem_placesAt c hq with e' | ⟨-, h'⟩
            · rw [← e, e'] at hp; omega
            · rw [e] at h'; omega
          rw [filter_parent_eq_nil earlier, List.nil_append]
          exact children_of_mem_placesIn (Nat.lt_of_lt_of_le hid (Nat.le_add_right _ _)) cs h
      · rw [if_neg hk]
        exact children_of_mem_placesIn hid cs h

end

end Resolution

end TypeUses
