import TypeUses.Tree.Basic

/-!
# Trees — the uses of a name

A use of a name is a reference whose definition has exactly that name; it lies where the reference
lies.  A reference without a target is a use of no name.

* `Tree.uses`: the uses at and below a node in pre-order, the node before what is below it and
  children in their order, by recursion on the tree.
* `Search`: the same list one item at a time.  A search keeps the nodes still to be visited, nearest
  first; `Search.next` visits nodes until one is a use.
* `Search.toList`: all the items of a search.

Both recursions are bounded by `Tree.weight`, the number of nodes at and below a node.
-/

namespace TypeUses

/-- A use of a name. -/
structure Use where
  name : String
  location : Location
deriving DecidableEq, Repr

namespace Tree

/-- The number of nodes at and below a node, each counted once for every way down to it. -/
def weight (t : Tree) (id : NodeId) : Nat :=
  1 + (t.children id).attach.foldr (fun c total => t.weight c.1 + total) 0
termination_by t.size - id.index
decreasing_by
  have := lt_of_mem_children c.2
  omega

/-- The weight of a list of nodes, which bounds the visits that a search still has to make. -/
def pendingWeight (t : Tree) (ids : List NodeId) : Nat :=
  ids.foldr (fun id total => t.weight id + total) 0

theorem pendingWeight_cons (t : Tree) (id : NodeId) (rest : List NodeId) :
    t.pendingWeight (id :: rest) = t.weight id + t.pendingWeight rest := rfl

theorem pendingWeight_append (t : Tree) (as bs : List NodeId) :
    t.pendingWeight (as ++ bs) = t.pendingWeight as + t.pendingWeight bs := by
  induction as with
  | nil => exact (Nat.zero_add _).symm
  | cons id as ih =>
    rw [List.cons_append, pendingWeight_cons, pendingWeight_cons, ih, Nat.add_assoc]

/-- A node weighs one more than its children. -/
theorem weight_eq (t : Tree) (id : NodeId) :
    t.weight id = 1 + t.pendingWeight (t.children id) := by
  rw [weight]
  exact congrArg (1 + ·) (List.foldr_attach (f := fun id total => t.weight id + total) ..)

/-- The use of `name` that node `id` itself is. -/
def useAt? (t : Tree) (name : String) (id : NodeId) : Option Use :=
  if t.referredName? id = some name then
    (t.node? id).map fun n => ⟨name, n.location⟩
  else none

/-- The uses of `name` at and below a node, in pre-order. -/
def uses (t : Tree) (name : String) (id : NodeId) : List Use :=
  (t.useAt? name id).toList ++ (t.children id).attach.flatMap fun c => t.uses name c.1
termination_by t.size - id.index
decreasing_by
  have := lt_of_mem_children c.2
  omega

/-- What is ahead weighs less when a node is replaced by its children. -/
theorem pendingWeight_visit_lt (t : Tree) (id : NodeId) (rest : List NodeId) :
    t.pendingWeight (t.children id ++ rest) < t.pendingWeight (id :: rest) := by
  rw [pendingWeight_append, pendingWeight_cons, weight_eq]
  omega

/-- The next use among the pending nodes and below them, with the nodes that are pending then. -/
def nextUse (t : Tree) (name : String) : List NodeId → Option (Use × List NodeId)
  | [] => none
  | id :: rest =>
    match t.useAt? name id with
    | some use => some (use, t.children id ++ rest)
    | none => t.nextUse name (t.children id ++ rest)
termination_by pending => t.pendingWeight pending
decreasing_by exact t.pendingWeight_visit_lt id rest

theorem pendingWeight_nextUse_lt {t : Tree} {name : String} {pending : List NodeId} {use : Use}
    {rest : List NodeId} (h : t.nextUse name pending = some (use, rest)) :
    t.pendingWeight rest < t.pendingWeight pending := by
  fun_induction nextUse t name pending with
  | case1 => simp at h
  | case2 id rest' use' _ =>
    cases h
    exact t.pendingWeight_visit_lt id rest'
  | case3 id rest' _ ih => exact Nat.lt_trans (ih h) (t.pendingWeight_visit_lt id rest')

/-- Every use among the pending nodes and below them, in the order in which they are found. -/
def usesFrom (t : Tree) (name : String) (pending : List NodeId) : List Use :=
  match _h : t.nextUse name pending with
  | some (use, rest) => use :: t.usesFrom name rest
  | none => []
termination_by t.pendingWeight pending
decreasing_by exact pendingWeight_nextUse_lt ‹_›

end Tree

/-! ### Searches -/

/-- A search for the uses of a name, in the middle of its work. -/
structure Search where
  tree : Tree
  name : String
  pending : List NodeId

namespace Search

/-- The search for the uses of `name` at and below a node. -/
def below (t : Tree) (name : String) (id : NodeId) : Search := ⟨t, name, [id]⟩

/-- The next item and the search after it; a search that is over stays over. -/
def next (s : Search) : Option Use × Search :=
  match s.tree.nextUse s.name s.pending with
  | some (use, rest) => (some use, { s with pending := rest })
  | none => (none, { s with pending := [] })

/-- The answers to `count` calls of `next`, one after the other. -/
def nexts (s : Search) : Nat → List (Option Use)
  | 0 => []
  | count + 1 => s.next.1 :: s.next.2.nexts count

/-- The items that a search has still to give. -/
def toList (s : Search) : List Use := s.tree.usesFrom s.name s.pending

end Search

/-- The uses of `name` at and below a node, found one by one. -/
def Tree.findUses (t : Tree) (name : String) (id : NodeId) : List Use :=
  (Search.below t name id).toList

end TypeUses
