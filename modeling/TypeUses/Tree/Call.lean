import TypeUses.Tree.Basic

/-!
# Trees — additions and links as data

A `Tree.Call` is one addition to a tree or one link in it.  `Tree.perform` carries it out; a call that
is refused leaves the tree as it is.
-/

namespace TypeUses.Tree

/-- One call on a tree: it adds a node, or points a reference at a definition. -/
inductive Call
  | push (parent : NodeId) (content : Content) (location : Location)
  | resolve (reference definition : NodeId)
deriving DecidableEq, Repr

/-- The number of the node that a call adds, if it adds one, or why it is refused; and the tree after
the call. -/
def perform (t : Tree) : Call → Except TreeFault (Option NodeId) × Tree
  | .push parent content location =>
    match t.push? parent content location with
    | .ok (id, t') => (.ok (some id), t')
    | .error fault => (.error fault, t)
  | .resolve reference definition =>
    match t.resolve? reference definition with
    | .ok t' => (.ok none, t')
    | .error fault => (.error fault, t)

/-- The answers to a list of calls, and the tree after them. -/
def performAll (t : Tree) : List Call → List (Except TreeFault (Option NodeId)) × Tree
  | [] => ([], t)
  | call :: calls =>
    let (answer, t) := t.perform call
    let (answers, t) := t.performAll calls
    (answer :: answers, t)

end TypeUses.Tree
