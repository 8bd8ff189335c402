import TypeUses.Resolution.State

/-!
# Resolution — the descent into a parse

The descent reads a parse by recursion on its nodes: a node is read, then its kept children are
descended into one after the other, then the scope that the node opened is left.  The scope is
entered just in front of the first child at which it opens, or behind the last one if it opens
at none.

* `descend`, `descendAll`: one node with everything below it, and the children of one node.
* `descent`: a whole parse, up to the linking of references.
-/

namespace TypeUses.Resolution

/-- Enters the scope of an opening, if there is one. -/
def State.enterOpening (s : State) : Option Opening → State
  | some o => s.enter o.entry
  | none => s

/-- Leaves the scope of an opening, if there is one. -/
def State.leaveOpening (s : State) : Option Opening → Except TreeFault State
  | some o => s.leave o.entry
  | none => .ok s

/-- The opening that is still to come once the walk is at a child. -/
def openingAfter (opening : Option Opening) (child : Concrete.Node) : Option Opening :=
  opening.filter fun o => !o.opensAt child

/-- The state in which a child is read, its parent's scope entered if it opens there. -/
def State.atChild (s : State) (opening : Option Opening) (child : Concrete.Node) : State :=
  s.enterOpening (opening.filter fun o => o.opensAt child)

mutual

/-- Reads a node and everything below it. -/
def descend (language : Language) (source : ByteArray) (s : State) (outer : Concrete.Node)
    (parent : NodeId) (context : Context) : Concrete.Node → Except TreeFault State
  | .node item children => do
    let node : Concrete.Node := .node item children
    let (s, id, outline) ← s.add language source ⟨node, outer, parent, context⟩
    let s ← descendAll language source s node id context outline outline.opening children
    s.leaveOpening outline.opening

/-- Reads the children of a node that has become node `id` of the tree, from one on, and
enters the scope of an opening that is still to come. -/
def descendAll (language : Language) (source : ByteArray) (s : State) (node : Concrete.Node)
    (id : NodeId) (context : Context) (outline : Outline) (opening : Option Opening) :
    List Concrete.Node → Except TreeFault State
  | [] => .ok (s.enterOpening opening)
  | child :: rest =>
    if child.item.isKept then do
      let s ← descend language source (s.atChild opening child) node id
        (childContext node context outline child) child
      descendAll language source s node id context outline (openingAfter opening child) rest
    else descendAll language source s node id context outline opening rest

end

/-- The state after a parse is read, its references to entities not yet linked. -/
def descent (language : Language) (source : ByteArray) (spelling : String)
    (parse : Concrete.Parse) : Except TreeFault State :=
  descendAll language source (.initial language spelling) parse.root Tree.rootId .plain {} none
    parse.root.children

end TypeUses.Resolution
