import TypeUses.Concrete.Kind
import TypeUses.Location

/-!
# Concrete syntax — parses

A parse is an ordered tree.  Each node covers a range of bytes of the source and begins at a row and
column; it may be named or a mere token, an extra (a comment, which may stand anywhere), an error or
missing.

* `Node.weight`: a measure by which walks over a parse end.
* `Parse.items`: every node of a parse in pre-order.
* `Parse.faults`: the errors and missing nodes among them.
-/

namespace TypeUses.Concrete

/-- What a parse says of one node, its children apart. -/
structure Item where
  kind : Kind
  field : Option Field := none
  isNamed : Bool := true
  isExtra : Bool := false
  isError : Bool := false
  isMissing : Bool := false
  start : Nat := 0
  stop : Nat := 0
  row : Nat := 0
  column : Nat := 0
deriving DecidableEq, Repr

namespace Item

/-- Where the node begins. -/
def location (i : Item) : Location := .ofPosition i.row i.column

/-- Whether the parser reported a fault here. -/
def isFault (i : Item) : Bool := i.isError || i.isMissing

/-- Tokens and comments are left out of what is read; an error stays even where it is an extra. -/
def isKept (i : Item) : Bool := i.isNamed && (!i.isExtra || i.isError)

end Item

/-- A node of a parse with what lies below it. -/
inductive Node where
  | node (item : Item) (children : List Node)
deriving Repr

namespace Node

/-- What the parse says of the node itself. -/
def item : Node → Item
  | node i _ => i

/-- The nodes right below the node, tokens and comments among them. -/
def children : Node → List Node
  | node _ cs => cs

/-- The kind that the grammar gives the node. -/
def kind (n : Node) : Kind := n.item.kind

/-- The field of its parent in which the node stands. -/
def field (n : Node) : Option Field := n.item.field

/-- The first child with a field. -/
def child? (n : Node) (field : Field) : Option Node :=
  n.children.find? fun c => c.field = some field

/-- Whether a token of the given kind is among the children. -/
def hasToken (n : Node) (kind : Kind) : Bool :=
  n.children.any fun c => !c.item.isNamed && c.kind = kind

/-- The children that are read. -/
def keptChildren (n : Node) : List Node :=
  n.children.filter fun c => c.item.isKept

mutual

/-- Three for each node at and below this one: one for the node itself and two for the steps that
enter and leave its scope. -/
def weight : Node → Nat
  | node _ cs => 3 + weights cs

/-- The weights of a list of nodes, added up. -/
def weights : List Node → Nat
  | [] => 0
  | c :: cs => weight c + weights cs

end

theorem weights_append (cs ds : List Node) : weights (cs ++ ds) = weights cs + weights ds := by
  induction cs with
  | nil => simp [weights]
  | cons c cs ih => simp [weights, ih, Nat.add_assoc]

end Node

/-- A parse of a source; `hasError` is the parser's word that something was wrong in it. -/
structure Parse where
  root : Node
  hasError : Bool
deriving Repr

/-! ### Faults -/

/-- The items of the pending nodes and of all that lies below them, in pre-order. -/
def itemsFrom : List Node → List Item
  | [] => []
  | .node i cs :: rest => i :: itemsFrom (cs ++ rest)
termination_by pending => Node.weights pending
decreasing_by simp [Node.weights, Node.weight, Node.weights_append]

namespace Parse

/-- Every node of a parse, in pre-order. -/
def items (p : Parse) : List Item := itemsFrom [p.root]

/-- The errors and missing nodes of a parse, which are sought only where the parser has seen any. -/
def faults (p : Parse) : List Item :=
  if p.hasError then p.items.filter Item.isFault else []

end Parse

end TypeUses.Concrete
