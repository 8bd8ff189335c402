import TypeUses.Resolution.Reading

/-!
# Resolution — the state of a walk

What a walk over a parse has built and still has to link: the tree, the table of scopes, the
references that mean an entity, and for each function around the current place its labels and
`goto`s.

* `State.add`: reads a node and adds it to the tree.
* `State.enter`, `State.leave`: a scope around some of a node's children.
* `State.link`: points references at definitions.

A reference to an entity is linked when the walk is over (`State.finish`), since the entity may be
defined after its use; a `goto` is linked when its function is left.
-/

namespace TypeUses.Resolution

/-! ### Labels -/

/-- The labels of a function, the first of each name, and its `goto`s, latest first. -/
structure LabelFrame where
  labels : List (String × NodeId) := []
  gotos : List (NodeId × String) := []
deriving DecidableEq, Repr

namespace LabelFrame

/-- The frame with one more label; of labels with one name the first counts. -/
def addLabel (frame : LabelFrame) (name : String) (id : NodeId) : LabelFrame :=
  if (frame.labels.lookup name).isSome then frame
  else { frame with labels := (name, id) :: frame.labels }

/-- The frame with one more `goto`. -/
def addGoto (frame : LabelFrame) (id : NodeId) (name : String) : LabelFrame :=
  { frame with gotos := (id, name) :: frame.gotos }

/-- Notes a label or a `goto`. -/
def note (frame : LabelFrame) (id : NodeId) : Content → LabelFrame
  | .definition ⟨.label, name⟩ => frame.addLabel name id
  | .reference ⟨.label, spelling, _⟩ => frame.addGoto id spelling
  | _ => frame

/-- The `goto`s of the frame that have a label, in order, each with its label. -/
def links (frame : LabelFrame) : List (NodeId × NodeId) :=
  frame.gotos.reverse.filterMap fun goto =>
    (frame.labels.lookup goto.2).map fun label => (goto.1, label)

end LabelFrame

/-! ### States -/

/-- What a walk has made so far, what is still to be linked, and how many references there are. -/
structure State where
  tree : Tree
  scopes : Table
  /-- references and the entities that they mean, latest first -/
  pending : List (NodeId × EntityId) := []
  /-- the functions in which the walk stands, innermost first -/
  functions : List LabelFrame := []
  references : Nat := 0
  resolved : Nat := 0

namespace State

/-- The state in which a walk begins: the tree has its root and the table its file scope. -/
def initial (language : Language) (spelling : String) : State where
  tree := .empty spelling
  scopes := .empty language.tagsAreTypes

/-! ### Adding a node -/

/-- Notes a label or a `goto` in the innermost function. -/
def noteLabel (functions : List LabelFrame) (id : NodeId) (content : Content) : List LabelFrame :=
  match functions with
  | frame :: rest => frame.note id content :: rest
  | [] => []

/-- The state after node `id` is read and added to the tree. -/
def record (s : State) (tree : Tree) (id : NodeId) (r : Reading) : State where
  tree := tree
  scopes := r.scopes
  pending :=
    match r.entity with
    | some entity => (id, entity) :: s.pending
    | none => s.pending
  functions := noteLabel s.functions id r.content
  references := if r.content.isReference then s.references + 1 else s.references
  resolved := s.resolved

/-- Reads a node and adds it to the tree: the state after it, its number, and what its reading
leaves for its children. -/
def add (language : Language) (source : ByteArray) (s : State) (f : Frame) :
    Except TreeFault (State × NodeId × Outline) :=
  let r := readNode language source s.scopes ⟨s.tree.size⟩ f
  match s.tree.push? f.parent r.content f.node.item.location with
  | .ok (id, tree) => .ok (s.record tree id r, id, r.outline)
  | .error fault => .error fault

/-! ### Linking references -/

/-- Points references at definitions, in order. -/
def link (s : State) : List (NodeId × NodeId) → Except TreeFault State
  | [] => .ok s
  | (reference, definition) :: rest =>
    match s.tree.resolve? reference definition with
    | .ok tree => link { s with tree := tree, resolved := s.resolved + 1 } rest
    | .error fault => .error fault

/-- The pending references whose entity is defined, in order, each with the definition. -/
def links (s : State) : List (NodeId × NodeId) :=
  s.pending.reverse.filterMap fun p =>
    (s.scopes.definition? p.2).map fun definition => (p.1, definition)

/-- Links the references to the definitions of what they mean. -/
def finish (s : State) : Except TreeFault State :=
  s.link s.links

/-! ### Entering and leaving scopes -/

/-- Enters a scope, and a function's with no labels yet. -/
def enter (s : State) : ScopeEntry → State
  | .fresh kind => { s with scopes := (s.scopes.enter kind).2 }
  | .members entity kind => { s with scopes := (s.scopes.enterMembers entity kind).2 }
  | .function =>
    { s with scopes := (s.scopes.enter .function).2, functions := {} :: s.functions }

/-- Leaves the innermost scope. -/
def leaveScope (s : State) : State :=
  { s with scopes := s.scopes.leave }

/-- Leaves the innermost function and links its `goto`s. -/
def leaveFunction (s : State) : Except TreeFault State :=
  match s.functions with
  | frame :: rest => { s.leaveScope with functions := rest }.link frame.links
  | [] => .ok s.leaveScope

/-- Leaves the scope that was entered in the given way. -/
def leave (s : State) : ScopeEntry → Except TreeFault State
  | .function => s.leaveFunction
  | .fresh _
  | .members .. => .ok s.leaveScope

end State

end TypeUses.Resolution
