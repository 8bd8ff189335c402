import TypeUses.Error

/-!
# Trees — nodes with a place, a content and an order

A tree describes one translation unit.  Its nodes are numbered as they are added, the root, node 0,
being the unit itself.  A node defines an entity, declares one, refers to one, or is none of these
and keeps the name of its grammatical kind only.  A reference may have a target, the node that
defines what it refers to.

Trees grow by `Tree.push?`, which adds a last child to a node, and links are set by
`Tree.resolve?`.  Both refuse what would not be a tree or a link to a definition; nothing else makes
a tree.  A child's number is larger than its parent's (`child_lt`), so a descent from any node ends.
-/

namespace TypeUses

/-- The number of a node in its tree. -/
@[ext]
structure NodeId where
  index : Nat
deriving DecidableEq, Repr

/-! ### Contents -/

/-- What a name can be the name of. -/
inductive EntityKind
  | structTag
  | unionTag
  | enumTag
  | classTag
  | typedefName
  | typeAlias
  | namespaceName
  | templateParameter
  | label
deriving DecidableEq, Repr

/-- A tag is the name of a struct, union, enum or class. -/
def EntityKind.isTag : EntityKind → Bool
  | structTag | unionTag | enumTag | classTag => true
  | _ => false

/-- A named entity; the name is empty where the source gives none. -/
structure Entity where
  kind : EntityKind
  name : String
deriving DecidableEq, Repr

/-- What a reference refers to, by the way it is written. -/
inductive ReferenceKind
  | typeName
  | templateName
  | namespaceName
  | label
deriving DecidableEq, Repr

/-- A use of a name; the target is the node that defines the entity, if it is known. -/
structure Reference where
  kind : ReferenceKind
  spelling : String
  target : Option NodeId := none
deriving DecidableEq, Repr

/-- What a node says. -/
inductive Content
  | translationUnit
  | definition (entity : Entity)
  | declaration (entity : Entity)
  | reference (reference : Reference)
  | other (kind : String)
deriving DecidableEq, Repr

namespace Content

/-- The entity that a definition or declaration introduces. -/
def entity? : Content → Option Entity
  | definition entity | declaration entity => some entity
  | _ => none

/-- The reference, if the content is one. -/
def reference? : Content → Option Reference
  | reference r => some r
  | _ => none

/-- Whether the content is a definition. -/
def isDefinition : Content → Bool
  | definition _ => true
  | _ => false

/-- Whether the content is a reference. -/
def isReference : Content → Bool
  | reference _ => true
  | _ => false

/-- The content with a reference's target replaced. -/
def withTarget (target : NodeId) : Content → Content
  | reference r => reference { r with target := some target }
  | content => content

end Content

/-- A node of a tree; its children are numbers of nodes of the same tree. -/
structure Node where
  content : Content
  location : Location
  children : Array NodeId
deriving DecidableEq, Repr

/-- The name of the entity that the node introduces. -/
def Node.name? (n : Node) : Option String :=
  n.content.entity?.map Entity.name

/-! ### Trees -/

/-- The nodes of one translation unit, by number.  `spelling` names the unit. -/
@[ext]
structure Tree where
  spelling : String
  nodes : Array Node
  child_lt : ∀ {i : Nat} {n : Node} {c : NodeId},
    nodes[i]? = some n → c ∈ n.children → i < c.index ∧ c.index < nodes.size

namespace Tree

/-- The number of the root. -/
def rootId : NodeId := ⟨0⟩

/-- How many nodes a tree can have. -/
def capacity : Nat := 0x100000000

/-- The tree of a root alone. -/
def empty (spelling : String) : Tree where
  spelling := spelling
  nodes := #[⟨.translationUnit, .start, #[]⟩]
  child_lt := by
    intro i n c hn hc
    match i, hn with
    | 0, hn => cases hn; simp at hc

/-- The number of nodes. -/
def size (t : Tree) : Nat := t.nodes.size

/-- The node with a number. -/
def node? (t : Tree) (id : NodeId) : Option Node := t.nodes[id.index]?

/-- The children of a node, in order. -/
def children (t : Tree) (id : NodeId) : List NodeId :=
  match t.node? id with
  | some n => n.children.toList
  | none => []

/-- The children of a node have greater numbers, which belong to nodes. -/
theorem lt_of_mem_children {t : Tree} {id c : NodeId} (h : c ∈ t.children id) :
    id.index < c.index ∧ c.index < t.size := by
  unfold children at h
  split at h
  · next n hn => exact t.child_lt hn (Array.mem_toList_iff.1 h)
  · simp at h

/-! ### Growing a tree -/

/-- The nodes after a new last child of `parent` is added. -/
def pushNode (nodes : Array Node) (parent : NodeId) (content : Content) (location : Location) :
    Array Node :=
  let id : NodeId := ⟨nodes.size⟩
  (nodes.modify parent.index fun n => { n with children := n.children.push id }).push
    ⟨content, location, #[]⟩

/-- Adding a node keeps children behind their parents. -/
theorem child_lt_pushNode {nodes : Array Node} {parent : NodeId} {content : Content}
    {location : Location} (hp : parent.index < nodes.size)
    (h : ∀ {i : Nat} {n : Node} {c : NodeId},
      nodes[i]? = some n → c ∈ n.children → i < c.index ∧ c.index < nodes.size)
    {i : Nat} {n : Node} {c : NodeId}
    (hn : (pushNode nodes parent content location)[i]? = some n) (hc : c ∈ n.children) :
    i < c.index ∧ c.index < (pushNode nodes parent content location).size := by
  simp only [pushNode, Array.getElem?_push, Array.size_modify, Array.size_push] at hn ⊢
  split at hn
  · cases hn; simp at hc
  · rw [Array.getElem?_modify] at hn
    split at hn
    · next hi =>
      subst hi
      rcases Option.map_eq_some_iff.1 hn with ⟨m, hm, rfl⟩
      rcases Array.mem_push.1 hc with hc | rfl
      · exact ⟨(h hm hc).1, Nat.lt_succ_of_lt (h hm hc).2⟩
      · exact ⟨hp, Nat.lt_succ_self _⟩
    · exact ⟨(h hn hc).1, Nat.lt_succ_of_lt (h hn hc).2⟩

/-- Adds a last child to `parent`: the new node's number and the tree with it. -/
def push? (t : Tree) (parent : NodeId) (content : Content) (location : Location) :
    Except TreeFault (NodeId × Tree) :=
  if hp : parent.index < t.nodes.size then
    if t.size < capacity then
      .ok (⟨t.size⟩,
        { spelling := t.spelling
          nodes := pushNode t.nodes parent content location
          child_lt := child_lt_pushNode hp t.child_lt })
    else .error .tooManyNodes
  else .error (.unknownNode parent.index)

/-! ### Linking references -/

/-- The nodes after the target of a reference is set. -/
def linkNode (nodes : Array Node) (reference definition : NodeId) : Array Node :=
  nodes.modify reference.index fun n => { n with content := n.content.withTarget definition }

theorem child_lt_linkNode {nodes : Array Node} {reference definition : NodeId}
    (h : ∀ {i : Nat} {n : Node} {c : NodeId},
      nodes[i]? = some n → c ∈ n.children → i < c.index ∧ c.index < nodes.size)
    {i : Nat} {n : Node} {c : NodeId}
    (hn : (linkNode nodes reference definition)[i]? = some n) (hc : c ∈ n.children) :
    i < c.index ∧ c.index < (linkNode nodes reference definition).size := by
  simp only [linkNode, Array.size_modify, Array.getElem?_modify] at hn ⊢
  split at hn
  · next hi =>
    subst hi
    rcases Option.map_eq_some_iff.1 hn with ⟨m, hm, rfl⟩
    exact h hm hc
  · exact h hn hc

/-- Points a reference at the definition of what it refers to, in place of any earlier target. -/
def resolve? (t : Tree) (reference definition : NodeId) : Except TreeFault Tree :=
  match t.node? reference, t.node? definition with
  | none, _ => .error (.unknownNode reference.index)
  | some _, none => .error (.unknownNode definition.index)
  | some r, some d =>
    if d.content.isDefinition then
      if r.content.isReference then
        .ok
          { spelling := t.spelling
            nodes := linkNode t.nodes reference definition
            child_lt := child_lt_linkNode t.child_lt }
      else .error (.notReference reference.index)
    else .error (.notDefinition definition.index)

/-! ### Reading a tree -/

/-- The node that defines what a reference refers to. -/
def definition? (t : Tree) (r : Reference) : Option (NodeId × Node) := do
  let target ← r.target
  return (target, ← t.node? target)

/-- The name of the entity that node `id` refers to: that of the definition its link leads to. -/
def referredName? (t : Tree) (id : NodeId) : Option String := do
  let reference ← (← t.node? id).content.reference?
  let definition ← t.definition? reference
  definition.2.name?

end Tree

end TypeUses
