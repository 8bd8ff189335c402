import TypeUses.Tree.Basic

/-!
# Scopes — the table of scopes, names and entities

A table records what the names of one translation unit mean while the unit is read from its start to
its end.

* A *scope* binds names.  Each scope lists the scopes that enclose it, nearest first, so that an
  unqualified name is looked up along `enclosing`; scope 0 is the file scope.
* An *entity* is what a name means.  It has a kind, a node that defines it once there is one, and,
  if its members have been entered, a scope of its own for them.
* Names are kept apart in three *spaces*.  Where tags are types, a tag is bound as an ordinary name
  as well.
* The scopes in which the reading stands are *active*: `current` is the innermost and `outer` lists
  the others from there outwards.

The operations enter and leave scopes (`enter`, `enterMembers`, `leave`), bind names (`define`,
`defineParameter`, `declare`, `declareImplicit`, `useNamespace`) and look names up (`lookup`).
-/

namespace TypeUses

/-- The number of a scope. -/
@[ext]
structure ScopeId where
  index : Nat
deriving DecidableEq, Repr

/-- The number of an entity. -/
@[ext]
structure EntityId where
  index : Nat
deriving DecidableEq, Repr

/-- What a scope belongs to. -/
inductive ScopeKind
  | file
  | namespaceBody
  | classBody
  /-- the parameters and the body of a function -/
  | function
  /-- a compound or `for` statement -/
  | block
  /-- the parameters of a template and what they parameterise -/
  | template
deriving DecidableEq, Repr

/-- Sets of names that do not clash with each other. -/
inductive Space
  | tag
  /-- names of types and templates -/
  | ordinary
  | namespaces
deriving DecidableEq, Repr

/-- Where a name is looked up. -/
inductive Lookup
  /-- from the current scope outwards -/
  | lexical
  /-- among the members of what the qualifier means, if it means anything -/
  | member (qualifier : Option EntityId)
  /-- in the file scope -/
  | global
deriving DecidableEq, Repr

/-- A scope: what it binds and how it lies among the others. -/
structure Scope where
  kind : ScopeKind
  /-- the scopes around this one, nearest first -/
  enclosing : List ScopeId
  /-- what is bound, latest first -/
  names : List ((Space × String) × EntityId) := []
  /-- the scopes whose names a `using` directive makes visible here -/
  used : List ScopeId := []
deriving DecidableEq, Repr

namespace Scope

/-- The meaning of a name that the scope itself binds. -/
def local? (s : Scope) (space : Space) (name : String) : Option EntityId :=
  s.names.lookup (space, name)

/-- The scope with a name bound to an entity in some spaces; older bindings are shadowed. -/
def bind (s : Scope) (spaces : List Space) (name : String) (entity : EntityId) : Scope :=
  { s with names := (spaces.map fun space => ((space, name), entity)) ++ s.names }

/-- The scope with the names of another made visible, once. -/
def use (s : Scope) (scope : ScopeId) : Scope :=
  if scope ∈ s.used then s else { s with used := s.used ++ [scope] }

end Scope

/-- What is known of an entity. -/
structure EntityInfo where
  kind : EntityKind
  definition : Option NodeId := none
  members : Option ScopeId := none
deriving DecidableEq, Repr

/-- The scopes and entities of a unit by number, and where among the scopes the reading stands. -/
structure Table where
  scopes : Array Scope
  entities : Array EntityInfo
  current : ScopeId
  outer : List ScopeId
  tagsAreTypes : Bool
deriving DecidableEq, Repr

namespace Table

/-- The scope of the whole unit. -/
def fileScope : ScopeId := ⟨0⟩

/-- The table with the file scope alone, in which nothing is bound. -/
def empty (tagsAreTypes : Bool) : Table where
  scopes := #[⟨.file, [], [], []⟩]
  entities := #[]
  current := fileScope
  outer := []
  tagsAreTypes := tagsAreTypes

/-! ### Views -/

/-- The scope with a number. -/
def scope? (t : Table) (s : ScopeId) : Option Scope := t.scopes[s.index]?

/-- What is known of the entity with a number. -/
def entity? (t : Table) (e : EntityId) : Option EntityInfo := t.entities[e.index]?

/-- The kind of an entity. -/
def kind? (t : Table) (e : EntityId) : Option EntityKind := (t.entity? e).map EntityInfo.kind

/-- The node that defines an entity. -/
def definition? (t : Table) (e : EntityId) : Option NodeId := (t.entity? e).bind EntityInfo.definition

/-- The scope of an entity's members. -/
def members? (t : Table) (e : EntityId) : Option ScopeId := (t.entity? e).bind EntityInfo.members

/-- The active scopes, innermost first. -/
def active (t : Table) : List ScopeId := t.current :: t.outer

/-- The number of active scopes. -/
def depth (t : Table) : Nat := t.active.length

/-- A scope and those that enclose it, the order in which an unqualified name is looked up. -/
def chain (t : Table) (s : ScopeId) : List ScopeId :=
  s :: ((t.scope? s).map Scope.enclosing).getD []

/-! ### Looking names up -/

/-- The meaning of a name that scope `s` itself binds. -/
def local? (t : Table) (s : ScopeId) (space : Space) (name : String) : Option EntityId :=
  (t.scope? s).bind fun scope => scope.local? space name

/-- The first meaning that scope `s` itself gives a name in one of the spaces. -/
def localIn? (t : Table) (spaces : List Space) (name : String) (s : ScopeId) : Option EntityId :=
  spaces.findSome? fun space => t.local? s space name

/-- The scopes whose names are visible in scope `s`. -/
def usedBy (t : Table) (s : ScopeId) : List ScopeId :=
  ((t.scope? s).map Scope.used).getD []

/-- The meaning of a name in scope `s`: its own first, then that of the scopes it uses, in order. -/
def search (t : Table) (spaces : List Space) (name : String) (s : ScopeId) : Option EntityId :=
  (s :: t.usedBy s).findSome? (t.localIn? spaces name)

/-- The meaning of a name. -/
def lookup (t : Table) (spaces : List Space) (name : String) : Lookup → Option EntityId
  | .lexical => (t.chain t.current).findSome? (t.search spaces name)
  | .member (some e) => (t.members? e).bind (t.search spaces name)
  | .member none => none
  | .global => t.search spaces name fileScope

/-! ### Entering and leaving scopes -/

/-- Adds a scope inside the current one. -/
def newScope (t : Table) (kind : ScopeKind) : ScopeId × Table :=
  (⟨t.scopes.size⟩, { t with scopes := t.scopes.push ⟨kind, t.chain t.current, [], []⟩ })

/-- Makes a scope the innermost active one. -/
def activate (t : Table) (s : ScopeId) : Table :=
  { t with current := s, outer := t.active }

/-- Enters a new scope inside the current one. -/
def enter (t : Table) (kind : ScopeKind) : ScopeId × Table :=
  let (s, t) := t.newScope kind
  (s, t.activate s)

/-- Enters the scope of an entity's members, a new one inside the current scope the first time. -/
def enterMembers (t : Table) (e : EntityId) (kind : ScopeKind) : ScopeId × Table :=
  match t.members? e with
  | some s => (s, t.activate s)
  | none =>
    let (s, t) := t.newScope kind
    let t := { t with
      entities := t.entities.modify e.index fun info => { info with members := some s } }
    (s, t.activate s)

/-- Leaves the innermost scope; the file scope is never left. -/
def leave (t : Table) : Table :=
  match t.outer with
  | s :: outer => { t with current := s, outer := outer }
  | [] => t

/-! ### The scope in which a name is bound -/

/-- The innermost active scope whose kind is accepted. -/
def innermost (t : Table) (accept : ScopeKind → Bool) : ScopeId :=
  (t.active.find? fun s => ((t.scope? s).map fun scope => accept scope.kind).getD false).getD
    fileScope

/-- A definition or declaration binds in the innermost scope that is not a template's. -/
def bindingScope (t : Table) : ScopeId :=
  t.innermost fun kind => kind != .template

/-- A tag declared by its first use is bound in the innermost scope that is neither a class's nor a
template's. -/
def implicitScope (t : Table) : ScopeId :=
  t.innermost fun kind => kind != .classBody && kind != .template

/-! ### Binding names -/

/-- Whether an entity of one kind can be named again as one of another: the kinds are the same, or
tags are types and both are tags. -/
def compatible (t : Table) (existing kind : EntityKind) : Bool :=
  existing == kind || (t.tagsAreTypes && existing.isTag && kind.isTag)

/-- The entity that scope `s` binds already under this name and a compatible kind. -/
def compatible? (t : Table) (s : ScopeId) (space : Space) (name : String) (kind : EntityKind) :
    Option EntityId :=
  (t.local? s space name).filter fun e =>
    ((t.kind? e).map fun existing => t.compatible existing kind).getD false

/-- The spaces in which a name of a space is bound. -/
def boundSpaces (t : Table) : Space → List Space
  | .tag => if t.tagsAreTypes then [.tag, .ordinary] else [.tag]
  | space => [space]

/-- Adds an entity and binds a name to it in scope `s`, in place of any earlier meaning. -/
def create (t : Table) (s : ScopeId) (space : Space) (name : String) (info : EntityInfo) :
    EntityId × Table :=
  let e : EntityId := ⟨t.entities.size⟩
  (e, { t with
    entities := t.entities.push info
    scopes := t.scopes.modify s.index fun scope => scope.bind (t.boundSpaces space) name e })

/-- Records that `node` defines an entity; the first definition stays. -/
def complete (t : Table) (e : EntityId) (kind : EntityKind) (node : NodeId) : Table :=
  { t with
    entities := t.entities.modify e.index fun info =>
      { info with kind := kind, definition := info.definition.or (some node) } }

/-- Defines a name in scope `s`.  An entity that is only declared there under that name receives the
definition, and a namespace is opened again; otherwise the name means a new entity. -/
def defineIn (t : Table) (s : ScopeId) (space : Space) (name : String) (kind : EntityKind)
    (node : NodeId) : EntityId × Table :=
  match t.compatible? s space name kind with
  | some e =>
    if (t.definition? e).isNone || kind == .namespaceName then (e, t.complete e kind node)
    else t.create s space name ⟨kind, some node, none⟩
  | none => t.create s space name ⟨kind, some node, none⟩

/-- Declares a name in scope `s`, where it keeps a meaning of a compatible kind. -/
def declareIn (t : Table) (s : ScopeId) (space : Space) (name : String) (kind : EntityKind) :
    EntityId × Table :=
  match t.compatible? s space name kind with
  | some e => (e, t)
  | none => t.create s space name ⟨kind, none, none⟩

/-- Defines a name. -/
def define (t : Table) (space : Space) (name : String) (kind : EntityKind) (node : NodeId) :
    EntityId × Table :=
  t.defineIn t.bindingScope space name kind node

/-- Defines an ordinary name in the current scope, even if it is a template's. -/
def defineParameter (t : Table) (name : String) (kind : EntityKind) (node : NodeId) :
    EntityId × Table :=
  t.defineIn t.current .ordinary name kind node

/-- Declares a name without defining it. -/
def declare (t : Table) (space : Space) (name : String) (kind : EntityKind) : EntityId × Table :=
  t.declareIn t.bindingScope space name kind

/-- Declares a name by its first use. -/
def declareImplicit (t : Table) (space : Space) (name : String) (kind : EntityKind) :
    EntityId × Table :=
  t.declareIn t.implicitScope space name kind

/-- Makes the members of an entity visible in the binding scope. -/
def useNamespace (t : Table) (e : EntityId) : Table :=
  match t.members? e with
  | some s => { t with scopes := t.scopes.modify t.bindingScope.index (·.use s) }
  | none => t

end Table

end TypeUses
