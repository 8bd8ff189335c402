import TypeUses.Concrete.Node
import TypeUses.Scope.Table

/-!
# Resolution — the context in which a node is read

How a name is to be read depends on where it stands.  A `Context` carries what the nodes around it
decide: the part that a name plays (`Role`) and where it is looked up.  A node hands a context to
each of its children (`childContext`), for which its own reading leaves an `Outline`.

A context reaches a name through nodes that only wrap it: a qualified name hands it to its last
segment, a template's name to the template, a declarator to the declarator inside it.  Every other
node hands down `Context.plain`.
-/

namespace TypeUses.Resolution

/-- The part that a name plays. -/
inductive Role
  /-- it refers to something -/
  | use
  /-- it names what its parent defines or declares -/
  | ownName
  /-- a `typedef` or alias introduces it -/
  | declaredType (kind : EntityKind)
  | templateParameter
  /-- it is the template in a name with template arguments -/
  | templateName
  /-- it is the tag in a type such as `struct Point` -/
  | tag (kind : EntityKind)
  /-- it is named by a directive `using namespace` -/
  | usedNamespace
deriving DecidableEq, Repr

namespace Role

/-- Whether a `typedef` or alias introduces the name. -/
def isDeclaredType : Role → Bool
  | declaredType _ => true
  | _ => false

end Role

/-- What the nodes around a node decide of its reading. -/
structure Context where
  role : Role
  lookup : Lookup
deriving DecidableEq, Repr

namespace Context

/-- The context of an unqualified name that plays a role. -/
def ofRole (role : Role) : Context := ⟨role, .lexical⟩

/-- The context of a node about which nothing special is known. -/
def plain : Context := ofRole .use

end Context

/-! ### Scopes that a node opens -/

/-- How a scope is entered. -/
inductive ScopeEntry
  | fresh (kind : ScopeKind)
  | members (entity : EntityId) (kind : ScopeKind)
  /-- a function's scope, with which the labels of the function begin -/
  | function
deriving DecidableEq, Repr

/-- A scope around some of a node's children: those from the first with field `before` on, or all of
them if no field is given. -/
structure Opening where
  entry : ScopeEntry
  before : Option Concrete.Field
deriving DecidableEq, Repr

/-- Whether the scope opens just in front of a child, if it has not opened yet. -/
def Opening.opensAt (o : Opening) (child : Concrete.Node) : Bool :=
  o.before.isNone || o.before == child.field

/-- What the reading of a node leaves for the reading of its children. -/
structure Outline where
  opening : Option Opening := none
  /-- where the last segment of a qualified name is looked up -/
  qualifier : Lookup := .member none
  /-- whether a specifier defines or declares its name -/
  namesEntity : Bool := false
deriving DecidableEq, Repr

/-! ### The context of a child -/

/-- The context of the name of a specifier. -/
def specifierNameContext (kind : EntityKind) (outline : Outline) : Context :=
  .ofRole (if outline.namesEntity then .ownName else .tag kind)

/-- A declarator hands the role of a declared type to the declarator inside it. -/
def declaratorContext (parent : Concrete.Node) (context : Context) (child : Concrete.Node) :
    Context :=
  let isDeclarator :=
    parent.kind = .parenthesizedDeclarator || parent.kind = .referenceDeclarator ||
      child.field = some .declarator
  if isDeclarator && context.role.isDeclaredType then context else .plain

/-- The context of a child of a template parameter. -/
def parameterContext (parent : Concrete.Node) (context : Context) (child : Concrete.Node) :
    Context :=
  if child.kind = .typeIdentifier && child.field != some .defaultType then
    .ofRole .templateParameter
  else declaratorContext parent context child

/-- The context of a child of a `using` declaration or directive. -/
def usingContext (parent : Concrete.Node) (context : Context) (child : Concrete.Node) : Context :=
  if parent.hasToken .namespaceToken then .ofRole .usedNamespace
  else declaratorContext parent context child

/-- The context that a node, itself read in `context`, hands to a child. -/
def childContext (parent : Concrete.Node) (context : Context) (outline : Outline)
    (child : Concrete.Node) : Context :=
  match parent.kind, child.field with
  | .structSpecifier, some .name => specifierNameContext .structTag outline
  | .unionSpecifier, some .name => specifierNameContext .unionTag outline
  | .enumSpecifier, some .name => specifierNameContext .enumTag outline
  | .classSpecifier, some .name => specifierNameContext .classTag outline
  | .typeDefinition, some .declarator => .ofRole (.declaredType .typedefName)
  | .aliasDeclaration, some .name => .ofRole (.declaredType .typeAlias)
  | .namespaceDefinition, some .name
  | .namespaceAliasDefinition, some .name
  | .labeledStatement, some .label => .ofRole .ownName
  | .nestedNamespaceSpecifier, _ => context
  | .typeParameter, _
  | .variadicTypeParameter, _
  | .optionalTypeParameter, _ => parameterContext parent context child
  | .qualifiedIdentifier, some .scope => ⟨.use, context.lookup⟩
  | .qualifiedIdentifier, some .name => ⟨context.role, outline.qualifier⟩
  | .templateType, some .name =>
    ⟨if context.role = .ownName then .ownName else .templateName, context.lookup⟩
  | .usingDeclaration, _ => usingContext parent context child
  | _, _ => declaratorContext parent context child

end TypeUses.Resolution
