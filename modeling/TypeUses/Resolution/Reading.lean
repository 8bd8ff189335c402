import TypeUses.Language
import TypeUses.Resolution.Context

/-!
# Resolution — what a node is read as

`readNode` decides, for one node of a parse in its place (`Frame`), what the node of the tree
says, what it does to the table of scopes, which entity it refers to, and what it leaves for its
children.  The number that the tree's node will have is known beforehand.

* A specifier with a body defines its name, one that stands alone declares it, and any other leaves
  its name to be read as a tag.
* A namespace or label defines its name.
* A type identifier defines a name, or refers to one, by its role.
* A namespace identifier refers to a namespace or, as a qualifier, to a class.
* A statement identifier that is no label's own name refers to a label; to which one is known when
  its function ends.
* Functions, blocks, `for` statements and templates open scopes.

Only an unqualified name is taken as it stands: `simpleName?` is the name of a specifier whose
name is neither qualified nor a template's.
-/

namespace TypeUses.Resolution

/-- The text of an item: its bytes of the source, or nothing if they are not text. -/
def textOf (source : ByteArray) (i : Concrete.Item) : String :=
  (String.fromUTF8? (source.extract i.start i.stop)).getD ""

/-- A node of a parse in its place: below which node of the parse and of the tree, and in which
context. -/
structure Frame where
  node : Concrete.Node
  outer : Concrete.Node
  parent : NodeId
  context : Context

/-- What a node is read as. -/
structure Reading where
  content : Content
  /-- the table after the node's names are bound -/
  scopes : Table
  /-- the entity that a reference means -/
  entity : Option EntityId := none
  outline : Outline := {}

/-- The node keeps its kind and says nothing else. -/
def Reading.plain (scopes : Table) (f : Frame) (outline : Outline := {}) : Reading :=
  { content := .other f.node.kind.name, scopes := scopes, outline := outline }

/-! ### Names of specifiers -/

mutual

/-- The last segment of a name that may be qualified or have template arguments. -/
def lastSegment : Concrete.Node → Concrete.Node
  | .node i cs =>
    if i.kind = .qualifiedIdentifier ∨ i.kind = .templateType then
      lastSegmentOfName cs (.node i cs)
    else .node i cs

/-- The last segment of the first child that is a name, or a default if there is none. -/
def lastSegmentOfName : List Concrete.Node → Concrete.Node → Concrete.Node
  | [], default => default
  | .node i cs :: rest, default =>
    if i.field = some .name then lastSegment (.node i cs) else lastSegmentOfName rest default

end

/-- The name of a specifier, qualifiers and template arguments left out. -/
def specifierName (source : ByteArray) (specifier : Concrete.Node) : String :=
  match specifier.child? .name with
  | some n => textOf source (lastSegment n).item
  | none => ""

/-- The name of a specifier, if it is one identifier. -/
def simpleName? (source : ByteArray) (specifier : Concrete.Node) : Option String :=
  match specifier.child? .name with
  | some n => if n.kind = .typeIdentifier then some (textOf source n.item) else none
  | none => none

/-- Whether a specifier stands alone, as in `struct Point;`, and not as the type of something. -/
def standsAlone (f : Frame) : Bool :=
  match f.outer.kind, f.node.field with
  | kind, none => kind != .error
  | .declaration, some .type
  | .fieldDeclaration, some .type => (f.outer.child? .declarator).isNone
  | _, _ => false

/-! ### Specifiers, namespaces and labels -/

/-- A specifier with a body defines its name, and where class bodies are scopes the body is the
scope of the entity's members. -/
def readDefinedTag (language : Language) (source : ByteArray) (scopes : Table) (id : NodeId)
    (f : Frame) (kind : EntityKind) : Reading :=
  let content := Content.definition ⟨kind, specifierName source f.node⟩
  match simpleName? source f.node with
  | some name =>
    let (entity, scopes) := scopes.define .tag name kind id
    let opening : Option Opening :=
      if language.classBodiesAreScopes then some ⟨.members entity .classBody, some .body⟩ else none
    { content := content, scopes := scopes, outline := { opening := opening, namesEntity := true } }
  | none => { content := content, scopes := scopes, outline := { namesEntity := true } }

/-- A specifier with a body defines a tag, one that stands alone declares it, and any other leaves
its name to be read as a use. -/
def readSpecifier (language : Language) (source : ByteArray) (scopes : Table) (id : NodeId)
    (f : Frame) (kind : EntityKind) : Reading :=
  if (f.node.child? .body).isSome then readDefinedTag language source scopes id f kind
  else
    match simpleName? source f.node with
    | some name =>
      if standsAlone f then
        { content := .declaration ⟨kind, name⟩
          scopes := (scopes.declare .tag name kind).2
          outline := { namesEntity := true } }
      else .plain scopes f
    | none => .plain scopes f

/-- A namespace with a simple name is an entity with members; one with a nested name opens a scope
of its own, and one without a name opens none. -/
def readNamespace (source : ByteArray) (scopes : Table) (id : NodeId) (f : Frame) : Reading :=
  match f.node.child? .name with
  | some n =>
    let name := textOf source n.item
    let content := Content.definition ⟨.namespaceName, name⟩
    if n.kind = .namespaceIdentifier then
      let (entity, scopes) := scopes.define .namespaces name .namespaceName id
      { content := content
        scopes := scopes
        outline := { opening := some ⟨.members entity .namespaceBody, some .body⟩ } }
    else
      { content := content
        scopes := scopes
        outline := { opening := some ⟨.fresh .namespaceBody, some .body⟩ } }
  | none => { content := .definition ⟨.namespaceName, ""⟩, scopes := scopes }

/-- A label defines its name in its function; nothing is bound in a scope. -/
def readLabel (source : ByteArray) (scopes : Table) (f : Frame) : Reading :=
  let name :=
    match f.node.child? .label with
    | some n => textOf source n.item
    | none => ""
  { content := .definition ⟨.label, name⟩, scopes := scopes }

/-! ### Names -/

/-- A reference to an entity, if the name means one. -/
def Reading.ofReference (scopes : Table) (kind : ReferenceKind) (spelling : String)
    (entity : Option EntityId) : Reading :=
  { content := .reference { kind := kind, spelling := spelling }
    scopes := scopes
    entity := entity }

/-- A tag refers to what it means; an unqualified tag that means nothing yet declares itself. -/
def readTag (scopes : Table) (lookup : Lookup) (name : String) (kind : EntityKind) : Reading :=
  match scopes.lookup [.tag] name lookup with
  | some entity => .ofReference scopes .typeName name (some entity)
  | none =>
    if lookup = .lexical then
      let (entity, scopes) := scopes.declareImplicit .tag name kind
      .ofReference scopes .typeName name (some entity)
    else .ofReference scopes .typeName name none

/-- A type identifier introduces a name or refers to one, as its role says. -/
def readTypeIdentifier (source : ByteArray) (scopes : Table) (id : NodeId) (f : Frame) : Reading :=
  let name := textOf source f.node.item
  match f.context.role with
  | .ownName => .plain scopes f
  | .declaredType kind =>
    { content := .definition ⟨kind, name⟩, scopes := (scopes.define .ordinary name kind id).2 }
  | .templateParameter =>
    { content := .definition ⟨.templateParameter, name⟩
      scopes := (scopes.defineParameter name .templateParameter id).2 }
  | .tag kind => readTag scopes f.context.lookup name kind
  | .templateName =>
    .ofReference scopes .templateName name (scopes.lookup [.ordinary] name f.context.lookup)
  | .use
  | .usedNamespace =>
    .ofReference scopes .typeName name (scopes.lookup [.ordinary] name f.context.lookup)

/-- The kind of a reference that a namespace identifier makes: to a type if it means one. -/
def qualifierReferenceKind (kind : Option EntityKind) : ReferenceKind :=
  match kind with
  | some .namespaceName
  | none => .namespaceName
  | some _ => .typeName

/-- A namespace identifier refers to a namespace or a type that qualifies a name; behind
`using namespace` it makes the members of what it means visible. -/
def readNamespaceIdentifier (source : ByteArray) (scopes : Table) (f : Frame) : Reading :=
  if f.context.role = .ownName then .plain scopes f
  else
    let name := textOf source f.node.item
    let entity := scopes.lookup [.namespaces, .tag] name f.context.lookup
    let kind := qualifierReferenceKind (entity.bind scopes.kind?)
    match f.context.role, entity with
    | .usedNamespace, some e => .ofReference (scopes.useNamespace e) kind name (some e)
    | _, entity => .ofReference scopes kind name entity

/-- The label of a `goto` is a reference; what it means is known when its function is left. -/
def readStatementIdentifier (source : ByteArray) (scopes : Table) (f : Frame) : Reading :=
  if f.context.role = .ownName then .plain scopes f
  else .ofReference scopes .label (textOf source f.node.item) none

/-! ### Qualified names -/

/-- Where the last segment of a qualified name is looked up: among the members of what the segment
before it means, or in the file scope if no segment stands before it. -/
def qualifierOf (source : ByteArray) (scopes : Table) (node : Concrete.Node) (lookup : Lookup) :
    Lookup :=
  match node.child? .scope with
  | none => .global
  | some segment =>
    match segment.kind with
    | .namespaceIdentifier =>
      .member (scopes.lookup [.namespaces, .tag] (textOf source segment.item) lookup)
    | .templateType =>
      .member ((segment.child? .name).bind fun n =>
        scopes.lookup [.ordinary] (textOf source n.item) lookup)
    | _ => .member none

/-! ### Any node -/

/-- What a node is read as. -/
def readNode (language : Language) (source : ByteArray) (scopes : Table) (id : NodeId) (f : Frame) :
    Reading :=
  match f.node.kind with
  | .structSpecifier => readSpecifier language source scopes id f .structTag
  | .unionSpecifier => readSpecifier language source scopes id f .unionTag
  | .enumSpecifier => readSpecifier language source scopes id f .enumTag
  | .classSpecifier => readSpecifier language source scopes id f .classTag
  | .namespaceDefinition => readNamespace source scopes id f
  | .labeledStatement => readLabel source scopes f
  | .typeIdentifier => readTypeIdentifier source scopes id f
  | .namespaceIdentifier => readNamespaceIdentifier source scopes f
  | .identifier =>
    if f.context.role = .usedNamespace then readNamespaceIdentifier source scopes f
    else .plain scopes f
  | .statementIdentifier => readStatementIdentifier source scopes f
  | .qualifiedIdentifier =>
    .plain scopes f { qualifier := qualifierOf source scopes f.node f.context.lookup }
  | .functionDefinition => .plain scopes f { opening := some ⟨.function, some .declarator⟩ }
  | .compoundStatement
  | .forStatement
  | .forRangeLoop => .plain scopes f { opening := some ⟨.fresh .block, none⟩ }
  | .templateDeclaration => .plain scopes f { opening := some ⟨.fresh .template, none⟩ }
  | _ => .plain scopes f

end TypeUses.Resolution
