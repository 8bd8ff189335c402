import TypeUses.Tree.Basic
import TypeUses.Text.Quoted

/-!
# Trees — the description of a node

`Node.description` writes a node as one line: its number, its content and its location.  Names and
spellings are quoted (`Text.quoted`).  Where the children would stand, two dots do.
-/

namespace TypeUses

/-- A name followed by named fields in braces. -/
def recordText (name : String) (fields : List (String × String)) : String :=
  name ++ " \x7b " ++ ", ".intercalate (fields.map fun f => f.1 ++ ": " ++ f.2) ++ " \x7d"

/-- A name followed by one argument in parentheses. -/
def appliedText (name argument : String) : String :=
  name ++ "(" ++ argument ++ ")"

/-- The word for a kind of entity. -/
def EntityKind.title : EntityKind → String
  | structTag => "Struct"
  | unionTag => "Union"
  | enumTag => "Enum"
  | classTag => "Class"
  | typedefName => "Typedef"
  | typeAlias => "TypeAlias"
  | namespaceName => "Namespace"
  | templateParameter => "TemplateParameter"
  | label => "Label"

/-- The word for a kind of reference. -/
def ReferenceKind.title : ReferenceKind → String
  | typeName => "Type"
  | templateName => "Template"
  | namespaceName => "Namespace"
  | label => "Label"

/-- The description of a number of a node. -/
def nodeIdText (id : NodeId) : String :=
  appliedText "NodeId" (toString id.index)

/-- The description of an entity: its kind and its name. -/
def Entity.description (e : Entity) : String :=
  recordText "Entity" [("kind", e.kind.title), ("name", Text.quoted e.name)]

/-- The description of a reference: its kind, its spelling and its target. -/
def Reference.description (r : Reference) : String :=
  recordText "Reference"
    [("kind", r.kind.title), ("spelling", Text.quoted r.spelling),
      ("target", match r.target with
        | some id => appliedText "Some" (nodeIdText id)
        | none => "None")]

/-- The description of what a node says. -/
def Content.description : Content → String
  | translationUnit => "TranslationUnit"
  | definition entity => appliedText "Definition" entity.description
  | declaration entity => appliedText "Declaration" entity.description
  | reference r => appliedText "Reference" r.description
  | other kind => appliedText "Syntax" (Text.quoted kind)

/-- The description of a location. -/
def Location.description (l : Location) : String :=
  recordText "Location" [("line", toString l.line.toNat), ("column", toString l.column.toNat)]

/-- The description of the node with number `id`. -/
def Node.description (n : Node) (id : NodeId) : String :=
  "Node \x7b id: " ++ nodeIdText id ++ ", kind: " ++ n.content.description ++ ", location: " ++
    n.location.description ++ ", .. \x7d"

end TypeUses
