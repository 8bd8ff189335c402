/-!
# Concrete syntax — grammatical kinds and fields

The kind of a node of a parse says which rule of the grammar it comes from, and its field says which
part of its parent it is.  Only the kinds and fields on which the meaning of names depends are told
apart; the others keep their names (`Kind.other`, `Field.other`).

Every name is the name of one kind, and `Kind.name` gives it back (`Kind.name_ofName`); so with
fields.
-/

namespace TypeUses.Concrete

/-- The grammatical kind of a node; that of a token is its text. -/
inductive Kind
  | translationUnit
  | error
  -- definitions and declarations
  | structSpecifier
  | unionSpecifier
  | enumSpecifier
  | classSpecifier
  | typeDefinition
  | aliasDeclaration
  | namespaceDefinition
  | namespaceAliasDefinition
  | nestedNamespaceSpecifier
  | labeledStatement
  | declaration
  | fieldDeclaration
  | usingDeclaration
  | namespaceToken
  -- template parameters
  | typeParameter
  | variadicTypeParameter
  | optionalTypeParameter
  -- scopes
  | functionDefinition
  | compoundStatement
  | forStatement
  | forRangeLoop
  | templateDeclaration
  -- declarators around a name
  | parenthesizedDeclarator
  | referenceDeclarator
  -- names
  | typeIdentifier
  | namespaceIdentifier
  | statementIdentifier
  | identifier
  | qualifiedIdentifier
  | templateType
  | other (name : String)
deriving DecidableEq, Repr

namespace Kind

/-- The kind that a grammar gives a name; a name of no use to the reading is kept as it is. -/
def ofName : String → Kind
  | "translation_unit" => translationUnit
  | "ERROR" => error
  | "struct_specifier" => structSpecifier
  | "union_specifier" => unionSpecifier
  | "enum_specifier" => enumSpecifier
  | "class_specifier" => classSpecifier
  | "type_definition" => typeDefinition
  | "alias_declaration" => aliasDeclaration
  | "namespace_definition" => namespaceDefinition
  | "namespace_alias_definition" => namespaceAliasDefinition
  | "nested_namespace_specifier" => nestedNamespaceSpecifier
  | "labeled_statement" => labeledStatement
  | "declaration" => declaration
  | "field_declaration" => fieldDeclaration
  | "using_declaration" => usingDeclaration
  | "namespace" => namespaceToken
  | "type_parameter_declaration" => typeParameter
  | "variadic_type_parameter_declaration" => variadicTypeParameter
  | "optional_type_parameter_declaration" => optionalTypeParameter
  | "function_definition" => functionDefinition
  | "compound_statement" => compoundStatement
  | "for_statement" => forStatement
  | "for_range_loop" => forRangeLoop
  | "template_declaration" => templateDeclaration
  | "parenthesized_declarator" => parenthesizedDeclarator
  | "reference_declarator" => referenceDeclarator
  | "type_identifier" => typeIdentifier
  | "namespace_identifier" => namespaceIdentifier
  | "statement_identifier" => statementIdentifier
  | "identifier" => identifier
  | "qualified_identifier" => qualifiedIdentifier
  | "template_type" => templateType
  | name => other name

/-- The name that a grammar gives a kind. -/
def name : Kind → String
  | translationUnit => "translation_unit"
  | error => "ERROR"
  | structSpecifier => "struct_specifier"
  | unionSpecifier => "union_specifier"
  | enumSpecifier => "enum_specifier"
  | classSpecifier => "class_specifier"
  | typeDefinition => "type_definition"
  | aliasDeclaration => "alias_declaration"
  | namespaceDefinition => "namespace_definition"
  | namespaceAliasDefinition => "namespace_alias_definition"
  | nestedNamespaceSpecifier => "nested_namespace_specifier"
  | labeledStatement => "labeled_statement"
  | declaration => "declaration"
  | fieldDeclaration => "field_declaration"
  | usingDeclaration => "using_declaration"
  | namespaceToken => "namespace"
  | typeParameter => "type_parameter_declaration"
  | variadicTypeParameter => "variadic_type_parameter_declaration"
  | optionalTypeParameter => "optional_type_parameter_declaration"
  | functionDefinition => "function_definition"
  | compoundStatement => "compound_statement"
  | forStatement => "for_statement"
  | forRangeLoop => "for_range_loop"
  | templateDeclaration => "template_declaration"
  | parenthesizedDeclarator => "parenthesized_declarator"
  | referenceDeclarator => "reference_declarator"
  | typeIdentifier => "type_identifier"
  | namespaceIdentifier => "namespace_identifier"
  | statementIdentifier => "statement_identifier"
  | identifier => "identifier"
  | qualifiedIdentifier => "qualified_identifier"
  | templateType => "template_type"
  | other name => name

theorem name_ofName (s : String) : (ofName s).name = s := by
  unfold ofName
  split <;> rfl

end Kind

/-- The part that a node is of its parent. -/
inductive Field
  | name
  | body
  | declarator
  | type
  | label
  | scope
  | defaultType
  | other (name : String)
deriving DecidableEq, Repr

namespace Field

/-- The field with a name, which no field has if the name is empty. -/
def ofName? : String → Option Field
  | "" => none
  | "name" => some name
  | "body" => some body
  | "declarator" => some declarator
  | "type" => some type
  | "label" => some label
  | "scope" => some scope
  | "default_type" => some defaultType
  | s => some (other s)

end Field

end TypeUses.Concrete
