import TypeUses.Text.LowerCase

/-!
# Languages

The two source languages.  A language is told from the extension of a file name or from a name that
a user writes, in both cases without regard to letter case (`Text.lower`).

The languages differ in two rules of naming: whether a tag (the name of a struct, union, enum or
class) is also the name of a type, and whether the body of a struct or class is a scope.
-/

namespace TypeUses

/-- The languages of the sources that are read. -/
inductive Language
  | c
  | cpp
deriving DecidableEq, Repr

namespace Language

/-- All languages, in the order in which they are tried. -/
def all : List Language := [c, cpp]

/-- The short name of a language. -/
def name : Language → String
  | c => "c"
  | cpp => "cpp"

/-- The extensions of the files that are read in a language by default. -/
def extensions : Language → List String
  | c => ["c", "h"]
  | cpp => ["cc", "cpp", "cxx", "c++", "hh", "hpp", "hxx", "h++", "ipp", "inl"]

/-- The language of files with an extension. -/
def ofExtension? (ext : String) : Option Language :=
  all.find? fun language => language.extensions.contains (Text.lower ext)

/-- The names, in lower case, that a user may write for a language. -/
def spellings : Language → List String
  | c => ["c"]
  | cpp => ["cpp", "c++", "cxx"]

/-- The language that a user names. -/
def ofName? (name : String) : Option Language :=
  all.find? fun language => language.spellings.contains (Text.lower name)

/-- What is said of a name that names no language. -/
def unknownMessage (name : String) : String :=
  "unknown language '" ++ Text.lower name ++ "'. Valid languages: " ++
    ", ".intercalate (all.map Language.name)

/-- The language with exactly this short name. -/
def ofShortName? (s : String) : Option Language :=
  all.find? fun language => language.name == s

/-! ### Rules of naming -/

/-- Whether a tag is also the name of a type. -/
def tagsAreTypes : Language → Bool
  | c => false
  | cpp => true

/-- Whether the body of a struct, union, enum or class is a scope. -/
def classBodiesAreScopes : Language → Bool
  | c => false
  | cpp => true

end Language

end TypeUses
