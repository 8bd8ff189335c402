import TypeUses.Files.Path
import TypeUses.Language

/-!
# Configuration

A configuration says in which language files are read, whether malformed sources are refused, and
how large a file may be.  The language of a file is the one that the configuration forces; else
the one that its table gives for the extension as written, and then for the extension with `A` to
`Z` in lower case; else the one whose own extension it is.
-/

namespace TypeUses

/-- A table from extensions to languages, in which a later entry replaces an earlier one. -/
abbrev ExtensionTable := List (String × Language)

/-- The table with one more entry. -/
def ExtensionTable.set (table : ExtensionTable) (ext : String) (language : Language) :
    ExtensionTable :=
  table.filter (fun entry => entry.1 != ext) ++ [(ext, language)]

/-- The configuration of a reading. -/
structure Config where
  /-- the language in which every file is read, if there is one -/
  language : Option Language := none
  /-- whether a malformed source is refused -/
  strict : Bool := false
  /-- the number of bytes that a file may have -/
  maxFileBytes : Nat := 16 * 1024 * 1024
  extensions : ExtensionTable := []
deriving DecidableEq, Repr

namespace Config

/-- The language of files with an extension. -/
def languageOfExtension? (config : Config) (ext : String) : Option Language :=
  (config.extensions.lookup ext).or <|
    (config.extensions.lookup (Text.asciiLower ext)).or <|
      Language.ofExtension? ext

/-- The language of the file at a path. -/
def languageFor? (config : Config) (path : String) : Option Language :=
  config.language.or ((Path.extension? path).bind config.languageOfExtension?)

end Config

end TypeUses
