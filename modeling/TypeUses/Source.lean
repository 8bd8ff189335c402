import TypeUses.Config.Document
import TypeUses.Files.Store
import TypeUses.Resolution.Walk

/-!
# Sources — from a file to a tree

A `Grammar` parses the bytes of a source.  `treeOfSource` gives the tree of a source, unless the
configuration is strict and the parse has a fault; `treeOfFile` gives that of a file.

The stages of `treeOfFile` come in this order, and the first that fails gives the error: finding
the language, asking for the size, comparing it with the limit, reading, parsing.
-/

namespace TypeUses

/-- The parser of each language. -/
abbrev Grammar := Language → ByteArray → Concrete.Parse

/-- The tree of a source with its name, language and bytes. -/
def treeOfSource (config : Config) (grammar : Grammar) (spelling : String) (source : ByteArray)
    (language : Language) : Except Error Tree :=
  match Resolution.resolveNames language source spelling (grammar language source) with
  | .error fault => .error (.malformedTree fault)
  | .ok (tree, stats) =>
    match stats.firstError with
    | some first =>
      if config.strict then .error (.parse spelling (.malformed first stats.syntaxErrors))
      else .ok tree
    | none => .ok tree

/-- The bytes of a file that is not larger than the configuration allows. -/
def readSource (config : Config) (fs : FileSystem) (path : String) : Except Error ByteArray :=
  match fs.size path with
  | .error e => .error (.read path e)
  | .ok size =>
    if config.maxFileBytes < size then .error (.parse path (.tooLarge size config.maxFileBytes))
    else
      match fs.read path with
      | .error e => .error (.read path e)
      | .ok source => .ok source

/-- The tree of a file, which has the path as its name. -/
def treeOfFile (config : Config) (grammar : Grammar) (fs : FileSystem) (path : String) :
    Except Error Tree :=
  match config.languageFor? path with
  | none => .error (.unsupportedLanguage path)
  | some language =>
    match readSource config fs path with
    | .error e => .error e
    | .ok source => treeOfSource config grammar path source language

/-- The configuration in a file. -/
def Config.ofFile (fs : FileSystem) (path : String) : Except Error Config :=
  match fs.read path with
  | .error e => .error (.config (.unreadable path e))
  | .ok bytes =>
    match String.fromUTF8? bytes with
    | none => .error (.config (.notText path))
    | some text =>
      match Config.ofText? text with
      | none => .error (.config (.invalid path))
      | some config => .ok config

end TypeUses
