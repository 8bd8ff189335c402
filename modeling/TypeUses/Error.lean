import TypeUses.Language
import TypeUses.Location

/-!
# Errors

An error says which stage failed and why: a file could not be read, its language is not known, its
source is not accepted, the configuration is wrong, the output could not be written, or a tree
was put together wrongly.  Each cause is a value; `Error.message` gives it words, and
`Error.causes` lists the causes that lie below it.
-/

namespace TypeUses

/-! ### Causes -/

/-- Why the system refused to open or read something. -/
inductive SystemError
  | notFound
  | isDirectory
  | notDirectory
  | nulInPath
  | other (text : String)
deriving DecidableEq, Repr

/-- The words for a refusal of the system. -/
def SystemError.text : SystemError → String
  | notFound => "No such file or directory (os error 2)"
  | isDirectory => "Is a directory (os error 21)"
  | notDirectory => "Not a directory (os error 20)"
  | nulInPath => "file name contained an unexpected NUL byte"
  | other text => text

/-- Why a source was not accepted. -/
inductive SourceFault
  /-- the file has more bytes than the configuration allows -/
  | tooLarge (size limit : Nat)
  /-- a strict reading met a malformed source -/
  | malformed (first : Location) (count : Nat)
  | other (text : String)
deriving DecidableEq, Repr

/-- The words for a fault of a source. -/
def SourceFault.text : SourceFault → String
  | tooLarge size limit =>
    "file is " ++ toString size ++ " bytes, over the " ++ toString limit ++ " byte limit"
  | malformed first count =>
    "syntax error at " ++ first.text ++ " (" ++ toString count ++ " error node(s))"
  | other text => text

/-- Why a configuration was refused. -/
inductive ConfigFault
  | unreadable (path : String) (cause : SystemError)
  /-- the file is not text -/
  | notText (path : String)
  /-- the file is text, but not that of a configuration -/
  | invalid (path : String)
  | other (text : String)
deriving DecidableEq, Repr

/-- The words for a fault of a configuration. -/
def ConfigFault.text : ConfigFault → String
  | unreadable path cause => "cannot read " ++ path ++ ": " ++ cause.text
  | notText path => "cannot read " ++ path ++ ": stream did not contain valid UTF-8"
  | invalid path => path ++ ": "
  | other text => text

/-- Why a step in putting a tree together was refused. -/
inductive TreeFault
  | unknownNode (id : Nat)
  | tooManyNodes
  | notDefinition (id : Nat)
  | notReference (id : Nat)
  | other (text : String)
deriving DecidableEq, Repr

/-- The words for a fault in putting a tree together. -/
def TreeFault.text : TreeFault → String
  | unknownNode id => "unknown node " ++ toString id
  | tooManyNodes => "too many nodes"
  | notDefinition id => "node " ++ toString id ++ " is not a definition"
  | notReference id => "node " ++ toString id ++ " is not a reference"
  | other text => text

/-! ### Errors -/

/-- Why a request fails. -/
inductive Error
  /-- the grammar of a language cannot be loaded -/
  | providerUnavailable (language : Language) (reason : String)
  | read (path : String) (cause : SystemError)
  | unsupportedLanguage (path : String)
  | parse (path : String) (fault : SourceFault)
  | config (fault : ConfigFault)
  | io (cause : SystemError)
  | malformedTree (fault : TreeFault)
deriving DecidableEq, Repr

namespace Error

/-- What is said of an error. -/
def message : Error → String
  | providerUnavailable language reason =>
    "provider unavailable: cannot load the " ++ language.name ++ " grammar: " ++ reason
  | read path _ => "failed to read " ++ path
  | unsupportedLanguage path =>
    "failed to parse " ++ path ++ ": unsupported file extension (use --language to force one)"
  | parse path fault => "failed to parse " ++ path ++ ": " ++ fault.text
  | config fault => "configuration error: " ++ fault.text
  | io cause => "I/O error: " ++ cause.text
  | malformedTree fault => "malformed syntax tree: " ++ fault.text

/-- The causes below an error, outermost first. -/
def causes : Error → List String
  | read _ cause | io cause => [cause.text]
  | _ => []

/-- Whether the user's input is at fault, and not the installation or the configuration. -/
def isInputError : Error → Bool
  | read .. | unsupportedLanguage .. | parse .. => true
  | _ => false

end Error

end TypeUses
