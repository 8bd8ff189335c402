import TypeUses.Command.Arguments
import TypeUses.Source
import TypeUses.Tree.Uses

/-!
# Command line — what the command does

`run` answers a request with an exit code and the texts for the two output channels.  A search that
succeeds writes the name of the translation unit and one line for each use, in pre-order; one that
fails writes nothing there, and its error with the causes below it to the other channel.
-/

namespace TypeUses.Command

/-- The answer to a request: the exit code and what goes to either output channel. -/
structure Response where
  code : Nat
  stdout : String := ""
  stderr : String := ""
deriving DecidableEq, Repr

/-- What `--version` prints. -/
def versionText : String := "typeref 0.1.0\n"

/-- What a usage error prints. -/
def usageText : String :=
  "Usage: typeref [OPTIONS] <FILE> <TYPE_NAME>\n"

/-- What `--help` prints. -/
def helpText : String :=
  "Find every reference to a named type in a C or C++ source file\n\n" ++ usageText ++
    "\nArguments:\n" ++
    "  <FILE>       Source file to parse\n" ++
    "  <TYPE_NAME>  Exact, case-sensitive name of the type to look for\n" ++
    "\nOptions:\n" ++
    "  -l, --language <LANGUAGE>  Parse as this language instead of detecting it " ++
    "from the extension (c, cpp)\n" ++
    "      --strict               Fail if the source file has syntax errors\n" ++
    "  -c, --config <CONFIG>      YAML provider configuration file\n" ++
    "  -v, --verbose...           Verbose output (can be repeated: -v, -vv, -vvv)\n" ++
    "  -h, --help                 Print help\n" ++
    "  -V, --version              Print version\n"

/-- The configuration of a search: the file's or the default one, then the options. -/
def configOf (fs : FileSystem) (options : Options) : Except Error Config :=
  let base : Except Error Config :=
    match options.config with
    | some path => Config.ofFile fs path
    | none => .ok {}
  base.map fun config =>
    { config with
      language := options.language.or config.language
      strict := config.strict || options.strict }

/-- The tree that a search goes through. -/
def treeOf (grammar : Grammar) (fs : FileSystem) (options : Options) : Except Error Tree :=
  match configOf fs options with
  | .error e => .error e
  | .ok config => treeOfFile config grammar fs options.file

/-- The line that is printed of a use: name, line and column. -/
def Use.line (u : Use) : String :=
  u.name ++ " " ++ toString u.location.line.toNat ++ " " ++ toString u.location.column.toNat ++ "\n"

/-- What is written of the uses of a name in a tree. -/
def report (tree : Tree) (name : String) : String :=
  "Translation unit: " ++ tree.spelling ++ "\n" ++
    String.join ((tree.findUses name Tree.rootId).map Use.line)

/-- What is written of an error. -/
def complaint (e : Error) : String :=
  "error: " ++ e.message ++ "\n" ++
    String.join (e.causes.map fun cause => "  caused by: " ++ cause ++ "\n")

/-- The answer to a search. -/
def search (grammar : Grammar) (fs : FileSystem) (options : Options) : Response :=
  match treeOf grammar fs options with
  | .ok tree => { code := 0, stdout := report tree options.typeName }
  | .error e => { code := 1, stderr := complaint e }

/-- What the command answers. -/
def run (grammar : Grammar) (fs : FileSystem) : Request → Response
  | .search options => search grammar fs options
  | .version => { code := 0, stdout := versionText }
  | .help => { code := 0, stdout := helpText }
  | .usageError => { code := 2, stderr := usageText }

end TypeUses.Command
