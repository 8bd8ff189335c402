import TypeUses.Language

/-!
# Command line — arguments

The command takes a file and the name of a type, with options before, between or behind them:

* `-l`, `--language` with a language, and `-c`, `--config` with a path, each at most once;
* `--strict`, at most once;
* `-v`, `--verbose`, any number of times;
* `-V`, `--version`, and `-h`, `--help`, which ask for a text in place of a search.

A long option takes its value from the next argument or behind `=`; a short one from the next
argument or from what follows it in the same argument, an `=` between them left out.  Short options
without a value can share an argument.  Behind `--` nothing is an option.

Arguments are read from left to right (`Draft.read`), and the first that fits nothing is a usage
error; a request for a text ends the reading.  What is missing is noticed at the end
(`Draft.finish`).
-/

namespace TypeUses.Command

/-- What a search is asked for. -/
structure Options where
  file : String
  typeName : String
  language : Option Language := none
  strict : Bool := false
  config : Option String := none
deriving DecidableEq, Repr

/-- What the arguments ask the command to do. -/
inductive Request
  | search (options : Options)
  | version
  | help
  | usageError
deriving DecidableEq, Repr

/-- The options of the command. -/
inductive Flag
  | language
  | config
  | strict
  | verbose
  | version
  | help
deriving DecidableEq, Repr

namespace Flag

/-- The flag with a long name, written behind two dashes. -/
def ofLong? (name : String) : Option Flag :=
  [("language", language), ("config", config), ("strict", strict), ("verbose", verbose),
    ("version", version), ("help", help)].lookup name

/-- The flag with a letter, written behind one dash. -/
def ofShort? (c : Char) : Option Flag :=
  [('l', language), ('c', config), ('v', verbose), ('V', version), ('h', help)].lookup c

/-- Whether a value belongs to the flag. -/
def takesValue : Flag → Bool
  | language | config => true
  | _ => false

end Flag

/-- What is known of a search while its arguments are read. -/
structure Draft where
  positionals : List String := []
  language : Option Language := none
  config : Option String := none
  strict : Bool := false
deriving DecidableEq, Repr

namespace Draft

/-- The outcome of reading one thing: a longer draft, or a request that is settled. -/
abbrev Outcome := Except Request Draft

/-- Sets an option that takes a value. -/
def setValue (d : Draft) (flag : Flag) (value : String) : Outcome :=
  match flag with
  | .language =>
    match d.language, Language.ofName? value with
    | none, some l => .ok { d with language := some l }
    | _, _ => .error .usageError
  | .config =>
    match d.config with
    | none => if value = "" then .error .usageError else .ok { d with config := some value }
    | some _ => .error .usageError
  | _ => .error .usageError

/-- Sets an option that takes no value. -/
def set (d : Draft) : Flag → Outcome
  | .strict => if d.strict then .error .usageError else .ok { d with strict := true }
  | .verbose => .ok d
  | .version => .error .version
  | .help => .error .help
  | _ => .error .usageError

/-- Adds a positional argument; there are two, and the file's is not empty. -/
def addPositional (d : Draft) (arg : String) : Outcome :=
  match d.positionals with
  | [] => if arg = "" then .error .usageError else .ok { d with positionals := [arg] }
  | [file] => .ok { d with positionals := [file, arg] }
  | _ => .error .usageError

/-- What an argument asks for, apart from the value that may follow it. -/
inductive Reading
  | done (d : Draft)
  /-- the option still needs its value -/
  | needs (d : Draft) (flag : Flag)
  | settled (request : Request)

/-- The reading of an argument that needs no value behind it. -/
def Reading.ofOutcome : Outcome → Reading
  | .ok d => done d
  | .error request => settled request

/-- Reads the short options of one argument. -/
def readShort (d : Draft) : List Char → Reading
  | [] => .done d
  | c :: rest =>
    match Flag.ofShort? c with
    | none => .settled .usageError
    | some flag =>
      if flag.takesValue then
        match rest with
        | [] => .needs d flag
        | '=' :: value => .ofOutcome (d.setValue flag (String.ofList value))
        | value => .ofOutcome (d.setValue flag (String.ofList value))
      else
        match d.set flag with
        | .ok d => d.readShort rest
        | .error request => .settled request

/-- Reads a long option, without the two hyphens in front. -/
def readLong (d : Draft) (text : List Char) : Reading :=
  let name := text.takeWhile (· != '=')
  match Flag.ofLong? (String.ofList name), text.drop name.length with
  | none, _ => .settled .usageError
  | some flag, _ :: value =>
    if flag.takesValue then .ofOutcome (d.setValue flag (String.ofList value))
    else .settled .usageError
  | some flag, [] => if flag.takesValue then .needs d flag else .ofOutcome (d.set flag)

/-- Reads one argument that may be an option. -/
def readArgument (d : Draft) (arg : String) : Reading :=
  match arg.toList with
  | '-' :: '-' :: text => d.readLong text
  | '-' :: c :: rest => d.readShort (c :: rest)
  | _ => .ofOutcome (d.addPositional arg)

/-- Whether an argument looks like an option and therefore cannot be the value of one. -/
def looksLikeOption (arg : String) : Bool :=
  match arg.toList with
  | '-' :: _ :: _ => true
  | _ => false

/-- The request of a draft to which nothing is added any more. -/
def finish (d : Draft) : Request :=
  match d.positionals with
  | [file, typeName] => .search
      { file := file, typeName := typeName, language := d.language, strict := d.strict
        config := d.config }
  | _ => .usageError

/-- Reads arguments none of which is an option. -/
def readPositionals (d : Draft) : List String → Request
  | [] => d.finish
  | arg :: args =>
    match d.addPositional arg with
    | .ok d => d.readPositionals args
    | .error request => request

/-- Reads the arguments; `awaited` is an option that still needs its value. -/
def read (d : Draft) (awaited : Option Flag) : List String → Request
  | [] =>
    match awaited with
    | some _ => .usageError
    | none => d.finish
  | arg :: args =>
    match awaited with
    | some flag =>
      if looksLikeOption arg then .usageError
      else
        match d.setValue flag arg with
        | .ok d => d.read none args
        | .error request => request
    | none =>
      if arg = "--" then d.readPositionals args
      else
        match d.readArgument arg with
        | .done d => d.read none args
        | .needs d flag => d.read (some flag) args
        | .settled request => request

end Draft

/-- What a list of arguments asks for. -/
def Request.ofArguments (args : List String) : Request :=
  ({} : Draft).read none args

end TypeUses.Command
