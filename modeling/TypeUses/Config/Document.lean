import TypeUses.Config.Basic
import TypeUses.Yaml.Value

/-!
# Configuration — its text

A configuration is written as a YAML mapping with the keys `language`, `strict`, `max-file-bytes`
and `extensions`, each at most once and each with its default if it is absent.  A text without a
document, or with an empty one, is the default configuration.

* `language` is one of the short names of languages, or nothing (empty, `~` or `null`).
* `strict` is a plain `true` or `false`.
* `max-file-bytes` is a plain number below 2^64.
* `extensions` is a mapping of texts to languages, or nothing; of a repeated key the last value
  counts.
-/

namespace TypeUses.Config

open Yaml (Value Style)

/-! ### Values -/

/-- The tag of nothing. -/
def nullTag : String := "tag:yaml.org,2002:null"

/-- The tag of truth values. -/
def boolTag : String := "tag:yaml.org,2002:bool"

/-- The tag of whole numbers. -/
def intTag : String := "tag:yaml.org,2002:int"

/-- Whether a text is a word for nothing. -/
def isNullText (text : String) : Bool :=
  text == "~" || text == "null" || text == "Null" || text == "NULL"

/-- Whether nothing stands in a place: no text at all, or a plain word for nothing. -/
def isNothing (style : Style) (text : String) : Bool :=
  style == .plain && (text == "" || isNullText text)

/-- The text of a scalar that may be read as a value of a type: a plain one, or a literal block
with the type's tag. -/
def valueText? (typeTag : String) : Value → Option String
  | .scalar tag style text =>
    if style = .plain || (style = .literal && tag = some typeTag) then some text else none
  | .mapping .. => none

/-- A truth value, in one of its three spellings. -/
def bool? (v : Value) : Option Bool :=
  match valueText? boolTag v with
  | some text =>
    if text == "true" || text == "True" || text == "TRUE" then some true
    else if text == "false" || text == "False" || text == "FALSE" then some false
    else none
  | none => none

/-- The value of a digit in a base. -/
def digit? (base : Nat) (c : Char) : Option Nat :=
  (Yaml.hexValue? c).filter (· < base)

/-- The number that digits of a base write, if there are any. -/
def digits? (base : Nat) (cs : List Char) : Option Nat :=
  if cs.isEmpty then none
  else (cs.mapM (digit? base)).map fun ds => ds.foldl (fun n d => base * n + d) 0

/-- The number that a text writes: in base ten without leading zeros, or behind `0x`, `0o` or `0b`
in base sixteen, eight or two; a plus sign may stand in front. -/
def number? (text : String) : Option Nat :=
  let unsigned := match text.toList with
    | '+' :: cs => cs
    | cs => cs
  match unsigned with
  | '0' :: 'x' :: cs => digits? 16 cs
  | '0' :: 'o' :: cs => digits? 8 cs
  | '0' :: 'b' :: cs => digits? 2 cs
  | '0' :: _ :: _ => none
  | cs => digits? 10 cs

/-- A number of 64 bits. -/
def size? (v : Value) : Option Nat :=
  ((valueText? intTag v).bind number?).filter (· < 0x10000000000000000)

/-- A language, written as its short name, or as a tag with nothing behind it. -/
def language? : Value → Option Language
  | .scalar tag style text =>
    match tag.map String.toList with
    | some ('!' :: name) =>
      if isNothing style text then Language.ofShortName? (String.ofList name) else none
    | _ => Language.ofShortName? text
  | .mapping .. => none

/-- A language or nothing. -/
def optionalLanguage? : Value → Option (Option Language)
  | .scalar tag style text =>
    let language := (language? (.scalar tag style text)).map some
    if style != .plain then language
    else
      match tag with
      | none => if isNothing style text then some none else language
      | some tag =>
        if tag = nullTag then if isNullText text then some none else none
        else language
  | .mapping .. => none

/-- The text of a key. -/
def keyText? : Value → Option String
  | .scalar _ _ text => some text
  | .mapping .. => none

/-- The table with the entries of a mapping, in order. -/
def addExtensions? (table : ExtensionTable) : List (Value × Value) → Option ExtensionTable
  | [] => some table
  | (key, value) :: rest => do
    addExtensions? (table.set (← keyText? key) (← language? value)) rest

/-- A table of extensions, empty if nothing is written. -/
def extensions? : Value → Option ExtensionTable
  | .mapping _ entries => addExtensions? [] entries
  | .scalar _ style text => if isNothing style text then some [] else none

/-! ### Configurations -/

/-- The configuration with one key set. -/
def setField? (config : Config) (field : String) (value : Value) : Option Config :=
  match field with
  | "language" => (optionalLanguage? value).map fun l => { config with language := l }
  | "strict" => (bool? value).map fun b => { config with strict := b }
  | "max-file-bytes" => (size? value).map fun n => { config with maxFileBytes := n }
  | "extensions" => (extensions? value).map fun table => { config with extensions := table }
  | _ => none

/-- The configuration with the entries of a mapping set; `seen` are the keys that are set. -/
def setFields? (config : Config) (seen : List String) : List (Value × Value) → Option Config
  | [] => some config
  | (key, value) :: rest => do
    let field ← keyText? key
    if seen.contains field then none
    setFields? (← setField? config field value) (field :: seen) rest

/-- The configuration that a document describes. -/
def ofValue? : Value → Option Config
  | .mapping _ entries => setFields? {} [] entries
  | .scalar _ style text => if style = .plain && text == "" then some {} else none

/-- Unicode white space. -/
def isWhiteSpace (c : Char) : Bool :=
  let n := c.toNat
  (9 ≤ n && n ≤ 13) || n = 0x20 || n = 0x85 || n = 0xA0 || n = 0x1680 ||
    (0x2000 ≤ n && n ≤ 0x200A) || n = 0x2028 || n = 0x2029 || n = 0x202F || n = 0x205F || n = 0x3000

/-- The configuration that a text describes. -/
def ofText? (text : String) : Option Config :=
  if text.toList.all isWhiteSpace then some {} else (Yaml.read? text).bind ofValue?

end TypeUses.Config
