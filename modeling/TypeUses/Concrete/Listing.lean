import TypeUses.Concrete.Node

/-!
# Concrete syntax — listings

A listing gives the nodes of a parse in pre-order, each with its depth; `Parse.ofListing?` builds
the parse from it.

A written listing has one line for each node: its depth, flags, first byte, byte past the last, row,
column, field and kind, with tabs between them.  The flags are the letters `n` for a named node, `x`
for an extra, `e` for an error and `m` for a missing node.  A line break, tab or backslash in a
kind is written as a backslash and `n`, `t` or a backslash.  The first line is `error` if the
parser has seen an error and `ok` otherwise.
-/

namespace TypeUses.Concrete

/-! ### From a listing to a parse -/

/-- Puts one more node in front of the finished nodes that follow it in pre-order: the deeper ones
up to the next that is not deeper become its children. -/
def gather (entry : Nat × Item) (finished : List (Nat × Node)) : List (Nat × Node) :=
  (entry.1, .node entry.2 ((finished.takeWhile fun f => entry.1 < f.1).map (·.2))) ::
    finished.dropWhile fun f => entry.1 < f.1

/-- The parse that a listing of nodes in pre-order describes, the root first. -/
def Parse.ofListing? (hasError : Bool) (listing : List (Nat × Item)) : Option Parse :=
  match listing.foldr gather [] with
  | [(_, root)] => some ⟨root, hasError⟩
  | _ => none

/-! ### Written listings -/

/-- A kind as it is written in a listing, taken back. -/
def unescapeKind : List Char → List Char
  | '\\' :: 'n' :: rest => '\n' :: unescapeKind rest
  | '\\' :: 't' :: rest => '\t' :: unescapeKind rest
  | '\\' :: '\\' :: rest => '\\' :: unescapeKind rest
  | c :: rest => c :: unescapeKind rest
  | [] => []

/-- One line of a written listing. -/
def entryOfLine? (line : String) : Option (Nat × Item) :=
  match line.splitOn "\t" with
  | [depth, flags, start, stop, row, column, field, kind] => do
    let has (flag : Char) : Bool := flags.toList.contains flag
    return (← depth.toNat?,
      { kind := .ofName (String.ofList (unescapeKind kind.toList))
        field := Field.ofName? field
        isNamed := has 'n'
        isExtra := has 'x'
        isError := has 'e'
        isMissing := has 'm'
        start := ← start.toNat?
        stop := ← stop.toNat?
        row := ← row.toNat?
        column := ← column.toNat? })
  | _ => none

/-- The parse that a written listing describes. -/
def Parse.ofText? (text : String) : Option Parse :=
  match (text.splitOn "\n").filter (· != "") with
  | first :: lines =>
    if first = "error" || first = "ok" then
      (lines.mapM entryOfLine?).bind (Parse.ofListing? (first = "error"))
    else none
  | [] => none

end TypeUses.Concrete
