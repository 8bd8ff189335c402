/-!
# Locations

A location is a place in a source, line first, both counted from one; the column counts bytes.
Locations are ordered by line and then by column, and written `line:column`.

Rows and columns of a parse count from zero.  `Location.ofPosition` adds one to each within the
32 bits that a location has for it.
-/

namespace TypeUses

/-- A place in a source: its line and, in bytes, its column. -/
structure Location where
  line : UInt32
  column : UInt32
deriving DecidableEq, Repr, Inhabited

namespace Location

/-- The location of the first byte of a source. -/
def start : Location := ⟨1, 1⟩

/-- The location of a place whose row and column count from zero. -/
def ofPosition (row column : Nat) : Location :=
  ⟨UInt32.ofNat row + 1, UInt32.ofNat column + 1⟩

/-- The order of two locations: by line, and on one line by column. -/
protected def compare (a b : Location) : Ordering :=
  (compare a.line b.line).then (compare a.column b.column)

instance : Ord Location := ⟨Location.compare⟩

/-- Whether the first location is the second or lies before it. -/
def notAfter (a b : Location) : Bool :=
  (a.compare b).isLE

/-- Locations in their order. -/
def sort (ls : List Location) : List Location :=
  ls.mergeSort notAfter

/-- The text `line:column`. -/
def text (l : Location) : String :=
  toString l.line.toNat ++ ":" ++ toString l.column.toNat

end Location

end TypeUses
