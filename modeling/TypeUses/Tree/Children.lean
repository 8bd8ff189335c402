import TypeUses.Tree.Basic

/-!
# Trees — children taken from both ends

The children of a node are given out in order from the front and in reverse order from the back,
each once, until none is left.
-/

namespace TypeUses

/-- The end from which a child is taken. -/
inductive Side
  | front
  | back
deriving DecidableEq, Repr

/-- Takes one item from an end of a list: the item, and the list without it. -/
def takeSide {α : Type} (items : List α) : Side → Option α × List α
  | .front => (items.head?, items.tail)
  | .back => (items.getLast?, items.dropLast)

/-- Takes items from the given sides in turn, each with the number of items that were left. -/
def takeSides {α : Type} (items : List α) : List Side → List (Nat × Option α)
  | [] => []
  | side :: sides =>
    let (item, rest) := takeSide items side
    (items.length, item) :: takeSides rest sides

end TypeUses
