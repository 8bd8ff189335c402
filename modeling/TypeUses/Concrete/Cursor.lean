import TypeUses.Concrete.Node

/-!
# Concrete syntax — a cursor over a parse, and its faults

A cursor stands at a node of a tree and can be moved to the first child, to the next sibling and to
the parent.  It remembers the nodes around it up to the node at which it was set, and stays below
that node.

* `Cursor.pending`: what is still ahead of a cursor.  A cursor that moves on has less of it ahead,
  which is why a walk with a cursor ends.
* `Parse.tally`: how many nodes of a parse are errors or missing, and where the first of them
  stands, as a walk with a cursor over the whole parse finds them.
* `Parse.errorCount`, `Parse.firstError?`: what is reported of them.
-/

namespace TypeUses.Concrete

/-- A position in a tree. -/
structure Cursor where
  node : Node
  /-- the siblings behind the node -/
  later : List Node
  /-- the nodes around it, innermost first, each with the siblings behind it -/
  around : List (Node × List Node)

namespace Cursor

/-- A cursor at a node, around which there is nothing. -/
def ofNode (n : Node) : Cursor := ⟨n, [], []⟩

/-- The cursor at the first child of the node, if it has children. -/
def firstChild? (c : Cursor) : Option Cursor :=
  match c.node.children with
  | [] => none
  | d :: ds => some ⟨d, ds, (c.node, c.later) :: c.around⟩

/-- The cursor at the node behind this one with the same parent, if there is one. -/
def nextSibling? (c : Cursor) : Option Cursor :=
  match c.later with
  | [] => none
  | d :: ds => some ⟨d, ds, c.around⟩

/-- The cursor at the node right around this one, if it is below the node where it was set. -/
def parent? (c : Cursor) : Option Cursor :=
  match c.around with
  | [] => none
  | (n, later) :: around => some ⟨n, later, around⟩

theorem length_around_parent? {c d : Cursor} (h : c.parent? = some d) :
    d.around.length < c.around.length := by
  obtain ⟨n, later, around⟩ := c
  cases around with
  | nil => cases h
  | cons p around => cases h; exact Nat.lt_succ_self _

/-- The next node that is not below the cursor: the next sibling of the node, or of the innermost
node around it that has one. -/
def onward? (c : Cursor) : Option Cursor :=
  match c.nextSibling? with
  | some d => some d
  | none =>
    match _h : c.parent? with
    | some p => onward? p
    | none => none
termination_by c.around.length
decreasing_by exact length_around_parent? ‹_›

/-! ### What is ahead of a cursor -/

/-- The nodes that follow the cursor's node and what is below it, each for all that is below it. -/
def behind (c : Cursor) : List Node := c.later ++ c.around.flatMap (·.2)

/-- The nodes ahead of the cursor, its own first, each for all that is below it. -/
def pending (c : Cursor) : List Node := c.node :: c.behind

/-- At the first child the children are ahead, and then what followed the node. -/
theorem pending_of_firstChild? {c d : Cursor} (h : c.firstChild? = some d) :
    d.pending = c.node.children ++ c.behind := by
  obtain ⟨⟨i, cs⟩, later, around⟩ := c
  cases cs with
  | nil => cases h
  | cons x xs => cases h; rfl

/-- Behind a last child there is only what follows the nodes around it. -/
theorem behind_of_nextSibling? {c : Cursor} (h : c.nextSibling? = none) :
    c.behind = c.around.flatMap (·.2) := by
  obtain ⟨n, later, around⟩ := c
  cases later with
  | nil => rfl
  | cons x xs => cases h

/-- Moving on from a node leaves ahead just what followed it. -/
theorem pending_of_onward? {c d : Cursor} (h : c.onward? = some d) : d.pending = c.behind := by
  fun_induction onward? c with
  | case1 c d' hnext =>
      obtain ⟨n, later, around⟩ := c
      cases later with
      | nil => cases hnext
      | cons x xs => cases hnext; cases h; rfl
  | case2 c hnext p hparent ih =>
      rw [ih h, behind_of_nextSibling? hnext]
      obtain ⟨n, later, around⟩ := c
      cases around with
      | nil => cases hparent
      | cons q around => cases hparent; rfl
  | case3 => cases h

/-- Moving to the first child takes weight off what is ahead. -/
theorem weights_pending_firstChild? {c d : Cursor} (h : c.firstChild? = some d) :
    Node.weights d.pending < Node.weights c.pending := by
  rw [pending_of_firstChild? h, Node.weights_append]
  obtain ⟨⟨i, cs⟩, later, around⟩ := c
  simp only [pending, Node.weights, Node.weight, Node.children]
  omega

theorem weights_pending_onward? {c d : Cursor} (h : c.onward? = some d) :
    Node.weights d.pending < Node.weights c.pending := by
  rw [pending_of_onward? h]
  obtain ⟨⟨i, cs⟩, later, around⟩ := c
  simp only [pending, Node.weights, Node.weight]
  omega

end Cursor

/-! ### Faults -/

/-- How many faults have been met, and where the first of them stands. -/
structure Tally where
  count : Nat := 0
  first : Option Location := none
deriving DecidableEq, Repr

/-- The tally with one more item. -/
def Tally.see (t : Tally) (i : Item) : Tally :=
  if i.isFault then { count := t.count + 1, first := t.first.or (some i.location) } else t

/-- The tally of what a cursor meets on its way: at each node it goes down if it can, else onward.
-/
def Cursor.tally (c : Cursor) (t : Tally) : Tally :=
  match _h : c.firstChild? with
  | some d => d.tally (t.see c.node.item)
  | none =>
    match _h : c.onward? with
    | some d => d.tally (t.see c.node.item)
    | none => t.see c.node.item
termination_by Node.weights c.pending
decreasing_by
  · exact weights_pending_firstChild? ‹_›
  · exact weights_pending_onward? ‹_›

namespace Parse

/-- The tally of a parse; where the parser has seen no fault, none is sought. -/
def tally (p : Parse) : Tally := if p.hasError then (Cursor.ofNode p.root).tally {} else {}

/-- The number of errors and missing nodes that is reported of a parse. -/
def errorCount (p : Parse) : Nat := p.tally.count

/-- Where the first fault stands; at the root if the parser has seen one but marked none. -/
def firstError? (p : Parse) : Option Location :=
  p.tally.first.or (if p.hasError then some p.root.item.location else none)

end Parse

end TypeUses.Concrete
