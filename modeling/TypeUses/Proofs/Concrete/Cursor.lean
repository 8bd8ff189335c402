import TypeUses.Concrete.Cursor

/-!
# Concrete syntax — a cursor meets every node once

A walk with a cursor tallies the faults at and below each node that is ahead of it, and of nothing
else (`Cursor.tally_eq`).  Set at the root of a parse it tallies those of the whole parse, however
the nodes are nested (`Parse.tally_eq`), so that what is reported is the number of the faults and
the place of the first in pre-order.

* `Node.preorder`: a node and all below it, by recursion on the tree; `Parse.items_eq_preorder`.
* `Cursor.onward?_eq_none_iff`: a cursor stops just where nothing is behind it.
* `Parse.errorCount_eq`, `Parse.firstError?_eq`: what is reported, said of the pre-order.
-/

namespace TypeUses.Concrete

/-! ### Pre-order -/

namespace Node

mutual

/-- The items of a node and of all that lies below it, in pre-order. -/
def preorder : Node → List Item
  | node i cs => i :: preorders cs

/-- The items of a list of nodes and of all that lies below them, in pre-order. -/
def preorders : List Node → List Item
  | [] => []
  | c :: cs => preorder c ++ preorders cs

end

theorem preorders_append (cs ds : List Node) :
    preorders (cs ++ ds) = preorders cs ++ preorders ds := by
  induction cs with
  | nil => rfl
  | cons c cs ih => rw [List.cons_append, preorders, preorders, ih, List.append_assoc]

end Node

/-- Taking the nodes from a stack that begins with the given ones visits them in pre-order. -/
theorem itemsFrom_eq_preorders (pending : List Node) :
    itemsFrom pending = Node.preorders pending := by
  fun_induction itemsFrom pending with
  | case1 => rfl
  | case2 i cs rest ih =>
      rw [ih, Node.preorders_append, Node.preorders, Node.preorder, List.cons_append]

/-- The items of a parse are those at and below its root, in pre-order. -/
theorem Parse.items_eq_preorder (p : Parse) : p.items = p.root.preorder := by
  rw [items, itemsFrom_eq_preorders, Node.preorders, Node.preorders, List.append_nil]

/-! ### The way of a cursor -/

namespace Cursor

theorem pending_ofNode (n : Node) : (ofNode n).pending = [n] := rfl

/-- A cursor stops where nothing is behind it: at the node at which it was set. -/
theorem onward?_eq_none_iff {c : Cursor} : c.onward? = none ↔ c.behind = [] := by
  fun_induction onward? c with
  | case1 c d hnext =>
      obtain ⟨n, later, around⟩ := c
      cases later with
      | nil => cases hnext
      | cons x xs => simp [behind]
  | case2 c hnext p hparent ih =>
      rw [ih, behind_of_nextSibling? hnext]
      obtain ⟨n, later, around⟩ := c
      cases around with
      | nil => cases hparent
      | cons q around => cases hparent; rfl
  | case3 c hnext hparent =>
      rw [behind_of_nextSibling? hnext]
      obtain ⟨n, later, around⟩ := c
      cases around with
      | nil => simp
      | cons q around => cases hparent

theorem firstChild?_eq_none_iff {c : Cursor} : c.firstChild? = none ↔ c.node.children = [] := by
  rw [firstChild?]
  split <;> simp_all

/-- The first item ahead of a cursor is that of its node; those below it and behind it follow. -/
theorem itemsFrom_pending (c : Cursor) :
    itemsFrom c.pending = c.node.item :: itemsFrom (c.node.children ++ c.behind) := by
  obtain ⟨⟨i, cs⟩, later, around⟩ := c
  rw [pending, itemsFrom]
  rfl

/-- **A cursor meets every item ahead of it, once and in order.** -/
theorem tally_eq (c : Cursor) (t : Tally) : c.tally t = (itemsFrom c.pending).foldl Tally.see t := by
  fun_induction tally c t with
  | case1 c t d hchild ih =>
      rw [ih, pending_of_firstChild? hchild, itemsFrom_pending, List.foldl_cons]
  | case2 c t hchild d honward ih =>
      rw [ih, pending_of_onward? honward, itemsFrom_pending, List.foldl_cons,
        firstChild?_eq_none_iff.1 hchild, List.nil_append]
  | case3 c t hchild honward =>
      rw [itemsFrom_pending, firstChild?_eq_none_iff.1 hchild, onward?_eq_none_iff.1 honward,
        List.append_nil, itemsFrom]
      rfl

end Cursor

/-! ### Tallies -/

/-- A tally counts the faults and keeps the place of the first. -/
theorem Tally.foldl_see (items : List Item) (t : Tally) :
    items.foldl Tally.see t =
      { count := t.count + items.countP Item.isFault
        first := t.first.or ((items.find? Item.isFault).map Item.location) } := by
  induction items generalizing t with
  | nil => simp
  | cons i items ih =>
      rw [List.foldl_cons, ih, see]
      by_cases hi : i.isFault
      · simp only [hi, if_true, List.countP_cons_of_pos, List.find?_cons_of_pos, Option.map_some,
          Option.or_assoc, Option.some_or]
        congr 1
        omega
      · simp [hi]

namespace Parse

/-- A parse is tallied by the number of its faults and the place of the first of them. -/
theorem tally_eq (p : Parse) :
    p.tally =
      { count := p.faults.length
        first := p.faults.head?.map Item.location } := by
  rw [tally, faults]
  split
  · rw [Cursor.tally_eq, Cursor.pending_ofNode, Tally.foldl_see, List.countP_eq_length_filter,
      List.head?_filter]
    simp [items]
  · rfl

theorem errorCount_eq_length (p : Parse) : p.errorCount = p.faults.length := by
  rw [errorCount, tally_eq]

theorem firstError?_eq_head? (p : Parse) :
    p.firstError? = (p.faults.head?.map Item.location).or
      (if p.hasError then some p.root.item.location else none) := by
  rw [firstError?, tally_eq]

/-- There is a first fault exactly where the parser has seen any. -/
theorem isSome_firstError? (p : Parse) : p.firstError?.isSome = p.hasError := by
  rw [firstError?_eq_head?, faults]
  cases p.hasError with
  | false => rfl
  | true => simp

/-- The parser has seen every fault that it has marked. -/
def SeesFaults (p : Parse) : Prop := ∀ i ∈ p.root.preorder, i.isFault = true → p.hasError = true

/-- If the parser has seen every fault, the faults are all the nodes that are faulty. -/
theorem faults_eq {p : Parse} (h : p.SeesFaults) :
    p.faults = p.root.preorder.filter Item.isFault := by
  rw [faults, items_eq_preorder]
  split
  · rfl
  · next herror =>
    refine (List.filter_eq_nil_iff.2 fun i hi hfault => herror (h i hi hfault)).symm

/-- **The count is that of all faults in the parse.** -/
theorem errorCount_eq {p : Parse} (h : p.SeesFaults) :
    p.errorCount = p.root.preorder.countP Item.isFault := by
  rw [errorCount_eq_length, faults_eq h, List.countP_eq_length_filter]

/-- **The first fault is the first in pre-order**, or the root if the parser has seen one but marked
none. -/
theorem firstError?_eq {p : Parse} (h : p.SeesFaults) :
    p.firstError? = ((p.root.preorder.find? Item.isFault).map Item.location).or
      (if p.hasError then some p.root.item.location else none) := by
  rw [firstError?_eq_head?, faults_eq h, List.head?_filter]

end Parse

end TypeUses.Concrete
