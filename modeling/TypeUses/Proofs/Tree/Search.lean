import TypeUses.Proofs.Tree.Preorder
import TypeUses.Tree.Call

/-!
# Trees — a search from call to call

A search is asked for one item after the other and keeps its pending nodes in between.  Each call
gives the first of the items that are left and leaves the others (`Search.next_eq`); once none is
left, no call gives any more.  So any number of calls gives a front part of what the recursion on
the tree gives, with nothing behind it (`Search.nexts_eq`).

The walk below a node is a contiguous part of the walk below a node above it (`isInfix_preorder`),
and so is what a search finds there (`isInfix_uses`).
-/

namespace TypeUses

namespace Search

/-! ### Calls -/

/-- Read to its end, the search below a node gives the uses there. -/
theorem toList_below (t : Tree) (name : String) (id : NodeId) :
    (below t name id).toList = t.uses name id := t.findUses_eq name id

/-- **One call**: it gives the first item that is left, and the others are left then. -/
theorem next_eq (s : Search) :
    s.next.1 = s.toList.head? ∧ s.next.2.toList = s.toList.tail := by
  simp only [toList, next, Tree.usesFrom_eq]
  rw [Tree.flatMap_uses_of_nextUse]
  cases s.tree.nextUse s.name s.pending with
  | none => exact ⟨rfl, rfl⟩
  | some found => exact ⟨rfl, rfl⟩

/-- **Calls one after the other**: they give the items that are left, and nothing from then on. -/
theorem nexts_eq (s : Search) (count : Nat) :
    s.nexts count = (s.toList.map some ++ List.replicate count none).take count := by
  induction count generalizing s with
  | zero => rfl
  | succ count ih =>
      obtain ⟨hitem, hrest⟩ := s.next_eq
      rw [nexts, hitem, ih, hrest]
      cases s.toList with
      | nil => simp [List.replicate_succ]
      | cons use uses =>
          -- one item less is followed by one answer less
          simp [List.take_append, List.take_replicate]
          omega

/-- After all its items a search gives nothing, however often it is asked. -/
theorem nexts_length_add (s : Search) (more : Nat) :
    s.nexts (s.toList.length + more) = s.toList.map some ++ List.replicate more none := by
  have hall : (s.toList.map some).length ≤ s.toList.length + more := by simp
  rw [nexts_eq, List.take_append, List.take_of_length_le hall]
  simp [List.take_replicate]

end Search

namespace Tree

variable {t : Tree} {id x : NodeId}

/-! ### Walks below a node -/

/-- The walk from a node is a contiguous part of each walk that comes to the node. -/
theorem isInfix_preorder (hx : x ∈ t.preorder id) : t.preorder x <:+: t.preorder id := by
  induction id using t.children_induction with
  | h id ih =>
      rcases mem_preorder_iff.1 hx with rfl | ⟨c, hc, hx⟩
      · exact List.infix_rfl
      · have hbelow : t.preorder c <:+: (t.children id).flatMap t.preorder :=
          List.infix_of_mem_flatten (List.mem_map_of_mem hc)
        rw [preorder_eq t id]
        exact ((ih c hc hx).trans hbelow).trans (List.suffix_cons ..).isInfix

/-- What is found below a node is a contiguous part of what is found below a node above it. -/
theorem isInfix_uses (hx : x ∈ t.preorder id) (name : String) :
    t.uses name x <:+: t.uses name id := by
  rw [uses_eq_filterMap, uses_eq_filterMap]
  exact (isInfix_preorder hx).filterMap _

/-! ### Searches -/

/-- **A search gives what the recursion on the tree gives**, call by call.

* The recursion takes a node itself, if it is a use of the name, and then what it takes for each
  child in order.  A node is a use if it is a reference with a target whose entity has exactly this
  name; it lies where the reference lies.
* The search below a node ends: its items are those of the recursion, and all calls after the last
  item give nothing.
* What is found below a node is a contiguous part of what is found below any node above it. -/
theorem search_follows_recursion (t : Tree) (name : String) :
    (∀ id, t.uses name id = (t.useAt? name id).toList ++ (t.children id).flatMap (t.uses name)) ∧
    (∀ id u, t.useAt? name id = some u ↔
      (∃ r d c e, t.content? id = some (.reference r) ∧ r.target = some d ∧
        t.content? d = some c ∧ c.entity? = some e ∧ e.name = name) ∧
      ∃ l, t.location? id = some l ∧ u = ⟨name, l⟩) ∧
    (∀ id, t.findUses name id = t.uses name id ∧
      ∀ more, (Search.below t name id).nexts ((t.uses name id).length + more) =
        (t.uses name id).map some ++ List.replicate more none) ∧
    ∀ id x, x ∈ t.preorder id → t.findUses name x <:+: t.findUses name id := by
  refine ⟨t.uses_eq name, fun id u => ?_, fun id => ⟨t.findUses_eq name id, fun more => ?_⟩,
    fun id x hx => ?_⟩
  · simp only [useAt?_eq_some_iff, target?_eq_some_iff]
    constructor
    · rintro ⟨⟨d, c, e, ⟨r, hr, hd⟩, hc, he, hname⟩, hl⟩
      exact ⟨⟨r, d, c, e, hr, hd, hc, he, hname⟩, hl⟩
    · rintro ⟨⟨r, d, c, e, hr, hd, hc, he, hname⟩, hl⟩
      exact ⟨⟨d, c, e, ⟨r, hr, hd⟩, hc, he, hname⟩, hl⟩
  · have hitems := Search.toList_below t name id
    have hcalls := (Search.below t name id).nexts_length_add more
    rwa [hitems] at hcalls
  · rw [findUses_eq, findUses_eq]
    exact isInfix_uses hx name

/-- The tree of a definition and a block behind it; a reference stands in the block, one below that
reference, and one behind the block. -/
def nestedTree : Tree :=
  ((empty "a.c").performAll
    [.push rootId (.definition ⟨.structTag, "P"⟩) ⟨1, 1⟩,
      .push rootId (.other "block") ⟨2, 1⟩,
      .push ⟨2⟩ (.reference ⟨.typeName, "P", none⟩) ⟨2, 3⟩,
      .push ⟨3⟩ (.reference ⟨.typeName, "P", none⟩) ⟨2, 5⟩,
      .push rootId (.reference ⟨.typeName, "P", none⟩) ⟨3, 1⟩,
      .resolve ⟨3⟩ ⟨1⟩, .resolve ⟨4⟩ ⟨1⟩, .resolve ⟨5⟩ ⟨1⟩]).2

/-- Three calls give the three uses, the next two nothing; the uses in the block are two of them. -/
theorem search_follows_recursion_nested :
    (⟨2⟩ : NodeId) ∈ nestedTree.preorder rootId ∧
      (Search.below nestedTree "P" rootId).nexts 5 =
        [some ⟨"P", ⟨2, 3⟩⟩, some ⟨"P", ⟨2, 5⟩⟩, some ⟨"P", ⟨3, 1⟩⟩, none, none] ∧
      nestedTree.findUses "P" ⟨2⟩ <:+: nestedTree.findUses "P" rootId := by
  obtain ⟨-, -, hsearch, hpart⟩ := search_follows_recursion nestedTree "P"
  have hblock : (⟨2⟩ : NodeId) ∈ nestedTree.preorder rootId :=
    mem_preorder_of_child (mem_preorder_self _ _) (by decide)
  have huses : nestedTree.uses "P" rootId = [⟨"P", ⟨2, 3⟩⟩, ⟨"P", ⟨2, 5⟩⟩, ⟨"P", ⟨3, 1⟩⟩] := by
    decide +kernel
  have hcalls := (hsearch rootId).2 2
  rw [huses] at hcalls
  exact ⟨hblock, hcalls, hpart rootId ⟨2⟩ hblock⟩

end Tree

end TypeUses
