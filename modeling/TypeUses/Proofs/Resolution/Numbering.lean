import TypeUses.Proofs.Resolution.Parents
import TypeUses.Proofs.Resolution.Shape
import TypeUses.Proofs.Resolution.Texts

/-!
# Resolution — numbers in pre-order

The tree of a parse is a picture of its kept nodes (`resolveNames_preserves_shape`).  A kept node is
told by its path, and the order of paths is the pre-order; the root gets the number 0 and the kept
nodes get 1, 2 and so on (`imageId`).

* `KeptAt`: the node at a path and all nodes around it, the root apart, are kept.
* `HasShape`: a tree has one node for each kept node, below the image of its parent, among its
  siblings in their order, and at its location.
-/

namespace TypeUses.Resolution
open Concrete.Node (keptCount keptCounts)

variable {language : Language} {source : ByteArray}

/-! ### Kept nodes -/

/-- The node at a path is kept, and so are all nodes around it, the root apart. -/
inductive KeptAt (root : Concrete.Node) : List Nat → Prop
  | top {k : Nat} {c : Concrete.Node} (hc : root.children[k]? = some c)
      (hk : c.item.isKept = true) : KeptAt root [k]
  | nested {path : List Nat} {k : Nat} {n c : Concrete.Node} (h : KeptAt root path)
      (hn : root.at? path = some n) (hc : n.children[k]? = some c) (hk : c.item.isKept = true) :
      KeptAt root (path ++ [k])

/-- The paths of the kept nodes of a parse, in their order. -/
def keptPaths (parse : Concrete.Parse) : List (List Nat) := (places parse).map Place.path

/-- The positions of the kept ones among the children of a node. -/
def keptPositions (children : List Concrete.Node) : List Nat :=
  (List.range children.length).filter fun k => children[k]?.any fun c => c.item.isKept

/-- The number that the node at a path gets in the tree. -/
def imageId (parse : Concrete.Parse) (path : List Nat) : NodeId :=
  ⟨([] :: keptPaths parse).idxOf path⟩

/-- A child of the root, or of a kept node, is kept if it is read. -/
theorem KeptAt.child {parse : Concrete.Parse} {p : Place} (hp : p ∈ allPlaces parse)
    (h : p.path = [] ∨ KeptAt parse.root p.path) {k : Nat} {c : Concrete.Node}
    (hc : p.node.children[k]? = some c) (hk : c.item.isKept = true) :
    KeptAt parse.root (p.path ++ [k]) := by
  have hat := at?_of_mem_allPlaces hp
  rcases h with h | h
  · rw [h] at hat ⊢
    have hroot : parse.root = p.node := Option.some.inj hat
    exact .top (hroot ▸ hc) hk
  · exact .nested h hat hc hk

/-- Every path to a kept node leads to a place. -/
theorem exists_place_of_keptAt {parse : Concrete.Parse} {path : List Nat}
    (h : KeptAt parse.root path) : ∃ p ∈ places parse, p.path = path := by
  induction h with
  | top hc hk =>
      have hroot : rootPlace parse ∈ allPlaces parse := List.mem_cons_self
      obtain ⟨q, hq, -, hchild⟩ := exists_child hroot hc hk
      exact ⟨q, hq, hchild.path⟩
  | nested h hn hc hk ih =>
      obtain ⟨p, hp, rfl⟩ := ih
      obtain rfl := Option.some.inj ((at?_of_mem_places hp).2.symm.trans hn)
      obtain ⟨q, hq, -, hchild⟩ := exists_child (mem_allPlaces hp) hc hk
      exact ⟨q, hq, hchild.path⟩

/-- **The kept nodes are the places.** -/
theorem mem_keptPaths_iff {parse : Concrete.Parse} {path : List Nat} :
    path ∈ keptPaths parse ↔ KeptAt parse.root path := by
  constructor
  · intro h
    obtain ⟨q, hq, rfl⟩ := List.mem_map.1 h
    have hkept : ∀ p ∈ places parse, p.path = [] ∨ KeptAt parse.root p.path := by
      refine places_induction (Or.inl rfl) fun p hp k q _ hpq ih => Or.inr ?_
      rw [hpq.path]
      exact .child hp ih hpq.node hpq.kept
    exact (hkept q hq).resolve_left (at?_of_mem_places hq).1
  · intro h
    obtain ⟨p, hp, rfl⟩ := exists_place_of_keptAt h
    exact List.mem_map_of_mem hp

/-- A node that is the root or kept is a place. -/
theorem exists_place_of_at? {parse : Concrete.Parse} {path : List Nat} {n : Concrete.Node}
    (h : path = [] ∨ KeptAt parse.root path) (hn : parse.root.at? path = some n) :
    ∃ p ∈ allPlaces parse, p.path = path ∧ p.node = n := by
  rcases h with rfl | h
  · exact ⟨rootPlace parse, List.mem_cons_self, rfl, Option.some.inj hn⟩
  · obtain ⟨p, hp, rfl⟩ := exists_place_of_keptAt h
    exact ⟨p, mem_allPlaces hp, rfl,
      Option.some.inj ((at?_of_mem_places hp).2.symm.trans hn)⟩

/-! ### Numbers -/

/-- The number of the path at a position is the position. -/
theorem imageId_getElem? {parse : Concrete.Parse} {i : Nat} {path : List Nat}
    (h : ((allPlaces parse).map Place.path)[i]? = some path) : imageId parse path = ⟨i⟩ := by
  obtain ⟨hi, rfl⟩ := List.getElem?_eq_some_iff.1 h
  exact NodeId.ext ((nodup_path_allPlaces parse).idxOf_getElem i hi)

/-- The number of a place is the number of its path. -/
theorem imageId_path {parse : Concrete.Parse} {p : Place} (hp : p ∈ allPlaces parse) :
    imageId parse p.path = p.id := by
  obtain ⟨i, hi⟩ := List.getElem?_of_mem hp
  have hid : ((allPlaces parse).map (·.id.index))[i]? = some p.id.index := by
    rw [List.getElem?_map, hi, Option.map_some]
  rw [map_id_allPlaces] at hid
  obtain ⟨hlt, he⟩ := List.getElem?_eq_some_iff.1 hid
  rw [List.getElem_range', Nat.zero_add, Nat.one_mul] at he
  rw [imageId_getElem? (by rw [List.getElem?_map, hi, Option.map_some])]
  exact NodeId.ext he

/-- The kept nodes are numbered from one on in their order. -/
theorem imageId_keptPaths {parse : Concrete.Parse} {i : Nat} {path : List Nat}
    (h : (keptPaths parse)[i]? = some path) : imageId parse path = ⟨i + 1⟩ :=
  imageId_getElem? h

/-- There are as many paths to kept nodes as kept nodes. -/
theorem length_keptPaths (parse : Concrete.Parse) :
    (keptPaths parse).length = keptCounts parse.root.children := by
  rw [keptPaths, List.length_map, places, length_placesIn]

/-- The numbers of the kept children, each by its position. -/
theorem childIds_eq (cs : List Concrete.Node) (next : Nat) :
    childIds next cs =
      (keptPositions cs).map fun k => ⟨next + keptCounts (cs.take k)⟩ := by
  induction cs generalizing next with
  | nil => rfl
  | cons c cs ih =>
      rw [childIds, keptPositions, List.length_cons, List.range_succ_eq_map, List.filter_cons,
        List.filter_map]
      by_cases hk : c.item.isKept = true
      · simp [hk, ih, keptPositions, Function.comp_def, keptCounts, Nat.add_assoc]
      · simp [hk, ih, keptPositions, Function.comp_def, keptCounts]

/-- At a kept position stands a kept child. -/
theorem keptPositions_spec {cs : List Concrete.Node} {k : Nat} (h : k ∈ keptPositions cs) :
    ∃ c, cs[k]? = some c ∧ c.item.isKept = true := by
  have hk := (List.mem_filter.1 h).2
  cases hc : cs[k]? with
  | none => rw [hc] at hk; cases hk
  | some c => rw [hc] at hk; exact ⟨c, rfl, hk⟩

/-! ### The shape of a tree -/

/-- The tree has the shape of the parse. -/
structure HasShape (parse : Concrete.Parse) (tree : Tree) : Prop where
  size : tree.size = (keptPaths parse).length + 1
  root : tree.content? Tree.rootId = some .translationUnit ∧
    tree.location? Tree.rootId = some ⟨1, 1⟩
  children : ∀ path n, path = [] ∨ KeptAt parse.root path → parse.root.at? path = some n →
    tree.children (imageId parse path) =
      (keptPositions n.children).map fun k => imageId parse (path ++ [k])
  parent : ∀ path k id, KeptAt parse.root (path ++ [k]) →
    (imageId parse (path ++ [k]) ∈ tree.children id ↔ id = imageId parse path)
  location : ∀ path n, KeptAt parse.root path → parse.root.at? path = some n →
    ∃ l, tree.location? (imageId parse path) = some l ∧
      l.line.toNat = n.item.row + 1 ∧ l.column.toNat = n.item.column + 1
  content : ∀ path n, KeptAt parse.root path → parse.root.at? path = some n →
    ∃ c, tree.content? (imageId parse path) = some c ∧
      ((∃ e, c = .definition e) ∨ (∃ e, c = .declaration e) ∨ (∃ r, c = .reference r) ∨
        c = .other n.kind.name)

/-- A node that is not about a name keeps its kind. -/
theorem fits_cases {n : Concrete.Node} {c : Content} (h : Fits source n c) :
    (∃ e, c = .definition e) ∨ (∃ e, c = .declaration e) ∨ (∃ r, c = .reference r) ∨
      c = .other n.kind.name := by
  cases c with
  | translationUnit => exact absurd h id
  | definition e => exact Or.inl ⟨e, rfl⟩
  | declaration e => exact Or.inr (Or.inl ⟨e, rfl⟩)
  | reference r => exact Or.inr (Or.inr (Or.inl ⟨r, rfl⟩))
  | other kind => exact Or.inr (Or.inr (Or.inr (congrArg Content.other h)))

/-- Where rows and columns leave room, a location counts both from one. -/
theorem toNat_ofPosition {row column : Nat} (hrow : row < 0xffffffff)
    (hcolumn : column < 0xffffffff) :
    (Location.ofPosition row column).line.toNat = row + 1 ∧
      (Location.ofPosition row column).column.toNat = column + 1 := by
  simp only [Location.ofPosition, UInt32.toNat_add, UInt32.toNat_ofNat', UInt32.toNat_one]
  omega

/-- The item of a node that a path leads to is one of the items. -/
theorem item_mem_of_at? {path : List Nat} {n m : Concrete.Node} (h : n.at? path = some m) :
    m.item ∈ Concrete.itemsFrom [n] := by
  induction path generalizing n with
  | nil =>
      cases Option.some.inj h
      obtain ⟨i, cs⟩ := m
      rw [Concrete.itemsFrom]
      exact List.mem_cons_self
  | cons k path ih =>
      obtain ⟨i, cs⟩ := n
      obtain ⟨c, hc, hm⟩ := Option.bind_eq_some_iff.1 h
      rw [Concrete.itemsFrom, List.append_nil]
      exact List.mem_cons_of_mem _ (mem_itemsFrom_of_mem (List.mem_of_getElem? hc) (ih hm))

section Tree
variable {spelling : String} {parse : Concrete.Parse} {tree : Tree}

/-- The children of a place are numbered as the paths to its kept children are. -/
theorem children_image (h : Grown source (.empty spelling) tree (places parse)) {p : Place}
    (hp : p ∈ allPlaces parse) :
    tree.children p.id =
      (keptPositions p.node.children).map fun k => imageId parse (p.path ++ [k]) := by
  have hids : tree.children p.id = childIds (p.id.index + 1) p.node.children := by
    rcases List.mem_cons.1 hp with rfl | hp
    · exact children_root h
    · exact children_of_place h hp
  rw [hids, childIds_eq]
  refine List.map_congr_left fun k hk => ?_
  obtain ⟨c, hc, hkept⟩ := keptPositions_spec hk
  obtain ⟨q, hq, -, hchild⟩ := exists_child hp hc hkept
  rw [← hchild.path, imageId_path (mem_allPlaces hq)]
  exact NodeId.ext hchild.id.symm

/-- A kept node is the child of one node only. -/
theorem mem_children_image (h : Grown source (.empty spelling) tree (places parse))
    {path : List Nat} {k : Nat} (hkept : KeptAt parse.root (path ++ [k])) {id : NodeId} :
    imageId parse (path ++ [k]) ∈ tree.children id ↔ id = imageId parse path := by
  obtain ⟨q, hq, hpath⟩ := exists_place_of_keptAt hkept
  obtain ⟨p, hp, j, hchild⟩ := exists_parent hq
  obtain ⟨rfl, hj⟩ := List.append_inj' (hpath.symm.trans hchild.path) rfl
  obtain rfl := List.head_eq_of_cons_eq hj
  rw [imageId_path hp]
  constructor
  · intro hmem
    have hlt : id.index < tree.size :=
      Nat.lt_trans (Tree.lt_of_mem_children hmem).1 (Tree.lt_of_mem_children hmem).2
    obtain ⟨p', hp', rfl⟩ : ∃ p' ∈ allPlaces parse, p'.id = id := by
      rcases exists_place h hlt with rfl | ⟨p', hp', rfl⟩
      · exact ⟨rootPlace parse, List.mem_cons_self, rfl⟩
      · exact ⟨p', mem_allPlaces hp', rfl⟩
    -- the child of `p'` with this number is the place `q`
    rw [children_image h hp'] at hmem
    obtain ⟨i, hi, he⟩ := List.mem_map.1 hmem
    obtain ⟨c, hc, hk⟩ := keptPositions_spec hi
    obtain ⟨q', hq', -, hchild'⟩ := exists_child hp' hc hk
    rw [← hchild'.path, ← hchild.path, imageId_path (mem_allPlaces hq),
      imageId_path (mem_allPlaces hq')] at he
    obtain rfl := eq_of_id_eq hq' hq he
    exact hchild'.parent.symm.trans hchild.parent
  · rintro rfl
    rw [children_image h hp]
    refine List.mem_map_of_mem (List.mem_filter.2 ⟨?_, ?_⟩)
    · exact List.mem_range.2 (List.getElem?_eq_some_iff.1 hchild.node).1
    · rw [hchild.node]
      exact hchild.kept

/-- The tree of a parse has its shape. -/
theorem hasShape_of_grown (h : Grown source (.empty spelling) tree (places parse))
    (hpositions : ∀ i ∈ parse.items, i.row < 0xffffffff ∧ i.column < 0xffffffff) :
    HasShape parse tree where
  size := by rw [h.size, keptPaths, List.length_map]; exact Nat.add_comm 1 _
  root := ⟨content?_root h, h.grows.location Tree.rootId Nat.zero_lt_one⟩
  children path n hpath hn := by
    obtain ⟨p, hp, rfl, rfl⟩ := exists_place_of_at? hpath hn
    rw [imageId_path hp]
    exact children_image h hp
  parent path k id hkept := mem_children_image h hkept
  location path n hkept hn := by
    obtain ⟨p, hp, rfl⟩ := exists_place_of_keptAt hkept
    obtain rfl := Option.some.inj ((at?_of_mem_places hp).2.symm.trans hn)
    obtain ⟨hrow, hcolumn⟩ := hpositions _ (item_mem_of_at? hn)
    rw [imageId_path (mem_allPlaces hp)]
    exact ⟨_, h.location p hp, toNat_ofPosition hrow hcolumn⟩
  content path n hkept hn := by
    obtain ⟨p, hp, rfl⟩ := exists_place_of_keptAt hkept
    obtain rfl := Option.some.inj ((at?_of_mem_places hp).2.symm.trans hn)
    obtain ⟨c, hc, hfits⟩ := h.content p hp
    rw [imageId_path (mem_allPlaces hp)]
    exact ⟨c, hc, fits_cases hfits⟩

end Tree

/-- **The tree of a parse has its shape.**  The kept nodes, the paths of which are in lexicographic
order, get the numbers from one on in that order, and if there is room for all of them the parse has
a tree.  Its nodes are the root and one node for each kept node, below the image of the node's
parent, the children of a node in their order, and each at the node's location. -/
theorem resolveNames_preserves_shape (language : Language) (source : ByteArray) (spelling : String)
    (parse : Concrete.Parse)
    (hpositions : ∀ i ∈ parse.items, i.row < 0xffffffff ∧ i.column < 0xffffffff) :
    (∀ path, path ∈ keptPaths parse ↔ KeptAt parse.root path) ∧
    (keptPaths parse).Pairwise (List.Lex (· < ·)) ∧
    (imageId parse [] = Tree.rootId ∧
      ∀ i path, (keptPaths parse)[i]? = some path → imageId parse path = ⟨i + 1⟩) ∧
    ((keptPaths parse).length < Tree.capacity →
      ∃ tree stats, resolveNames language source spelling parse = .ok (tree, stats)) ∧
    ∀ tree stats, resolveNames language source spelling parse = .ok (tree, stats) →
      HasShape parse tree := by
  refine ⟨fun _ => mem_keptPaths_iff, (List.pairwise_cons.1 (pairwise_path_allPlaces parse)).2,
    ⟨imageId_path List.mem_cons_self, fun _ _ => imageId_keptPaths⟩, fun hroom => ?_,
    fun tree stats h => hasShape_of_grown (grown_resolveNames h) hpositions⟩
  have hcount : stackCount (initialSteps parse) = (keptPaths parse).length :=
    (stackCount_plan ..).trans (length_keptPaths parse).symm
  obtain ⟨s, hwalk⟩ := exists_walk language source (sound_initial language spelling)
    (sound_initialSteps language spelling parse) (by
      show 1 + stackCount (initialSteps parse) ≤ Tree.capacity
      omega)
  obtain ⟨f, stats, -, htree⟩ := exists_tree_of_walk hwalk
  exact ⟨f.tree, stats, htree⟩

/-- The parse of the source `/* a */ x:;`, in which the comment and the colon are not kept. -/
def commentParse : Concrete.Parse where
  root := .node { kind := .translationUnit, stop := 11 }
    [.node { kind := .other "comment", isExtra := true, stop := 7 } [],
      .node { kind := .labeledStatement, start := 8, stop := 11, column := 8 }
        [.node { kind := .statementIdentifier, field := some .label, start := 8, stop := 9,
                 column := 8 } [],
          .node { kind := .other ":", isNamed := false, start := 9, stop := 10, column := 9 } [],
          .node { kind := .other "expression_statement", start := 10, stop := 11,
                  column := 10 } []]]
  hasError := false

/-- The label is the first kept node, and the statement behind it the third. -/
theorem resolveNames_preserves_shape_comment : ∃ tree stats,
    resolveNames .c "/* a */ x:;".toUTF8 "a.c" commentParse = .ok (tree, stats) ∧
      HasShape commentParse tree ∧ keptPaths commentParse = [[1], [1, 0], [1, 2]] ∧
      imageId commentParse [1, 2] = ⟨3⟩ := by
  have hpositions : ∀ i ∈ commentParse.items, i.row < 0xffffffff ∧ i.column < 0xffffffff := by
    decide +kernel
  have hpaths : keptPaths commentParse = [[1], [1, 0], [1, 2]] := by decide +kernel
  obtain ⟨-, -, ⟨-, hids⟩, hok, hshape⟩ :=
    resolveNames_preserves_shape .c "/* a */ x:;".toUTF8 "a.c" commentParse hpositions
  obtain ⟨tree, stats, h⟩ := hok (by rw [hpaths]; decide)
  exact ⟨tree, stats, h, hshape tree stats h, hpaths, hids 2 [1, 2] (by rw [hpaths]; rfl)⟩

end TypeUses.Resolution
