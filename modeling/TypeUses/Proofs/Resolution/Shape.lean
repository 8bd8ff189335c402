import Mathlib.Data.List.Basic
import TypeUses.Proofs.Resolution.Places
import TypeUses.Proofs.Resolution.Totality
import TypeUses.Proofs.Tree.Preorder

/-!
# Resolution — the tree has the shape of the parse

The tree of a parse has its root and one node for each place of the parse: with the number of the
place, below the place's parent, at the location of the parse's node, and with a content that fits
the node (`Fits`).

* `Grown source t t' ps`: tree `t'` is `t` with one node for each of the places `ps`.
* `grown_descend`, `grown_resolveNames`: a descent makes the places at and below its node; the tree
  of a parse has all places of the parse.
* `preorder_places`, `findUses_places`: the walk from the root comes to the places in their order, and
  so does a search.
-/

namespace TypeUses.Resolution

variable {language : Language} {source : ByteArray}

/-! ### Trees grown by places -/

theorem fits_unlinked {n : Concrete.Node} {c : Content} :
    Fits source n c.unlinked ↔ Fits source n c := by
  cases c <;> rfl

/-- Tree `t'` is `t` with one node for each of the places. -/
structure Grown (source : ByteArray) (t t' : Tree) (ps : List Place) : Prop where
  size : t'.size = t.size + ps.length
  grows : t.Grows t'
  children : ∀ id, t'.children id = t.children id ++ (ps.filter (·.parent = id)).map Place.id
  content : ∀ p ∈ ps, ∃ c, t'.content? p.id = some c ∧ Fits source p.node c
  location : ∀ p ∈ ps, t'.location? p.id = some p.node.item.location

namespace Grown

variable {t t₁ t' : Tree} {ps qs : List Place}

theorem refl (t : Tree) : Grown source t t [] :=
  ⟨rfl, .refl t, fun _ => (List.append_nil _).symm, nofun, nofun⟩

theorem trans (h : Grown source t t₁ ps) (h' : Grown source t₁ t' qs) :
    Grown source t t' (ps ++ qs) where
  size := by rw [h'.size, h.size, List.length_append, Nat.add_assoc]
  grows := h.grows.trans h'.grows
  children id := by
    rw [h'.children, h.children, List.filter_append, List.map_append, List.append_assoc]
  content p hp := by
    rcases List.mem_append.1 hp with hp | hp
    · obtain ⟨c, hc, hfits⟩ := h.content p hp
      have hu := h'.grows.content p.id (Tree.lt_size_of_content? hc)
      rw [hc] at hu
      obtain ⟨c', hc', hu⟩ := Option.map_eq_some_iff.1 hu
      exact ⟨c', hc', fits_unlinked.1 (hu ▸ fits_unlinked.2 hfits)⟩
    · exact h'.content p hp
  location p hp := by
    rcases List.mem_append.1 hp with hp | hp
    · obtain ⟨c, hc, -⟩ := h.content p hp
      rw [h'.grows.location p.id (Tree.lt_size_of_content? hc), h.location p hp]
    · exact h'.location p hp

theorem of_linked {links : List (NodeId × NodeId)} (h : Linked links t t') :
    Grown source t t' [] where
  size := h.size
  grows := h.grows
  children id := by rw [h.children]; exact (List.append_nil _).symm
  content := nofun
  location := nofun

end Grown

/-- Adding a node grows the tree by its place. -/
theorem grown_add {s s' : State} {f : Frame} {id : NodeId} {outline : Outline} (path : List Nat)
    (h : s.add language source f = .ok (s', id, outline)) :
    Grown source s.tree s'.tree [⟨f.node, f.outer, f.parent, id, path⟩] := by
  obtain ⟨tree, htree, rfl, -⟩ := add_eq_ok.1 h
  obtain ⟨-, rfl, -⟩ := Tree.push?_eq_ok.1 htree
  refine ⟨Tree.size_of_push? htree, (Tree.extends_of_push? htree).grows, fun x => ?_,
    fun p hp => ?_, fun p hp => ?_⟩
  · rw [State.tree_record, Tree.children_of_push? htree]
    by_cases hx : f.parent = x <;> simp [hx]
  · cases List.mem_singleton.1 hp
    exact ⟨_, by rw [State.tree_record, Tree.content?_of_push? htree, if_pos rfl],
      (readAs_readNode language source s.scopes _ f).content⟩
  · cases List.mem_singleton.1 hp
    rw [State.tree_record, Tree.location?_of_push? htree, if_pos rfl]

theorem grown_leaveOpening {s s' : State} {o : Option Opening} (h : s.leaveOpening o = .ok s') :
    Grown source s.tree s'.tree [] := by
  cases o with
  | none => cases h; exact .refl _
  | some o =>
      obtain ⟨-, -, ⟨ht, -⟩ | ⟨frame, -, -, hl⟩⟩ := leave_eq_ok h
      · rw [ht]; exact .refl _
      · exact .of_linked hl

mutual

/-- **A descent makes the places at and below its node.** -/
theorem grown_descend (path : List Nat) {outer : Concrete.Node} {parent : NodeId}
    {context : Context} : ∀ (n : Concrete.Node) {s s' : State},
      descend language source s outer parent context n = .ok s' →
        Grown source s.tree s'.tree (placesAt path outer parent s.tree.size n)
  | .node item children, s, s', h => by
      obtain ⟨s₁, id, outline, s₂, hadd, hall, hleave⟩ := descend_eq_ok.1 h
      obtain ⟨rfl, hsize⟩ := size_add hadd
      have hchildren := grown_descendAll path 0 children hall
      rw [hsize] at hchildren
      have hgrown := ((grown_add path hadd).trans hchildren).trans (grown_leaveOpening hleave)
      rw [List.append_nil] at hgrown
      exact hgrown

/-- The descent into children grows the tree by their places. -/
theorem grown_descendAll (path : List Nat) (k : Nat) {node : Concrete.Node} {id : NodeId}
    {context : Context} {outline : Outline} : ∀ (cs : List Concrete.Node)
      {opening : Option Opening} {s s' : State},
      descendAll language source s node id context outline opening cs = .ok s' →
        Grown source s.tree s'.tree (placesIn path node id s.tree.size k cs)
  | [], opening, s, s', h => by
      rw [descendAll] at h
      cases h
      rw [tree_enterOpening]
      exact .refl _
  | c :: cs, opening, s, s', h => by
      by_cases hk : c.item.isKept
      · obtain ⟨s₁, hc, hcs⟩ := (descendAll_cons_eq_ok hk).1 h
        have hhere := grown_descend (path ++ [k]) c hc
        have hrest := grown_descendAll path (k + 1) cs hcs
        rw [State.atChild, tree_enterOpening] at hhere
        rw [hhere.size, length_placesAt] at hrest
        rw [placesIn, if_pos hk]
        exact hhere.trans hrest
      · rw [descendAll, if_neg hk] at h
        rw [placesIn, if_neg hk]
        exact grown_descendAll path (k + 1) cs h

end

/-! ### The tree of a parse -/

/-- A tree of a parse is that of a walk to the end, after which what is pending was linked. -/
theorem resolveNames_eq_ok {spelling : String} {parse : Concrete.Parse} {tree : Tree}
    {stats : Stats} (h : resolveNames language source spelling parse = .ok (tree, stats)) :
    ∃ s s', walk language source (.initial language spelling) (initialSteps parse) = .ok s ∧
      s.finish = .ok s' ∧ tree = s'.tree := by
  obtain ⟨s, hwalk, h⟩ := bind_eq_ok.1 h
  obtain ⟨s', hfinish, h⟩ := bind_eq_ok.1 h
  exact ⟨s, s', hwalk, hfinish, (congrArg Prod.fst (Except.ok.inj h)).symm⟩

theorem spelling_link {s s' : State} {links : List (NodeId × NodeId)}
    (h : s.link links = .ok s') : s'.tree.spelling = s.tree.spelling := by
  induction links generalizing s with
  | nil => cases h; rfl
  | cons l links ih =>
      rw [State.link] at h
      split at h
      · next tree htree => exact (ih h).trans (Tree.resolve?_eq_ok.1 htree).2.1
      · cases h

theorem respects_spelling :
    Respects language source (fun _ => True) (fun s s' => s'.tree.spelling = s.tree.spelling)
      fun _ _ => True where
  refl _ := rfl
  trans h h' := h'.trans h
  add _ h := by
    obtain ⟨tree, htree, rfl, -⟩ := add_eq_ok.1 h
    exact ⟨trivial, (Tree.push?_eq_ok.1 htree).2.2.1, fun _ _ => trivial⟩
  keep _ _ := trivial
  enter _ _ := trivial
  leave {s s₁ s' entry} _ _ _ h hleave := by
    rw [tree_enter] at h
    rcases leave_cases hleave with ⟨rfl, -⟩ | ⟨frame, rest, -, -, hlink⟩
    · exact ⟨trivial, h⟩
    · exact ⟨trivial, (spelling_link hlink).trans h⟩

/-- The tree of a parse has the name that it is given. -/
theorem spelling_resolveNames {spelling : String} {parse : Concrete.Parse} {tree : Tree}
    {stats : Stats} (h : resolveNames language source spelling parse = .ok (tree, stats)) :
    tree.spelling = spelling := by
  obtain ⟨s, s', hwalk, hfinish, rfl⟩ := resolveNames_eq_ok h
  rw [walk_eq_descent] at hwalk
  exact (spelling_link hfinish).trans
    (respects_spelling.descendAll_none parse.root.children trivial hwalk).2

/-- **The tree of a parse has all places of the parse.** -/
theorem grown_resolveNames {spelling : String} {parse : Concrete.Parse} {tree : Tree}
    {stats : Stats} (h : resolveNames language source spelling parse = .ok (tree, stats)) :
    Grown source (.empty spelling) tree (places parse) := by
  obtain ⟨s, s', hwalk, hfinish, rfl⟩ := resolveNames_eq_ok h
  rw [walk_eq_descent] at hwalk
  have hall := grown_descendAll [] 0 parse.root.children hwalk
  have hgrown := hall.trans (.of_linked (linked_of_link hfinish).1)
  rw [List.append_nil] at hgrown
  exact hgrown

section Tree
variable {spelling : String} {parse : Concrete.Parse} {tree : Tree}

/-- Every node of the tree but the root is a place. -/
theorem exists_place (h : Grown source (.empty spelling) tree (places parse)) {id : NodeId}
    (hid : id.index < tree.size) : id = Tree.rootId ∨ ∃ p ∈ places parse, p.id = id := by
  obtain ⟨i⟩ := id
  cases i with
  | zero => exact Or.inl rfl
  | succ i =>
      have hlt : i + 1 < 1 + (places parse).length := h.size ▸ hid
      have hmem : i + 1 ∈ (places parse).map (·.id.index) := by
        rw [map_id_places, List.mem_range'_1]
        omega
      obtain ⟨p, hp, he⟩ := List.mem_map.1 hmem
      exact Or.inr ⟨p, hp, NodeId.ext he⟩

theorem content?_root (h : Grown source (.empty spelling) tree (places parse)) :
    tree.content? Tree.rootId = some .translationUnit := by
  have hc := h.grows.content Tree.rootId Nat.zero_lt_one
  obtain ⟨c, hc, hu⟩ := Option.map_eq_some_iff.1 hc
  cases c <;> first | exact hc | cases hu

/-- A node of the tree that is not the root is a place. -/
theorem exists_place_of_content? (h : Grown source (.empty spelling) tree (places parse))
    {id : NodeId} {c : Content} (hc : tree.content? id = some c) (hne : c ≠ .translationUnit) :
    ∃ p ∈ places parse, p.id = id := by
  rcases exists_place h (Tree.lt_size_of_content? hc) with rfl | hp
  · exact absurd (Option.some.inj (hc.symm.trans (content?_root h))) hne
  · exact hp

/-- The children of a place in the tree are the numbers of its kept children. -/
theorem children_of_place (h : Grown source (.empty spelling) tree (places parse)) {p : Place}
    (hp : p ∈ places parse) :
    tree.children p.id = childIds (p.id.index + 1) p.node.children := by
  have hpos := (id_bounds_of_mem_placesIn hp).1
  have hnone : (Tree.empty spelling).children p.id = [] := by
    have hnode : (Tree.empty spelling).node? p.id = none := Tree.node?_eq_none_iff.2 hpos
    rw [Tree.children_eq, hnode]
    rfl
  rw [h.children, hnone, List.nil_append]
  exact children_of_mem_placesIn Nat.zero_lt_one parse.root.children hp

theorem children_root (h : Grown source (.empty spelling) tree (places parse)) :
    tree.children Tree.rootId = childIds 1 parse.root.children := by
  rw [h.children]
  exact filter_parent_placesIn Nat.zero_lt_one parse.root.children

/-! ### The walk over the tree -/

mutual

/-- If the tree has the children of each place, its pre-order below a node is that of the places. -/
theorem preorder_placesAt {path : List Nat} {outer : Concrete.Node} {parent : NodeId}
    {next : Nat} : ∀ n : Concrete.Node,
      (∀ p ∈ placesAt path outer parent next n,
        tree.children p.id = childIds (p.id.index + 1) p.node.children) →
      tree.preorder ⟨next⟩ = (placesAt path outer parent next n).map Place.id
  | .node item children, h => by
      rw [placesAt] at h ⊢
      rw [List.map_cons, Tree.preorder_eq, h _ List.mem_cons_self]
      exact congrArg _ (preorder_placesIn children fun p hp => h p (List.mem_cons_of_mem _ hp))

theorem preorder_placesIn {path : List Nat} {node : Concrete.Node} {id : NodeId}
    {next k : Nat} : ∀ cs : List Concrete.Node,
      (∀ p ∈ placesIn path node id next k cs,
        tree.children p.id = childIds (p.id.index + 1) p.node.children) →
      (childIds next cs).flatMap tree.preorder = (placesIn path node id next k cs).map Place.id
  | [], _ => rfl
  | c :: cs, h => by
      rw [childIds]
      rw [placesIn] at h ⊢
      split at h <;> rename_i hk
      · rw [if_pos hk, if_pos hk, List.flatMap_cons, List.map_append,
          preorder_placesAt c fun p hp => h p (List.mem_append_left _ hp),
          preorder_placesIn cs fun p hp => h p (List.mem_append_right _ hp)]
      · rw [if_neg hk, if_neg hk]
        exact preorder_placesIn cs h

end

/-- **The walk from the root comes to the places in their order.** -/
theorem preorder_places (h : Grown source (.empty spelling) tree (places parse)) :
    tree.preorder Tree.rootId = Tree.rootId :: (places parse).map Place.id := by
  rw [Tree.preorder_eq, children_root h]
  exact congrArg _ (preorder_placesIn parse.root.children fun p hp => children_of_place h hp)

/-- A search from the root looks at the places in their order. -/
theorem findUses_places (h : Grown source (.empty spelling) tree (places parse)) (name : String) :
    tree.findUses name Tree.rootId =
      (places parse).flatMap fun p => (tree.useAt? name p.id).toList := by
  have hroot : tree.useAt? name Tree.rootId = none := by
    rw [Option.eq_none_iff_forall_ne_some]
    intro u hu
    obtain ⟨⟨d, c, e, ht, -⟩, -⟩ := Tree.useAt?_eq_some_iff.1 hu
    obtain ⟨r, hr, -⟩ := Tree.target?_eq_some_iff.1 ht
    rw [content?_root h] at hr
    cases hr
  rw [Tree.findUses_eq, Tree.uses_eq_filterMap, preorder_places h, List.filterMap_cons_none hroot,
    List.filterMap_map, List.filterMap_eq_flatMap_toList]
  rfl

end Tree

end TypeUses.Resolution
