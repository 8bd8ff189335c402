import TypeUses.Command.Run
import TypeUses.Proofs.Resolution.Numbering
import TypeUses.Proofs.Tree.Search

/-!
# Resolution — uses in the order of the source

If the nodes of a parse begin one behind the other in pre-order (`Parse.InOrder`), the uses of a
name are found in the order of their locations, below every node of the tree, and the lines that
the command writes come in this order (`uses_in_source_order`).

* `notAfter_location`: locations are ordered as the rows and columns are from which they are made,
  as long as these leave room for them.
* `items_placesAt_sublist`: the kept nodes of a parse are some of its nodes, in the same order; and
  a search comes to them in this order (`findUses_places`).
-/

namespace TypeUses

/-! ### Positions and locations -/

namespace Concrete

/-- The first item begins where the second does or in front of it. -/
def Item.NotAfter (i j : Item) : Prop := i.row < j.row ∨ i.row = j.row ∧ i.column ≤ j.column

instance (i j : Item) : Decidable (i.NotAfter j) :=
  inferInstanceAs (Decidable (i.row < j.row ∨ i.row = j.row ∧ i.column ≤ j.column))

/-- The nodes begin one behind the other in pre-order, at rows and columns that leave room for their
locations. -/
structure Parse.InOrder (p : Parse) : Prop where
  sorted : p.items.Pairwise Item.NotAfter
  room : ∀ i ∈ p.items, i.row < 0xffffffff ∧ i.column < 0xffffffff

end Concrete

theorem compare_toNat (x y : UInt32) : compare x y = compare x.toNat y.toNat := by
  simp only [compare, compareOfLessAndEq, UInt32.lt_iff_toNat_lt, UInt32.toNat_inj]

/-- A location is not after another if its line is smaller, or the lines are the same and its column
is not greater. -/
theorem Location.notAfter_iff {a b : Location} :
    a.notAfter b ↔ a.line.toNat < b.line.toNat ∨
      a.line.toNat = b.line.toNat ∧ a.column.toNat ≤ b.column.toNat := by
  simp only [notAfter, Location.compare, Ordering.isLE_then_iff_or, compare_toNat,
    Nat.compare_eq_lt, Nat.compare_eq_eq, Nat.isLE_compare]

namespace Resolution

variable {language : Language} {source : ByteArray}

/-- Locations are ordered as the items are at which they are. -/
theorem notAfter_location {i j : Concrete.Item}
    (hi : i.row < 0xffffffff ∧ i.column < 0xffffffff)
    (hj : j.row < 0xffffffff ∧ j.column < 0xffffffff) :
    i.location.notAfter j.location ↔ i.NotAfter j := by
  obtain ⟨hline, hcolumn⟩ := toNat_ofPosition hi.1 hi.2
  obtain ⟨hline', hcolumn'⟩ := toNat_ofPosition hj.1 hj.2
  simp only [Concrete.Item.location, Location.notAfter_iff, hline, hcolumn, hline', hcolumn',
    Concrete.Item.NotAfter]
  omega

/-! ### Kept nodes among all nodes -/

mutual

/-- The items of the places at and below a node are among those of the parse, in the same order. -/
theorem items_placesAt_sublist (path : List Nat) (outer : Concrete.Node) (parent : NodeId)
    (next : Nat) : ∀ n : Concrete.Node,
      ((placesAt path outer parent next n).map (·.node.item)).Sublist (Concrete.itemsFrom [n])
  | .node i cs => by
      rw [placesAt, List.map_cons, itemsFrom_node]
      exact (items_placesIn_sublist path (.node i cs) ⟨next⟩ (next + 1) 0 cs).cons_cons i

/-- The items of the places below some children are some of all items, in the same order. -/
theorem items_placesIn_sublist (path : List Nat) (node : Concrete.Node) (id : NodeId)
    (next k : Nat) : ∀ cs : List Concrete.Node,
      ((placesIn path node id next k cs).map (·.node.item)).Sublist (Concrete.itemsFrom cs)
  | [] => List.nil_sublist _
  | c :: cs => by
      rw [placesIn, itemsFrom_cons]
      split
      · rw [List.map_append]
        exact (items_placesAt_sublist (path ++ [k]) node id next c).append
          (items_placesIn_sublist path node id _ (k + 1) cs)
      · exact (items_placesIn_sublist path node id next (k + 1) cs).trans
          (List.sublist_append_right _ _)

end

/-- The kept nodes of a parse in order have their locations in order. -/
theorem pairwise_location_places {parse : Concrete.Parse} (h : parse.InOrder) :
    (places parse).Pairwise fun p q => p.node.item.location.notAfter q.node.item.location := by
  have hsub : ((places parse).map (·.node.item)).Sublist parse.items := by
    obtain ⟨⟨i, cs⟩, hasError⟩ := parse
    rw [Concrete.Parse.items, itemsFrom_node]
    exact (items_placesIn_sublist [] (.node i cs) Tree.rootId 1 0 cs).cons i
  have hsorted := List.pairwise_map.1 (h.sorted.sublist hsub)
  refine hsorted.imp_of_mem fun {p q} hp hq hpq => ?_
  have room : ∀ p ∈ places parse, p.node.item ∈ parse.items := fun p hp =>
    hsub.subset (List.mem_map_of_mem hp)
  exact (notAfter_location (h.room _ (room p hp)) (h.room _ (room q hq))).2 hpq

/-! ### Searches -/

section Tree
variable {spelling : String} {parse : Concrete.Parse} {tree : Tree}

/-- From the root the uses are found in the order of their locations. -/
theorem pairwise_findUses_root (h : Grown source (.empty spelling) tree (places parse))
    (hparse : parse.InOrder) (name : String) :
    (tree.findUses name Tree.rootId).Pairwise fun u v => u.location.notAfter v.location := by
  have hlocation : ∀ p ∈ places parse, ∀ u, tree.useAt? name p.id = some u →
      u.location = p.node.item.location := by
    intro p hp u hu
    obtain ⟨-, l, hl, rfl⟩ := Tree.useAt?_eq_some_iff.1 hu
    exact Option.some.inj (hl.symm.trans (h.location p hp))
  rw [findUses_places h, ← List.filterMap_eq_flatMap_toList, List.pairwise_filterMap]
  refine (pairwise_location_places hparse).imp_of_mem fun {p q} hp hq hpq u hu v hv => ?_
  rw [hlocation p hp u hu, hlocation q hq v hv]
  exact hpq

/-- The walk from the root comes to every node of the tree. -/
theorem mem_preorder_root (h : Grown source (.empty spelling) tree (places parse)) {id : NodeId}
    (hid : id.index < tree.size) : id ∈ tree.preorder Tree.rootId := by
  rw [preorder_places h]
  rcases exists_place h hid with rfl | ⟨p, hp, rfl⟩
  · exact List.mem_cons_self
  · exact List.mem_cons_of_mem _ (List.mem_map_of_mem hp)

end Tree

/-! ### What the command writes -/

theorem report_eq {tree : Tree} {file : String} (h : tree.spelling = file) (name : String) :
    Command.report tree name = "Translation unit: " ++ file ++ "\n" ++
      String.join ((tree.findUses name Tree.rootId).map Command.Use.line) := by
  subst h
  rfl

/-- The tree of a source is that of its parse. -/
theorem resolveNames_of_treeOfSource {config : Config} {grammar : Grammar} {spelling : String}
    {tree : Tree} (h : treeOfSource config grammar spelling source language = .ok tree) :
    ∃ stats,
      resolveNames language source spelling (grammar language source) = .ok (tree, stats) := by
  unfold treeOfSource at h
  split at h
  next => cases h
  next tree' stats hresolved =>
    have heq : tree' = tree := by
      split at h
      · split at h
        · cases h
        · exact Except.ok.inj h
      · exact Except.ok.inj h
    exact ⟨stats, heq ▸ hresolved⟩

/-- A file with a tree has a language and can be read, and the tree is that of its source. -/
theorem treeOfFile_eq_ok {config : Config} {grammar : Grammar} {fs : FileSystem} {path : String}
    {tree : Tree} (h : treeOfFile config grammar fs path = .ok tree) :
    ∃ language source, config.languageFor? path = some language ∧
      readSource config fs path = .ok source ∧
      treeOfSource config grammar path source language = .ok tree := by
  unfold treeOfFile at h
  split at h
  next => cases h
  next language hlanguage =>
    split at h
    next => cases h
    next source hsource => exact ⟨language, source, hlanguage, hsource, h⟩

/-- A search that succeeds writes the report on the tree of the file. -/
theorem search_eq_report {grammar : Grammar} {fs : FileSystem} {options : Command.Options}
    (h : (Command.run grammar fs (.search options)).code = 0) :
    ∃ config tree, Command.configOf fs options = .ok config ∧
      treeOfFile config grammar fs options.file = .ok tree ∧
      (Command.run grammar fs (.search options)).stdout = Command.report tree options.typeName := by
  simp only [Command.run, Command.search] at h ⊢
  cases htree : Command.treeOf grammar fs options with
  | error e => simp [htree] at h
  | ok tree =>
    unfold Command.treeOf at htree
    split at htree
    next => cases htree
    next config hconfig => exact ⟨config, tree, hconfig, htree, rfl⟩

/-- **Uses are found in the order of the source.**  If the nodes of a parse begin one behind the
other in pre-order, then below every node of the tree the uses of every name are found in the order
of their locations; and if the parse is that of the file of a search, the lines that are written
behind the first are those of the uses in its tree, one for each, in this order. -/
theorem uses_in_source_order {parse : Concrete.Parse} (hparse : parse.InOrder) :
    (∀ spelling tree stats, resolveNames language source spelling parse = .ok (tree, stats) →
      ∀ id : NodeId, id.index < tree.size → ∀ name,
        (tree.findUses name id).Pairwise fun u v => u.location.notAfter v.location) ∧
    ∀ grammar fs options config, Command.configOf fs options = .ok config →
      config.languageFor? options.file = some language →
      readSource config fs options.file = .ok source → grammar language source = parse →
      (Command.run grammar fs (.search options)).code = 0 →
      ∃ tree stats, resolveNames language source options.file parse = .ok (tree, stats) ∧
        (tree.findUses options.typeName Tree.rootId).Pairwise
          (fun u v => u.location.notAfter v.location) ∧
        (Command.run grammar fs (.search options)).stdout =
          "Translation unit: " ++ options.file ++ "\n" ++
            String.join ((tree.findUses options.typeName Tree.rootId).map Command.Use.line) := by
  have root : ∀ {spelling tree stats},
      resolveNames language source spelling parse = .ok (tree, stats) → ∀ name,
        (tree.findUses name Tree.rootId).Pairwise fun u v => u.location.notAfter v.location :=
    fun h => pairwise_findUses_root (grown_resolveNames h) hparse
  refine ⟨fun spelling tree stats h id hid name => ?_,
    fun grammar fs options config hconfig hlanguage hsource hgrammar hcode => ?_⟩
  · -- the uses below a node are a part of those below the root
    have hpart := Tree.isInfix_uses (mem_preorder_root (grown_resolveNames h) hid) name
    rw [← Tree.findUses_eq, ← Tree.findUses_eq] at hpart
    exact (root h name).sublist hpart.sublist
  · obtain ⟨config', tree, hconfig', htree, hout⟩ := search_eq_report hcode
    -- the search reads the given source, in the given language
    obtain rfl := Except.ok.inj (hconfig.symm.trans hconfig')
    obtain ⟨language', source', hlanguage', hsource', htree⟩ := treeOfFile_eq_ok htree
    obtain rfl := Option.some.inj (hlanguage.symm.trans hlanguage')
    obtain rfl := Except.ok.inj (hsource.symm.trans hsource')
    obtain ⟨stats, hresolved⟩ := resolveNames_of_treeOfSource htree
    rw [hgrammar] at hresolved
    exact ⟨tree, stats, hresolved, root hresolved _,
      hout.trans (report_eq (spelling_resolveNames hresolved) _)⟩

/-- The source `typedef int P;P a;P b;`. -/
def typedefSource : ByteArray := "typedef int P;P a;P b;".toUTF8

/-- Its parse. -/
def typedefParse : Concrete.Parse where
  root := .node { kind := .translationUnit, stop := 22 }
    [.node { kind := .typeDefinition, stop := 14 }
      [.node { kind := .other "primitive_type", field := some .type, start := 8, stop := 11,
               column := 8 } [],
        .node { kind := .typeIdentifier, field := some .declarator, start := 12, stop := 13,
                column := 12 } []],
      .node { kind := .declaration, start := 14, stop := 18, column := 14 }
        [.node { kind := .typeIdentifier, field := some .type, start := 14, stop := 15,
                 column := 14 } []],
      .node { kind := .declaration, start := 18, stop := 22, column := 18 }
        [.node { kind := .typeIdentifier, field := some .type, start := 18, stop := 19,
                 column := 18 } []]]
  hasError := false

/-- The two uses of `P` are found in order, and two lines are written of them, in this order. -/
theorem uses_in_source_order_typedef : ∃ tree stats,
    resolveNames .c typedefSource "a.c" typedefParse = .ok (tree, stats) ∧
      tree.findUses "P" Tree.rootId = [⟨"P", ⟨1, 15⟩⟩, ⟨"P", ⟨1, 19⟩⟩] ∧
      (tree.findUses "P" Tree.rootId).Pairwise (fun u v => u.location.notAfter v.location) ∧
      (Command.run (fun _ _ => typedefParse) (fun _ => .ok (.file typedefSource))
          (.search { file := "a.c", typeName := "P", language := some .c })).stdout =
        "Translation unit: a.c\nP 1 15\nP 1 19\n" := by
  have hparse : typedefParse.InOrder := ⟨by decide +kernel, by decide +kernel⟩
  have hvalue : (resolveNames .c typedefSource "a.c" typedefParse).toOption.map
      (fun r => (r.1.size, r.1.findUses "P" Tree.rootId)) =
        some (8, [⟨"P", ⟨1, 15⟩⟩, ⟨"P", ⟨1, 19⟩⟩]) := by
    decide +kernel
  obtain ⟨hfound, hwritten⟩ := @uses_in_source_order .c typedefSource _ hparse
  obtain ⟨tree, stats, h, -, hout⟩ := hwritten (fun _ _ => typedefParse)
    (fun _ => .ok (.file typedefSource))
    { file := "a.c", typeName := "P", language := some .c } { language := some .c } rfl rfl
    (by decide +kernel) rfl (by decide +kernel)
  rw [h] at hvalue
  obtain ⟨hsize, huses⟩ := Prod.mk.inj (Option.some.inj hvalue)
  have hroot : Tree.rootId.index < tree.size := hsize ▸ Nat.zero_lt_succ 7
  refine ⟨tree, stats, h, huses, hfound "a.c" tree stats h Tree.rootId hroot "P", ?_⟩
  rw [hout, huses]
  decide +kernel

end Resolution

end TypeUses
