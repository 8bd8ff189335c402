import TypeUses.Proofs.Resolution.Paths
import TypeUses.Proofs.Resolution.Shape
import TypeUses.Proofs.Resolution.Texts
import TypeUses.Proofs.Tree.Enlarging

/-!
# Resolution — further items at the end of a unit

Items that are added at the end of a translation unit enlarge its tree and change nothing of what it
was (`resolveNames_extends`).  The walk over the longer unit is first the walk over the shorter one;
what follows finds all scopes left, so that it adds nodes and bindings and links only its own
`goto`s.  At the end a reference of the shorter unit still means the same entity, and an entity that
was defined keeps its definition (`enlarges_finish`).
-/

namespace TypeUses.Resolution

variable {language : Language} {source source' : ByteArray}

/-! ### The links at the end -/

/-- A reference is pending once. -/
theorem State.Sound.pending_unique {s : State} (hs : s.Sound) {id : NodeId} {e e' : EntityId}
    (h : (id, e) ∈ s.pending) (h' : (id, e') ∈ s.pending) : e = e' := by
  have hnodup : (s.pending.map fun p => p.1.index).Nodup :=
    List.pairwise_map.2 (hs.order.imp fun hlt => (Nat.ne_of_lt hlt).symm)
  exact congrArg Prod.snd (List.inj_on_of_nodup_map hnodup h h' rfl)

/-- In the end a pending reference has the definition of its entity as its target. -/
theorem target?_of_pending {s f : State} (hs : s.Sound) (hfinish : s.finish = .ok f) {id : NodeId}
    {e : EntityId} (hp : (id, e) ∈ s.pending) : f.tree.target? id = s.scopes.definition? e := by
  have linked := (linked_of_link hfinish).1
  obtain ⟨-, r, hr, -, hnone⟩ := hs.pending _ hp
  have own : ∀ d, (id, d) ∈ s.links → s.scopes.definition? e = some d := by
    intro d hd
    obtain ⟨e', hp', hdef⟩ := State.mem_links.1 hd
    rwa [hs.pending_unique hp hp']
  cases hdef : s.scopes.definition? e with
  | none =>
      have hfree : ∀ d, (id, d) ∉ s.links := by
        intro d hd
        rw [own d hd] at hdef
        cases hdef
      rw [Tree.target?, Tree.reference?, linked.content_eq hfree, hr]
      exact hnone
  | some d =>
      obtain ⟨d', hd', hc⟩ := linked.linked id d (State.mem_links.2 ⟨e, hp, hdef⟩)
      obtain rfl := Option.some.inj (hdef.symm.trans (own d' hd'))
      rw [Tree.target?, Tree.reference?, hc, hr]
      rfl

/-- A node that is not pending says in the end what it said. -/
theorem content?_of_not_pending {s f : State} (hfinish : s.finish = .ok f) {id : NodeId}
    (h : ∀ e, (id, e) ∉ s.pending) : f.tree.content? id = s.tree.content? id := by
  refine (linked_of_link hfinish).1.content_eq fun d hd => ?_
  obtain ⟨e, hp, -⟩ := State.mem_links.1 hd
  exact h e hp

/-- In the end a node of the first state refers to the same entity in both, or has the same
target. -/
theorem target?_of_follows {s s' f f' : State} (hs : s.Sound) (hs' : s'.Sound) (h : Follows s s')
    (hfinish : s.finish = .ok f) (hfinish' : s'.finish = .ok f') {id : NodeId}
    (hid : id.index < s.tree.size) :
    (∃ e, f.tree.target? id = s.scopes.definition? e ∧
      f'.tree.target? id = s'.scopes.definition? e) ∨
    f'.tree.target? id = f.tree.target? id := by
  by_cases hp : ∃ e, (id, e) ∈ s.pending
  · obtain ⟨e, hp⟩ := hp
    exact Or.inl ⟨e, target?_of_pending hs hfinish hp,
      target?_of_pending hs' hfinish' (h.pending.of_mem hp)⟩
  · -- it is not pending later either, as only further nodes become pending
    have hfree : ∀ e, (id, e) ∉ s.pending := fun e he => hp ⟨e, he⟩
    have hfree' : ∀ e, (id, e) ∉ s'.pending := fun e he =>
      (h.pending.mem he).elim (fun hn => absurd hid (Nat.not_lt.2 hn)) (hfree e)
    refine Or.inr ?_
    rw [Tree.target?, Tree.reference?, content?_of_not_pending hfinish' hfree',
      h.tree.content id hid, ← content?_of_not_pending hfinish hfree]
    rfl

/-- **What follows enlarges the tree.**  The trees after the links of a state and of one that
follows it. -/
theorem enlarges_finish {s s' f f' : State} (hs : s.Sound) (hs' : s'.Sound) (h : Follows s s')
    (hfinish : s.finish = .ok f) (hfinish' : s'.finish = .ok f') : f.tree.Enlarges f'.tree := by
  have linked := (linked_of_link hfinish).1
  have linked' := (linked_of_link hfinish').1
  have old : ∀ {id : NodeId}, id.index < f.tree.size → id.index < s.tree.size :=
    fun hid => linked.size ▸ hid
  have targets := @target?_of_follows _ _ _ _ hs hs' h hfinish hfinish'
  refine ⟨⟨?_, fun id hid => ?_, fun id hid => ?_⟩, fun id => ?_, fun id d hd => ?_,
    fun id d hid hd => ?_⟩
  · rw [linked.size, linked'.size]
    exact h.tree.size_le
  · have hid := old hid
    rw [linked'.grows.content id (Nat.lt_of_lt_of_le hid h.tree.size_le), h.tree.content id hid,
      linked.grows.content id hid]
  · rw [linked'.location, linked.location, h.tree.location id (old hid)]
  · rw [linked.children, linked'.children, linked.size]
    exact h.tree.children id
  · obtain ⟨r, hr, -⟩ := Tree.target?_eq_some_iff.1 hd
    rcases targets (old (Tree.lt_size_of_content? hr)) with ⟨e, he, he'⟩ | he
    · rw [he']
      exact h.scopes.definition (he ▸ hd)
    · rw [he, hd]
  · rcases targets (old hid) with ⟨e, he, he'⟩ | he
    · rw [he'] at hd
      cases hdef : s.scopes.definition? e with
      | some d₀ =>
          rw [h.scopes.definition hdef] at hd
          exact Or.inl (he.trans (hdef.trans hd))
      | none =>
          -- the entity is defined by what follows
          refine Or.inr ⟨he.trans hdef, ?_, ?_⟩
          · rw [linked.size]
            exact (h.scopes.defined hd).resolve_left (by simp [hdef])
          · obtain ⟨info, hi, -⟩ := Table.definition?_eq_some_iff.1 hd
            exact (hs'.scopes.definition (Table.lt_of_entity? hi) hd).grows linked'.grows
    · exact Or.inl (he ▸ hd)

/-! ### Longer units -/

/-- **Further items at the end of a unit.**  If a translation unit is followed by `extra` items and
its own keep their texts, then its tree is there if that of the longer unit is, and is enlarged to
it: every node keeps its number, parent, place, kind and name, a reference keeps its target, and one
without a target gets none but a definition among the further nodes.  So what is found for a name is
part of what is found in the longer unit, in the same order. -/
theorem resolveNames_extends {spelling : String} {parse parse' : Concrete.Parse}
    {extra : List Concrete.Node} (hroot : parse.root.kind = .translationUnit)
    (hroot' : parse'.root.kind = .translationUnit)
    (hchildren : parse'.root.children = parse.root.children ++ extra)
    (htext : ∀ i ∈ Concrete.itemsFrom parse.root.children, textOf source' i = textOf source i)
    {tree' : Tree} {stats' : Stats}
    (h' : resolveNames language source' spelling parse' = .ok (tree', stats')) :
    ∃ tree stats, resolveNames language source spelling parse = .ok (tree, stats) ∧
      tree.Enlarges tree' ∧
      ∀ name, (tree.findUses name Tree.rootId).Sublist (tree'.findUses name Tree.rootId) := by
  obtain ⟨s', f', hwalk', hfinish', rfl⟩ := resolveNames_eq_ok h'
  have hsound' := (sound_of_parse (walk_eq_ok_iff.1 hwalk')).1
  -- the longer walk is the shorter one and what follows
  rw [walk_eq_descent, descent, hchildren, descendAll_append] at hwalk'
  obtain ⟨s, hshort, hextra⟩ := bind_eq_ok.1 hwalk'
  have halike : Alike parse.root parse'.root := Or.inr ⟨hroot, hroot'⟩
  rw [descendAll_congr halike parse.root.children _ fun c hc => sameText_of_mem htext hc] at hshort
  have hwalk : walk language source (.initial language spelling) (initialSteps parse) = .ok s := by
    rw [walk_eq_descent]
    exact hshort
  have hsound := (sound_of_parse (walk_eq_ok_iff.1 hwalk)).1
  obtain ⟨f, stats, hfinish, htree⟩ := exists_tree_of_walk hwalk
  have henlarges := enlarges_finish hsound hsound' (follows_descendAll hextra) hfinish hfinish'
  exact ⟨f.tree, stats, htree, henlarges, fun name => henlarges.findUses_sublist name Tree.rootId⟩

/-- The items of the source `struct P *a;`. -/
def useItems : List Concrete.Node :=
  [.node { kind := .declaration, stop := 12 }
    [.node { kind := .structSpecifier, field := some .type, stop := 8 }
      [.node { kind := .typeIdentifier, field := some .name, start := 7, stop := 8 } []],
      .node { kind := .other "pointer_declarator", field := some .declarator, start := 9,
              stop := 11 } []]]

/-- The items that follow them in the source `struct P *a; struct P {};`. -/
def definitionItems : List Concrete.Node :=
  [.node { kind := .structSpecifier, start := 13, stop := 24 }
    [.node { kind := .typeIdentifier, field := some .name, start := 20, stop := 21 } [],
      .node { kind := .other "field_declaration_list", field := some .body, start := 22,
              stop := 24 } []]]

/-- The tag that is used first gets the definition that follows as its target. -/
theorem resolveNames_extends_tag : ∃ tree tree' stats stats',
    resolveNames .c "struct P *a;".toUTF8 "a.c" ⟨.node { kind := .translationUnit } useItems,
        false⟩ = .ok (tree, stats) ∧
      resolveNames .c "struct P *a; struct P {};".toUTF8 "a.c"
        ⟨.node { kind := .translationUnit } (useItems ++ definitionItems), false⟩ =
          .ok (tree', stats') ∧
      tree'.target? ⟨3⟩ = some ⟨5⟩ ∧ tree.Enlarges tree' ∧
      ∀ name, (tree.findUses name Tree.rootId).Sublist (tree'.findUses name Tree.rootId) := by
  have htarget : (resolveNames .c "struct P *a; struct P {};".toUTF8 "a.c"
      ⟨.node { kind := .translationUnit } (useItems ++ definitionItems), false⟩).toOption.bind
      (fun r => r.1.target? ⟨3⟩) = some ⟨5⟩ := by decide +kernel
  have htext : ∀ i ∈ Concrete.itemsFrom useItems,
      textOf "struct P *a; struct P {};".toUTF8 i = textOf "struct P *a;".toUTF8 i := by
    decide +kernel
  cases h' : resolveNames .c "struct P *a; struct P {};".toUTF8 "a.c"
      ⟨.node { kind := .translationUnit } (useItems ++ definitionItems), false⟩ with
  | error fault => rw [h'] at htarget; cases htarget
  | ok r =>
      obtain ⟨tree', stats'⟩ := r
      rw [h'] at htarget
      have hroot : (⟨.node { kind := .translationUnit } useItems, false⟩ :
          Concrete.Parse).root.kind = .translationUnit := rfl
      obtain ⟨tree, stats, h, henlarges, huses⟩ := resolveNames_extends hroot rfl rfl htext h'
      exact ⟨tree, tree', stats, stats', h, rfl, htarget, henlarges, huses⟩

end TypeUses.Resolution
