import TypeUses.Proofs.Resolution.Shape
import TypeUses.Proofs.Scope.Names

/-!
# Resolution — references have the names of their targets

A link leads from a reference to a definition of the name that the reference spells, and the
spelling is the text of the node of the parse (`resolveNames_named`).  So a search for a name finds
the linked references with this text, in the order of the parse.

The link is made by way of an entity, at the end of the walk.  `State.Named` is what every step
keeps: the table is `Named`, and a pending reference means an entity that is bound under its
spelling.
-/

namespace TypeUses

/-- The node defines an entity with the name. -/
def Tree.Defines (t : Tree) (d : NodeId) (name : String) : Prop :=
  ∃ kind, t.content? d = some (.definition ⟨kind, name⟩)

theorem Tree.Defines.grows {t t' : Tree} {d : NodeId} {name : String} (hd : t.Defines d name)
    (h : t.Grows t') : t'.Defines d name := by
  obtain ⟨kind, hd⟩ := hd
  exact ⟨kind, h.definition hd⟩

/-- Every target defines the name that its reference spells. -/
def Tree.LinksNamed (t : Tree) : Prop :=
  ∀ {id d r}, t.content? id = some (.reference r) → r.target = some d → t.Defines d r.spelling

namespace Resolution

variable {language : Language} {source : ByteArray}

/-- Links to definitions of the names that are spelt keep all targets so. -/
theorem linksNamed_of_linked {links : List (NodeId × NodeId)} {t t' : Tree}
    (h : Linked links t t') (ht : t.LinksNamed)
    (hlinks : ∀ id d, (id, d) ∈ links →
      ∃ r, t.content? id = some (.reference r) ∧ t.Defines d r.spelling) : t'.LinksNamed := by
  intro id d r hr hd
  rcases h.of_target hr hd with hold | ⟨hlink, target, hold⟩
  · exact (ht hold hd).grows h.grows
  · obtain ⟨r', hr', hdef⟩ := hlinks id d hlink
    cases hold.symm.trans hr'
    exact hdef.grows h.grows

/-! ### What every step keeps -/

/-- What is bound, pending and linked under a name is defined under that name. -/
structure State.Named (s : State) : Prop where
  scopes : s.scopes.Named s.tree.Defines
  pending : ∀ p ∈ s.pending,
    ∃ r, s.tree.content? p.1 = some (.reference r) ∧ s.scopes.Bound r.spelling p.2
  links : s.tree.LinksNamed

/-- The entity that a node refers to is bound under the node's text. -/
theorem ReadAs.bound {t : Table} {id : NodeId} {f : Frame} {r : Reading}
    (h : ReadAs source t id f r) (hfile : Table.fileScope.index < t.scopes.size)
    (hactive : ∀ x ∈ t.active, x.index < t.scopes.size) {e : EntityId} (he : r.entity = some e) :
    r.scopes.Bound (textOf source f.node.item) e := by
  cases h with
  | plain | defines | binds | declares => cases he
  | refers _ hentity =>
      obtain ⟨spaces, hl⟩ := (hentity e he).found
      obtain ⟨space, -, hb⟩ := Table.boundIn_of_lookup hl
      exact hb.bound
  | introduces _ _ hanswer =>
      cases he
      exact (Table.boundIn_of_answer hfile hactive rfl rfl hanswer).bound
  | uses hmeans =>
      cases he
      obtain ⟨spaces, hl⟩ := hmeans.found
      obtain ⟨space, -, hb⟩ := Table.boundIn_of_lookup hl
      exact hb.bound.grows (Table.keeps_perform _ _)

theorem named_add {s s' : State} {f : Frame} {id : NodeId} {outline : Outline} (hs : s.Sound)
    (hn : s.Named) (h : s.add language source f = .ok (s', id, outline)) : s'.Named := by
  have follows := follows_add h
  obtain ⟨tree, htree, rfl, -⟩ := add_eq_ok.1 h
  obtain ⟨-, rfl, -⟩ := Tree.push?_eq_ok.1 htree
  have hread := readAs_readNode language source s.scopes ⟨s.tree.size⟩ f
  generalize readNode language source s.scopes ⟨s.tree.size⟩ f = r at hread htree follows
  have new : tree.content? ⟨s.tree.size⟩ = some r.content := by
    rw [Tree.content?_of_push? htree, if_pos rfl]
  have grows : s.tree.Grows tree := follows.tree.grows
  have scopes : s.scopes.Named tree.Defines := hn.scopes.mono fun d name hd => hd.grows grows
  refine ⟨?_, fun p hp => ?_, fun {id d ref} hr hd => ?_⟩
  · rcases hread.scopes with he | ⟨op, -, -, he, hnode⟩
    · rw [State.scopes_record, State.tree_record, he]
      exact scopes
    · rw [State.scopes_record, State.tree_record, he]
      -- the node that the operation records is the new one, which defines the name
      refine scopes.perform op fun d hd => ?_
      obtain ⟨rfl, kind, name, -, hname, hc⟩ := hnode d hd
      exact ⟨name, hname, kind, new.trans (congrArg some hc)⟩
  · rcases State.mem_pending_record hp with hp | ⟨e, he, rfl⟩
    · obtain ⟨ref, hr, hb⟩ := hn.pending p hp
      exact ⟨ref, (follows.tree.content _ (Tree.lt_size_of_content? hr)).trans hr,
        hb.grows follows.scopes⟩
    · obtain ⟨kind, -, hc⟩ := hread.entity he
      have hbound := hread.bound hs.scopes.file hs.scopes.active he
      generalize textOf source f.node.item = text at hc hbound
      exact ⟨_, new.trans (congrArg some hc), hbound⟩
  · exact (hn.links (reference_of_add h hr hd) hd).grows grows

theorem named_enter {s : State} (hn : s.Named) (entry : ScopeEntry) : (s.enter entry).Named := by
  refine ⟨?_, fun p hp => ?_, ?_⟩
  · rw [tree_enter, scopes_enter]
    exact hn.scopes.perform _ (by cases entry <;> nofun)
  · rw [pending_enter] at hp
    obtain ⟨r, hr, hb⟩ := hn.pending p hp
    rw [tree_enter]
    exact ⟨r, hr, hb.grows (knows_enter s entry).scopes⟩
  · rw [tree_enter]
    exact hn.links

/-- Leaving a scope keeps them in step: a `goto` is linked to the label of its name. -/
theorem named_leave {s s' : State} {entry : ScopeEntry} (hs : s.Sound) (hn : s.Named)
    (h : s.leave entry = .ok s') : s'.Named := by
  have knows := knows_leave h
  obtain ⟨hscopes, hpending, htree⟩ := leave_eq_ok h
  refine ⟨?_, fun p hp => ?_, ?_⟩
  · rw [hscopes]
    exact (hn.scopes.mono fun d name hd => hd.grows knows.tree).perform .leave nofun
  · rw [hpending] at hp
    obtain ⟨r, hr, hb⟩ := hn.pending p hp
    obtain ⟨target, hr'⟩ := knows.tree.reference hr
    exact ⟨_, hr', hb.grows knows.scopes⟩
  · rcases htree with ⟨ht, -⟩ | ⟨frame, -, hf, hl⟩
    · rw [ht]
      exact hn.links
    · refine linksNamed_of_linked hl hn.links fun goto label hlink => ?_
      obtain ⟨r, hr, -, hd, -⟩ := hs.links_frame (hf ▸ List.mem_cons_self) hlink
      exact ⟨r, hr, .label, hd⟩

/-- Every step keeps names and definitions in step. -/
theorem named_perform {s s' : State} {step : Step} {steps : List Step} (hs : s.Sound)
    (hn : s.Named) (h : s.perform language source step = .ok (s', steps)) : s'.Named := by
  cases step with
  | visit f =>
      obtain ⟨id, outline, hadd, -⟩ := perform_visit_eq_ok.1 h
      exact named_add hs hn hadd
  | enter entry => cases h; exact named_enter hn entry
  | leave entry => exact named_leave hs hn (perform_leave_eq_ok.1 h).1

theorem named_initial (language : Language) (spelling : String) :
    (State.initial language spelling).Named where
  scopes :=
    { lt := fun h => (Table.not_bound_empty h).elim
      unique := fun h => (Table.not_bound_empty h).elim
      definition := fun h => (Table.not_bound_empty h).elim }
  pending := nofun
  links {id d r} hr := by
    obtain ⟨i⟩ := id
    cases i <;> cases hr

/-- Every state of the walk over a parse is sound and named. -/
theorem named_of_runs {spelling : String} {parse : Concrete.Parse} {s : State} {stack : List Step}
    (h : Runs language source (.initial language spelling) (initialSteps parse) s stack) :
    s.Sound ∧ s.Named := by
  refine ⟨(sound_of_parse h).1, ?_⟩
  exact h.along (P := fun s _ => s.Named)
    (fun hruns hn hstep => named_perform (sound_of_parse hruns).1 hn hstep)
    (named_initial language spelling)

/-- The links of the tree of a parse lead to definitions of the names that the references spell. -/
theorem linksNamed_resolveNames {spelling : String} {parse : Concrete.Parse} {tree : Tree}
    {stats : Stats} (h : resolveNames language source spelling parse = .ok (tree, stats)) :
    tree.LinksNamed := by
  obtain ⟨s, s', hwalk, hfinish, rfl⟩ := resolveNames_eq_ok h
  obtain ⟨-, hn⟩ := named_of_runs (walk_eq_ok_iff.1 hwalk)
  refine linksNamed_of_linked (linked_of_link hfinish).1 hn.links fun reference d hl => ?_
  obtain ⟨e, hp, hd⟩ := State.mem_links.1 hl
  obtain ⟨r, hr, hb⟩ := hn.pending _ hp
  exact ⟨r, hr, hn.scopes.definition hb hd⟩

/-! ### Texts -/

/-- A text that is not empty is made of the bytes of its item. -/
theorem extract_of_textOf {i : Concrete.Item} {name : String} (h : textOf source i = name)
    (hname : name ≠ "") : source.extract i.start i.stop = name.toUTF8 := by
  simp only [textOf, String.fromUTF8?] at h
  split at h
  · subst h; rfl
  · exact absurd h.symm hname

theorem flatMap_toList_eq {α β : Type} (p : α → Bool) (f : α → β) (xs : List α) :
    xs.flatMap (fun x => (if p x then some (f x) else none).toList) = (xs.filter p).map f := by
  rw [← List.filterMap_eq_flatMap_toList, ← List.filterMap_eq_map, List.filterMap_filter]
  rfl

/-- The place is a linked reference with the text. -/
def IsUseOf (source : ByteArray) (tree : Tree) (name : String) (p : Place) : Bool :=
  (tree.target? p.id).isSome && textOf source p.node.item = name

/-- A search finds at the number of a place the use that the place is, if it is one. -/
theorem useAt?_place {tree : Tree} (hlinks : tree.LinksNamed) {p : Place} {c : Content}
    (hc : tree.content? p.id = some c) (hfits : Fits source p.node c)
    (hl : tree.location? p.id = some p.node.item.location) (name : String) :
    tree.useAt? name p.id =
      if IsUseOf source tree name p then some ⟨name, p.node.item.location⟩ else none := by
  have target : ∀ d, tree.target? p.id = some d →
      tree.Defines d (textOf source p.node.item) := by
    intro d hd
    obtain ⟨r, hr, hd⟩ := Tree.target?_eq_some_iff.1 hd
    cases hc.symm.trans hr
    have hspelling : r.spelling = textOf source p.node.item := hfits
    exact hspelling ▸ hlinks hr hd
  generalize htext : textOf source p.node.item = text at target
  unfold IsUseOf
  rw [htext]
  split
  · next h =>
    obtain ⟨hsome, hname⟩ := Bool.and_eq_true_iff.1 h
    obtain ⟨d, hd⟩ := Option.isSome_iff_exists.1 hsome
    obtain ⟨kind, hdef⟩ := target d hd
    exact Tree.useAt?_eq_some_iff.2
      ⟨⟨d, _, _, hd, hdef, rfl, of_decide_eq_true hname⟩, _, hl, rfl⟩
  · next h =>
    rw [Option.eq_none_iff_forall_ne_some]
    intro u hu
    obtain ⟨⟨d, c', e, hd, hc', he, hname⟩, -⟩ := Tree.useAt?_eq_some_iff.1 hu
    obtain ⟨kind, hdef⟩ := target d hd
    cases hc'.symm.trans hdef
    cases he
    refine h (Bool.and_eq_true_iff.2 ⟨by rw [hd]; rfl, decide_eq_true hname⟩)

/-- **References have the names of their targets.**  In the tree of a parse every reference is
spelled like the node of the parse that it is made from, and its target, if it has one, is a
definition with exactly this name.  So a search for a name from the root gives the linked references
whose own text is the name, in the order of the parse; and unless the name is empty, the bytes of
each of them are the name. -/
theorem resolveNames_named {spelling : String} {parse : Concrete.Parse} {tree : Tree}
    {stats : Stats} (h : resolveNames language source spelling parse = .ok (tree, stats)) :
    (∀ id r, tree.content? id = some (.reference r) →
      (∃ p ∈ places parse, p.id = id ∧ r.spelling = textOf source p.node.item) ∧
      ∀ d, r.target = some d → ∃ kind, tree.content? d = some (.definition ⟨kind, r.spelling⟩)) ∧
    (∀ name, tree.findUses name Tree.rootId =
      ((places parse).filter (IsUseOf source tree name)).map fun p =>
        ⟨name, p.node.item.location⟩) ∧
    ∀ name, name ≠ "" → ∀ p ∈ places parse, (tree.useAt? name p.id).isSome →
      source.extract p.node.item.start p.node.item.stop = name.toUTF8 := by
  have grown := grown_resolveNames h
  have links : tree.LinksNamed := linksNamed_resolveNames h
  have use : ∀ p ∈ places parse, ∀ name, tree.useAt? name p.id =
      if IsUseOf source tree name p then some ⟨name, p.node.item.location⟩ else none :=
    fun p hp name => by
      obtain ⟨c, hc, hfits⟩ := grown.content p hp
      exact useAt?_place links hc hfits (grown.location p hp) name
  refine ⟨fun id r hr => ⟨?_, fun d hd => links hr hd⟩, fun name => ?_,
    fun name hname p hp hu => ?_⟩
  · obtain ⟨p, hp, rfl⟩ := exists_place_of_content? grown hr nofun
    obtain ⟨c, hc, hfits⟩ := grown.content p hp
    cases hc.symm.trans hr
    exact ⟨p, hp, rfl, hfits⟩
  · rw [findUses_places grown, ← flatMap_toList_eq, List.flatMap_def, List.flatMap_def]
    congr 1
    exact List.map_congr_left fun p hp => by rw [use p hp name]
  · rw [use p hp name] at hu
    split at hu
    · next hus =>
      exact extract_of_textOf (of_decide_eq_true (Bool.and_eq_true_iff.1 hus).2) hname
    · cases hu

/-- The source `struct P {}; struct P *a;`. -/
def tagSource : ByteArray := "struct P {}; struct P *a;".toUTF8

/-- Its parse. -/
def tagParse : Concrete.Parse where
  root := .node { kind := .translationUnit, stop := 25 }
    [.node { kind := .structSpecifier, stop := 11 }
      [.node { kind := .typeIdentifier, field := some .name, start := 7, stop := 8,
               column := 7 } [],
        .node { kind := .other "field_declaration_list", field := some .body, start := 9,
                stop := 11, column := 9 } []],
      .node { kind := .declaration, start := 13, stop := 25, column := 13 }
        [.node { kind := .structSpecifier, field := some .type, start := 13, stop := 21,
                 column := 13 }
          [.node { kind := .typeIdentifier, field := some .name, start := 20, stop := 21,
                   column := 20 } []],
          .node { kind := .other "pointer_declarator", field := some .declarator, start := 22,
                  stop := 24, column := 22 } []]]
  hasError := false

/-- The second `P` of the source is the one use of the name. -/
theorem resolveNames_named_tag : ∃ tree stats,
    resolveNames .c tagSource "a.c" tagParse = .ok (tree, stats) ∧
      tree.findUses "P" Tree.rootId = [⟨"P", ⟨1, 21⟩⟩] ∧
      tree.findUses "P" Tree.rootId =
        ((places tagParse).filter (IsUseOf tagSource tree "P")).map fun p =>
          ⟨"P", p.node.item.location⟩ := by
  have huses : (resolveNames .c tagSource "a.c" tagParse).toOption.map
      (fun r => r.1.findUses "P" Tree.rootId) = some [⟨"P", ⟨1, 21⟩⟩] := by decide +kernel
  cases h : resolveNames .c tagSource "a.c" tagParse with
  | error fault => rw [h] at huses; cases huses
  | ok r =>
      obtain ⟨tree, stats⟩ := r
      rw [h] at huses
      exact ⟨tree, stats, rfl, Option.some.inj huses, (resolveNames_named h).2.1 "P"⟩

end Resolution

end TypeUses
