import TypeUses.Proofs.Resolution.Notes
import TypeUses.Proofs.Resolution.References

/-!
# Resolution — a `goto` leads to the first label of its function

A function has the labels and the `goto`s that belong to it, wherever they stand in it, and when it
is left each `goto` is linked to the first label of its name (`labels_resolve`).

* `target_of_leave`: what the `goto`s of a function are linked to when it is left.
* `target_of_belongsTo`: a function's frame has noted what belongs to the function.
-/

namespace TypeUses.Resolution

variable {language : Language} {source : ByteArray}

/-! ### Leaving a function -/

/-- **When a function is left**, a `goto` that it has noted is linked to the label of its name, if
there is one, and waits no longer. -/
theorem target_of_leave {s s' : State} {frame : LabelFrame} {rest : List LabelFrame}
    (hcounted : s.Counted) (hf : s.functions = frame :: rest) (h : s.leave .function = .ok s')
    {id : NodeId} {spelling : String} (hgoto : (id, spelling) ∈ frame.gotos)
    (hc : s.tree.content? id = some (.reference ⟨.label, spelling, none⟩))
    (honly : ∀ name, (id, name) ∈ frame.gotos → name = spelling) :
    s'.tree.content? id =
        some (.reference ⟨.label, spelling, frame.labels.lookup spelling⟩) ∧
      id ∉ s'.queued := by
  rcases leave_cases h with ⟨-, hno⟩ | ⟨frame', rest', -, hf', hlink⟩
  · rw [hno rfl] at hf
    cases hf
  · obtain ⟨rfl, rfl⟩ := List.cons.inj (hf'.symm.trans hf)
    obtain ⟨hl, hs'⟩ := linked_of_link hlink
    have own : ∀ d, (id, d) ∈ frame'.links → frame'.labels.lookup spelling = some d := by
      intro d hd
      obtain ⟨name, hg, hlabel⟩ := LabelFrame.mem_links.1 hd
      rwa [honly name hg] at hlabel
    refine ⟨?_, ?_⟩
    · cases hlabel : frame'.labels.lookup spelling with
      | none =>
          have hfree : ∀ d, (id, d) ∉ frame'.links := fun d hd => by
            rw [own d hd] at hlabel
            cases hlabel
          exact (hl.content_eq hfree).trans hc
      | some d =>
          obtain ⟨d', hd', hcontent⟩ :=
            hl.linked id d (LabelFrame.mem_links.2 ⟨spelling, hgoto, hlabel⟩)
          obtain rfl := Option.some.inj (hlabel.symm.trans (own d' hd'))
          exact hcontent.trans (congrArg (Option.map _) hc)
    · -- it has waited once, in the function that is left
      have honce := hcounted.once
      rw [State.queued, hf'] at honce
      intro hmem
      rw [hs'] at hmem
      have hperm : (s.pending.map Prod.fst ++ gotosOf (frame' :: rest')).Perm
          (frame'.gotos.map Prod.fst ++ (s.pending.map Prod.fst ++ gotosOf rest')) :=
        List.perm_append_comm_assoc ..
      obtain ⟨-, -, hother⟩ := List.nodup_append.1 (hperm.nodup_iff.1 honce)
      exact hother id (List.mem_map_of_mem hgoto) id hmem rfl

/-! ### The labels of a function -/

section Parse
variable {spelling : String} {parse : Concrete.Parse} {p q : Place} {k : Nat}

/-- Place `e` is a label of the name in the function at place `p`. -/
structure Place.IsLabel (source : ByteArray) (parse : Concrete.Parse) (p : Place) (name : String)
    (e : Place) : Prop where
  mem : e ∈ places parse
  belongs : e.BelongsTo parse p
  kind : e.node.kind = .labeledStatement
  name : labelName source e.node = name

/-- The label of a name is made from the first labeled statement with the name. -/
theorem findSome?_notesOf {t : Tree} {ps : List Place}
    (h : ∀ q ∈ ps, AsRead language source t q) (name : String) :
    (notesOf t ps).findSome? (LabelFrame.labelOf? name) =
      (ps.find? fun e =>
        e.node.kind = .labeledStatement ∧ labelName source e.node = name).map Place.id := by
  induction ps with
  | nil => rfl
  | cons q ps ih =>
      have ih := ih fun x hx => h x (List.mem_cons_of_mem _ hx)
      have hread := h q List.mem_cons_self
      obtain ⟨_, _, -, hc⟩ := id hread
      rw [notesOf, List.filterMap_cons, hc, Option.map_some, List.findSome?_cons, ← notesOf, ih,
        List.find?_cons]
      by_cases hlabel : q.node.kind = .labeledStatement ∧ labelName source q.node = name
      · rw [hread.label_iff.2 hlabel, Option.some.injEq] at hc
        simp [LabelFrame.labelOf?, ← hc, hlabel]
      · have hne : ¬(readNode _ _ _ _ _).content = _ := fun he =>
          hlabel (hread.label_iff.1 (hc.trans (congrArg some he)))
        simp [LabelFrame.labelOf?, hne, hlabel]

/-- The walk passes the scope of a function: in state `s` it is about to leave the scope, with the
notes of what is loose there. -/
theorem exists_function {sf : State}
    (hwalk : walk language source (.initial language spelling) (initialSteps parse) = .ok sf)
    (hp : p ∈ places parse) (hkind : p.node.kind = .functionDefinition)
    (hk : p.node.children.findIdx? beginsScope = some k) :
    ∃ s s' outer rest,
      Runs language source (.initial language spelling) (initialSteps parse) s
        (.leave .function :: rest) ∧
      s.leave .function = .ok s' ∧ Runs language source s' rest sf [] ∧
      s.functions = LabelFrame.noteAll {} (notesOf s.tree (p.loose k)) :: outer ∧
      ∀ q ∈ p.loose k, AsRead language source s.tree q := by
  obtain ⟨c, back, hw⟩ := walls_of_function language source hkind hk
  obtain ⟨context, rest, s₀, s₁, s₂, s, s', hruns, hsize₀, hpassage⟩ := hw.passage hwalk hp
  have hcontext := declaresNoLabel_of_runs hruns _ List.mem_cons_self
  have hinside : p.node.children.drop k = c :: back :=
    List.append_cancel_left ((List.take_append_drop k _).trans hw.splits.children)
  have hnoted := noted_descendAll p.path k hcontext (fun c _ => noted_descend c) hpassage.within
  rw [tree_enter, hpassage.size, hsize₀, ← hinside] at hnoted
  have hwithin := runs_of_walk ((walk_visitsIn ..).trans hpassage.within) (.leave .function :: rest)
  refine ⟨s, s', s₂.functions, rest, (hruns.trans hpassage.enters).trans hwithin.enter,
    hpassage.leaves, ?_, ?_, hnoted.read⟩
  · exact walk_eq_ok_iff.1 ((hruns.trans hpassage.ends).walk_eq ▸ hwalk)
  · rw [hnoted.functions, functions_enter, if_pos rfl]
    rfl

/-- The target of a `goto` that belongs to a function. -/
theorem target_of_belongsTo {tree : Tree} {stats : Stats}
    (h : resolveNames language source spelling parse = .ok (tree, stats)) (hq : q ∈ places parse)
    (hbelongs : q.BelongsTo parse p) {r : Reference}
    (hr : tree.content? q.id = some (.reference r)) (hlabel : r.kind = .label) :
    q.node.kind = .statementIdentifier ∧ r.spelling = textOf source q.node.item ∧
      ∃ k, p.node.children.findIdx? beginsScope = some k ∧
        r.target = ((p.loose k).find? fun e =>
          e.node.kind = .labeledStatement ∧ labelName source e.node = r.spelling).map Place.id := by
  obtain ⟨sf, s'', hwalk, hfinish, rfl⟩ := resolveNames_eq_ok h
  obtain ⟨hkind, k, hk, -⟩ := hbelongs.inside
  obtain ⟨s, s', outer, rest, hruns, hleave, hend, hfunctions, hread⟩ :=
    exists_function hwalk hbelongs.mem hkind hk
  have hmem : q ∈ p.loose k := (mem_loose_iff_belongsTo hbelongs.mem hkind hk).2 ⟨hq, hbelongs⟩
  have hq := hread q hmem
  -- the node has the reference from the beginning, without a target
  have hgrows : s.tree.Grows s''.tree :=
    ((knows_leave hleave).tree.trans (grows_of_runs hend).2).trans (linked_of_link hfinish).1.grows
  obtain ⟨table, context, -, hc⟩ := id hq
  obtain ⟨target, hc⟩ := hgrows.of_reference (Tree.lt_size_of_content? hc) hr
  obtain rfl : target = none := hq.unlinked hc
  obtain ⟨hstatement, hspelling⟩ := hq.reference hc hlabel
  refine ⟨hstatement, hspelling, k, hk, ?_⟩
  obtain ⟨rkind, rspelling, rtarget⟩ := r
  obtain rfl : rkind = .label := hlabel
  have hgoto : ∀ name, (q.id, name) ∈ (LabelFrame.noteAll {} (notesOf s.tree (p.loose k))).gotos ↔
      name = rspelling := by
    intro name
    rw [LabelFrame.gotos_noteAll]
    constructor
    · rintro (hnil | ⟨target, hnote⟩)
      · cases hnil
      · obtain ⟨-, -, -, hc'⟩ := mem_notesOf.1 hnote
        cases hc.symm.trans hc'
        rfl
    · rintro rfl
      exact .inr ⟨none, mem_notesOf.2 ⟨q, hmem, rfl, hc⟩⟩
  obtain ⟨hc', hfree⟩ := target_of_leave (counted_of_runs hruns) hfunctions hleave
    ((hgoto rspelling).2 rfl) hc fun name => (hgoto name).1
  obtain ⟨hcf, hfree⟩ := settled_of_runs hc' hfree hend
  have hfinal := (settled_finish hfree hfinish).trans hcf
  rw [hr] at hfinal
  rw [← findSome?_notesOf hread]
  have htarget := congrArg Reference.target (Content.reference.inj (Option.some.inj hfinal))
  refine htarget.trans ?_
  rw [LabelFrame.lookup_noteAll]
  rfl

/-- A `goto` that belongs to no function has no target. -/
theorem target_of_root {tree : Tree} {stats : Stats}
    (h : resolveNames language source spelling parse = .ok (tree, stats)) (hq : q ∈ places parse)
    (hbelongs : ∀ p, ¬q.BelongsTo parse p) {r : Reference}
    (hr : tree.content? q.id = some (.reference r)) (hlabel : r.kind = .label) :
    q.node.kind = .statementIdentifier ∧ r.spelling = textOf source q.node.item ∧
      r.target = none := by
  obtain ⟨sf, s'', hwalk, hfinish, rfl⟩ := resolveNames_eq_ok h
  have hsound := (sound_of_parse (walk_eq_ok_iff.1 hwalk)).1
  have hdescent := hwalk
  rw [walk_eq_descent] at hdescent
  have hplain : Context.DeclaresNoLabel .plain := nofun
  have hnoted := noted_descendAll [] 0 hplain (fun c _ => noted_descend c) hdescent
  have hread := hnoted.read q (mem_loose_root_iff.2 ⟨hq, hbelongs⟩)
  have hlinked := (linked_of_link hfinish).1
  obtain ⟨table, context, -, hc⟩ := id hread
  obtain ⟨target, hc⟩ := hlinked.grows.of_reference (Tree.lt_size_of_content? hc) hr
  obtain ⟨hstatement, hspelling⟩ := hread.reference hc hlabel
  refine ⟨hstatement, hspelling, Option.eq_none_iff_forall_ne_some.2 fun d hd => ?_⟩
  rcases hlinked.of_target hr hd with hold | ⟨hlink, -⟩
  · cases (hread.unlinked hold).symm.trans hd
  · -- what is linked in the end is no label
    obtain ⟨e, hpending, -⟩ := State.mem_links.1 hlink
    obtain ⟨-, r', hr', hne, -⟩ := hsound.pending _ hpending
    cases hc.symm.trans hr'
    exact hne hlabel

/-- The loose places in the scope of a function are in the order of their numbers. -/
theorem pairwise_loose (p : Place) (k : Nat) :
    (p.loose k).Pairwise fun e e' => e.id.index < e'.id.index := by
  refine List.Pairwise.sublist (looseIn_sublist false _) ?_
  rw [← List.pairwise_map, map_id_placesIn]
  exact List.pairwise_lt_range'

/-- **A `goto` leads to the first label of its function.**  A reference to a label is made from the
name in a `goto`.  If it belongs to a function, it has a target exactly if a label of the same
function has its name, and then the target is the first such label in pre-order; if it belongs to
none, it has no target. -/
theorem labels_resolve {tree : Tree} {stats : Stats}
    (h : resolveNames language source spelling parse = .ok (tree, stats)) {id : NodeId}
    {r : Reference} (hr : tree.content? id = some (.reference r)) (hlabel : r.kind = .label) :
    ∃ q ∈ places parse, q.id = id ∧ q.node.kind = .statementIdentifier ∧
      r.spelling = textOf source q.node.item ∧
      ((∀ p, ¬q.BelongsTo parse p) → r.target = none) ∧
      ∀ p, q.BelongsTo parse p →
        (r.target.isSome ↔ ∃ e, p.IsLabel source parse r.spelling e) ∧
        ∀ d, r.target = some d → ∃ e, p.IsLabel source parse r.spelling e ∧ e.id = d ∧
          ∀ e', p.IsLabel source parse r.spelling e' → e.id.index ≤ e'.id.index := by
  obtain ⟨q, hq, rfl⟩ := exists_place_of_content? (grown_resolveNames h) hr nofun
  have facts : q.node.kind = .statementIdentifier ∧ r.spelling = textOf source q.node.item := by
    by_cases hp : ∃ p, q.BelongsTo parse p
    · obtain ⟨p, hp⟩ := hp
      obtain ⟨hkind, hspelling, -⟩ := target_of_belongsTo h hq hp hr hlabel
      exact ⟨hkind, hspelling⟩
    · obtain ⟨hkind, hspelling, -⟩ := target_of_root h hq (not_exists.1 hp) hr hlabel
      exact ⟨hkind, hspelling⟩
  refine ⟨q, hq, rfl, facts.1, facts.2, fun hno => (target_of_root h hq hno hr hlabel).2.2,
    fun p hp => ?_⟩
  obtain ⟨-, -, k, hk, htarget⟩ := target_of_belongsTo h hq hp hr hlabel
  have label_iff : ∀ e, p.IsLabel source parse r.spelling e ↔ e ∈ p.loose k ∧
      e.node.kind = .labeledStatement ∧ labelName source e.node = r.spelling := by
    intro e
    rw [mem_loose_iff_belongsTo hp.mem hp.inside.1 hk]
    exact ⟨fun ⟨hmem, hbelongs, hkind, hname⟩ => ⟨⟨hmem, hbelongs⟩, hkind, hname⟩,
      fun ⟨⟨hmem, hbelongs⟩, hkind, hname⟩ => ⟨hmem, hbelongs, hkind, hname⟩⟩
  refine ⟨?_, fun d hd => ?_⟩
  · rw [htarget, Option.isSome_map, List.find?_isSome]
    simp only [label_iff, decide_eq_true_eq]
  · rw [htarget] at hd
    obtain ⟨e, he, rfl⟩ := Option.map_eq_some_iff.1 hd
    obtain ⟨hlabel, before, behind, hlist, hbefore⟩ := List.find?_eq_some_iff_append.1 he
    have hlabel := of_decide_eq_true hlabel
    refine ⟨e, (label_iff e).2 ⟨hlist ▸ List.mem_append_right _ List.mem_cons_self, hlabel⟩, rfl,
      fun e' he' => ?_⟩
    obtain ⟨hmem, hlabel'⟩ := (label_iff e').1 he'
    -- the first label of the name in the list has the smallest number, as the list is sorted
    have hsorted := pairwise_loose p k
    rw [hlist] at hmem hsorted
    rcases List.mem_append.1 hmem with hmem | hmem
    · have hnot := hbefore e' hmem
      simp [hlabel'] at hnot
    · rcases List.mem_cons.1 hmem with rfl | hmem
      · exact Nat.le_refl _
      · exact Nat.le_of_lt (List.rel_of_pairwise_cons (List.pairwise_append.1 hsorted).2.1 hmem)

/-- The source `void f(){goto a;struct S{void g(){a:;}};a:;}`. -/
def methodSource : ByteArray := "void f(){goto a;struct S{void g(){a:;}};a:;}".toUTF8

/-- Its parse: a label in a method, and a label in the function around it. -/
def methodParse : Concrete.Parse where
  root := .onLine .translationUnit none 0 44
    [.onLine .functionDefinition none 0 44
      [.onLine (.other "function_declarator") (some .declarator) 5 8 [],
        .onLine .compoundStatement (some .body) 8 44
          [.onLine (.other "goto_statement") none 9 16
            [.onLine .statementIdentifier (some .label) 14 15 []],
            .onLine .structSpecifier none 16 39
              [.onLine .typeIdentifier (some .name) 23 24 [],
                .onLine (.other "field_declaration_list") (some .body) 24 39
                  [.onLine .functionDefinition none 25 38
                    [.onLine (.other "function_declarator") (some .declarator) 30 33 [],
                      .onLine .compoundStatement (some .body) 33 38
                        [.onLine .labeledStatement none 34 37
                          [.onLine .statementIdentifier (some .label) 34 35 []]]]]],
            .onLine .labeledStatement none 40 43
              [.onLine .statementIdentifier (some .label) 40 41 []]]]]
  hasError := false

/-- The `goto` leads past the label in the method to the label of its own function. -/
theorem labels_resolve_method : ∃ tree stats,
    resolveNames .cpp methodSource "f.cc" methodParse = .ok (tree, stats) ∧
      tree.content? ⟨5⟩ = some (.reference ⟨.label, "a", some ⟨14⟩⟩) ∧
      tree.content? ⟨12⟩ = some (.definition ⟨.label, "a"⟩) ∧
      ∃ q ∈ places methodParse, ∃ p e, q.id = ⟨5⟩ ∧ q.BelongsTo methodParse p ∧
        p.IsLabel methodSource methodParse "a" e ∧ e.id = ⟨14⟩ := by
  have hvalue : (resolveNames .cpp methodSource "f.cc" methodParse).toOption.map
      (fun r => (r.1.content? ⟨5⟩, r.1.content? ⟨12⟩)) =
        some (some (.reference ⟨.label, "a", some ⟨14⟩⟩), some (.definition ⟨.label, "a"⟩)) := by
    decide +kernel
  obtain ⟨⟨tree, stats⟩, h, hvalue⟩ := exists_ok_of_map hvalue
  obtain ⟨hgoto, hinner⟩ := Prod.mk.inj hvalue
  obtain ⟨q, hq, hid, -, -, hnone, hlabels⟩ := labels_resolve h hgoto rfl
  have hsome : ∃ p, q.BelongsTo methodParse p := by
    by_contra hno
    cases hnone (not_exists.1 hno)
  obtain ⟨p, hp⟩ := hsome
  obtain ⟨e, he, hide, -⟩ := (hlabels p hp).2 ⟨14⟩ rfl
  exact ⟨tree, stats, h, hgoto, hinner, q, hq, p, e, hid, hp, he, hide⟩

end Parse

end TypeUses.Resolution
