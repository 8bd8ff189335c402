import TypeUses.Proofs.Resolution.Contexts
import TypeUses.Proofs.Resolution.Naming
import TypeUses.Proofs.Scope.Tags

/-!
# Resolution — references have the kinds of their targets

A link leads from a reference to a definition of a kind that the reference can mean
(`links_respect_kinds`): from a label to a label, from a namespace to a namespace, and from the name
of a type or template to neither.  A tag leads to a tag, and where tags are not types a bare name
leads to none.

A name is found in a space, and the space admits the kinds that the reference can mean (`Sought`).
`State.Kinded` is what every step keeps: the table is `Kinded`, and a pending reference means an
entity that is bound in a space in which it is sought.  What has a target before the links at the
end are labels (`link_cases`).

What a step binds its space admits, whether tags are types or not.  So the tables of a walk are
`Orderly`: where tags are types, what a walk finds as a tag it finds as the name of a type as well
(`isSome_lookup_of_runs`).
-/

namespace TypeUses

/-- The node defines an entity of the kind. -/
def Tree.DefinesKind (t : Tree) (d : NodeId) (kind : EntityKind) : Prop :=
  ∃ name, t.content? d = some (.definition ⟨kind, name⟩)

theorem Tree.DefinesKind.grows {t t' : Tree} {d : NodeId} {kind : EntityKind}
    (hd : t.DefinesKind d kind) (h : t.Grows t') : t'.DefinesKind d kind := by
  obtain ⟨name, hd⟩ := hd
  exact ⟨name, h.definition hd⟩

namespace Resolution

variable {language : Language} {source : ByteArray}

/-! ### Spaces of references -/

/-- The space in which a reference of a kind finds its name, for the place that it is made from. -/
inductive Sought (root : Concrete.Node) (p : Place) : ReferenceKind → Space → Prop
  | tag (hnode : p.node.kind = .typeIdentifier) (hunder : UnderTagName root p.path) :
      Sought root p .typeName .tag
  | ordinary {kind : ReferenceKind} (hnode : p.node.kind = .typeIdentifier)
      (hname : ¬ IsTagName root p.path) (hkind : kind = .typeName ∨ kind = .templateName) :
      Sought root p kind .ordinary
  | qualifierType (hnode : p.node.kind ≠ .typeIdentifier) : Sought root p .typeName .tag
  | qualifierNamespace (hnode : p.node.kind ≠ .typeIdentifier) :
      Sought root p .namespaceName .namespaces

section Reads
variable {t : Table} {id : NodeId} {f : Frame} {parse : Concrete.Parse} {p : Place}
  {fits : NodeId → EntityKind → Prop}

/-- The space of an operation admits the kind that it binds, if the role fits a place. -/
theorem admits_of_binds {role : Role} {op : Operation} {tagsAreTypes : Bool} {space : Space}
    {kind : EntityKind} {root : Concrete.Node} {path : List Nat} (h : Binds role op)
    (hfits : role.Fits root path) (hspace : op.space? = some space) (hkind : op.kind? = some kind) :
    space.Admits tagsAreTypes kind := by
  cases op with
  | enter | enterMembers | leave | useNamespace => cases hspace
  | define space =>
      cases hspace
      cases hkind
      cases space with
      | tag | namespaces => exact h
      | ordinary => exact (hfits.declaredType kind h).imp_right Or.inl
  | defineParameter =>
      cases hspace
      cases hkind
      exact Or.inr (Or.inr (Or.inl h))
  | declare space =>
      cases hspace
      cases hkind
      cases space with
      | tag => exact h
      | ordinary | namespaces => exact h.elim
  | declareImplicit space =>
      cases hspace
      cases hkind
      cases space with
      | tag => exact (hfits.tag kind h).1
      | ordinary | namespaces => exact h.elim

/-- What a node means is bound in a space in which the reference is sought. -/
theorem Means.sought {kind : ReferenceKind} {e : EntityId} (h : Means source t f kind e)
    (ht : t.Kinded fits) (hnode : f.node = p.node)
    (hfits : f.context.role.Fits parse.root p.path) :
    ∃ space, t.BoundIn space (textOf source f.node.item) e ∧ Sought parse.root p kind space := by
  cases h with
  | tag htype hrole he =>
      obtain ⟨space, hspace, hb⟩ := Table.boundIn_of_lookup he
      rw [List.mem_singleton.1 hspace] at hb
      exact ⟨.tag, hb, .tag (hnode ▸ htype) (hfits.tag _ hrole).2⟩
  | ordinary htype hrole hown hkind he =>
      obtain ⟨space, hspace, hb⟩ := Table.boundIn_of_lookup he
      rw [List.mem_singleton.1 hspace] at hb
      refine ⟨.ordinary, hb, .ordinary (hnode ▸ htype) (fun hname => ?_) hkind⟩
      rcases hfits.tagName hname with h | ⟨k, h⟩
      · exact hown h
      · exact hrole k h
  | qualifier htype he =>
      have htype : p.node.kind ≠ .typeIdentifier := hnode ▸ htype
      obtain ⟨space, hspace, hb⟩ := Table.boundIn_of_lookup he
      obtain ⟨k, hk, ha⟩ := ht.bound hb
      rw [hk]
      -- the kind of the entity tells in which of the two spaces it was found
      rcases List.mem_cons.1 hspace with rfl | hspace
      · cases ha
        exact ⟨.namespaces, hb, .qualifierNamespace htype⟩
      · rw [List.mem_singleton.1 hspace] at hb ha
        have hkind : qualifierReferenceKind (some k) = .typeName := by
          cases k <;> first | rfl | cases ha
        rw [hkind]
        exact ⟨.tag, hb, .qualifierType htype⟩

/-- The entity that a node refers to is bound in a space in which the reference is sought. -/
theorem ReadAs.sought {r : Reading} (h : ReadAs source t id f r) (ht : t.Kinded fits)
    (hfile : Table.fileScope.index < t.scopes.size)
    (hactive : ∀ x ∈ t.active, x.index < t.scopes.size) (hnode : f.node = p.node)
    (hfits : f.context.role.Fits parse.root p.path) {e : EntityId} (he : r.entity = some e) :
    ∃ kind space,
      r.content = .reference { kind := kind, spelling := textOf source f.node.item } ∧
      r.scopes.BoundIn space (textOf source f.node.item) e ∧ Sought parse.root p kind space := by
  cases h with
  | plain | defines | binds | declares => cases he
  | refers _ hentity =>
      obtain ⟨space, hb, hsought⟩ := (hentity e he).sought ht hnode hfits
      exact ⟨_, space, rfl, hb, hsought⟩
  | introduces htype hrole hanswer =>
      cases he
      exact ⟨_, .tag, rfl, Table.boundIn_of_answer hfile hactive rfl rfl hanswer,
        .tag (hnode ▸ htype) (hfits.tag _ hrole).2⟩
  | uses hmeans =>
      cases he
      obtain ⟨space, hb, hsought⟩ := hmeans.sought ht hnode hfits
      exact ⟨_, space, rfl, hb.grows (Table.keeps_perform _ _), hsought⟩

end Reads

/-! ### What every step keeps -/

/-- What is bound, pending and linked in a walk over `parse` is of the kind that its name asks for. -/
structure State.Kinded (parse : Concrete.Parse) (s : State) : Prop where
  scopes : s.scopes.Kinded s.tree.DefinesKind
  pending : ∀ q ∈ s.pending, ∃ p ∈ places parse, p.id = q.1 ∧ ∃ r space,
    s.tree.content? q.1 = some (.reference r) ∧ s.scopes.BoundIn space r.spelling q.2 ∧
      Sought parse.root p r.kind space
  labels : ∀ {id r}, s.tree.content? id = some (.reference r) → r.kind = .label →
    ∃ p ∈ places parse, p.id = id ∧ p.node.kind = .statementIdentifier
  linked : ∀ {id r d}, s.tree.content? id = some (.reference r) → r.target = some d →
    r.kind = .label ∧ s.tree.content? d = some (.definition ⟨.label, r.spelling⟩)

section Steps
variable {parse : Concrete.Parse} {s s' : State}

theorem kinded_add {f : Frame} {id : NodeId} {outline : Outline} (hs : s.Sound)
    (hk : s.Kinded parse) (hat : f.At parse s.tree.size)
    (h : s.add language source f = .ok (s', id, outline)) : s'.Kinded parse := by
  have follows := follows_add h
  have targets := @reference_of_add _ _ _ _ _ _ _ h
  obtain ⟨p, hp, hid, hnode, -, -, hfits⟩ := hat
  obtain ⟨tree, htree, rfl, -⟩ := add_eq_ok.1 h
  obtain ⟨-, rfl, -⟩ := Tree.push?_eq_ok.1 htree
  have hread := readAs_readNode language source s.scopes ⟨s.tree.size⟩ f
  generalize readNode language source s.scopes ⟨s.tree.size⟩ f = r at hread htree follows targets
  have new : tree.content? ⟨s.tree.size⟩ = some r.content := by
    rw [Tree.content?_of_push? htree, if_pos rfl]
  have grows : s.tree.Grows tree := follows.tree.grows
  have scopes : s.scopes.Kinded tree.DefinesKind :=
    hk.scopes.mono fun d kind hd => hd.grows grows
  refine ⟨?_, fun q hq => ?_, fun {x ref} hr hl => ?_, fun {x ref d} hr hd => ?_⟩
  · rcases hread.scopes with he | ⟨op, -, hbinds, he, hop⟩
    · rw [State.scopes_record, State.tree_record, he]
      exact scopes
    · rw [State.scopes_record, State.tree_record, he]
      -- the node that the operation records is the new one, which defines the kind
      refine scopes.perform op (fun space kind hspace hkind =>
        admits_of_binds hbinds hfits hspace hkind) fun d kind hd hkind => ?_
      obtain ⟨rfl, kind', name, hkind', -, hc⟩ := hop d hd
      cases hkind.symm.trans hkind'
      exact ⟨name, new.trans (congrArg some hc)⟩
  · rcases State.mem_pending_record hq with hq | ⟨e, he, rfl⟩
    · obtain ⟨p', hp', hid', ref, space, hr, hb, hsought⟩ := hk.pending q hq
      exact ⟨p', hp', hid', ref, space,
        (follows.tree.content _ (Tree.lt_size_of_content? hr)).trans hr, hb.grows follows.scopes,
        hsought⟩
    · obtain ⟨kind, space, hc, hb, hsought⟩ :=
        hread.sought hk.scopes hs.scopes.file hs.scopes.active hnode hfits he
      exact ⟨p, hp, hid, _, space, new.trans (congrArg some hc), hb, hsought⟩
  · have hr : tree.content? x = some (.reference ref) := hr
    rw [Tree.content?_of_push? htree] at hr
    split at hr
    · next hx =>
      exact ⟨p, hp, hid.trans hx.symm, hnode ▸ hread.label (Option.some.inj hr) hl⟩
    · exact hk.labels hr hl
  · obtain ⟨hl, hdef⟩ := hk.linked (targets hr hd) hd
    exact ⟨hl, grows.definition hdef⟩

theorem kinded_enter (hk : s.Kinded parse) (entry : ScopeEntry) : (s.enter entry).Kinded parse := by
  refine ⟨?_, fun q hq => ?_, ?_, ?_⟩
  · rw [tree_enter, scopes_enter]
    exact hk.scopes.perform _ (by cases entry <;> nofun) (by cases entry <;> nofun)
  · rw [pending_enter] at hq
    obtain ⟨p, hp, hid, r, space, hr, hb, hsought⟩ := hk.pending q hq
    rw [tree_enter]
    exact ⟨p, hp, hid, r, space, hr, hb.grows (knows_enter s entry).scopes, hsought⟩
  · rw [tree_enter]
    exact hk.labels
  · rw [tree_enter]
    exact hk.linked

/-- Leaving a scope keeps the kinds: a `goto` is linked to a label. -/
theorem kinded_leave {entry : ScopeEntry} (hs : s.Sound) (hk : s.Kinded parse)
    (h : s.leave entry = .ok s') : s'.Kinded parse := by
  have knows := knows_leave h
  have hsize := size_leave h
  obtain ⟨hscopes, hpending, htree⟩ := leave_eq_ok h
  refine ⟨?_, fun q hq => ?_, fun {id r} hr hl => ?_, fun {id r d} hr hd => ?_⟩
  · rw [hscopes]
    exact (hk.scopes.mono fun d kind hd => hd.grows knows.tree).perform .leave nofun nofun
  · rw [hpending] at hq
    obtain ⟨p, hp, hid, r, space, hr, hb, hsought⟩ := hk.pending q hq
    obtain ⟨target, hr'⟩ := knows.tree.reference hr
    exact ⟨p, hp, hid, _, space, hr', hb.grows knows.scopes, hsought⟩
  · have hlt : id.index < s.tree.size := hsize ▸ Tree.lt_size_of_content? hr
    obtain ⟨target, hr⟩ := knows.tree.of_reference hlt hr
    exact hk.labels hr hl
  · rcases htree with ⟨ht, -⟩ | ⟨frame, -, hf, hlinked⟩
    · rw [ht] at hr ⊢
      exact hk.linked hr hd
    · rcases hlinked.of_target hr hd with hold | ⟨hlink, target, hold⟩
      · obtain ⟨hl, hdef⟩ := hk.linked hold hd
        exact ⟨hl, knows.tree.definition hdef⟩
      · obtain ⟨r', hr', hl, hdef, -⟩ := hs.links_frame (hf ▸ List.mem_cons_self) hlink
        cases hold.symm.trans hr'
        exact ⟨hl, knows.tree.definition hdef⟩

/-- Every step keeps the kinds. -/
theorem kinded_perform {step : Step} {rest steps : List Step} (hs : s.Sound)
    (hk : s.Kinded parse) (hat : Aligned parse s.tree.size (step :: rest))
    (h : s.perform language source step = .ok (s', steps)) : s'.Kinded parse := by
  cases step with
  | visit f =>
      obtain ⟨id, outline, hadd, -⟩ := perform_visit_eq_ok.1 h
      exact kinded_add hs hk hat.1 hadd
  | enter entry => cases h; exact kinded_enter hk entry
  | leave entry => exact kinded_leave hs hk (perform_leave_eq_ok.1 h).1

end Steps

theorem kinded_initial (language : Language) (spelling : String) (parse : Concrete.Parse) :
    (State.initial language spelling).Kinded parse where
  scopes :=
    { bound := fun h => (Table.not_bound_empty h.bound).elim
      definition := nofun }
  pending := nofun
  labels {id r} hr := by
    obtain ⟨i⟩ := id
    cases i <;> cases hr
  linked {id r d} hr := by
    obtain ⟨i⟩ := id
    cases i <;> cases hr

/-- Every state of the walk over a parse is kinded, if the root is that of a unit or an error. -/
theorem kinded_of_runs {spelling : String} {parse : Concrete.Parse}
    (hroot : parse.root.kind = .translationUnit ∨ parse.root.kind = .error) {s : State}
    {stack : List Step}
    (h : Runs language source (.initial language spelling) (initialSteps parse) s stack) :
    s.Kinded parse :=
  h.along (P := fun s _ => s.Kinded parse)
    (fun hruns hk hstep =>
      kinded_perform (sound_of_parse hruns).1 hk (aligned_of_runs hroot hruns) hstep)
    (kinded_initial language spelling parse)

/-- The language says whether tags are types. -/
theorem tagsAreTypes_of_runs {spelling : String} {parse : Concrete.Parse} {s : State}
    {stack : List Step}
    (h : Runs language source (.initial language spelling) (initialSteps parse) s stack) :
    s.scopes.tagsAreTypes = language.tagsAreTypes :=
  h.preserves (P := fun s _ => s.scopes.tagsAreTypes = language.tagsAreTypes)
    (fun ht hstep => (knows_perform hstep).scopes.tagsAreTypes.trans ht) rfl

/-! ### Tags and the names of types -/

/-- **The tables of a walk are orderly.** -/
theorem orderly_of_runs {spelling : String} {parse : Concrete.Parse}
    (hroot : parse.root.kind = .translationUnit ∨ parse.root.kind = .error) {s : State}
    {stack : List Step}
    (h : Runs language source (.initial language spelling) (initialSteps parse) s stack) :
    s.scopes.Orderly := by
  refine h.along (P := fun s _ => s.scopes.Orderly) (fun {s step _ s' steps} hruns ho hstep => ?_)
    (Table.orderly_empty _)
  cases step with
  | visit f =>
      obtain ⟨id, outline, hadd, -⟩ := perform_visit_eq_ok.1 hstep
      obtain ⟨tree, -, rfl, -⟩ := add_eq_ok.1 hadd
      obtain ⟨⟨p, -, -, -, -, -, hfits⟩, -⟩ := aligned_of_runs hroot hruns
      rw [State.scopes_record]
      rcases (readAs_readNode language source s.scopes ⟨s.tree.size⟩ f).scopes with
        he | ⟨op, -, hbinds, he, -⟩
      · rw [he]
        exact ho
      · rw [he]
        exact ho.perform fun space hspace kind hkind => admits_of_binds hbinds hfits hspace hkind
  | enter entry =>
      cases hstep
      rw [scopes_enter]
      exact ho.perform (by cases entry <;> nofun)
  | leave entry =>
      obtain ⟨hscopes, -⟩ := leave_eq_ok (perform_leave_eq_ok.1 hstep).1
      have hproper : Operation.leave.IsProper := nofun
      rw [hscopes]
      exact ho.perform hproper

/-- Where tags are types, what is found as a tag is found as the name of a type. -/
theorem isSome_lookup_of_runs {spelling : String} {parse : Concrete.Parse}
    (hroot : parse.root.kind = .translationUnit ∨ parse.root.kind = .error) {s : State}
    {stack : List Step}
    (h : Runs language source (.initial language spelling) (initialSteps parse) s stack)
    (htypes : language.tagsAreTypes = true) {name : String} {look : Lookup}
    (hlook : (s.scopes.lookup [.tag] name look).isSome) :
    (s.scopes.lookup [.ordinary] name look).isSome :=
  (orderly_of_runs hroot h).isSome_lookup ((tagsAreTypes_of_runs h).trans htypes) hlook

/-! ### The links of a tree -/

/-- **Where a target comes from.**  It is a label, or what the reference means when the walk ends is
defined there. -/
theorem link_cases {spelling : String} {parse : Concrete.Parse}
    (hroot : parse.root.kind = .translationUnit ∨ parse.root.kind = .error) {tree : Tree}
    {stats : Stats} (h : resolveNames language source spelling parse = .ok (tree, stats))
    {id d : NodeId} {r : Reference} (hr : tree.content? id = some (.reference r))
    (hd : r.target = some d) :
    ∃ s, walk language source (.initial language spelling) (initialSteps parse) = .ok s ∧
      s.tree.Grows tree ∧ id.index < s.tree.size ∧
      ((r.kind = .label ∧ tree.content? d = some (.definition ⟨.label, r.spelling⟩)) ∨
        ∃ e, (id, e) ∈ s.pending ∧ s.scopes.definition? e = some d) := by
  obtain ⟨s, s', hwalk, hfinish, rfl⟩ := resolveNames_eq_ok h
  have hk := kinded_of_runs hroot (walk_eq_ok_iff.1 hwalk)
  obtain ⟨hlinked, -⟩ := linked_of_link hfinish
  refine ⟨s, hwalk, hlinked.grows, hlinked.size ▸ Tree.lt_size_of_content? hr, ?_⟩
  rcases hlinked.of_target hr hd with hold | ⟨hlink, -⟩
  · obtain ⟨hl, hdef⟩ := hk.linked hold hd
    exact Or.inl ⟨hl, hlinked.grows.definition hdef⟩
  · exact Or.inr (State.mem_links.1 hlink)

/-- A reference of one kind, made from a place, can have a definition of the other kind as its
target. -/
structure KindsAgree (language : Language) (root : Concrete.Node) (q : Place)
    (reference : ReferenceKind) (definition : EntityKind) : Prop where
  label : reference = .label → definition = .label
  namespaceName : reference = .namespaceName → definition = .namespaceName
  typeName : reference = .typeName ∨ reference = .templateName →
    definition ≠ .label ∧ definition ≠ .namespaceName
  tag : q.node.kind = .typeIdentifier → IsTagName root q.path → definition.isTag = true
  bare : language = .c → reference = .typeName ∨ reference = .templateName →
    q.node.kind = .typeIdentifier → ¬ UnderTagName root q.path → definition.isTag = false

theorem kindsAgree_label {root : Concrete.Node} {q : Place}
    (hnode : q.node.kind = .statementIdentifier) :
    KindsAgree language root q .label .label where
  label _ := rfl
  namespaceName := nofun
  typeName h := by simp at h
  tag h := by rw [hnode] at h; cases h
  bare _ h := by simp at h

/-- What a space admits agrees with the references whose names are sought there. -/
theorem kindsAgree_of_sought {root : Concrete.Node} {q : Place} {reference : ReferenceKind}
    {space : Space} {kind : EntityKind} (h : Sought root q reference space)
    (ha : space.Admits language.tagsAreTypes kind) : KindsAgree language root q reference kind := by
  cases h with
  | tag hnode hunder =>
      exact ⟨nofun, nofun, fun _ => ha.ne nofun, fun _ _ => ha,
        fun _ _ _ hno => absurd hunder hno⟩
  | ordinary hnode hname hkind =>
      refine ⟨?_, ?_, fun _ => ha.ne nofun, fun _ hin => absurd hin hname, fun hc _ _ _ => ?_⟩
      · rintro rfl
        simp at hkind
      · rintro rfl
        simp at hkind
      · subst hc
        exact ha.isTag_eq_false
  | qualifierType hnode =>
      exact ⟨nofun, nofun, fun _ => ha.ne nofun, fun h => absurd h hnode,
        fun _ _ h => absurd h hnode⟩
  | qualifierNamespace hnode =>
      exact ⟨nofun, fun _ => ha, by simp, fun h => absurd h hnode, fun _ _ h => absurd h hnode⟩

/-- **References have the kinds of their targets.** -/
theorem links_respect_kinds {spelling : String} {parse : Concrete.Parse}
    (hroot : parse.root.kind = .translationUnit ∨ parse.root.kind = .error) {tree : Tree}
    {stats : Stats} (h : resolveNames language source spelling parse = .ok (tree, stats))
    {id d : NodeId} {r : Reference} (hr : tree.content? id = some (.reference r))
    (hd : r.target = some d) :
    ∃ kind, tree.content? d = some (.definition ⟨kind, r.spelling⟩) ∧
      ∃ q ∈ places parse, q.id = id ∧ KindsAgree language parse.root q r.kind kind := by
  obtain ⟨s, hwalk, grows, hlt, hlink⟩ := link_cases hroot h hr hd
  have hruns := walk_eq_ok_iff.1 hwalk
  have hk := kinded_of_runs hroot hruns
  obtain ⟨target, hr₀⟩ := grows.of_reference hlt hr
  rcases hlink with ⟨hl, hdef⟩ | ⟨e, hp, hdef⟩
  · obtain ⟨q, hq, hid, hnode⟩ := hk.labels hr₀ hl
    exact ⟨.label, hdef, q, hq, hid, hl ▸ kindsAgree_label hnode⟩
  · obtain ⟨q, hq, hid, r', space, hr', hb, hsought⟩ := hk.pending _ hp
    cases hr₀.symm.trans hr'
    obtain ⟨kind, hkind, ha⟩ := hk.scopes.bound hb
    obtain ⟨name, hdefines⟩ := hk.scopes.definition hkind hdef
    -- the definition has the name that the reference spells
    obtain ⟨kind', hnamed⟩ := linksNamed_resolveNames h hr hd
    cases hnamed.symm.trans (grows.definition hdefines)
    rw [tagsAreTypes_of_runs hruns] at ha
    exact ⟨kind, hnamed, q, hq, hid, kindsAgree_of_sought hsought ha⟩

/-- In `struct P {}; struct P *a;` the second `P` leads to the definition of a tag. -/
theorem links_respect_kinds_tag : ∃ tree stats kind,
    resolveNames .c tagSource "a.c" tagParse = .ok (tree, stats) ∧
      tree.content? ⟨6⟩ = some (.reference ⟨.typeName, "P", some ⟨1⟩⟩) ∧
      tree.content? ⟨1⟩ = some (.definition ⟨kind, "P"⟩) ∧
      ∃ q ∈ places tagParse, q.id = ⟨6⟩ ∧ KindsAgree .c tagParse.root q .typeName kind := by
  have hcontent : (resolveNames .c tagSource "a.c" tagParse).toOption.bind
      (fun r => r.1.content? ⟨6⟩) = some (.reference ⟨.typeName, "P", some ⟨1⟩⟩) := by
    decide +kernel
  cases h : resolveNames .c tagSource "a.c" tagParse with
  | error fault => rw [h] at hcontent; cases hcontent
  | ok result =>
      obtain ⟨tree, stats⟩ := result
      rw [h] at hcontent
      obtain ⟨kind, hdef, hplace⟩ := links_respect_kinds (Or.inl rfl) h hcontent rfl
      exact ⟨tree, stats, kind, rfl, hcontent, hdef, hplace⟩

end Resolution

end TypeUses
