import TypeUses.Proofs.Resolution.References
import TypeUses.Proofs.Scope.Leaving

/-!
# Resolution — a qualified name is resolved segment by segment

A qualified name is a chain of nodes, each of which has a qualifier and, as its `name`, the rest of
the name.  Where the rest is looked up is decided when such a node is read, ahead of its qualifier;
the qualifier's own name is looked up when the walk gets to it.  Both lookups find the same, so that
the name is resolved segment by segment (`qualified_names_resolve`).

* `Table.sought`: the scopes in which a name is sought.
* `Segments`, `QualifiedName`: the segments of a qualified name.
* `Place.BindsNothingUntil`: nothing is bound between two readings, so that lookups agree
  (`Place.ReadAt.child_agrees`).
* `Segment.Found`, `Resolves`: what the walk finds for one segment, and for one after the other.
-/

namespace TypeUses

/-! ### Where a name is sought -/

theorem findSome?_flatMap {α β γ : Type} (f : β → Option γ) (g : α → List β) (xs : List α) :
    (xs.flatMap g).findSome? f = xs.findSome? fun x => (g x).findSome? f := by
  rw [← List.head?_filterMap, List.filterMap_flatMap, List.head?_flatMap]
  simp only [List.head?_filterMap]

namespace Table

/-- The scopes in which a name is sought, in order. -/
def sought (t : Table) : Lookup → List ScopeId
  | .lexical => (t.chain t.current).flatMap fun s => s :: t.usedBy s
  | .member (some e) => ((t.members? e).map fun s => s :: t.usedBy s).getD []
  | .member none => []
  | .global => fileScope :: t.usedBy fileScope

/-- A lookup finds the first meaning that a scope gives the name. -/
theorem lookup_eq_findSome? (t : Table) (spaces : List Space) (name : String) (look : Lookup) :
    t.lookup spaces name look = (t.sought look).findSome? (t.localIn? spaces name) := by
  cases look with
  | lexical => exact (findSome?_flatMap ..).symm
  | member qualifier =>
      cases qualifier with
      | none => rfl
      | some e =>
          rw [lookup, sought]
          cases t.members? e <;> rfl
  | global => rfl

/-- Nothing is found among the members of nothing, or of an entity that has none. -/
theorem sought_of_no_members {t : Table} {e : Option EntityId} (h : e.bind t.members? = none) :
    t.sought (.member e) = [] := by
  cases e with
  | none => rfl
  | some e =>
      have hm : t.members? e = none := h
      rw [sought, hm]
      rfl

end Table

namespace Resolution

variable {language : Language} {source : ByteArray} {spelling : String} {parse : Concrete.Parse}

/-! ### The segments of a name -/

/-- Place `g` is that of the name of the template at place `a`. -/
structure Place.IsTemplateName (a g : Place) : Prop where
  kind : a.node.kind = .templateType
  child : ∃ k, a.IsChild k g
  name : a.node.child? .name = some g.node
  type : g.node.kind = .typeIdentifier

/-- A segment of a qualified name: the place of an identifier and the spaces in which it is sought. -/
structure Segment where
  place : Place
  spaces : List Space

/-- The role of a type identifier that refers to what it names. -/
def Role.Refers : Role → Prop
  | .use | .tag _ | .templateName | .usedNamespace => True
  | .ownName | .declaredType _ | .templateParameter => False

/-- The spaces in which a type identifier in a role is sought. -/
def Role.spaces : Role → List Space
  | .tag _ => [.tag]
  | _ => [.ordinary]

section Readings
variable (language : Language) (source : ByteArray) (spelling : String) (parse : Concrete.Parse)

/-- Nothing is bound from the reading of place `p` on until place `q` below it is read: the readings
leave the table as it is and open no entity's scope.  So it is if nothing at or below `p` binds a
name. -/
def Place.BindsNothingUntil (p q : Place) : Prop :=
  ∀ s context, p.ReadAt language source spelling parse s context → ∀ s₁ f rest,
    Runs language source s [.visit ⟨p.node, p.outer, p.parent, context⟩] s₁ (.visit f :: rest) →
      s₁.tree.size < q.id.index →
        (readNode language source s₁.scopes ⟨s₁.tree.size⟩ f).scopes = s₁.scopes ∧
          OpensNoMembers (readNode language source s₁.scopes ⟨s₁.tree.size⟩ f).outline.opening

/-- The segment names the qualifier at place `a`. -/
inductive Names (a : Place) : Segment → Prop
  | itself (hkind : a.node.kind = .namespaceIdentifier) : Names a ⟨a, [.namespaces, .tag]⟩
  | template {g : Place} (hname : a.IsTemplateName g)
      (hfree : a.BindsNothingUntil language source spelling parse g) : Names a ⟨g, [.ordinary]⟩

/-- The segments of the name at a place that is read in a role, from left to right. -/
inductive Segments (role : Role) : Place → List Segment → Prop
  | type {p : Place} (hkind : p.node.kind = .typeIdentifier) (hrole : role.Refers) :
      Segments role p [⟨p, role.spaces⟩]
  | template {p g : Place} (hname : p.IsTemplateName g) (hrole : role ≠ .ownName) :
      Segments role p [⟨g, [.ordinary]⟩]
  /-- what refers to no type has no segment of its own -/
  | other (p : Place) : Segments role p []
  | qualified {q a r : Place} {j k : Nat} {g : Segment} {gs : List Segment}
      (hkind : q.node.kind = .qualifiedIdentifier) (ha : q.IsChild j a)
      (hscope : q.node.child? .scope = some a.node)
      (hfirst : ∀ c ∈ q.node.children.take j, ¬ c.item.isKept = true)
      (hg : Names language source spelling parse a g) (hr : q.IsChild k r)
      (hname : r.node.field = some .name) (hrest : Segments role r gs) :
      Segments role q (g :: gs)

/-- The qualified name at a place has the segments, of which the first is sought from the current
scope outwards, or in the file scope if nothing stands in front of the first `::`. -/
inductive QualifiedName (role : Role) (q : Place) : Lookup → List Segment → Prop
  | relative {gs : List Segment} (hkind : q.node.kind = .qualifiedIdentifier)
      (hgs : Segments language source spelling parse role q gs) : QualifiedName role q .lexical gs
  | absolute {r : Place} {k : Nat} {gs : List Segment}
      (hkind : q.node.kind = .qualifiedIdentifier) (hscope : q.node.child? .scope = none)
      (hr : q.IsChild k r) (hname : r.node.field = some .name)
      (hgs : Segments language source spelling parse role r gs) : QualifiedName role q .global gs

end Readings

/-! ### From one reading to the next -/

/-- Where nothing is bound, the table has afterwards what it had. -/
theorem apart_of_bindsNothingUntil {p q : Place} {s s₁ : State} {context : Context}
    {stack : List Step} (h : p.ReadAt language source spelling parse s context)
    (hfree : p.BindsNothingUntil language source spelling parse q)
    (hruns : Runs language source s [.visit ⟨p.node, p.outer, p.parent, context⟩] s₁ stack)
    (hsize : s₁.tree.size ≤ q.id.index) : s.scopes.Apart s₁.scopes := by
  refine (hruns.along
    (P := fun s₁ stack => s₁.tree.size ≤ q.id.index → s.scopes.Apart s₁.scopes ∧
      ∀ e kind, .enter (.members e kind) ∉ stack) (fun {s₁ step rest s₂ steps} hr hs hstep hle => ?_)
    fun _ => ⟨.refl _, by simp⟩) hsize |>.1
  have hgrown := (knows_perform hstep).tree.size_le
  obtain ⟨hapart, hstack⟩ := hs (Nat.le_trans hgrown hle)
  have hrest : ∀ e kind, .enter (.members e kind) ∉ rest :=
    fun e kind hmem => hstack e kind (List.mem_cons_of_mem _ hmem)
  cases step with
  | visit f =>
      obtain ⟨id, outline, hadd, rfl⟩ := perform_visit_eq_ok.1 hstep
      obtain ⟨rfl, hsize₂⟩ := size_add hadd
      obtain ⟨hscopes, hopening⟩ := hfree s context h s₁ f rest hr (by omega)
      obtain ⟨tree, -, rfl, rfl⟩ := add_eq_ok.1 hadd
      rw [State.scopes_record, hscopes]
      refine ⟨hapart, fun e kind hmem => ?_⟩
      rcases List.mem_append.1 hmem with hmem | hmem
      · rcases mem_plan hmem with ⟨c, -, he⟩ | ⟨o, ho, he | he⟩
        · cases he
        · have hentity := hopening o ho
          rw [← Step.enter.inj he] at hentity
          cases hentity
        · cases he
      · exact hrest e kind hmem
  | enter entry =>
      cases hstep
      refine ⟨?_, hrest⟩
      cases entry with
      | fresh kind => exact (hapart.newScope kind).of_eq rfl rfl
      | function => exact (hapart.newScope .function).of_eq rfl rfl
      | members e kind => exact absurd List.mem_cons_self (hstack e kind)
  | leave entry =>
      obtain ⟨hleave, rfl⟩ := perform_leave_eq_ok.1 hstep
      rw [(leave_eq_ok hleave).1]
      exact ⟨hapart.of_eq (Table.scopes_leave _) (Table.entities_leave _), hrest⟩

/-- **Lookups agree** at a place and at a child of it until which nothing is bound. -/
theorem Place.ReadAt.child_agrees {sf : State}
    (hwalk : walk language source (.initial language spelling) (initialSteps parse) = .ok sf)
    {p q : Place} {s : State} {context : Context}
    (h : p.ReadAt language source spelling parse s context) (ho : ¬ p.node.OpensScope) {k : Nat}
    (hpq : p.IsChild k q) (hfree : p.BindsNothingUntil language source spelling parse q) :
    ∃ s₁, q.ReadAt language source spelling parse s₁
        (childContext p.node context (p.reading language source s context).outline q.node) ∧
      ∀ spaces name, s₁.scopes.lookup spaces name context.lookup =
        s.scopes.lookup spaces name context.lookup := by
  have hp := h
  obtain ⟨rest, hruns, hsize⟩ := h
  obtain ⟨s₂, hvisit, -⟩ := walk_append_eq_ok [.visit _] (hruns.walk_eq ▸ hwalk)
  obtain ⟨s₁, rest₁, hread, hactive, hsize₁⟩ := exists_visit_child hvisit ho hpq.node hpq.kept
  have hread := hpq.frame (NodeId.ext hsize) _ ▸ hread
  have hsize₁ : s₁.tree.size = q.id.index := by rw [hsize₁, hsize, hpq.id]
  have hapart := apart_of_bindsNothingUntil hp hfree hread (Nat.le_of_eq hsize₁)
  obtain ⟨hsound, hstack⟩ := sound_of_parse hruns
  have hlook : context.lookup.In s.scopes.present :=
    lookup_in_mono (fun _ he => he) (hstack _ List.mem_cons_self).known
  exact ⟨s₁, ⟨rest₁ ++ rest, hruns.trans (hread.append rest), hsize₁⟩,
    hapart.lookup_eq hsound.present hactive hlook⟩

/-- Nothing is bound until the first child is read, if the place itself binds nothing. -/
theorem bindsNothingUntil_first {p q : Place} {k : Nat} (hpq : p.IsChild k q)
    (hfirst : ∀ c ∈ p.node.children.take k, ¬ c.item.isKept = true)
    (hplain : ∀ (t : Table) (id : NodeId) (f : Frame), f.node = p.node →
      ∃ qualifier, readNode language source t id f = .plain t f { qualifier := qualifier }) :
    p.BindsNothingUntil language source spelling parse q := by
  rintro s context ⟨rest, -, hsize⟩ s₁ f rest₁ hruns hlt
  rw [hpq.id, keptCounts_eq_zero hfirst, ← hsize] at hlt
  have hle := (grows_of_runs hruns).2.size_le
  -- only the place itself is read in front of its first child
  obtain ⟨rfl, rfl⟩ := visit_unique (.refl _ _) hruns (by omega)
  obtain ⟨qualifier, hread⟩ :=
    hplain s.scopes ⟨s.tree.size⟩ ⟨p.node, p.outer, p.parent, context⟩ rfl
  rw [hread]
  exact ⟨rfl, nofun⟩

/-! ### How names are read -/

/-- A qualified name is a plain node that leaves word where its last segment is looked up. -/
theorem readNode_qualifiedIdentifier {t : Table} {id : NodeId} {f : Frame}
    (h : f.node.kind = .qualifiedIdentifier) :
    readNode language source t id f =
      .plain t f { qualifier := qualifierOf source t f.node f.context.lookup } := by
  simp only [readNode, h]

theorem qualifier_reading {p : Place} {s : State} {context : Context}
    (h : p.node.kind = .qualifiedIdentifier) :
    (p.reading language source s context).outline.qualifier =
      qualifierOf source s.scopes p.node context.lookup := by
  rw [Place.reading, readNode_qualifiedIdentifier h, Reading.plain]

/-- The name of a template is read as such, wherever the whole is looked up. -/
theorem childContext_templateName {n c : Concrete.Node} {context : Context} {outline : Outline}
    (hkind : n.kind = .templateType) (hname : c.field = some .name)
    (hrole : context.role ≠ .ownName) :
    childContext n context outline c = ⟨.templateName, context.lookup⟩ := by
  simp only [childContext, hkind, hname, if_neg hrole]

theorem readNode_templateType {t : Table} {id : NodeId} {f : Frame}
    (h : f.node.kind = .templateType) : readNode language source t id f = .plain t f := by
  simp only [readNode, h]

theorem not_opensScope_qualifiedIdentifier {n : Concrete.Node}
    (h : n.kind = .qualifiedIdentifier) : ¬ n.OpensScope := by
  simp [Concrete.Node.OpensScope, Concrete.Node.IsSpecifier, h]

theorem not_opensScope_templateType {n : Concrete.Node} (h : n.kind = .templateType) :
    ¬ n.OpensScope := by
  simp [Concrete.Node.OpensScope, Concrete.Node.IsSpecifier, h]

theorem field_of_child? {n c : Concrete.Node} {field : Concrete.Field}
    (h : n.child? field = some c) : c.field = some field := by
  simpa using List.find?_some h

/-- Where a qualified name goes on depends only on what is found in its qualifier's place. -/
theorem qualifierOf_congr {t t' : Table} {look : Lookup}
    (h : ∀ spaces name, t'.lookup spaces name look = t.lookup spaces name look)
    (n : Concrete.Node) : qualifierOf source t' n look = qualifierOf source t n look := by
  simp only [qualifierOf, h]

/-- A type identifier refers to what is found for it.  Only a tag that is sought from the current
scope outwards, and not found, is declared instead. -/
theorem readTypeIdentifier_of_refers {t : Table} {id : NodeId} {f : Frame}
    (hrole : f.context.role.Refers) (hlook : f.context.lookup ≠ .lexical ∨
      (t.lookup f.context.role.spaces (textOf source f.node.item) f.context.lookup).isSome) :
    ∃ kind, kind ≠ .label ∧ readTypeIdentifier source t id f =
      .ofReference t kind (textOf source f.node.item)
        (t.lookup f.context.role.spaces (textOf source f.node.item) f.context.lookup) := by
  obtain ⟨node, outer, parent, role, look⟩ := f
  cases role with
  | ownName | declaredType | templateParameter => exact hrole.elim
  | use | templateName | usedNamespace => exact ⟨_, by decide, rfl⟩
  | tag kind =>
      refine ⟨.typeName, by decide, ?_⟩
      simp only [readTypeIdentifier, readTag, Role.spaces] at hlook ⊢
      split
      · next e he => rw [he]
      · next he =>
        have hlook : look ≠ .lexical := hlook.resolve_right (by simp [he])
        rw [if_neg hlook, he]

/-- The name of a template refers to what is found for it. -/
theorem readTypeIdentifier_of_templateName {t : Table} {id : NodeId} {f : Frame}
    (hrole : f.context.role = .templateName) :
    readTypeIdentifier source t id f = .ofReference t .templateName (textOf source f.node.item)
      (t.lookup [.ordinary] (textOf source f.node.item) f.context.lookup) := by
  simp only [readTypeIdentifier, hrole]

/-- A qualifier refers to what is found for it. -/
theorem readNamespaceIdentifier_of_use {t : Table} {f : Frame} (hrole : f.context.role = .use) :
    ∃ kind, kind ≠ .label ∧ readNamespaceIdentifier source t f =
      .ofReference t kind (textOf source f.node.item)
        (t.lookup [.namespaces, .tag] (textOf source f.node.item) f.context.lookup) := by
  refine ⟨qualifierReferenceKind ((t.lookup [.namespaces, .tag] (textOf source f.node.item)
    f.context.lookup).bind t.kind?), qualifierReferenceKind_ne_label _, ?_⟩
  simp only [readNamespaceIdentifier, hrole, reduceCtorEq, if_false]

/-! ### What is found for a segment -/

section Found
variable (language : Language) (source : ByteArray) (spelling : String) (parse : Concrete.Parse)
variable (tree : Tree) (sf : State)

/-- What the walk finds for a segment.  It reads the segment in state `s`, to be looked up where
`look` says; the first of the scopes there that gives the name a meaning decides on the entity, if
there is one.  The tree has a reference in the segment's place, which is bound to this entity: in the
end, in state `sf`, it waits for the entity, and what defines the entity becomes its target. -/
structure Segment.Found (g : Segment) (s : State) (look : Lookup) (e : Option EntityId) :
    Prop where
  read : ∃ role, g.place.ReadAt language source spelling parse s ⟨role, look⟩
  first : (s.scopes.sought look).findSome?
    (s.scopes.localIn? g.spaces (textOf source g.place.node.item)) = e
  bound : ∀ x, (g.place.id, x) ∈ sf.pending ↔ e = some x
  reference : ∃ kind, tree.content? g.place.id =
    some (.reference ⟨kind, textOf source g.place.node.item, e.bind sf.scopes.definition?⟩)

/-- The segments are resolved from left to right: the first is looked up where `look` says, and each
other one among the members of the entity that is found for the segment before it. -/
inductive Resolves : Lookup → List Segment → Prop
  | nil (look : Lookup) : Resolves look []
  | cons {look : Lookup} {g : Segment} {gs : List Segment} {s : State} {e : Option EntityId}
      (hg : g.Found language source spelling parse tree sf s look e)
      (hgs : Resolves (.member e) gs) : Resolves look (g :: gs)

end Found

section Parse
variable {tree : Tree} {sf s' : State}

/-- What a reference means is what is found for its segment. -/
theorem found_of_readAt
    (hwalk : walk language source (.initial language spelling) (initialSteps parse) = .ok sf)
    (hfinish : sf.finish = .ok s') {p : Place} {s : State} {role : Role} {look : Lookup}
    (h : p.ReadAt language source spelling parse s ⟨role, look⟩) {spaces : List Space}
    {kind : ReferenceKind} (hkind : kind ≠ .label)
    (hread : p.reading language source s ⟨role, look⟩ =
      .ofReference s.scopes kind (textOf source p.node.item)
        (s.scopes.lookup spaces (textOf source p.node.item) look)) :
    Segment.Found language source spelling parse s'.tree sf ⟨p, spaces⟩ s look
      (s.scopes.lookup spaces (textOf source p.node.item) look) := by
  obtain ⟨hc, hbound⟩ := reference_of_readAt h hwalk hfinish hkind hread
  exact ⟨⟨role, h⟩, (Table.lookup_eq_findSome? ..).symm, hbound, kind, hc⟩

/-- A qualifier is found where its name goes on. -/
theorem exists_found_of_names
    (hwalk : walk language source (.initial language spelling) (initialSteps parse) = .ok sf)
    (hfinish : sf.finish = .ok s') {q a : Place} {g : Segment} {s : State} {look : Lookup}
    (hscope : q.node.child? .scope = some a.node)
    (ha : a.ReadAt language source spelling parse s ⟨.use, look⟩)
    (hg : Names language source spelling parse a g) :
    ∃ s₁ e, g.Found language source spelling parse s'.tree sf s₁ look e ∧
      qualifierOf source s.scopes q.node look = .member e := by
  cases hg with
  | itself hkind =>
      obtain ⟨kind, hne, hread⟩ := @readNamespaceIdentifier_of_use source s.scopes
        ⟨a.node, a.outer, a.parent, .use, look⟩ rfl
      refine ⟨s, _, found_of_readAt hwalk hfinish ha hne ?_, ?_⟩
      · simp only [Place.reading, readNode, hkind]
        exact hread
      · simp only [qualifierOf, hscope, hkind]
  | @template g hname hfree =>
      obtain ⟨k, hchild⟩ := hname.child
      obtain ⟨s₁, hread, hagree⟩ :=
        ha.child_agrees hwalk (not_opensScope_templateType hname.kind) hchild hfree
      rw [childContext_templateName hname.kind (field_of_child? hname.name) (by simp)] at hread
      have hne : ReferenceKind.templateName ≠ .label := by decide
      refine ⟨s₁, _, found_of_readAt hwalk hfinish hread hne ?_, ?_⟩
      · simp only [Place.reading, readNode, hname.type]
        exact readTypeIdentifier_of_templateName rfl
      · simp only [qualifierOf, hscope, hname.kind, hname.name, Option.bind_some]
        rw [← hagree]

/-- **A name is resolved segment by segment**, from wherever its first segment is looked up. -/
theorem resolves_of_segments
    (hwalk : walk language source (.initial language spelling) (initialSteps parse) = .ok sf)
    (hfinish : sf.finish = .ok s') {role : Role} {p : Place} {gs : List Segment}
    (hgs : Segments language source spelling parse role p gs) : ∀ {s : State} {look : Lookup},
      p.ReadAt language source spelling parse s ⟨role, look⟩ →
      (p.node.kind = .typeIdentifier → look ≠ .lexical) →
        Resolves language source spelling parse s'.tree sf look gs := by
  induction hgs with
  | @type p hkind hrole =>
      intro s look hread hlook
      obtain ⟨kind, hne, hreading⟩ := @readTypeIdentifier_of_refers source s.scopes ⟨s.tree.size⟩
        ⟨p.node, p.outer, p.parent, role, look⟩ hrole (Or.inl (hlook hkind))
      refine .cons (found_of_readAt hwalk hfinish hread hne ?_) (.nil _)
      simp only [Place.reading, readNode, hkind]
      exact hreading
  | @template p g hname hrole =>
      intro s look hread _
      obtain ⟨k, hchild⟩ := hname.child
      obtain ⟨s₁, hread⟩ := hread.child hwalk hchild
      rw [childContext_templateName hname.kind (field_of_child? hname.name) hrole] at hread
      have hne : ReferenceKind.templateName ≠ .label := by decide
      refine .cons (found_of_readAt hwalk hfinish hread hne ?_) (.nil _)
      simp only [Place.reading, readNode, hname.type]
      exact readTypeIdentifier_of_templateName rfl
  | other => exact fun _ _ => .nil _
  | @qualified q a r j k g gs hkind ha hscope hfirst hg hr hname _ ih =>
      intro s look hread _
      have hopens := not_opensScope_qualifiedIdentifier hkind
      have hplain : ∀ (t : Table) (id : NodeId) (f : Frame), f.node = q.node →
          ∃ qualifier, readNode language source t id f = .plain t f { qualifier := qualifier } :=
        fun t id f hf => ⟨_, readNode_qualifiedIdentifier (hf ▸ hkind)⟩
      -- the qualifier is looked up as it was when the whole was read
      obtain ⟨s₁, hreada, hagree⟩ :=
        hread.child_agrees hwalk hopens ha (bindsNothingUntil_first ha hfirst hplain)
      have hcontext : ∀ outline, childContext q.node ⟨role, look⟩ outline a.node =
          ⟨.use, look⟩ := fun outline => by
        simp [childContext, hkind, field_of_child? hscope]
      rw [hcontext] at hreada
      obtain ⟨s₂, e, hfound, hqualifier⟩ :=
        exists_found_of_names hwalk hfinish hscope hreada hg
      rw [qualifierOf_congr hagree] at hqualifier
      refine .cons hfound ?_
      -- the rest of the name is read with what was found in mind
      obtain ⟨s₃, hreadr⟩ := hread.child hwalk hr
      rw [childContext_name hkind hname, qualifier_reading hkind, hqualifier] at hreadr
      exact ih hreadr fun _ => by simp

/-! ### Names that lead nowhere -/

/-- One thing is found for a segment. -/
theorem Segment.Found.unique {g : Segment} {s₁ s₂ : State} {l₁ l₂ : Lookup}
    {e₁ e₂ : Option EntityId}
    (h₁ : g.Found language source spelling parse tree sf s₁ l₁ e₁)
    (h₂ : g.Found language source spelling parse tree sf s₂ l₂ e₂) :
    s₁ = s₂ ∧ l₁ = l₂ ∧ e₁ = e₂ := by
  obtain ⟨role₁, hread₁⟩ := h₁.read
  obtain ⟨role₂, hread₂⟩ := h₂.read
  obtain ⟨rfl, hcontext⟩ := hread₁.unique hread₂
  obtain ⟨-, rfl⟩ := Context.mk.inj hcontext
  exact ⟨rfl, rfl, h₁.first.symm.trans h₂.first⟩

/-- A segment that means nothing stays without a target. -/
theorem Segment.Found.target? {g : Segment} {s : State} {look : Lookup}
    (h : g.Found language source spelling parse tree sf s look none) :
    tree.target? g.place.id = none := by
  obtain ⟨kind, hc⟩ := h.reference
  rw [Tree.target?, Tree.reference?, hc]
  rfl

/-- Behind a segment for which nothing is found nothing is found. -/
theorem target?_of_resolves_none {gs : List Segment}
    (h : Resolves language source spelling parse tree sf (.member none) gs) :
    ∀ g ∈ gs, tree.target? g.place.id = none := by
  generalize hlook : Lookup.member none = look at h
  induction h with
  | nil => exact nofun
  | cons hg _ ih =>
      subst hlook
      obtain rfl := hg.first
      intro g hmem
      rcases List.mem_cons.1 hmem with rfl | hmem
      · exact hg.target?
      · exact ih rfl g hmem

/-- If a whole name resolves, so does each end of it, somewhere. -/
theorem exists_resolves_of_append {gs : List Segment} : ∀ {front : List Segment} {look : Lookup},
    Resolves language source spelling parse tree sf look (front ++ gs) →
      ∃ look', Resolves language source spelling parse tree sf look' gs := by
  intro front
  induction front with
  | nil => exact fun h => ⟨_, h⟩
  | cons g front ih =>
      intro look h
      cases h with
      | cons _ h => exact ih h

/-- **Behind a name that leads nowhere nothing is found.**  If nothing is found for a segment, or an
entity that has no members by the time the next segment is read, then neither the next segment nor
any behind it gets a target. -/
theorem target?_of_no_members {look : Lookup} {front back : List Segment} {g g' : Segment}
    (h : Resolves language source spelling parse tree sf look (front ++ g :: g' :: back))
    {s₁ s₂ : State} {l₁ l₂ : Lookup} {e₁ e₂ : Option EntityId}
    (hg : g.Found language source spelling parse tree sf s₁ l₁ e₁)
    (hg' : g'.Found language source spelling parse tree sf s₂ l₂ e₂)
    (hnone : e₁.bind s₂.scopes.members? = none) :
    ∀ x ∈ g' :: back, tree.target? x.place.id = none := by
  obtain ⟨look', h⟩ := exists_resolves_of_append h
  cases h with
  | cons h₁ h =>
      obtain ⟨-, -, rfl⟩ := h₁.unique hg
      cases h with
      | cons h₂ h =>
          obtain ⟨rfl, rfl, rfl⟩ := h₂.unique hg'
          have hfirst := h₂.first
          rw [Table.sought_of_no_members hnone] at hfirst
          obtain rfl := hfirst
          intro x hx
          rcases List.mem_cons.1 hx with rfl | hx
          · exact h₂.target?
          · exact target?_of_resolves_none h x hx

/-! ### Qualified names -/

/-- **A qualified name is resolved segment by segment.**  Take a qualified name that is looked up
from the current scope outwards, such as `a::b::T` or `::a::b::T`, whose last segment refers to a
type.  Its first segment is sought in these scopes, or in the file scope if the name begins with
`::`.  Each other segment is sought only in the scope of the members of the entity to which the
reference in the segment before it is bound, and in the scopes used there.  If nothing is found for a
segment, or an entity without members, then nothing behind it has a target. -/
theorem qualified_names_resolve {tree : Tree} {stats : Stats}
    (h : resolveNames language source spelling parse = .ok (tree, stats)) {q : Place} {role : Role}
    (hread : ReadIn language source spelling parse q ⟨role, .lexical⟩) {look : Lookup}
    {segments : List Segment}
    (hname : QualifiedName language source spelling parse role q look segments) :
    ∃ sf, walk language source (.initial language spelling) (initialSteps parse) = .ok sf ∧
      Resolves language source spelling parse tree sf look segments ∧
      ∀ front g g' back, segments = front ++ g :: g' :: back → ∀ s₁ s₂ l₁ l₂ e₁ e₂,
        g.Found language source spelling parse tree sf s₁ l₁ e₁ →
        g'.Found language source spelling parse tree sf s₂ l₂ e₂ →
        e₁.bind s₂.scopes.members? = none →
          ∀ x ∈ g' :: back, tree.target? x.place.id = none := by
  obtain ⟨sf, s', hwalk, hfinish, rfl⟩ := resolveNames_eq_ok h
  obtain ⟨s, hread⟩ : ∃ s, q.ReadAt language source spelling parse s ⟨role, .lexical⟩ := hread
  have hresolves : Resolves language source spelling parse s'.tree sf look segments := by
    cases hname with
    | relative hkind hgs =>
        exact resolves_of_segments hwalk hfinish hgs hread fun htype => by simp [hkind] at htype
    | @absolute r k gs hkind hscope hr hfield hgs =>
        obtain ⟨s₁, hreadr⟩ := hread.child hwalk hr
        have hglobal : qualifierOf source s.scopes q.node .lexical = .global := by
          simp only [qualifierOf, hscope]
        rw [childContext_name hkind hfield, qualifier_reading hkind, hglobal] at hreadr
        exact resolves_of_segments hwalk hfinish hgs hreadr fun _ => by simp
  refine ⟨sf, hwalk, hresolves, ?_⟩
  rintro front g g' back rfl s₁ s₂ l₁ l₂ e₁ e₂ hg hg' hnone
  exact target?_of_no_members hresolves hg hg' hnone

end Parse

/-- The source `namespace N{template<class X>struct A{struct T{};};}N::A<int>::T t;`. -/
def memberTypeSource : ByteArray :=
  "namespace N{template<class X>struct A{struct T{};};}N::A<int>::T t;".toUTF8

/-- Its parse. -/
def memberTypeParse : Concrete.Parse where
  root := .onLine .translationUnit none 0 67
    [.onLine .namespaceDefinition none 0 52
      [.onLine .namespaceIdentifier (some .name) 10 11 [],
        .onLine (.other "declaration_list") (some .body) 11 52
          [.onLine .templateDeclaration none 12 51
            [.onLine (.other "template_parameter_list") (some (.other "parameters")) 20 29
              [.onLine .typeParameter none 21 28 [.onLine .typeIdentifier none 27 28 []]],
              .onLine .structSpecifier none 29 50
                [.onLine .typeIdentifier (some .name) 36 37 [],
                  .onLine (.other "field_declaration_list") (some .body) 37 50
                    [.onLine .fieldDeclaration none 38 49
                      [.onLine .structSpecifier (some .type) 38 48
                        [.onLine .typeIdentifier (some .name) 45 46 [],
                          .onLine (.other "field_declaration_list") (some .body) 46 48 []]]]]]]],
      .onLine .declaration none 52 67
        [.onLine .qualifiedIdentifier (some .type) 52 64
          [.onLine .namespaceIdentifier (some .scope) 52 53 [],
            .onLine .qualifiedIdentifier (some .name) 55 64
              [.onLine .templateType (some .scope) 55 61
                [.onLine .typeIdentifier (some .name) 55 56 [],
                  .onLine (.other "template_argument_list") (some (.other "arguments")) 56 61
                    [.onLine (.other "type_descriptor") none 57 60
                      [.onLine (.other "primitive_type") (some .type) 57 60 []]]],
                .onLine .typeIdentifier (some .name) 63 64 []]],
          .onLine .identifier (some .declarator) 65 66 []]]
  hasError := false

/-- The segments of `N::A<int>::T`. -/
def memberTypeSegments : List Segment :=
  [⟨(places memberTypeParse)[16], [.namespaces, .tag]⟩, ⟨(places memberTypeParse)[19], [.ordinary]⟩,
    ⟨(places memberTypeParse)[23], [.ordinary]⟩]

/-- The member type of a template in a namespace is found behind both of its qualifiers. -/
theorem qualified_names_resolve_member : ∃ tree stats,
    resolveNames .cpp memberTypeSource "t.cpp" memberTypeParse = .ok (tree, stats) ∧
      tree.content? ⟨17⟩ = some (.reference ⟨.namespaceName, "N", some ⟨1⟩⟩) ∧
      tree.content? ⟨20⟩ = some (.reference ⟨.templateName, "A", some ⟨8⟩⟩) ∧
      tree.content? ⟨24⟩ = some (.reference ⟨.typeName, "T", some ⟨12⟩⟩) ∧
      ∃ q sf, ReadIn .cpp memberTypeSource "t.cpp" memberTypeParse q .plain ∧
        QualifiedName .cpp memberTypeSource "t.cpp" memberTypeParse .use q .lexical
          memberTypeSegments ∧
        Resolves .cpp memberTypeSource "t.cpp" memberTypeParse tree sf .lexical
          memberTypeSegments := by
  have hvalue : (resolveNames .cpp memberTypeSource "t.cpp" memberTypeParse).toOption.map
      (fun r => (r.1.content? ⟨17⟩, r.1.content? ⟨20⟩, r.1.content? ⟨24⟩)) =
        some (some (.reference ⟨.namespaceName, "N", some ⟨1⟩⟩),
          some (.reference ⟨.templateName, "A", some ⟨8⟩⟩),
          some (.reference ⟨.typeName, "T", some ⟨12⟩⟩)) := by
    decide +kernel
  obtain ⟨⟨tree, stats⟩, h, hvalue⟩ := exists_ok_of_map hvalue
  obtain ⟨hN, hvalue⟩ := Prod.mk.inj hvalue
  obtain ⟨hA, hT⟩ := Prod.mk.inj hvalue
  -- the declaration hands the plain context to the name
  obtain ⟨_, _, hwalk, -⟩ := resolveNames_eq_ok h
  obtain ⟨s, context, outline, hread⟩ := exists_readAt_child (k := 0) hwalk
    (p := (places memberTypeParse)[14]) (q := (places memberTypeParse)[15])
    (mem_allPlaces (List.getElem_mem _)) ⟨rfl, rfl, rfl, rfl, rfl, rfl⟩
  have hread : ReadIn .cpp memberTypeSource "t.cpp" memberTypeParse (places memberTypeParse)[15]
      .plain := ⟨s, hread⟩
  -- the name of the template is the first that is read below it
  have htemplate : (places memberTypeParse)[18].IsChild 0 (places memberTypeParse)[19] :=
    ⟨rfl, rfl, rfl, rfl, rfl, rfl⟩
  have hnames : Names .cpp memberTypeSource "t.cpp" memberTypeParse (places memberTypeParse)[18]
      ⟨(places memberTypeParse)[19], [.ordinary]⟩ :=
    .template ⟨rfl, ⟨0, htemplate⟩, rfl, rfl⟩ (bindsNothingUntil_first htemplate nofun
      fun _ _ _ hf => ⟨_, readNode_templateType (hf ▸ rfl)⟩)
  have hinner : Segments .cpp memberTypeSource "t.cpp" memberTypeParse .use
      (places memberTypeParse)[17] memberTypeSegments.tail :=
    .qualified (j := 0) (k := 1) rfl ⟨rfl, rfl, rfl, rfl, rfl, rfl⟩ rfl nofun hnames
      ⟨rfl, rfl, rfl, rfl, rfl, rfl⟩ rfl (.type rfl trivial)
  have hname : QualifiedName .cpp memberTypeSource "t.cpp" memberTypeParse .use
      (places memberTypeParse)[15] .lexical memberTypeSegments :=
    .relative rfl (.qualified (j := 0) (k := 1) rfl ⟨rfl, rfl, rfl, rfl, rfl, rfl⟩ rfl nofun
      (.itself rfl) ⟨rfl, rfl, rfl, rfl, rfl, rfl⟩ rfl hinner)
  obtain ⟨sf, -, hresolves, -⟩ := qualified_names_resolve h hread hname
  exact ⟨tree, stats, h, hN, hA, hT, _, sf, hread, hname, hresolves⟩

end Resolution

end TypeUses
