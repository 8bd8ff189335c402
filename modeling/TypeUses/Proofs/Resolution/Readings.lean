import TypeUses.Proofs.Scope.Closed
import TypeUses.Proofs.Tree.Growth
import TypeUses.Resolution.State

/-!
# Resolution — the ways in which a node is read

`ReadAs source t id f r`: reading `r` is one of the ways to read a node.  The node says nothing of
names, defines an entity, declares one or refers to one; with a definition, a declaration, the first
use of a tag and the use of a namespace the table takes one operation, and otherwise it stays as it
is.  Every reading is one of these (`readAs_readNode`).

* `ReadAs.scopes`: the table takes at most one operation, which leaves the active scopes alone and
  records no node but the one that is read.
* `ReadAs.closed`: a reading stays in a realm.
-/

namespace TypeUses

namespace Resolution

/-- The entity whose members an entry enters. -/
def ScopeEntry.entity? : ScopeEntry → Option EntityId
  | members entity _ => some entity
  | fresh _ | function => none

/-- If a scope opens, it is not that of an entity's members. -/
def OpensNoMembers (opening : Option Opening) : Prop :=
  ∀ o, opening = some o → o.entry.entity? = none

/-- What the tree's node may say, its target apart, if it is made from node `n` of a parse: a
reference is spelled like `n`, and a node without names keeps the kind of `n`. -/
def Fits (source : ByteArray) (n : Concrete.Node) : Content → Prop
  | .translationUnit => False
  | .definition _ | .declaration _ => True
  | .reference r => r.spelling = textOf source n.item
  | .other kind => kind = n.kind.name

/-- An operation binds, in each space, what is meant for it; what an ordinary name means that is no
parameter, and which tag is used first, is said by the role. -/
def Binds (role : Role) : Operation → Prop
  | .define .tag _ kind _ | .declare .tag _ kind => kind.isTag = true
  | .define .namespaces _ kind _ => kind = .namespaceName
  | .define .ordinary _ kind _ => role = .declaredType kind
  | .defineParameter _ kind _ => kind = .templateParameter
  | .declareImplicit .tag _ kind => role = .tag kind
  | .declare .. | .declareImplicit .. => False
  | .enter _ | .enterMembers .. | .leave | .useNamespace _ => True

/-- A node means an entity: where its name is looked up, and the kind of the reference that it is. -/
inductive Means (source : ByteArray) (t : Table) (f : Frame) : ReferenceKind → EntityId → Prop
  | tag {kind : EntityKind} {e : EntityId} (hnode : f.node.kind = .typeIdentifier)
      (hrole : f.context.role = .tag kind)
      (he : t.lookup [.tag] (textOf source f.node.item) f.context.lookup = some e) :
      Means source t f .typeName e
  | ordinary {kind : ReferenceKind} {e : EntityId} (hnode : f.node.kind = .typeIdentifier)
      (hrole : ∀ k, f.context.role ≠ .tag k) (hown : f.context.role ≠ .ownName)
      (hkind : kind = .typeName ∨ kind = .templateName)
      (he : t.lookup [.ordinary] (textOf source f.node.item) f.context.lookup = some e) :
      Means source t f kind e
  | qualifier {e : EntityId} (hnode : f.node.kind ≠ .typeIdentifier)
      (he : t.lookup [.namespaces, .tag] (textOf source f.node.item) f.context.lookup = some e) :
      Means source t f (qualifierReferenceKind (t.kind? e)) e

/-- One of the ways to read a node, which has number `id` and stands in the frame `f`. -/
inductive ReadAs (source : ByteArray) (t : Table) (id : NodeId) (f : Frame) : Reading → Prop
  /-- it says nothing of names -/
  | plain {opening : Option Opening} {qualifier : Lookup} (ho : OpensNoMembers opening)
      (hq : ∀ e, qualifier = .member (some e) →
        ∃ spaces name, t.lookup spaces name f.context.lookup = some e) :
      ReadAs source t id f (.plain t f { opening := opening, qualifier := qualifier })
  /-- it defines an entity under a name that is not bound -/
  | defines {entity : Entity} {opening : Option Opening} {namesEntity : Bool}
      (ho : OpensNoMembers opening) :
      ReadAs source t id f
        { content := .definition entity
          scopes := t
          outline := { opening := opening, namesEntity := namesEntity } }
  /-- it defines an entity under a name that it binds -/
  | binds (op : Operation) {kind : EntityKind} {name : String} {opening : Option Opening}
      {namesEntity : Bool}
      (hop : (∃ space, op = .define space name kind id) ∨ op = .defineParameter name kind id)
      (hbinds : Binds f.context.role op)
      (ho : ∀ o, opening = some o →
        ∃ e, o.entry.entity? = some e ∧ (t.perform op).1 = .entity e) :
      ReadAs source t id f
        { content := .definition ⟨kind, name⟩
          scopes := (t.perform op).2
          outline := { opening := opening, namesEntity := namesEntity } }
  | declares {kind : EntityKind} {name : String} (hkind : kind.isTag = true) :
      ReadAs source t id f
        { content := .declaration ⟨kind, name⟩
          scopes := (t.perform (.declare .tag name kind)).2
          outline := { namesEntity := true } }
  /-- it refers to what a lookup finds, or to what is not known yet -/
  | refers {kind : ReferenceKind} {entity : Option EntityId}
      (hlabel : kind = .label → f.node.kind = .statementIdentifier)
      (hentity : ∀ e, entity = some e → Means source t f kind e) :
      ReadAs source t id f (.ofReference t kind (textOf source f.node.item) entity)
  /-- it is the first use of a tag -/
  | introduces {kind : EntityKind} {e : EntityId} (hnode : f.node.kind = .typeIdentifier)
      (hrole : f.context.role = .tag kind)
      (he : (t.perform (.declareImplicit .tag (textOf source f.node.item) kind)).1 = .entity e) :
      ReadAs source t id f
        (.ofReference (t.perform (.declareImplicit .tag (textOf source f.node.item) kind)).2
          .typeName (textOf source f.node.item) (some e))
  /-- it refers to a namespace and makes its members visible -/
  | uses {kind : ReferenceKind} {e : EntityId} (he : Means source t f kind e)
      (hrole : f.context.role = .usedNamespace) :
      ReadAs source t id f
        (.ofReference (t.perform (.useNamespace e)).2 kind (textOf source f.node.item) (some e))

section Reads
variable {language : Language} {source : ByteArray} {t : Table} {id : NodeId} {f : Frame}

/-! ### Meanings -/

theorem qualifierReferenceKind_ne_label (kind : Option EntityKind) :
    qualifierReferenceKind kind ≠ .label := by
  unfold qualifierReferenceKind
  split <;> decide

namespace Means

variable {kind : ReferenceKind} {e : EntityId}

/-- Only a label's reference means no entity. -/
theorem ne_label (h : Means source t f kind e) : kind ≠ .label := by
  cases h with
  | tag => decide
  | ordinary _ _ _ hkind => rcases hkind with rfl | rfl <;> decide
  | qualifier => exact qualifierReferenceKind_ne_label _

/-- What a name means is what a lookup of its text finds. -/
theorem found (h : Means source t f kind e) :
    ∃ spaces, t.lookup spaces (textOf source f.node.item) f.context.lookup = some e := by
  cases h with
  | tag _ _ he | ordinary _ _ _ _ he | qualifier _ he => exact ⟨_, he⟩

end Means

/-! ### Each way of reading -/

theorem opensNoMembers_none : OpensNoMembers none := nofun

theorem opensNoMembers_some {o : Opening} (h : o.entry.entity? = none) :
    OpensNoMembers (some o) := by
  rintro _ ⟨⟩
  exact h

theorem lastSegment_of_typeIdentifier {n : Concrete.Node} (h : n.kind = .typeIdentifier) :
    lastSegment n = n := by
  obtain ⟨i, cs⟩ := n
  have hk : i.kind = .typeIdentifier := h
  rw [lastSegment, if_neg (by rw [hk]; decide)]

/-- A simple name is the name of its specifier. -/
theorem specifierName_of_simpleName? {specifier : Concrete.Node} {name : String}
    (h : simpleName? source specifier = some name) : specifierName source specifier = name := by
  simp only [simpleName?] at h
  simp only [specifierName]
  split at h
  · next n hn =>
    split at h <;> rename_i hk
    · show textOf source (lastSegment n).item = name
      rw [lastSegment_of_typeIdentifier hk]
      exact Option.some.inj h
    · cases h
  · cases h

theorem readAs_definedTag {kind : EntityKind} (hkind : kind.isTag = true) :
    ReadAs source t id f (readDefinedTag language source t id f kind) := by
  simp only [readDefinedTag]
  split
  · next name hname =>
    rw [specifierName_of_simpleName? hname]
    refine .binds (.define .tag name kind id) (Or.inl ⟨_, rfl⟩) hkind fun opening ho => ?_
    split at ho
    · cases ho; exact ⟨_, rfl, rfl⟩
    · cases ho
  · exact .defines opensNoMembers_none

theorem readAs_specifier {kind : EntityKind} (hkind : kind.isTag = true) :
    ReadAs source t id f (readSpecifier language source t id f kind) := by
  simp only [readSpecifier]
  split
  · exact readAs_definedTag hkind
  · split
    · split
      · exact .declares hkind
      · exact .plain opensNoMembers_none nofun
    · exact .plain opensNoMembers_none nofun

theorem readAs_namespace : ReadAs source t id f (readNamespace source t id f) := by
  unfold readNamespace
  split
  · next n _ =>
    dsimp only
    split
    · refine .binds (.define .namespaces (textOf source n.item) .namespaceName id)
        (Or.inl ⟨_, rfl⟩) rfl fun opening ho => ?_
      cases ho
      exact ⟨_, rfl, rfl⟩
    · exact .defines (opensNoMembers_some rfl)
  · exact .defines opensNoMembers_none

/-- A tag is read as a reference, or as one that introduces what it refers to. -/
theorem readAs_tag {kind : EntityKind} (hnode : f.node.kind = .typeIdentifier)
    (hrole : f.context.role = .tag kind) :
    ReadAs source t id f (readTag t f.context.lookup (textOf source f.node.item) kind) := by
  simp only [readTag]
  split
  · next e he => exact .refers nofun fun _ h => by cases h; exact .tag hnode hrole he
  · split
    · exact .introduces hnode hrole rfl
    · exact .refers nofun nofun

theorem readAs_typeIdentifier (hnode : f.node.kind = .typeIdentifier) :
    ReadAs source t id f (readTypeIdentifier source t id f) := by
  have ordinary : ∀ {kind : ReferenceKind}, kind = .typeName ∨ kind = .templateName →
      (∀ k, f.context.role ≠ .tag k) → f.context.role ≠ .ownName →
      ReadAs source t id f (.ofReference t kind (textOf source f.node.item)
        (t.lookup [.ordinary] (textOf source f.node.item) f.context.lookup)) :=
    fun hkind hrole hown => .refers (fun hl => by rw [hl] at hkind; simp at hkind) fun _ he =>
      .ordinary hnode hrole hown hkind he
  simp only [readTypeIdentifier]
  split
  · exact .plain opensNoMembers_none nofun
  · next kind hrole =>
    exact .binds (.define .ordinary _ kind id) (Or.inl ⟨_, rfl⟩) hrole nofun
  · exact .binds (.defineParameter _ _ id) (Or.inr rfl) rfl nofun
  · next kind hrole => exact readAs_tag hnode hrole
  · next hrole => exact ordinary (Or.inr rfl) (by simp [hrole]) (by simp [hrole])
  all_goals
    next hrole => exact ordinary (Or.inl rfl) (by simp [hrole]) (by simp [hrole])

/-- The identifier of a namespace is read as a reference, which may use what it refers to. -/
theorem readAs_namespaceIdentifier (hnode : f.node.kind ≠ .typeIdentifier) :
    ReadAs source t id f (readNamespaceIdentifier source t f) := by
  unfold readNamespaceIdentifier
  split
  · exact .plain opensNoMembers_none nofun
  · dsimp only
    split
    · next e hrole he =>
      rw [he]
      exact .uses (.qualifier hnode he) hrole
    · next entity _ =>
      refine .refers (fun hl => absurd hl (qualifierReferenceKind_ne_label _)) fun e he => ?_
      rw [he]
      exact .qualifier hnode he

theorem readAs_statementIdentifier (hnode : f.node.kind = .statementIdentifier) :
    ReadAs source t id f (readStatementIdentifier source t f) := by
  simp only [readStatementIdentifier]
  split
  · exact .plain opensNoMembers_none nofun
  · exact .refers (fun _ => hnode) nofun

/-- The last segment of a qualified name is looked up among the members of what was found. -/
theorem found_qualifierOf {n : Concrete.Node} {look : Lookup} {e : EntityId}
    (h : qualifierOf source t n look = .member (some e)) :
    ∃ spaces name, t.lookup spaces name look = some e := by
  simp only [qualifierOf] at h
  split at h
  · cases h
  · split at h
    · exact ⟨_, _, Lookup.member.inj h⟩
    · obtain ⟨n, -, hn⟩ := Option.bind_eq_some_iff.1 (Lookup.member.inj h)
      exact ⟨_, _, hn⟩
    · cases h

/-- **Every reading is one of these.** -/
theorem readAs_readNode (language : Language) (source : ByteArray) (t : Table) (id : NodeId)
    (f : Frame) : ReadAs source t id f (readNode language source t id f) := by
  simp only [readNode]
  split
  iterate 4 exact readAs_specifier rfl
  · exact readAs_namespace
  · exact .defines opensNoMembers_none
  · next hnode => exact readAs_typeIdentifier hnode
  · next hnode => exact readAs_namespaceIdentifier (by simp [hnode])
  · next hnode =>
    split
    · exact readAs_namespaceIdentifier (by simp [hnode])
    · exact .plain opensNoMembers_none nofun
  · next hnode => exact readAs_statementIdentifier hnode
  · exact .plain opensNoMembers_none fun _ => found_qualifierOf
  iterate 5 exact .plain (opensNoMembers_some rfl) nofun
  · exact .plain opensNoMembers_none nofun

/-! ### What all readings have in common -/

namespace ReadAs

variable {r : Reading}

/-- The table takes at most one operation, a binding whose definition is the node itself. -/
theorem scopes (h : ReadAs source t id f r) :
    r.scopes = t ∨ ∃ op : Operation, op.IsBinding ∧ Binds f.context.role op ∧
      r.scopes = (t.perform op).2 ∧ ∀ d, op.node? = some d → d = id ∧
        ∃ kind name, op.kind? = some kind ∧ op.name? = some name ∧
          r.content = .definition ⟨kind, name⟩ := by
  cases h with
  | plain | defines | refers => exact Or.inl rfl
  | binds _ hop hbinds =>
      refine Or.inr ⟨_, ?_, hbinds, rfl, fun d hd => ?_⟩
      · rcases hop with ⟨space, rfl⟩ | rfl <;> trivial
      · rcases hop with ⟨space, rfl⟩ | rfl <;> cases hd <;> exact ⟨rfl, _, _, rfl, rfl, rfl⟩
  | declares hkind => exact Or.inr ⟨.declare .tag _ _, trivial, hkind, rfl, nofun⟩
  | introduces _ hrole => exact Or.inr ⟨.declareImplicit .tag _ _, trivial, hrole, rfl, nofun⟩
  | uses => exact Or.inr ⟨.useNamespace _, trivial, trivial, rfl, nofun⟩

/-- Only a reference means an entity, and it is not a label. -/
theorem entity (h : ReadAs source t id f r) {e : EntityId} (he : r.entity = some e) :
    ∃ kind, kind ≠ .label ∧
      r.content = .reference { kind := kind, spelling := textOf source f.node.item } := by
  cases h with
  | plain | defines | binds | declares => cases he
  | refers _ hentity => exact ⟨_, (hentity e he).ne_label, rfl⟩
  | introduces => exact ⟨_, by decide, rfl⟩
  | uses hmeans => exact ⟨_, hmeans.ne_label, rfl⟩

/-- What a node is read as fits the node. -/
theorem content (h : ReadAs source t id f r) : Fits source f.node r.content := by
  cases h with
  | plain | refers | introduces | uses => rfl
  | defines | binds | declares => trivial

/-- A reference has no target yet. -/
theorem unlinked (h : ReadAs source t id f r) {reference : Reference}
    (hr : r.content = .reference reference) : reference.target = none := by
  cases h with
  | plain | defines | binds | declares => cases hr
  | refers | introduces | uses => cases hr; rfl

/-- The name of a label is that of a statement. -/
theorem label (h : ReadAs source t id f r) {reference : Reference}
    (hr : r.content = .reference reference) (hk : reference.kind = .label) :
    f.node.kind = .statementIdentifier := by
  cases h with
  | plain | defines | binds | declares => cases hr
  | refers hlabel => cases hr; exact hlabel hk
  | introduces => cases hr; cases hk
  | uses hmeans => cases hr; exact absurd hk hmeans.ne_label

/-- The entity whose members are opened is the one that the node defines. -/
theorem opening (h : ReadAs source t id f r) {o : Opening} (ho : r.outline.opening = some o)
    {e : EntityId} (he : o.entry.entity? = some e) :
    ∃ op : Operation, op.IsBinding ∧ op.node? = some id ∧ (t.perform op).1 = .entity e ∧
      r.scopes = (t.perform op).2 ∧
      ∃ kind name, op.kind? = some kind ∧ r.content = .definition ⟨kind, name⟩ := by
  cases h with
  | plain hno | defines hno => rw [hno o ho] at he; cases he
  | binds op hop _ hanswer =>
      obtain ⟨e', he', hanswer⟩ := hanswer o ho
      cases he'.symm.trans he
      refine ⟨op, ?_, ?_, hanswer, rfl, ?_⟩ <;> rcases hop with ⟨space, rfl⟩ | rfl
      iterate 2 exact trivial
      iterate 2 exact rfl
      iterate 2 exact ⟨_, _, rfl, rfl⟩
  | declares | refers | introduces | uses => cases ho

/-- A reading stays in a realm: the table after it, the entity that it refers to, the entity whose
members it opens, and what its name qualifies. -/
theorem closed {A : Realm} (h : ReadAs source t id f r) (ht : t.Closed A)
    (hlook : f.context.lookup.In A) (hid : r.content.isDefinition = true → A.node id)
    (hnew : t.entities.size < r.scopes.entities.size → A.entity ⟨t.entities.size⟩) :
    r.scopes.Closed A ∧ (∀ e, r.entity = some e → A.entity e) ∧
      (∀ o e, r.outline.opening = some o → o.entry.entity? = some e → A.entity e) ∧
      r.outline.qualifier.In A := by
  have perform : ∀ {op : Operation}, op.IsBinding → (∀ e, op.subject? = some e → A.entity e) →
      (∀ d, op.node? = some d → A.node d) →
      (t.entities.size < (t.perform op).2.entities.size → A.entity ⟨t.entities.size⟩) →
      (t.perform op).2.Closed A := fun hb hs hd he =>
    ht.perform hs hd (fun hlt => absurd hlt (by rw [Table.scopes_size_perform hb]; omega)) he
  cases h with
  | plain ho hq =>
      refine ⟨ht, nofun, fun o e hopen he => ?_, ?_⟩
      · rw [ho o hopen] at he; cases he
      · show Lookup.In A _
        simp only [Lookup.In]
        split
        · next e he =>
          obtain ⟨spaces, name, hl⟩ := hq e he
          exact ht.lookup hlook hl
        all_goals trivial
  | defines ho =>
      refine ⟨ht, nofun, fun o e hopen he => ?_, trivial⟩
      rw [ho o hopen] at he
      cases he
  | binds _ hop _ ho =>
      have hnode : A.node id := hid rfl
      refine ⟨?_, nofun, fun o e hopen he => ?_, trivial⟩
      · rcases hop with ⟨space, rfl⟩ | rfl <;>
          exact perform trivial nofun (fun d hd => by cases hd; exact hnode) hnew
      · obtain ⟨e', he', hanswer⟩ := ho o hopen
        cases he'.symm.trans he
        exact ht.answer hanswer hnew
  | declares => exact ⟨perform trivial nofun nofun hnew, nofun, nofun, trivial⟩
  | refers _ hentity =>
      refine ⟨ht, fun e he => ?_, nofun, trivial⟩
      obtain ⟨spaces, hl⟩ := (hentity e he).found
      exact ht.lookup hlook hl
  | introduces _ _ he =>
      exact ⟨perform trivial nofun nofun hnew,
        fun e h => by cases h; exact ht.answer he hnew, nofun, trivial⟩
  | uses hmeans =>
      obtain ⟨spaces, hl⟩ := hmeans.found
      have he := ht.lookup hlook hl
      exact ⟨perform trivial (fun e h => by cases h; exact he) nofun hnew,
        fun e h => by cases h; exact he, nofun, trivial⟩

end ReadAs

/-- A context takes its lookup from its parent's context or from the parent's name. -/
theorem lookup_childContext (parent : Concrete.Node) (context : Context) (outline : Outline)
    (child : Concrete.Node) :
    (childContext parent context outline child).lookup = .lexical ∨
      (childContext parent context outline child).lookup = context.lookup ∨
      (childContext parent context outline child).lookup = outline.qualifier := by
  have declarator : ∀ c, (declaratorContext parent context c).lookup = .lexical ∨
      (declaratorContext parent context c).lookup = context.lookup := by
    intro c
    simp only [declaratorContext]
    split
    · exact Or.inr rfl
    · exact Or.inl rfl
  have parameter : (parameterContext parent context child).lookup = .lexical ∨
      (parameterContext parent context child).lookup = context.lookup := by
    unfold parameterContext
    split
    · exact Or.inl rfl
    · exact declarator child
  have usingDeclaration : (usingContext parent context child).lookup = .lexical ∨
      (usingContext parent context child).lookup = context.lookup := by
    unfold usingContext
    split
    · exact Or.inl rfl
    · exact declarator child
  unfold childContext
  split
  all_goals first
    | exact Or.inl rfl
    | exact Or.inr (Or.inl rfl)
    | exact Or.inr (Or.inr rfl)
    | exact parameter.imp_right Or.inl
    | exact usingDeclaration.imp_right Or.inl
    | exact (declarator child).imp_right Or.inl

end Reads

end Resolution

end TypeUses
