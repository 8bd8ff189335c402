import TypeUses.Proofs.Resolution.Classes
import TypeUses.Proofs.Resolution.Upright
import TypeUses.Proofs.Scope.Completion

/-!
# Resolution — how long a name means what it means

The walk binds names only where it reads a place (`binding_perform`).  So a name that means an
entity in some scope goes on to do so until a place takes it away (`TakenBefore`,
`local?_of_runs`); that of a namespace is never taken (`namespace_of_runs`).

* `NamesType`: one identifier names the type that a node defines.
* `Place.DefinesDirectly`: a place defines a type in the scope in which a body binds.
* `exists_entity_of_type`: behind such a place the name means the type in that scope, in all the
  spaces in which it is bound, unless a place has taken it away.
-/

namespace TypeUses.Resolution

variable {source : ByteArray} {spelling : String} {parse : Concrete.Parse}

/-- Among the names of namespaces only namespaces are bound. -/
theorem Binds.kind_of_namespaces {role : Role} {op : Operation} {b : Binding} (h : Binds role op)
    (hb : op.binding? = some b) (hspace : b.space = .namespaces) : b.kind = .namespaceName := by
  cases op with
  | enter | enterMembers | leave | useNamespace => cases hb
  | defineParameter => cases hb; cases hspace
  | define space name kind node =>
      cases hb
      cases hspace
      exact h
  | declare space name kind | declareImplicit space name kind =>
      cases hb
      cases hspace
      exact h.elim

section Steps
variable {language : Language} {s s' : State} {step : Step} {stack stack' steps : List Step}

/-- A step binds a name only if it visits a node, and the name of a namespace to a namespace. -/
theorem binding_perform (h : s.perform language source step = .ok (s', steps)) :
    s'.scopes = s.scopes ∨ ∃ op : Operation, s'.scopes = (s.scopes.perform op).2 ∧
      ∀ b ∈ op.binding?, (∃ f, step = .visit f) ∧
        (b.space = .namespaces → b.kind = .namespaceName) := by
  cases step with
  | visit f =>
      obtain ⟨id, outline, hadd, -⟩ := perform_visit_eq_ok.1 h
      obtain ⟨tree, -, rfl, -⟩ := add_eq_ok.1 hadd
      rw [State.scopes_record]
      refine (readAs_readNode language source s.scopes ⟨s.tree.size⟩ f).scopes.imp_right ?_
      rintro ⟨op, -, hbinds, he, -⟩
      exact ⟨op, he, fun b hb => ⟨⟨f, rfl⟩, hbinds.kind_of_namespaces hb⟩⟩
  | enter entry =>
      cases h
      exact Or.inr ⟨_, scopes_enter s entry, by cases entry <;> nofun⟩
  | leave entry =>
      exact Or.inr ⟨.leave, (leave_eq_ok (perform_leave_eq_ok.1 h).1).1, nofun⟩

/-- The name of a namespace goes on to mean it. -/
theorem namespace_of_runs {b : ScopeId} {name : String} {e : EntityId}
    (hruns : Runs language source (.initial language spelling) (initialSteps parse) s stack)
    (h : Runs language source s stack s' stack')
    (hmeans : s.scopes.Means b .namespaces name .namespaceName e) :
    s'.scopes.Means b .namespaces name .namespaceName e := by
  refine h.along (P := fun s₁ _ => s₁.scopes.Means b .namespaces name .namespaceName e)
    (fun {s₁ step rest s₂ steps} hr hmeans hstep => ?_) hmeans
  have standing := (sound_of_parse (hruns.trans hr)).1.standing
  rcases binding_perform hstep with he | ⟨op, he, hop⟩ <;> rw [he]
  · exact hmeans
  · exact hmeans.perform_namespace standing fun b hb => (hop b hb).2

end Steps

/-! ### A name of a type is taken away -/

/-- A place in front of node `n` takes the name from the entity: before it is read the name means
the entity in scope `b`, and then no longer. -/
def TakenBefore (source : ByteArray) (spelling : String) (parse : Concrete.Parse) (n : Nat)
    (b : ScopeId) (space : Space) (name : String) (x : EntityId) : Prop :=
  ∃ r ∈ places parse, r.id.index < n ∧
    ∃ s context, r.ReadAt .cpp source spelling parse s context ∧
      s.scopes.local? b space name = some x ∧
      (r.reading .cpp source s context).scopes.local? b space name ≠ some x

theorem TakenBefore.mono {n m : Nat} (hle : n ≤ m) {b : ScopeId} {space : Space} {name : String}
    {x : EntityId} (h : TakenBefore source spelling parse n b space name x) :
    TakenBefore source spelling parse m b space name x := by
  obtain ⟨r, hr, hlt, h⟩ := h
  exact ⟨r, hr, Nat.lt_of_lt_of_le hlt hle, h⟩

section Names
variable {sf : State}
  (hwalk : walk .cpp source (.initial .cpp spelling) (initialSteps parse) = .ok sf)
include hwalk

/-- In a step a name goes on to mean an entity, or the place that is read takes it away. -/
theorem local?_of_step {s s' : State} {step : Step} {rest steps : List Step}
    (hruns : Runs .cpp source (.initial .cpp spelling) (initialSteps parse) s (step :: rest))
    (hstep : s.perform .cpp source step = .ok (s', steps)) {b : ScopeId} {space : Space}
    {name : String} {x : EntityId} (hlocal : s.scopes.local? b space name = some x) :
    s'.scopes.local? b space name = some x ∨
      TakenBefore source spelling parse s'.tree.size b space name x := by
  refine or_iff_not_imp_left.2 fun hno => ?_
  have standing := (sound_of_parse hruns).1.standing
  -- only a visit binds names
  obtain ⟨f, rfl⟩ : ∃ f, step = .visit f := by
    rcases binding_perform hstep with he | ⟨op, he, hop⟩
    · exact absurd (he ▸ hlocal) hno
    · rcases Table.locals_of_perform standing op with hsame | ⟨binding, hb, -⟩
      · exact absurd (he ▸ (hsame ..).trans hlocal) hno
      · exact (hop binding hb).1
  obtain ⟨r, hr, context, rfl, hread⟩ := exists_place_of_visit hwalk hruns
  obtain ⟨id, outline, hadd, -⟩ := perform_visit_eq_ok.1 hstep
  obtain ⟨-, hsize⟩ := size_add hadd
  obtain ⟨tree, -, rfl, -⟩ := add_eq_ok.1 hadd
  have hid := congrArg NodeId.index hread.id
  exact ⟨r, hr, by rw [hsize, ← hid]; exact Nat.lt_succ_self _, s, context, hread, hlocal, hno⟩

/-- A name goes on to mean an entity until a place takes it away. -/
theorem local?_of_runs {s s' : State} {stack stack' : List Step}
    (hruns : Runs .cpp source (.initial .cpp spelling) (initialSteps parse) s stack)
    (h : Runs .cpp source s stack s' stack') {b : ScopeId} {space : Space} {name : String}
    {x : EntityId} (hlocal : s.scopes.local? b space name = some x ∨
      TakenBefore source spelling parse s.tree.size b space name x) :
    s'.scopes.local? b space name = some x ∨
      TakenBefore source spelling parse s'.tree.size b space name x := by
  refine h.along (P := fun s₁ _ => s₁.scopes.local? b space name = some x ∨
    TakenBefore source spelling parse s₁.tree.size b space name x)
    (fun {s₁ step rest s₂ steps} hr hs hstep => ?_) hlocal
  rcases hs with hlocal | htaken
  · exact local?_of_step hwalk (hruns.trans hr) hstep hlocal
  · exact Or.inr (htaken.mono (knows_perform hstep).tree.size_le)

/-- A tag is bound as an ordinary name as well, until a place takes the name away. -/
theorem ordinary_of_tag {s : State} {stack : List Step}
    (hruns : Runs .cpp source (.initial .cpp spelling) (initialSteps parse) s stack)
    {b : ScopeId} {name : String} {x : EntityId}
    (hlocal : s.scopes.local? b .tag name = some x) :
    s.scopes.local? b .ordinary name = some x ∨
      TakenBefore source spelling parse s.tree.size b .ordinary name x := by
  refine hruns.along (P := fun s _ => ∀ x, s.scopes.local? b .tag name = some x →
    s.scopes.local? b .ordinary name = some x ∨
      TakenBefore source spelling parse s.tree.size b .ordinary name x)
    (fun {s step rest s' steps} hr hs hstep x hlocal => ?_) (fun x hx => ?_) x hlocal
  · have standing := (sound_of_parse hr).1.standing
    have htypes : s.scopes.tagsAreTypes = true := (grows_of_runs hr).1.tagsAreTypes
    have kept : s.scopes.local? b .tag name = some x → s'.scopes.local? b .ordinary name = some x ∨
        TakenBefore source spelling parse s'.tree.size b .ordinary name x := by
      intro hold
      rcases hs x hold with hordinary | htaken
      · exact local?_of_step hwalk hr hstep hordinary
      · exact Or.inr (htaken.mono (knows_perform hstep).tree.size_le)
    rcases binding_perform hstep with he | ⟨op, he, -⟩
    · exact kept (he ▸ hlocal)
    · rcases Table.locals_of_perform standing op with hsame | ⟨binding, -, -, hlocals⟩
      · exact kept ((hsame ..).symm.trans (he ▸ hlocal))
      · rw [he, hlocals] at hlocal
        split at hlocal
        · next hbound =>
          -- what is bound as a tag is bound as an ordinary name with it
          obtain ⟨hs, hname, hspace | ⟨-, -, hspace⟩⟩ := hbound
          · left
            rw [he, hlocals, if_pos ⟨hs, hname, Or.inr ⟨htypes, hspace, rfl⟩⟩]
            exact hlocal
          · cases hspace
        · exact kept hlocal
  · exact (Table.not_bound_empty (Table.boundIn_of_local? hx).bound).elim

end Names

/-! ### Types that one identifier names -/

/-- One identifier names the type of the kind that the node defines, and it is bound in the
spaces. -/
inductive NamesType (source : ByteArray) (n : Concrete.Node) : EntityKind → List Space → Prop
  | tag {kind : EntityKind} (hnode : n.IsSpecifier)
      (hname : (simpleName? source n).isSome = true) : NamesType source n kind [.tag, .ordinary]
  | synonym {kind : EntityKind} (hnode : n.kind = .typeIdentifier)
      (hkind : kind = .typedefName ∨ kind = .typeAlias) : NamesType source n kind [.ordinary]

/-- A specifier that defines a simple name binds it, as a tag of its kind, to the node. -/
theorem define_of_specifier {t : Table} {id : NodeId} {f : Frame} {kind kind' : EntityKind}
    {name : String} (hname : (simpleName? source f.node).isSome = true)
    (hc : (readSpecifier .cpp source t id f kind').content = .definition ⟨kind, name⟩) :
    kind' = kind ∧ (readSpecifier .cpp source t id f kind').scopes =
      (t.perform (.define .tag name kind id)).2 := by
  obtain ⟨text, htext⟩ := Option.isSome_iff_exists.1 hname
  have hspecifier := specifierName_of_simpleName? htext
  by_cases hbody : (f.node.child? .body).isSome
  · simp only [readSpecifier, if_pos hbody, readDefinedTag, htext, hspecifier,
      Content.definition.injEq, Entity.mk.injEq] at hc ⊢
    obtain ⟨rfl, rfl⟩ := hc
    exact ⟨rfl, rfl⟩
  · simp only [readSpecifier, if_neg hbody, htext] at hc
    split at hc <;> cases hc

/-- Such a type is defined under its name where it is read. -/
theorem define_of_namesType {t : Table} {id : NodeId} {f : Frame} {kind : EntityKind}
    {name : String} {spaces : List Space} (h : NamesType source f.node kind spaces)
    (hc : (readNode .cpp source t id f).content = .definition ⟨kind, name⟩) :
    kind ≠ .namespaceName ∧ ∃ space,
      (readNode .cpp source t id f).scopes = (t.perform (.define space name kind id)).2 ∧
      ∀ x ∈ spaces, x = space ∨ space = .tag ∧ x = .ordinary := by
  cases h with
  | tag hnode hname =>
      have defined : ∀ kind' : EntityKind, kind' ≠ .namespaceName →
          (readSpecifier .cpp source t id f kind').content = .definition ⟨kind, name⟩ →
          kind ≠ .namespaceName ∧ ∃ space,
            (readSpecifier .cpp source t id f kind').scopes =
              (t.perform (.define space name kind id)).2 ∧
            ∀ x ∈ [Space.tag, .ordinary], x = space ∨ space = .tag ∧ x = .ordinary := by
        intro kind' hne hc
        obtain ⟨rfl, hscopes⟩ := define_of_specifier hname hc
        exact ⟨hne, .tag, hscopes, by simp⟩
      simp only [readNode] at hc ⊢
      rcases hnode with hnode | hnode | hnode | hnode <;> rw [hnode] at hc ⊢ <;>
        exact defined _ (by decide) hc
  | synonym hnode hkind =>
      have hne : kind ≠ .namespaceName := by rcases hkind with rfl | rfl <;> decide
      simp only [readNode, hnode] at hc ⊢
      obtain ⟨hdefines, hname⟩ := definition_readTypeIdentifier.1 hc
      have hname : name = textOf source f.node.item := hname
      have hrole : f.context.role = .declaredType kind := by
        cases hrole : f.context.role <;> rw [hrole] at hdefines <;> cases hdefines
        · rfl
        · rcases hkind with hkind | hkind <;> cases hkind
      refine ⟨hne, .ordinary, ?_, by simp⟩
      simp only [readTypeIdentifier, hrole, hname]
      rfl

/-- Place `d` is that of a type, defined under the name, which is bound in the spaces of the scope
of the body at place `b`: it lies in the body, and no scope lies between. -/
structure Place.DefinesDirectly (source : ByteArray) (spelling : String) (parse : Concrete.Parse)
    (tree : Tree) (d b : Place) (name : String) (spaces : List Space) : Prop where
  above : b.IsAbove d
  type : ∃ kind, NamesType source d.node kind spaces ∧
    tree.content? d.id = some (.definition ⟨kind, name⟩)
  scope : ∃ s context s' context', b.ReadAt .cpp source spelling parse s context ∧
    d.ReadAt .cpp source spelling parse s' context' ∧
    s'.scopes.bindingScope = s.scopes.bindingScope

section Main
variable {sf s' : State}
  (hwalk : walk .cpp source (.initial .cpp spelling) (initialSteps parse) = .ok sf)
include hwalk

/-- A type that is defined directly in a body goes on to be what its name means in the body's scope,
until a place takes the name away. -/
theorem exists_entity_of_type (hfinish : sf.finish = .ok s') {b d : Place} {name : String}
    {spaces : List Space}
    (hd : d.DefinesDirectly source spelling parse s'.tree b name spaces) :
    ∃ β x, (∀ s context, b.ReadAt .cpp source spelling parse s context →
        s.scopes.bindingScope = β) ∧
      ∀ (u : Place) s context, u.ReadAt .cpp source spelling parse s context →
        d.id.index < u.id.index → s.scopes.definition? x = some d.id ∧
          ∀ space ∈ spaces, s.scopes.local? β space name = some x ∨
            TakenBefore source spelling parse u.id.index β space name x := by
  obtain ⟨kind, htype, hcontent⟩ := hd.type
  obtain ⟨s₀, context₀, s, context, hbody, hread, hscope⟩ := hd.scope
  have standing := (sound_of_parse hread.runs.choose_spec).1.standing
  have hc := (content_of_readAt hwalk (linked_of_link hfinish).1.grows hread).1 hcontent
  obtain ⟨hne, space₀, hscopes, hspaces⟩ := define_of_namesType htype hc
  have hscopes : (d.reading .cpp source s context).scopes =
      (s.scopes.perform (.define space₀ name kind d.id)).2 := by
    rw [Place.reading, hscopes, hread.id]
  -- the scope of the body binds the name, and the node defines what it means
  obtain ⟨x, hx⟩ : ∃ x, (s.scopes.perform (.define space₀ name kind d.id)).1 = .entity x := ⟨_, rfl⟩
  obtain ⟨binding, hb, hlocal⟩ := Table.local?_of_answer standing hx
  cases hb
  have hdefinition := Table.definition?_of_answer standing hx rfl
    fun h => hne (Option.some.inj h)
  rw [← hscopes] at hlocal hdefinition
  refine ⟨s.scopes.bindingScope, x, fun s₁ context₁ hread₁ => ?_, fun u s₁ context₁ hu hlt => ?_⟩
  · obtain ⟨rfl, -⟩ := hread₁.unique hbody
    exact hscope.symm
  · obtain ⟨s₂, stack, stack', hs₂, hsize₂, hruns, hbehind⟩ := hread.runs_behind hwalk hu hlt
    obtain ⟨_, -, hsize⟩ := hu
    rw [← hs₂] at hlocal hdefinition
    refine ⟨(grows_of_runs hbehind).1.definition hdefinition, fun space hspace => ?_⟩
    rw [← hsize]
    refine local?_of_runs hwalk hruns hbehind ?_
    rcases hspaces space hspace with rfl | ⟨rfl, rfl⟩
    · exact Or.inl hlocal
    · exact ordinary_of_tag hwalk hruns hlocal

end Main

end TypeUses.Resolution
