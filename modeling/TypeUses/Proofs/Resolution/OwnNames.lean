import TypeUses.Proofs.Resolution.Reopening
import TypeUses.Proofs.Resolution.Visibility
import TypeUses.Proofs.Scope.Without

/-!
# Resolution — names in what they stand for

The name of an alias stands in front of its type, and that of a template's parameter in front of the
type that it is by default.  The name is bound when it is read, so it is in sight in the type, and
`using P = P;` is an alias for itself (`own_name_means_itself`), though a name should be visible
behind its declaration only.  What the type sees of the name is that alone
(`own_names_sought_within`): what is not found to mean the new entity leads where it would if there
were no such entity.

* `Place.Makes`: the place makes a new entity, which its name means from there on; without it the
  table looks names up as before (`Place.Makes.lookup_without`), and the place defines it alone
  (`definition?_of_makes`).
* `Place.StandsFor`: which name is introduced for which type.
* `Place.SeesName`: what becomes of a place in sight of the name.
* `mem_chain_of_standsFor`: where the name's scope is searched.
-/

namespace TypeUses.Resolution

variable {language : Language} {source : ByteArray} {spelling : String} {parse : Concrete.Parse}

/-! ### Names that make entities -/

/-- What waits for a definition is a tag. -/
theorem isTag_of_undefined (hroot : parse.root.kind = .translationUnit ∨ parse.root.kind = .error)
    {s : State} {stack : List Step}
    (hruns : Runs language source (.initial language spelling) (initialSteps parse) s stack)
    {e : EntityId} {kind : EntityKind} (hkind : s.scopes.kind? e = some kind)
    (hundefined : s.scopes.definition? e = none) : kind.isTag = true := by
  obtain ⟨info, hi, -⟩ := Table.kind?_eq_some_iff.1 hkind
  obtain ⟨q, -, -, -, horigin⟩ := (dated_of_runs hroot hruns).made e (Table.lt_of_entity? hi)
  have hbound : ∃ name, s.scopes.BoundIn .tag name e := by
    cases horigin with
    | defined hd => rw [hundefined] at hd; cases hd
    | declared _ _ hb | used _ _ _ hb => exact ⟨_, hb⟩
  obtain ⟨name, hb⟩ := hbound
  obtain ⟨kind', hkind', hadmits⟩ := (kinded_of_runs hroot hruns).scopes.bound hb
  cases hkind.symm.trans hkind'
  exact hadmits

/-- The scope in which a name in the role is defined. -/
def Role.definingScope (t : Table) : Role → ScopeId
  | .templateParameter => t.current
  | _ => t.bindingScope

/-- Place `n` makes entity `x` when it is read in state `s`, and scope `b` binds its text to it. -/
structure Place.Makes (language : Language) (source : ByteArray) (n : Place) (s : State)
    (context : Context) (kind : EntityKind) (b : ScopeId) (x : EntityId) : Prop where
  new : x = ⟨s.scopes.entities.size⟩
  scope : b = context.role.definingScope s.scopes
  there : b.index < s.scopes.scopes.size
  scopes : (n.reading language source s context).scopes =
    (s.scopes.create b .ordinary (textOf source n.node.item) ⟨kind, some n.id, none⟩).2

/-- **A name in the role of a definition makes an entity**, unless it is that of a tag or of a
namespace. -/
theorem makes_of_readAt (hroot : parse.root.kind = .translationUnit ∨ parse.root.kind = .error)
    {n : Place} {s : State} {context : Context}
    (hread : n.ReadAt language source spelling parse s context)
    (htype : n.node.kind = .typeIdentifier) {kind : EntityKind}
    (hrole : context.role.defines? = some kind) (htag : kind.isTag = false)
    (hnamespace : kind ≠ .namespaceName) :
    ∃ b, n.Makes language source s context kind b ⟨s.scopes.entities.size⟩ := by
  obtain ⟨rest, hruns⟩ := hread.runs
  have standing := (sound_of_parse hruns).1.standing
  obtain ⟨op, b, hb, hbinding, hscopes⟩ : ∃ (op : Operation) (b : Binding),
      op.binding? = some b ∧
      (b.space = .ordinary ∧ b.name = textOf source n.node.item ∧ b.kind = kind ∧
        b.node = some n.id ∧ s.scopes.innermost b.accepts = context.role.definingScope s.scopes) ∧
      (n.reading language source s context).scopes = (s.scopes.perform op).2 := by
    simp only [Place.reading, readNode, htype, readTypeIdentifier, hread.id]
    cases hr : context.role with
    | declaredType kind' =>
        rw [hr] at hrole
        cases hrole
        exact ⟨.define .ordinary _ kind n.id, _, rfl, ⟨rfl, rfl, rfl, rfl, rfl⟩, rfl⟩
    | templateParameter =>
        rw [hr] at hrole
        cases hrole
        exact ⟨.defineParameter _ .templateParameter n.id, _, rfl,
          ⟨rfl, rfl, rfl, rfl, Table.innermost_true standing.current⟩, rfl⟩
    | use | ownName | templateName | tag | usedNamespace => rw [hr] at hrole; cases hrole
  obtain ⟨hspace, hname, hkind, hnode, hscope⟩ := hbinding
  have hcreate := Table.perform_eq_create standing
    (fun e kind => isTag_of_undefined hroot hruns) hb (hnode ▸ Option.some_ne_none _)
    (hkind ▸ htag) (hkind ▸ hnamespace)
  refine ⟨s.scopes.innermost b.accepts, rfl, hscope, standing.innermost _, ?_⟩
  rw [hscopes, hcreate, hspace, hname, hkind, hnode]

namespace Place.Makes

variable {n : Place} {s : State} {context : Context} {kind : EntityKind} {b : ScopeId}
  {x : EntityId} (h : n.Makes language source s context kind b x)
include h

theorem local? : (n.reading language source s context).scopes.local? b .ordinary
    (textOf source n.node.item) = some x := by
  rw [h.scopes, Table.local?_create h.there, if_pos ⟨rfl, rfl, Or.inl rfl⟩, h.new]

theorem entity? : (n.reading language source s context).scopes.entity? x =
    some ⟨kind, some n.id, none⟩ := by
  rw [h.scopes, h.new, Table.entity?_create, if_pos rfl]

/-- Without the entity everything is found that was found before. -/
theorem lookup_without (hp : s.scopes.Placed) (spaces : List Space) (name : String)
    (look : Lookup) :
    ((n.reading language source s context).scopes.without x).lookup spaces name look =
      s.scopes.lookup spaces name look := by
  rw [h.scopes, h.new]
  exact Table.lookup_create_without hp b .ordinary _ rfl spaces name look

/-- Nothing else is defined at the place. -/
theorem definition?_iff (hs : s.Sound) (hid : (⟨s.tree.size⟩ : NodeId) = n.id) {e : EntityId} :
    (n.reading language source s context).scopes.definition? e = some n.id ↔ e = x := by
  rw [h.scopes, h.new, Table.definition?, Table.entity?_create]
  split
  · next he => simp [he]
  · next he =>
    refine iff_of_false (fun hd => ?_) he
    have hlt := (hs.definition hd).lt
    rw [← hid] at hlt
    exact Nat.lt_irrefl _ hlt

end Place.Makes

section Walk
variable {sf s : State} {n : Place} {context : Context} {kind : EntityKind} {b : ScopeId}
  {x : EntityId}
  (hwalk : walk language source (.initial language spelling) (initialSteps parse) = .ok sf)

/-- Members that nothing is about to enter are not entered. -/
theorem unentered_of_runs {s s' : State} {stack stack' : List Step}
    (h : Runs language source s stack s' stack') (hx : Table.Unentered x s.scopes)
    (hstack : ∀ scopeKind, .enter (.members x scopeKind) ∉ stack) :
    Table.Unentered x s'.scopes := by
  refine (h.preserves (P := fun s stack => Table.Unentered x s.scopes ∧
    ∀ scopeKind, .enter (.members x scopeKind) ∉ stack)
    (fun {s step rest s' steps} hs hstep => ?_) ⟨hx, hstack⟩).1
  obtain ⟨hx, hstack⟩ := hs
  refine ⟨?_, fun scopeKind hmem => ?_⟩
  · rcases scopes_perform hstep with he | ⟨op, he, hop, -⟩ <;> rw [he]
    · exact hx
    · exact hx.perform fun scopeKind ho =>
        hstack scopeKind (hop x scopeKind ho ▸ List.mem_cons_self)
  · rcases List.mem_append.1 hmem with hmem | hmem
    · -- what a step is about to enter the step defines
      obtain ⟨_, -, op, hnode, hanswer, -⟩ := opens_of_perform hstep hmem
      exact hx.ne_of_answer hanswer hnode rfl
    · exact hstack scopeKind (List.mem_cons_of_mem _ hmem)

include hwalk

/-- **Where a reference leads**, if not to a label: to what defines the entity that it is read to
mean. -/
theorem entity_of_target? (hroot : parse.root.kind = .translationUnit ∨ parse.root.kind = .error)
    {tree : Tree} {stats : Stats}
    (h : resolveNames language source spelling parse = .ok (tree, stats)) {u : Place}
    (hread : u.ReadAt language source spelling parse s context) {d : NodeId}
    (hd : tree.target? u.id = some d)
    (hlabel : ∀ name, tree.content? d ≠ some (.definition ⟨.label, name⟩)) :
    ∃ e, (u.reading language source s context).entity = some e ∧
      sf.scopes.definition? e = some d := by
  obtain ⟨r, hr, htarget⟩ := Tree.target?_eq_some_iff.1 hd
  obtain ⟨sf', hwalk', -, -, hlink⟩ := link_cases hroot h hr htarget
  obtain rfl := Except.ok.inj (hwalk'.symm.trans hwalk)
  rcases hlink with ⟨-, hdef⟩ | ⟨e, hp, hdef⟩
  · exact absurd hdef (hlabel _)
  · obtain ⟨q, -, hid, s₁, context₁, rest, hruns, hsize, he⟩ :=
      read_of_pending hroot (walk_eq_ok_iff.1 hwalk) hp
    obtain ⟨rest', hruns', hsize'⟩ := hread
    obtain ⟨rfl, hframe⟩ := visit_unique hruns hruns' (by rw [hsize, hid, hsize'])
    rw [hframe] at he
    exact ⟨e, he, hdef⟩

variable (hread : n.ReadAt language source spelling parse s context)
  (h : n.Makes language source s context kind b x)
include hread h

/-- In the end the place defines the entity that it makes, and no other. -/
theorem definition?_of_makes {e : EntityId} :
    sf.scopes.definition? e = some n.id ↔ e = x := by
  obtain ⟨s₁, rest, hruns, hscopes, hsize, -, hend⟩ := hread.behind hwalk
  rw [← h.definition?_iff (sound_of_parse hruns).1 hread.id, ← hscopes]
  have hgrows := (grows_of_runs hend).1
  exact ⟨fun hd => (hgrows.defined hd).resolve_right (by omega), hgrows.definition⟩

/-- What a place makes that is no tag and no namespace is bound as an ordinary name alone. -/
theorem ordinary_of_makes (hroot : parse.root.kind = .translationUnit ∨ parse.root.kind = .error)
    (htag : kind.isTag = false) (hnamespace : kind ≠ .namespaceName) {space : Space} {name : String}
    (hb : sf.scopes.BoundIn space name x) : space = .ordinary := by
  obtain ⟨s₁, rest, -, hscopes, -, hruns₁, hend⟩ := hread.behind hwalk
  have hentity := h.entity?
  rw [← hscopes] at hentity
  have hdefined : s₁.scopes.definition? x = some n.id := by rw [Table.definition?, hentity]; rfl
  have hkind : sf.scopes.kind? x = some kind := by
    rw [kind?_of_runs hruns₁ hend hdefined, Table.kind?, hentity]
    rfl
  obtain ⟨kind', hkind', hadmits⟩ :=
    (kinded_of_runs hroot (walk_eq_ok_iff.1 hwalk)).scopes.bound hb
  cases hkind.symm.trans hkind'
  cases space with
  | ordinary => rfl
  | tag => exact absurd (htag.symm.trans hadmits) (by decide)
  | namespaces => exact absurd hadmits hnamespace

/-- What a type identifier makes has no members, wherever one looks. -/
theorem members?_of_makes (htype : n.node.kind = .typeIdentifier)
    (hnamespace : kind ≠ .namespaceName) {u : Place} {s' : State} {context' : Context}
    (hu : u.ReadAt language source spelling parse s' context') :
    s'.scopes.members? x = none := by
  rcases Nat.lt_or_ge n.id.index u.id.index with hlt | hle
  · obtain ⟨s₁, rest, hruns, hscopes, hsize, hruns₁, -⟩ := hread.behind hwalk
    have hentity := h.entity?
    rw [← hscopes] at hentity
    have hun : Table.Unentered x s₁.scopes := by
      refine ⟨(sound_of_parse hruns₁).1.standing, ?_, ⟨n.id, ?_⟩, ?_⟩
      · rw [Table.members?, hentity]; rfl
      · rw [Table.definition?, hentity]; rfl
      · rw [Table.kind?, hentity]
        exact fun he => hnamespace (Option.some.inj he)
    have hstack : ∀ scopeKind, Step.enter (.members x scopeKind) ∉
        plan n.node n.id context (n.reading language source s context).outline ++ rest := by
      intro scopeKind hmem
      rcases List.mem_append.1 hmem with hmem | hmem
      · have houtline : (n.reading language source s context).outline = {} := by
          simp only [Place.reading, readNode, htype]
          exact outline_readTypeIdentifier ..
        rw [houtline] at hmem
        rcases mem_plan hmem with ⟨c, -, he⟩ | ⟨o, ho, -⟩
        · cases he
        · cases ho
      · -- what was to be entered before was defined before
        obtain ⟨d, hd⟩ := (placed_of_runs hruns).2 x scopeKind (List.mem_cons_of_mem _ hmem)
        obtain ⟨info, hi, -⟩ := Table.definition?_eq_some_iff.1 hd
        rw [h.new] at hi
        exact Nat.lt_irrefl _ (Table.lt_of_entity? hi)
    obtain ⟨rest', hruns', hsize'⟩ := hu
    exact (unentered_of_runs (runs_of_size_le hruns₁ hruns' (by omega)) hun hstack).members
  · -- it is not made yet
    obtain ⟨stack, stack', -, hto⟩ := hu.runs_of_le hread hle
    have hbefore := (grows_of_runs hto).1.entities_le
    rw [h.new, Table.members?, Table.entity?, Array.getElem?_eq_none hbefore]
    rfl

end Walk

/-! ### Names that are sought as those of types -/

/-- An entity that is bound as an ordinary name alone is meant by a name of a type. -/
theorem Means.ordinary_of_bound {t : Table} {f : Frame} {kind : ReferenceKind} {e : EntityId}
    (h : Means source t f kind e)
    (hordinary : ∀ space name, t.BoundIn space name e → space = .ordinary) :
    f.node.kind = .typeIdentifier ∧ (∀ k, f.context.role ≠ .tag k) ∧
      t.lookup [.ordinary] (textOf source f.node.item) f.context.lookup = some e := by
  cases h with
  | tag _ _ he =>
      obtain ⟨space, hspace, hb⟩ := Table.boundIn_of_lookup he
      rw [hordinary space _ hb] at hspace
      cases List.mem_singleton.1 hspace
  | ordinary hnode hrole _ _ he => exact ⟨hnode, hrole, he⟩
  | qualifier _ he =>
      obtain ⟨space, hspace, hb⟩ := Table.boundIn_of_lookup he
      rw [hordinary space _ hb] at hspace
      rcases List.mem_pair.1 hspace with h | h <;> cases h

/-- A type identifier that means an entity has a role in which it refers to something. -/
theorem refers_of_entity {t : Table} {id : NodeId} {f : Frame} {e : EntityId}
    (hnode : f.node.kind = .typeIdentifier)
    (he : (readNode language source t id f).entity = some e) : f.context.role.Refers := by
  simp only [readNode, hnode, readTypeIdentifier] at he
  cases hrole : f.context.role with
  | use | templateName | tag | usedNamespace => trivial
  | ownName | declaredType | templateParameter => rw [hrole] at he; cases he

/-- **What means an entity that is bound as an ordinary name alone** is a name of a type, for which
the entity is found. -/
theorem seeks_of_entity {u : Place} {s : State} {context : Context}
    (hread : u.ReadAt language source spelling parse s context) {e : EntityId}
    (he : (u.reading language source s context).entity = some e)
    (hordinary : ∀ space name,
      (u.reading language source s context).scopes.BoundIn space name e → space = .ordinary) :
    u.Seeks context.role [.ordinary] ∧
      s.scopes.lookup [.ordinary] (textOf source u.node.item) context.lookup = some e := by
  obtain ⟨rest, hruns⟩ := hread.runs
  have standing := (sound_of_parse hruns).1.standing
  have hrefers := @refers_of_entity language source s.scopes ⟨s.tree.size⟩
    ⟨u.node, u.outer, u.parent, context⟩ e
  have hreadAs := readAs_readNode language source s.scopes ⟨s.tree.size⟩
    ⟨u.node, u.outer, u.parent, context⟩
  rw [Place.reading] at he hordinary
  have hmeans : ∃ kind, Means source s.scopes ⟨u.node, u.outer, u.parent, context⟩ kind e ∧
      ∀ space name, s.scopes.BoundIn space name e → space = .ordinary := by
    generalize readNode language source s.scopes ⟨s.tree.size⟩
      ⟨u.node, u.outer, u.parent, context⟩ = r at he hordinary hreadAs
    cases hreadAs with
    | plain | defines | binds | declares => cases he
    | refers _ hentity => exact ⟨_, hentity e he, hordinary⟩
    | introduces _ _ hanswer =>
        cases he
        cases hordinary _ _ (Table.boundIn_of_answer standing.file standing.active rfl rfl hanswer)
    | uses hmeans =>
        cases he
        exact ⟨_, hmeans, fun space name hb =>
          hordinary space name (hb.grows (Table.keeps_perform _ _))⟩
  obtain ⟨kind, hmeans, hbound⟩ := hmeans
  obtain ⟨hnode, hrole, hlookup⟩ := hmeans.ordinary_of_bound hbound
  have hspaces : context.role.spaces = [.ordinary] := by
    cases hr : context.role with
    | tag k => exact absurd hr (hrole k)
    | use | ownName | declaredType | templateParameter | templateName | usedNamespace => rfl
  exact ⟨hspaces ▸ .type hnode (hrefers hnode he), hlookup⟩

/-! ### What a name stands for -/

/-- Place `p` introduces the name at place `n`, as a kind, for what stands at place `v`: an alias
for its type, or a parameter of a template for the type that it is by default. -/
inductive Place.StandsFor (p n v : Place) : EntityKind → Prop
  | typeAlias {c : Place} (hp : p.node.kind = .aliasDeclaration) (hc : p.IsParent c)
      (hname : c.node.field = some .name) (hn : c.LeadsTo n) (hv : p.IsParent v)
      (htype : v.node.field = some .type) : StandsFor p n v .typeAlias
  | templateParameter (hp : p.node.kind = .optionalTypeParameter) (hn : p.IsParent n)
      (hname : n.node.field ≠ some .defaultType) (hv : p.IsParent v)
      (hdefault : v.node.field = some .defaultType) : StandsFor p n v .templateParameter

namespace Place.StandsFor

variable {p n v : Place} {kind : EntityKind} (h : p.StandsFor n v kind)
include h

theorem isParent : p.IsParent v := by
  cases h with
  | typeAlias _ _ _ _ hv | templateParameter _ _ _ hv => exact hv

theorem not_opensScope : ¬ p.node.OpensScope := by
  cases h with
  | typeAlias hp | templateParameter hp =>
      simp [Concrete.Node.OpensScope, Concrete.Node.IsSpecifier, hp]

theorem kind_ne : kind.isTag = false ∧ kind ≠ .namespaceName ∧ kind ≠ .label := by
  cases h with
  | typeAlias | templateParameter => exact ⟨rfl, nofun, nofun⟩

/-- What introduces a name is not the root. -/
theorem mem_places (hroot : parse.root.kind = .translationUnit ∨ parse.root.kind = .error)
    (hp : p ∈ allPlaces parse) : p ∈ places parse := by
  rcases List.mem_cons.1 hp with rfl | hp
  · cases h with
    | typeAlias hkind | templateParameter hkind =>
        rcases hroot with hr | hr <;> cases hkind.symm.trans hr
  · exact hp

end Place.StandsFor

/-- The name is read as what it introduces. -/
theorem readAt_of_standsFor {sf : State}
    (hwalk : walk language source (.initial language spelling) (initialSteps parse) = .ok sf)
    {p n v : Place} {kind : EntityKind} (hp : p ∈ allPlaces parse) (h : p.StandsFor n v kind)
    (htype : n.node.kind = .typeIdentifier) :
    ∃ s context, n.ReadAt language source spelling parse s context ∧
      context.role.defines? = some kind := by
  cases h with
  | @typeAlias c hkind hc hname hleads =>
      obtain ⟨k, hchild⟩ := hc
      obtain ⟨s, context, outline, hread⟩ := exists_readAt_child hwalk hp hchild
      have hrole : (childContext p.node context outline c.node).role =
          .declaredType .typeAlias := by
        simp only [childContext, hkind, hname]
        rfl
      obtain ⟨s₁, context₁, hread₁, hrole₁⟩ := readAt_of_leadsTo hwalk hread hrole hleads
      exact ⟨s₁, context₁, hread₁, by rw [hrole₁]; rfl⟩
  | templateParameter hkind hn hname =>
      obtain ⟨k, hchild⟩ := hn
      obtain ⟨s, context, outline, hread⟩ := exists_readAt_child hwalk hp hchild
      refine ⟨s, _, hread, ?_⟩
      simp only [childContext, hkind, parameterContext]
      rw [if_pos (by simp [htype, hname])]
      rfl

/-! ### What is in sight -/

/-- Place `p` lies at or above place `q`, and no node on the way from `p` down to `q` opens a
scope. -/
def Place.IsPlainlyAbove : Place → Place → Prop :=
  Relation.ReflTransGen fun p q => p.IsParent q ∧ ¬ p.node.OpensScope

section Sight
variable {sf s s' : State} {context context' : Context}
  (hwalk : walk language source (.initial language spelling) (initialSteps parse) = .ok sf)
include hwalk

/-- On the way down through places that open no scope the same scopes stay active. -/
theorem active_of_isPlainlyAbove {v u : Place}
    (hv : v.ReadAt language source spelling parse s context) (h : v.IsPlainlyAbove u)
    (hu : u.ReadAt language source spelling parse s' context') :
    s'.scopes.active = s.scopes.active := by
  induction h using Relation.ReflTransGen.head_induction_on generalizing s context with
  | refl =>
      obtain ⟨rfl, -⟩ := hu.unique hv
      rfl
  | head hstep _ ih =>
      obtain ⟨⟨k, hchild⟩, hopens⟩ := hstep
      obtain ⟨s₁, hread⟩ := hv.child hwalk hchild
      exact (ih hread).trans (active_of_isChild hwalk hchild hv (opening_eq_none hopens) hread)

/-- **The scope of a name is searched in what the name stands for**, if the name stands right below
the declaration: that of an alias everywhere in its type, and that of a parameter wherever no other
scope opens in between. -/
theorem mem_chain_of_standsFor {p n v u : Place} {kind : EntityKind} {b : ScopeId} {x : EntityId}
    (hp : p ∈ places parse) (h : p.StandsFor n v kind) (hpn : p.IsParent n) {s₀ : State}
    {c₀ : Context} (hread : n.ReadAt language source spelling parse s₀ c₀)
    (hrole : c₀.role.defines? = some kind) (hmakes : n.Makes language source s₀ c₀ kind b x)
    (habove : v.IsAbove u) (hu : u.ReadAt language source spelling parse s context)
    (hplain : kind = .typeAlias ∨ v.IsPlainlyAbove u) :
    b ∈ s.scopes.chain s.scopes.current := by
  obtain ⟨k, hchild⟩ := hpn
  obtain ⟨k', hvalue⟩ := h.isParent
  obtain ⟨sp, cp, hpread⟩ := exists_readAt hwalk hp
  have hnone : (p.reading language source sp cp).outline.opening = none :=
    opening_eq_none h.not_opensScope
  have hbinding : s₀.scopes.bindingScope ∈ s.scopes.chain s.scopes.current := by
    rw [bindingScope_of_isChild hwalk hchild hpread hnone hread]
    exact mem_chain_of_readAt hwalk hp hpread (habove.head ⟨k', hvalue⟩) hu
  rw [hmakes.scope]
  cases hr : c₀.role with
  | templateParameter =>
      -- the current scope is a template's, and such a one is not searched beyond a namespace
      rw [hr] at hrole
      cases hrole
      have hbelow := hplain.resolve_left nofun
      obtain ⟨s₁, hvread⟩ := hpread.child hwalk hvalue
      have hsame : s.scopes.active = s₀.scopes.active := by
        rw [active_of_isPlainlyAbove hwalk hvread hbelow hu,
          active_of_isChild hwalk hvalue hpread hnone hvread,
          active_of_isChild hwalk hchild hpread hnone hread]
      have hcurrent : s₀.scopes.current = s.scopes.current := (List.cons.inj hsame).1.symm
      show s₀.scopes.current ∈ _
      rw [hcurrent]
      exact List.mem_cons_self
  | use | ownName | declaredType | templateName | tag | usedNamespace => exact hbinding

end Sight

/-! ### Own names -/

/-- What becomes of place `u`, read in state `s`, if place `n` makes its text mean entity `x`; state
`sf` is the last of the walk. -/
structure Place.SeesName (source : ByteArray) (tree : Tree) (sf : State) (n u : Place) (s : State)
    (context : Context) (x : EntityId) : Prop where
  /-- it leads to the name if and only if it is sought as a type's and means the entity -/
  leads : tree.target? u.id = some n.id ↔ u.Seeks context.role [.ordinary] ∧
    s.scopes.lookup [.ordinary] (textOf source u.node.item) context.lookup = some x
  /-- if it does not mean the entity, it leads where it would without the entity -/
  others : ∀ sought, u.Seeks context.role sought →
    s.scopes.lookup sought (textOf source u.node.item) context.lookup ≠ some x →
      (s.scopes.without x).lookup sought (textOf source u.node.item) context.lookup =
        s.scopes.lookup sought (textOf source u.node.item) context.lookup ∧
      ∀ e, (s.scopes.without x).lookup sought (textOf source u.node.item) context.lookup = some e →
        tree.target? u.id = sf.scopes.definition? e
  /-- among the members of the entity nothing is found -/
  members : ∀ sought name, s.scopes.lookup sought name (.member (some x)) = none

section Sees
variable {sf s' s₀ s : State} {n u : Place} {c₀ context : Context} {kind : EntityKind} {b : ScopeId}
  {x : EntityId}

/-- What leads to a place that makes an entity is sought as the name of a type, and means it. -/
theorem means_of_target? (hroot : parse.root.kind = .translationUnit ∨ parse.root.kind = .error)
    {tree : Tree} {stats : Stats}
    (h : resolveNames language source spelling parse = .ok (tree, stats))
    (hwalk : walk language source (.initial language spelling) (initialSteps parse) = .ok sf)
    (hread : n.ReadAt language source spelling parse s₀ c₀)
    (hmakes : n.Makes language source s₀ c₀ kind b x) (htag : kind.isTag = false)
    (hnamespace : kind ≠ .namespaceName)
    (hlabel : ∀ name, tree.content? n.id ≠ some (.definition ⟨.label, name⟩))
    (hu : u.ReadAt language source spelling parse s context)
    (htarget : tree.target? u.id = some n.id) :
    u.Seeks context.role [.ordinary] ∧
      s.scopes.lookup [.ordinary] (textOf source u.node.item) context.lookup = some x := by
  obtain ⟨e, he, hd⟩ := entity_of_target? hwalk hroot h hu htarget hlabel
  obtain rfl := (definition?_of_makes hwalk hread hmakes).1 hd
  refine seeks_of_entity hu he fun space name hb => ?_
  obtain ⟨s₁, rest, -, hscopes, -, -, hend⟩ := hu.behind hwalk
  rw [← hscopes] at hb
  exact ordinary_of_makes hwalk hread hmakes hroot htag hnamespace
    (hb.grows (grows_of_runs hend).1)

variable (hwalk : walk .cpp source (.initial .cpp spelling) (initialSteps parse) = .ok sf)
  (hfinish : sf.finish = .ok s') (hread : n.ReadAt .cpp source spelling parse s₀ c₀)
  (hmakes : n.Makes .cpp source s₀ c₀ kind b x)
  (hu : u.ReadAt .cpp source spelling parse s context)
include hwalk hfinish hread hmakes hu

/-- What means the entity leads to the place that makes it. -/
theorem target?_of_means {sought : List Space} (hseeks : u.Seeks context.role sought)
    (hfound : s.scopes.lookup sought (textOf source u.node.item) context.lookup = some x) :
    s'.tree.target? u.id = some n.id := by
  rw [target?_of_seeks hwalk hfinish hu hseeks hfound]
  exact (definition?_of_makes hwalk hread hmakes).2 rfl

/-- A use of the name where its scope is searched leads to it, unless something hides it. -/
theorem hides_or_target? (hlt : n.id.index < u.id.index)
    (hchain : b ∈ s.scopes.chain s.scopes.current)
    (huse : u.UsesName source context [.ordinary] (textOf source n.node.item)) :
    Hides source spelling parse u s b [.ordinary] (textOf source n.node.item) x ∨
      s'.tree.target? u.id = some n.id := by
  obtain ⟨s₁, stack, stack', hscopes, -, hruns, hto⟩ := hread.runs_behind hwalk hu hlt
  have hlocal := local?_of_runs hwalk hruns hto (.inl (hscopes ▸ hmakes.local?))
  have hsize : s.tree.size = u.id.index := congrArg NodeId.index hu.id
  rw [hsize] at hlocal
  refine (hides_or_lookup hchain List.mem_cons_self hlocal).imp_right fun hfound => ?_
  rw [← huse.text, ← huse.lexical] at hfound
  exact target?_of_means hwalk hfinish hread hmakes hu huse.seeks hfound

end Sees

/-- **A name is in sight in what it stands for.**  An alias, or a parameter of a template, makes an
entity when its name is read, and without the entity every name is looked up as it was before.  At
or below the type for which the name stands, a place leads to the name if and only if it is sought
as the name of a type and found to mean the entity; otherwise it leads where it would without the
entity, and nothing is found among the members of the entity.  So if the name stands in front of the
type, each use of it there leads to the name itself, unless something hides it: in the type of an
alias everywhere, in that of a parameter wherever no scope opens in between. -/
theorem own_names_sought_within
    (hroot : parse.root.kind = .translationUnit ∨ parse.root.kind = .error) {tree : Tree}
    {stats : Stats} (h : resolveNames .cpp source spelling parse = .ok (tree, stats))
    {p n v : Place} {kind : EntityKind} (hp : p ∈ allPlaces parse) (hstands : p.StandsFor n v kind)
    (htype : n.node.kind = .typeIdentifier) :
    ∃ sf s₀ c₀ b x, walk .cpp source (.initial .cpp spelling) (initialSteps parse) = .ok sf ∧
      n.ReadAt .cpp source spelling parse s₀ c₀ ∧
      tree.content? n.id = some (.definition ⟨kind, textOf source n.node.item⟩) ∧
      n.Makes .cpp source s₀ c₀ kind b x ∧
      (∀ sought name look,
        ((n.reading .cpp source s₀ c₀).scopes.without x).lookup sought name look =
          s₀.scopes.lookup sought name look) ∧
      ∀ u s context, v.IsAbove u → u.ReadAt .cpp source spelling parse s context →
        n.SeesName source tree sf u s context x ∧
        (p.IsParent n → n.id.index < v.id.index → kind = .typeAlias ∨ v.IsPlainlyAbove u →
          u.UsesName source context [.ordinary] (textOf source n.node.item) →
            Hides source spelling parse u s b [.ordinary] (textOf source n.node.item) x ∨
              tree.target? u.id = some n.id) := by
  have hresolved := h
  obtain ⟨sf, s', hwalk, hfinish, rfl⟩ := resolveNames_eq_ok h
  have hgrows := (linked_of_link hfinish).1.grows
  obtain ⟨htag, hnamespace, hlabel⟩ := hstands.kind_ne
  obtain ⟨s₀, c₀, hread, hrole⟩ := readAt_of_standsFor hwalk hp hstands htype
  obtain ⟨b, hmakes⟩ := makes_of_readAt hroot hread htype hrole htag hnamespace
  have hcontent : s'.tree.content? n.id = some (.definition ⟨kind, textOf source n.node.item⟩) :=
    (definition_of_readAt hwalk hgrows hread htype).2 ⟨hrole, rfl⟩
  have hnolabel : ∀ name, s'.tree.content? n.id ≠ some (.definition ⟨.label, name⟩) := by
    intro name hc
    cases hcontent.symm.trans hc
    exact hlabel rfl
  have hplaced := (placed_of_runs hread.runs.choose_spec).1
  refine ⟨sf, s₀, c₀, b, _, hwalk, hread, hcontent, hmakes, hmakes.lookup_without hplaced,
    fun u s context habove hu => ⟨⟨⟨?_, ?_⟩, fun sought hseeks hne => ?_, fun sought name => ?_⟩,
      fun hpn hlt hplain huse => ?_⟩⟩
  · exact means_of_target? hroot hresolved hwalk hread hmakes htag hnamespace hnolabel hu
  · exact fun hmeans => target?_of_means hwalk hfinish hread hmakes hu hmeans.1 hmeans.2
  · -- what is sought without finding `x` is found as if `x` were not there
    have hsame := Table.lookup_without hne
    exact ⟨hsame, fun e he => target?_of_seeks hwalk hfinish hu hseeks (hsame ▸ he)⟩
  · rw [Table.lookup, members?_of_makes hwalk hread hmakes htype hnamespace hu]
    rfl
  · -- behind the name the scope that binds it is among those that are searched
    have hchain := mem_chain_of_standsFor hwalk (hstands.mem_places hroot hp) hstands hpn hread
      hrole hmakes habove hu hplain
    have hbefore := Nat.lt_of_lt_of_le hlt habove.id_bounds.1
    exact hides_or_target? hwalk hfinish hread hmakes hu hbefore hchain huse

/-- The source `struct P{};namespace n{using P=::P;}`. -/
def outerSource : ByteArray := "struct P{};namespace n{using P=::P;}".toUTF8

open Concrete.Node in
/-- Its parse. -/
def outerParse : Concrete.Parse where
  root := onLine .translationUnit none 0 36
    [onLine .structSpecifier none 0 10
      [token "struct" 0, onLine .typeIdentifier (some .name) 7 8 [],
        onLine (.other "field_declaration_list") (some .body) 8 10
          [token "\x7b" 8, token "\x7d" 9]],
      token ";" 10,
      onLine .namespaceDefinition none 11 36
        [token "namespace" 11, onLine .namespaceIdentifier (some .name) 21 22 [],
          onLine (.other "declaration_list") (some .body) 22 36
            [token "\x7b" 22,
              onLine .aliasDeclaration none 23 35
                [token "using" 23, onLine .typeIdentifier (some .name) 29 30 [], token "=" 30,
                  onLine (.other "type_descriptor") (some .type) 31 34
                    [onLine .qualifiedIdentifier (some .type) 31 34
                      [token "::" 31, onLine .typeIdentifier (some .name) 33 34 []]],
                  token ";" 34],
              token "\x7d" 35]]]
  hasError := false

/-- In the type of the alias `P` the struct is meant where `P` is sought in the file scope. -/
theorem own_names_sought_within_global : ∃ tree stats,
    resolveNames .cpp outerSource "t.cpp" outerParse = .ok (tree, stats) ∧
      tree.target? ⟨11⟩ = some ⟨1⟩ ∧
      ∃ p ∈ allPlaces outerParse, ∃ n v u, p.StandsFor n v .typeAlias ∧ v.IsAbove u ∧
        u.id = ⟨11⟩ ∧ tree.content? n.id = some (.definition ⟨.typeAlias, "P"⟩) ∧
        ∃ sf s context x, u.ReadAt .cpp outerSource "t.cpp" outerParse s context ∧
          n.SeesName outerSource tree sf u s context x := by
  have hvalue : (resolveNames .cpp outerSource "t.cpp" outerParse).toOption.map
      (fun r => r.1.target? ⟨11⟩) = some (some ⟨1⟩) := by
    decide +kernel
  obtain ⟨⟨tree, stats⟩, h, htarget⟩ := exists_ok_of_map hvalue
  have hp : (places outerParse)[6] ∈ allPlaces outerParse := mem_allPlaces (List.getElem_mem _)
  have hname : (places outerParse)[6].IsParent (places outerParse)[7] :=
    ⟨1, rfl, rfl, rfl, rfl, rfl, rfl⟩
  have htype : (places outerParse)[6].IsParent (places outerParse)[8] :=
    ⟨3, rfl, rfl, rfl, rfl, rfl, rfl⟩
  have hstands : (places outerParse)[6].StandsFor (places outerParse)[7] (places outerParse)[8]
      .typeAlias := .typeAlias rfl hname rfl .refl htype rfl
  have hqualified : (places outerParse)[8].IsParent (places outerParse)[9] :=
    ⟨0, rfl, rfl, rfl, rfl, rfl, rfl⟩
  have habove : (places outerParse)[8].IsAbove (places outerParse)[10] :=
    .tail (.single hqualified) ⟨1, rfl, rfl, rfl, rfl, rfl, rfl⟩
  obtain ⟨sf, s₀, c₀, b, x, hwalk, -, hcontent, -, -, hall⟩ :=
    own_names_sought_within (Or.inl rfl) h hp hstands rfl
  obtain ⟨s, context, hread⟩ := exists_readAt hwalk
    (p := (places outerParse)[10]) (List.getElem_mem _)
  have htext : textOf outerSource (places outerParse)[7].node.item = "P" := by decide +kernel
  rw [htext] at hcontent
  obtain ⟨hsees, -⟩ := hall _ s context habove hread
  exact ⟨tree, stats, h, htarget, _, hp, _, _, _, hstands, habove, rfl, hcontent, sf, s, context,
    x, hread, hsees⟩

/-! ### Names for themselves -/

/-- The source `namespace n { using P = P; } template <typename T = T> struct S { };`. -/
def selfSource : ByteArray :=
  "namespace n { using P = P; } template <typename T = T> struct S { };\n".toUTF8

open Concrete.Node in
/-- Its parse. -/
def selfParse : Concrete.Parse where
  root := onLine .translationUnit none 0 69
    [onLine .namespaceDefinition none 0 28
      [token "namespace" 0, onLine .namespaceIdentifier (some .name) 10 11 [],
        onLine (.other "declaration_list") (some .body) 12 28
          [token "\x7b" 12,
            onLine .aliasDeclaration none 14 26
              [token "using" 14, onLine .typeIdentifier (some .name) 20 21 [], token "=" 22,
                onLine (.other "type_descriptor") (some .type) 24 25
                  [onLine .typeIdentifier (some .type) 24 25 []],
                token ";" 25],
            token "\x7d" 27]],
      onLine .templateDeclaration none 29 68
        [token "template" 29,
          onLine (.other "template_parameter_list") (some (.other "parameters")) 38 54
            [token "<" 38,
              onLine .optionalTypeParameter none 39 53
                [token "typename" 39, onLine .typeIdentifier (some .name) 48 49 [], token "=" 50,
                  onLine .typeIdentifier (some .defaultType) 52 53 []],
              token ">" 53],
          onLine .structSpecifier none 55 67
            [token "struct" 55, onLine .typeIdentifier (some .name) 62 63 [],
              onLine (.other "field_declaration_list") (some .body) 64 67
                [token "\x7b" 64, token "\x7d" 66]],
          token ";" 67]]
  hasError := false

/-- An alias and a parameter that stand for their own names: nothing is found for the name just
before its declaration, and the use of it in the type leads to the name all the same. -/
theorem own_name_means_itself : ∃ tree stats,
    resolveNames .cpp selfSource "t.cpp" selfParse = .ok (tree, stats) ∧
      ∀ kind name, (kind, name) ∈ [(EntityKind.typeAlias, "P"), (.templateParameter, "T")] →
        ∃ p ∈ allPlaces selfParse, ∃ n v u, p.StandsFor n v kind ∧ v.IsAbove u ∧
          tree.content? n.id = some (.definition ⟨kind, name⟩) ∧
          (∃ s context, n.ReadAt .cpp selfSource "t.cpp" selfParse s context ∧
            s.scopes.lookup [.ordinary] name .lexical = none) ∧
          (∃ s context, u.ReadAt .cpp selfSource "t.cpp" selfParse s context ∧
            u.UsesName selfSource context [.ordinary] name) ∧
          tree.target? u.id = some n.id := by
  have hvalue : (resolveNames .cpp selfSource "t.cpp" selfParse).toOption.map
      (fun r => (r.1.content? ⟨5⟩, r.1.target? ⟨7⟩, r.1.content? ⟨11⟩, r.1.target? ⟨12⟩)) =
        some (some (.definition ⟨.typeAlias, "P"⟩), some ⟨5⟩,
          some (.definition ⟨.templateParameter, "T"⟩), some ⟨11⟩) := by
    decide +kernel
  obtain ⟨⟨tree, stats⟩, h, hvalue⟩ := exists_ok_of_map hvalue
  obtain ⟨halias, hvalue⟩ := Prod.mk.inj hvalue
  obtain ⟨hintype, hvalue⟩ := Prod.mk.inj hvalue
  obtain ⟨hparameter, hindefault⟩ := Prod.mk.inj hvalue
  obtain ⟨sf, s', hwalk, -⟩ := resolveNames_eq_ok h
  refine ⟨tree, stats, h, fun kind name hmem => ?_⟩
  have hcases : kind = .typeAlias ∧ name = "P" ∨ kind = .templateParameter ∧ name = "T" := by
    simpa using hmem
  rcases hcases with ⟨rfl, rfl⟩ | ⟨rfl, rfl⟩
  · obtain ⟨s, context, hread, hnone⟩ := exists_readAt_of_stateBefore hwalk 40
      (·.scopes.lookup [.ordinary] "P" .lexical) (p := (places selfParse)[4]) (a := none)
      (List.getElem_mem _) (by decide +kernel)
    have hname : (places selfParse)[3].IsParent (places selfParse)[4] :=
      ⟨1, rfl, rfl, rfl, rfl, rfl, rfl⟩
    have htype : (places selfParse)[3].IsParent (places selfParse)[5] :=
      ⟨3, rfl, rfl, rfl, rfl, rfl, rfl⟩
    obtain ⟨su, cu, outline, hu⟩ := exists_readAt_child (k := 0) hwalk
      (p := (places selfParse)[5]) (q := (places selfParse)[6])
      (mem_allPlaces (List.getElem_mem _)) ⟨rfl, rfl, rfl, rfl, rfl, rfl⟩
    exact ⟨_, mem_allPlaces (List.getElem_mem _), _, _, _,
      .typeAlias rfl hname rfl .refl htype rfl, .single ⟨0, rfl, rfl, rfl, rfl, rfl, rfl⟩, halias,
      ⟨s, context, hread, hnone⟩, ⟨su, _, hu, .type rfl trivial, rfl, by decide +kernel⟩, hintype⟩
  · obtain ⟨s, context, hread, hnone⟩ := exists_readAt_of_stateBefore hwalk 40
      (·.scopes.lookup [.ordinary] "T" .lexical) (p := (places selfParse)[10]) (a := none)
      (List.getElem_mem _) (by decide +kernel)
    have hname : (places selfParse)[9].IsParent (places selfParse)[10] :=
      ⟨1, rfl, rfl, rfl, rfl, rfl, rfl⟩
    have hdefault : (places selfParse)[9].IsParent (places selfParse)[11] :=
      ⟨3, rfl, rfl, rfl, rfl, rfl, rfl⟩
    obtain ⟨su, cu, outline, hu⟩ := exists_readAt_child (k := 3) hwalk
      (p := (places selfParse)[9]) (q := (places selfParse)[11])
      (mem_allPlaces (List.getElem_mem _)) ⟨rfl, rfl, rfl, rfl, rfl, rfl⟩
    exact ⟨_, mem_allPlaces (List.getElem_mem _), _, _, _,
      .templateParameter rfl hname nofun hdefault rfl, .refl, hparameter,
      ⟨s, context, hread, hnone⟩, ⟨su, _, hu, .type rfl trivial, rfl, by decide +kernel⟩,
      hindefault⟩

end TypeUses.Resolution
