import TypeUses.Proofs.Resolution.Lasting
import TypeUses.Proofs.Resolution.Qualified

/-!
# Resolution — a namespace that is opened again

A namespace with a simple name opens the members of what the name means in the scope in which it is
defined, and that stays one entity; a namespace without a name opens no scope at all.  In both cases
the bodies of two such namespaces bind in one scope, whatever lies between them.

* `bodies_share_scope`: two namespaces of the same simple name, or of none, which are bound in one
  scope have their bodies bound in one scope.
* `reopened_namespaces_share_types`: what is defined in the one body is found in the other.
* `nested_namespace_not_reopened`: a namespace with a nested name, such as `a::b`, opens a new scope
  each time, in which nothing of the earlier body is found.

A type of the first body is found throughout the second because the scope in which a body binds is
searched from everywhere below it (`mem_chain_of_readAt`).  Only what is nearer can hide it, or what
takes its name away (`Hides`).
-/

namespace TypeUses.Resolution

variable {source : ByteArray} {spelling : String} {parse : Concrete.Parse}

/-! ### The body of a namespace -/

/-- Place `b` is the body of the namespace at place `p`: the child with which its scope begins. -/
structure Place.IsNamespaceBody (p b : Place) : Prop where
  kind : p.node.kind = .namespaceDefinition
  child : ∃ k, p.node.children.findIdx? beginsBody = some k ∧ p.IsChild k b

/-- Two namespaces have the same name, a simple one, or neither has a name. -/
inductive SameSimpleName (source : ByteArray) (n₁ n₂ : Concrete.Node) : Prop
  | simple {m₁ m₂ : Concrete.Node} (h₁ : n₁.child? .name = some m₁)
      (h₂ : n₂.child? .name = some m₂) (hk₁ : m₁.kind = .namespaceIdentifier)
      (hk₂ : m₂.kind = .namespaceIdentifier)
      (htext : textOf source m₁.item = textOf source m₂.item)
  | absent (h₁ : n₁.child? .name = none) (h₂ : n₂.child? .name = none)

/-- A namespace with a simple name defines it, and its body opens the members of what it defines. -/
theorem read_namespace (language : Language) (t : Table) (id : NodeId) (f : Frame)
    {n : Concrete.Node} (hnode : f.node.kind = .namespaceDefinition)
    (hname : f.node.child? .name = some n) (hkind : n.kind = .namespaceIdentifier) :
    ∃ e, (t.perform (.define .namespaces (textOf source n.item) .namespaceName id)).1 = .entity e ∧
      (readNode language source t id f).scopes =
        (t.perform (.define .namespaces (textOf source n.item) .namespaceName id)).2 ∧
      (readNode language source t id f).outline.opening =
        some ⟨.members e .namespaceBody, some .body⟩ := by
  refine ⟨(t.define .namespaces (textOf source n.item) .namespaceName id).1, rfl, ?_, ?_⟩
  · simp only [readNode, hnode, readNamespace, hname, if_pos hkind]
    rfl
  · simp only [readNode, hnode, readNamespace, hname, if_pos hkind]

/-- Right behind the entry into a scope its first child is read. -/
theorem Passage.first {language : Language} {f : Frame} {o : Opening}
    {front back : List Concrete.Node} {c : Concrete.Node} {rest : List Step}
    {s₀ s₁ s s₂ s' : State}
    (h : Passage language source f o front (c :: back) rest s₀ s₁ s s₂ s')
    (hc : c.item.isKept = true) :
    ∃ rest', Runs language source s₀ (.visit f :: rest) (s.enter o.entry)
      (.visit ⟨c, f.node, ⟨s₀.tree.size⟩, childContext f.node f.context
        (readNode language source s₀.scopes ⟨s₀.tree.size⟩ f).outline c⟩ :: rest') := by
  have henters := h.enters
  rw [visitsIn_cons, if_pos hc] at henters
  exact ⟨_, henters.trans (Runs.refl _ _).enter⟩

section Walk
variable {language : Language} {sf : State}
  (hwalk : walk language source (.initial language spelling) (initialSteps parse) = .ok sf)
include hwalk

/-- A node that is read as opening no scope has the same active scopes as its children. -/
theorem active_of_isChild {p q : Place} {k : Nat} (hpq : p.IsChild k q) {s s' : State}
    {context context' : Context} (hp : p.ReadAt language source spelling parse s context)
    (hnone : (p.reading language source s context).outline.opening = none)
    (hq : q.ReadAt language source spelling parse s' context') :
    s'.scopes.active = s.scopes.active := by
  obtain ⟨rest, hruns, hsize⟩ := hp
  obtain ⟨s₁, rest₁, hvisit, hactive, hsize₁⟩ :=
    exists_visit_of_opening_eq_none (hruns.walk_eq ▸ hwalk) hnone hpq.node hpq.kept
  have hvisit := hpq.frame (NodeId.ext hsize) _ ▸ hvisit
  obtain ⟨rest', hruns', hsize'⟩ := hq
  have hindex : s₁.tree.size = s'.tree.size := by rw [hsize₁, hsize', hsize, hpq.id]
  obtain ⟨rfl, -⟩ := visit_unique (hruns.trans hvisit) hruns' hindex
  exact hactive

/-- A node has its children bound where it is bound itself, if the same scopes are active. -/
theorem bindingScope_of_isChild {p q : Place} {k : Nat} (hpq : p.IsChild k q) {s s' : State}
    {context context' : Context} (hp : p.ReadAt language source spelling parse s context)
    (hnone : (p.reading language source s context).outline.opening = none)
    (hq : q.ReadAt language source spelling parse s' context') :
    s'.scopes.bindingScope = s.scopes.bindingScope := by
  obtain ⟨rest, stack, hruns, hto⟩ := hp.runs_of_le hq hpq.lt.le
  exact Table.bindingScope_of_grows (grows_of_runs hto).1 (sound_of_parse hruns).1.standing
    (active_of_isChild hwalk hpq hp hnone hq)

/-- A namespace without a name has its body bound where it is bound itself. -/
theorem bindingScope_of_unnamed {p b : Place} (hb : p.IsNamespaceBody b)
    (hname : p.node.child? .name = none) {s s' : State} {context context' : Context}
    (hp : p.ReadAt language source spelling parse s context)
    (hread : b.ReadAt language source spelling parse s' context') :
    s'.scopes.bindingScope = s.scopes.bindingScope := by
  obtain ⟨k, -, hchild⟩ := hb.child
  have hnone : (p.reading language source s context).outline.opening = none := by
    simp only [Place.reading, readNode, hb.kind, readNamespace, hname]
  exact bindingScope_of_isChild hwalk hchild hp hnone hread

/-- The body of a namespace with a simple name is bound in the scope of its members. -/
theorem members?_of_named {p b : Place} (hb : p.IsNamespaceBody b) {n : Concrete.Node}
    (hname : p.node.child? .name = some n) (hkind : n.kind = .namespaceIdentifier) {s s' : State}
    {context context' : Context} (hp : p.ReadAt language source spelling parse s context)
    (hmem : b ∈ places parse) (hread : b.ReadAt language source spelling parse s' context')
    {e : EntityId} (he : (s.scopes.perform
      (.define .namespaces (textOf source n.item) .namespaceName p.id)).1 = .entity e) :
    s'.scopes.members? e = some s'.scopes.bindingScope := by
  obtain ⟨k, hk, hchild⟩ := hb.child
  obtain ⟨e', he', hscopes, hopening⟩ := read_namespace language s.scopes
    ⟨s.tree.size⟩ ⟨p.node, p.outer, p.parent, context⟩ hb.kind hname hkind
  rw [← hp.id] at he
  cases he.symm.trans he'
  obtain ⟨rest, hruns, hsize⟩ := hp
  obtain ⟨c, hsplit⟩ := splits_at_field hk (.members e .namespaceBody)
  obtain rfl : c = b.node := by
    have hlt : k < p.node.children.length := (List.findIdx?_eq_some_iff_getElem.1 hk).1
    have hat := hchild.node
    rw [hsplit.children, List.getElem?_append_right (List.length_take_le k _),
      List.length_take_of_le (Nat.le_of_lt hlt), Nat.sub_self] at hat
    exact Option.some.inj hat
  obtain ⟨s₁, s₂, s₃, s₄, passage⟩ := exists_passage (hruns.walk_eq ▸ hwalk) hopening hsplit
  obtain ⟨rest₂, hfirst⟩ := passage.first hsplit.kept
  have hfirst := hruns.trans (hchild.frame (NodeId.ext hsize) _ ▸ hfirst)
  obtain ⟨rest', hruns', hsize'⟩ := hread
  have hindex : (s₂.enter (.members e .namespaceBody)).tree.size = s'.tree.size := by
    rw [tree_enter, passage.size, hsize', hsize, hchild.id]
  obtain ⟨rfl, -⟩ := visit_unique hfirst hruns' hindex
  -- the scope of the members is the innermost active one, and no template's
  have hregular := regular_of_readAt hwalk hmem ⟨rest', hruns', hsize'⟩
  obtain ⟨d, hd⟩ := (Table.defined_of_answer (sound_of_parse hruns).1.standing he rfl).1
  rw [← hscopes, ← passage.read] at hd
  have hd₂ := (follows_descendAll passage.before).scopes.definition hd
  obtain ⟨info, hi, -⟩ := Table.definition?_eq_some_iff.1 hd₂
  have hm := Table.members?_of_enterMembers hi .namespaceBody
  rw [scopes_enter] at hregular ⊢
  obtain ⟨x, hx⟩ := hregular.placed.holds
    (Table.lt_of_entity? (Table.members?_eq_some_iff.1 hm).choose_spec.1)
  rw [Table.bindingScope_of_current (hregular.upright.members hm hx).1]
  exact hm

/-- **The bodies of a namespace are bound in one scope**, whatever lies between them. -/
theorem bodies_share_scope {p₁ p₂ b₁ b₂ : Place} (hb₁ : p₁.IsNamespaceBody b₁)
    (hb₂ : p₂.IsNamespaceBody b₂) (hname : SameSimpleName source p₁.node p₂.node)
    (hbehind : p₁.id.index + p₁.node.keptCount ≤ p₂.id.index) {s₁ s₂ t₁ t₂ : State}
    {c₁ c₂ d₁ d₂ : Context} (hp₁ : p₁.ReadAt language source spelling parse s₁ c₁)
    (hp₂ : p₂.ReadAt language source spelling parse s₂ c₂)
    (hscope : s₁.scopes.bindingScope = s₂.scopes.bindingScope)
    (hmem₁ : b₁ ∈ places parse) (hmem₂ : b₂ ∈ places parse)
    (hread₁ : b₁.ReadAt language source spelling parse t₁ d₁)
    (hread₂ : b₂.ReadAt language source spelling parse t₂ d₂) :
    t₂.scopes.bindingScope = t₁.scopes.bindingScope := by
  cases hname with
  | absent h₁ h₂ =>
      rw [bindingScope_of_unnamed hwalk hb₂ h₂ hp₂ hread₂,
        bindingScope_of_unnamed hwalk hb₁ h₁ hp₁ hread₁, hscope]
  | @simple n₁ n₂ h₁ h₂ hk₁ hk₂ htext =>
      obtain ⟨k₁, -, hchild₁⟩ := hb₁.child
      obtain ⟨k₂, -, hchild₂⟩ := hb₂.child
      have habove : p₁.IsAbove b₁ := .single ⟨k₁, hchild₁⟩
      have hinside := habove.id_bounds
      have hlt₁ := hchild₁.lt
      have hlt₂ := hchild₂.lt
      -- the second namespace is the entity that the first is
      obtain ⟨e, he, hscopes, -⟩ := read_namespace language s₁.scopes p₁.id
        ⟨p₁.node, p₁.outer, p₁.parent, c₁⟩ hb₁.kind h₁ hk₁
      obtain ⟨s, stack, stack', hs, -, hruns, hbetween⟩ :=
        hp₁.runs_behind hwalk hp₂ (by omega)
      have standing₁ := (sound_of_parse hp₁.runs.choose_spec).1.standing
      have standing₂ := (sound_of_parse hp₂.runs.choose_spec).1.standing
      have hmeans := Table.means_of_namespace standing₁ he
      rw [← hscopes, ← hp₁.id] at hmeans
      have hmeans := namespace_of_runs hruns hbetween (hs ▸ hmeans)
      have he₂ : (s₂.scopes.perform
          (.define .namespaces (textOf source n₂.item) .namespaceName p₂.id)).1 = .entity e :=
        hmeans.namespace_answer standing₂ rfl hscope.symm htext.symm rfl rfl
      -- so its body is bound among the same members
      have hm₁ := members?_of_named hwalk hb₁ h₁ hk₁ hp₁ hmem₁ hread₁ he
      have hm₂ := members?_of_named hwalk hb₂ h₂ hk₂ hp₂ hmem₂ hread₂ he₂
      obtain ⟨_, _, -, hbodies⟩ := hread₁.runs_of_le hread₂ (by omega)
      exact Option.some.inj (hm₂.symm.trans ((grows_of_runs hbodies).1.members hm₁))

end Walk

/-! ### Uses of a type -/

/-- What hides from place `u`, read in state `s`, that the name means entity `x` in scope `b`: a nearer
scope gives the name a meaning in one of the spaces in which it is sought, the scope itself gives it
another one there, or a place in front of `u` has taken the name from the entity. -/
inductive Hides (source : ByteArray) (spelling : String) (parse : Concrete.Parse) (u : Place)
    (s : State) (b : ScopeId) (sought : List Space) (name : String) (x : EntityId) : Prop
  | nearer {inner outer : List ScopeId} {z : ScopeId}
      (hchain : s.scopes.chain s.scopes.current = inner ++ b :: outer) (hz : z ∈ inner)
      (hfound : (s.scopes.search sought name z).isSome = true)
  | beside {space : Space} {y : EntityId} (hspace : space ∈ sought)
      (hfound : s.scopes.local? b space name = some y) (hne : y ≠ x)
  | later {space : Space} (hspace : space ∈ sought)
      (htaken : TakenBefore source spelling parse u.id.index b space name x)

/-- The identifier at the place, read in a role, is sought in the spaces: as the name of a type,
or as a qualifier in front of `::`. -/
inductive Place.Seeks (u : Place) (role : Role) : List Space → Prop
  | type (hkind : u.node.kind = .typeIdentifier) (hrole : role.Refers) : u.Seeks role role.spaces
  | qualifier (hkind : u.node.kind = .namespaceIdentifier) (hrole : role = .use) :
      u.Seeks role [.namespaces, .tag]

/-- The place uses the name, which is looked up unqualified in the spaces. -/
structure Place.UsesName (source : ByteArray) (u : Place) (context : Context)
    (sought : List Space) (name : String) : Prop where
  seeks : u.Seeks context.role sought
  lexical : context.lookup = .lexical
  text : textOf source u.node.item = name

/-- An identifier refers to what is found for it. -/
theorem Place.Seeks.reading {u : Place} {s : State} {context : Context} {sought : List Space}
    (h : u.Seeks context.role sought) {e : EntityId}
    (he : s.scopes.lookup sought (textOf source u.node.item) context.lookup = some e) :
    ∃ kind, kind ≠ .label ∧ u.reading .cpp source s context =
      .ofReference s.scopes kind (textOf source u.node.item) (some e) := by
  cases h with
  | type hkind hrole =>
      obtain ⟨kind, hne, hreading⟩ := @readTypeIdentifier_of_refers source s.scopes ⟨s.tree.size⟩
        ⟨u.node, u.outer, u.parent, context⟩ hrole (Or.inr (by rw [he]; rfl))
      refine ⟨kind, hne, ?_⟩
      simp only [Place.reading, readNode, hkind]
      rw [hreading, he]
  | qualifier hkind hrole =>
      obtain ⟨kind, hne, hreading⟩ := @readNamespaceIdentifier_of_use source s.scopes
        ⟨u.node, u.outer, u.parent, context⟩ hrole
      refine ⟨kind, hne, ?_⟩
      simp only [Place.reading, readNode, hkind]
      rw [hreading, he]

section Targets
variable {sf s' s : State} {u : Place} {context : Context} {sought : List Space}
  (hwalk : walk .cpp source (.initial .cpp spelling) (initialSteps parse) = .ok sf)
  (hfinish : sf.finish = .ok s')
  (hread : u.ReadAt .cpp source spelling parse s context)
include hwalk hfinish hread

/-- An identifier leads in the end to what defines the entity that is found for it. -/
theorem target?_of_seeks (hseeks : u.Seeks context.role sought) {e : EntityId}
    (hfound : s.scopes.lookup sought (textOf source u.node.item) context.lookup = some e) :
    s'.tree.target? u.id = sf.scopes.definition? e := by
  obtain ⟨kind, hne, hreading⟩ := hseeks.reading hfound
  rw [Tree.target?, Tree.reference?, (reference_of_readAt hread hwalk hfinish hne hreading).1]
  rfl

/-- A use of the name leads to the node that defines what is found for it. -/
theorem target?_of_usesName {name : String} (huse : u.UsesName source context sought name)
    {x : EntityId} {d : NodeId} (hfound : s.scopes.lookup sought name .lexical = some x)
    (hd : s.scopes.definition? x = some d) : s'.tree.target? u.id = some d := by
  obtain ⟨rest, hruns⟩ := hread.runs
  rw [← huse.lexical, ← huse.text] at hfound
  rw [target?_of_seeks hwalk hfinish hread huse.seeks hfound]
  exact (grows_of_runs (walk_eq_ok_iff.1 (hruns.walk_eq ▸ hwalk))).1.definition hd

end Targets

/-- A name that a scope on the way gives a meaning is found to have it, if nothing hides it. -/
theorem hides_or_lookup {u : Place} {s : State} {b : ScopeId}
    (hmem : b ∈ s.scopes.chain s.scopes.current) {sought : List Space} {space : Space}
    (hspace : space ∈ sought) {name : String} {x : EntityId}
    (hlocal : s.scopes.local? b space name = some x ∨
      TakenBefore source spelling parse u.id.index b space name x) :
    Hides source spelling parse u s b sought name x ∨
      s.scopes.lookup sought name .lexical = some x := by
  obtain ⟨inner, outer, hchain⟩ := List.append_of_mem hmem
  rcases hlocal with hlocal | htaken
  · by_cases hinner : ∀ z ∈ inner, s.scopes.search sought name z = none
    · have hsome : (s.scopes.localIn? sought name b).isSome = true :=
        List.findSome?_isSome_iff.2 ⟨space, hspace, by rw [hlocal]; rfl⟩
      obtain ⟨y, hy⟩ := Option.isSome_iff_exists.1 hsome
      by_cases hne : y = x
      · exact Or.inr (Table.lookup_of_localIn? hchain hinner (hne ▸ hy))
      · obtain ⟨other, hother, hfound⟩ := List.exists_of_findSome?_eq_some hy
        exact Or.inl (.beside hother hfound hne)
    · simp only [not_forall] at hinner
      obtain ⟨z, hz, hsome⟩ := hinner
      exact Or.inl (.nearer hchain hz (Option.isSome_iff_ne_none.2 hsome))
  · exact Or.inl (.later hspace htaken)

/-- **The bodies of a namespace share their types.**  Take two namespaces, one behind the other,
that have the same simple name or none and are read with the same innermost scope that is not a
template's.  Their bodies bind in one scope.  A type that is defined directly in the first body is
found there by any unqualified lookup of its name in the second, and so each use of the name leads
to it, as that of a type or in front of `::`, unless something hides it. -/
theorem reopened_namespaces_share_types {tree : Tree} {stats : Stats}
    (h : resolveNames .cpp source spelling parse = .ok (tree, stats)) {p₁ p₂ b₁ b₂ d : Place}
    (hp₁ : p₁ ∈ places parse) (hp₂ : p₂ ∈ places parse) (hb₁ : p₁.IsNamespaceBody b₁)
    (hb₂ : p₂.IsNamespaceBody b₂) (hname : SameSimpleName source p₁.node p₂.node)
    (hbehind : p₁.id.index + p₁.node.keptCount ≤ p₂.id.index) {s₁ s₂ : State} {c₁ c₂ : Context}
    (hread₁ : p₁.ReadAt .cpp source spelling parse s₁ c₁)
    (hread₂ : p₂.ReadAt .cpp source spelling parse s₂ c₂)
    (hscope : s₁.scopes.bindingScope = s₂.scopes.bindingScope) {name : String}
    {spaces : List Space} (hd : d.DefinesDirectly source spelling parse tree b₁ name spaces) :
    ∃ b x, (∀ body ∈ [b₁, b₂], ∀ s context, body.ReadAt .cpp source spelling parse s context →
        s.scopes.bindingScope = b) ∧
      ∀ u s context, b₂.IsAbove u → u.ReadAt .cpp source spelling parse s context →
        s.scopes.definition? x = some d.id ∧
          ∀ sought : List Space, ∀ space ∈ spaces, space ∈ sought →
            Hides source spelling parse u s b sought name x ∨
              s.scopes.lookup sought name .lexical = some x ∧
                (u.UsesName source context sought name → tree.target? u.id = some d.id) := by
  obtain ⟨sf, s', hwalk, hfinish, rfl⟩ := resolveNames_eq_ok h
  obtain ⟨k₁, -, hchild₁⟩ := hb₁.child
  obtain ⟨k₂, -, hchild₂⟩ := hb₂.child
  have hmem₁ := hchild₁.mem_places hp₁
  have hmem₂ := hchild₂.mem_places hp₂
  obtain ⟨b, x, hbody, hentity⟩ := exists_entity_of_type hwalk hfinish hd
  obtain ⟨t₁, d₁, -, -, hbread₁, -⟩ := hd.scope
  obtain ⟨t₂, d₂, hbread₂⟩ := exists_readAt hwalk hmem₂
  have hshare := bodies_share_scope hwalk hb₁ hb₂ hname hbehind hread₁ hread₂ hscope hmem₁ hmem₂
    hbread₁ hbread₂
  rw [hbody t₁ d₁ hbread₁] at hshare
  refine ⟨b, x, fun body hmem s context hread => ?_, fun u s context habove hu => ?_⟩
  · rcases List.mem_pair.1 hmem with rfl | rfl
    · exact hbody s context hread
    · obtain ⟨rfl, -⟩ := hread.unique hbread₂
      exact hshare
  · -- the type is in the first body and `u` in the second, which is behind it
    have hlt : d.id.index < u.id.index := by
      have hinside : p₁.IsAbove d := .head ⟨k₁, hchild₁⟩ hd.above
      have hbefore := hinside.id_bounds.2
      have hfirst := hchild₂.lt
      have hafter := habove.id_bounds.1
      omega
    obtain ⟨hdefinition, hlocal⟩ := hentity u s context hu hlt
    refine ⟨hdefinition, fun sought space hspace hsought => ?_⟩
    have hchain := mem_chain_of_readAt hwalk hmem₂ hbread₂ habove hu
    rw [hshare] at hchain
    exact (hides_or_lookup hchain hsought (hlocal space hspace)).imp_right fun hfound =>
      ⟨hfound, fun huse => target?_of_usesName hwalk hfinish hu huse hfound hdefinition⟩

/-- The source `namespace n{struct T{};}namespace n{T t;}`. -/
def reopenedSource : ByteArray := "namespace n{struct T{};}namespace n{T t;}".toUTF8

open Concrete.Node in
/-- Its parse. -/
def reopenedParse : Concrete.Parse where
  root := onLine .translationUnit none 0 41
    [onLine .namespaceDefinition none 0 24
      [token "namespace" 0, onLine .namespaceIdentifier (some .name) 10 11 [],
        onLine (.other "declaration_list") (some .body) 11 24
          [token "\x7b" 11,
            onLine .structSpecifier none 12 22
              [token "struct" 12, onLine .typeIdentifier (some .name) 19 20 [],
                onLine (.other "field_declaration_list") (some .body) 20 22
                  [token "\x7b" 20, token "\x7d" 21]],
            token ";" 22, token "\x7d" 23]],
      onLine .namespaceDefinition none 24 41
        [token "namespace" 24, onLine .namespaceIdentifier (some .name) 34 35 [],
          onLine (.other "declaration_list") (some .body) 35 41
            [token "\x7b" 35,
              onLine .declaration none 36 40
                [onLine .typeIdentifier (some .type) 36 37 [],
                  onLine .identifier (some .declarator) 38 39 [], token ";" 39],
              token "\x7d" 40]]]
  hasError := false

/-- The use of `T` in the second body of `n` leads to the struct in the first. -/
theorem reopened_namespaces_share_types_twice : ∃ tree stats,
    resolveNames .cpp reopenedSource "t.cpp" reopenedParse = .ok (tree, stats) ∧
      tree.target? ⟨11⟩ = some ⟨4⟩ ∧
      ∃ u ∈ places reopenedParse, u.id = ⟨11⟩ ∧ ∃ s b x,
        u.ReadAt .cpp reopenedSource "t.cpp" reopenedParse s .plain ∧
        s.scopes.definition? x = some ⟨4⟩ ∧
        (Hides reopenedSource "t.cpp" reopenedParse u s b [.ordinary] "T" x ∨
          s.scopes.lookup [.ordinary] "T" .lexical = some x) := by
  have hvalue : (resolveNames .cpp reopenedSource "t.cpp" reopenedParse).toOption.map
      (fun r => (r.1.target? ⟨11⟩, r.1.content? ⟨4⟩)) =
        some (some ⟨4⟩, some (.definition ⟨.structTag, "T"⟩)) := by
    decide +kernel
  obtain ⟨⟨tree, stats⟩, h, hvalue⟩ := exists_ok_of_map hvalue
  obtain ⟨htarget, hcontent⟩ := Prod.mk.inj hvalue
  obtain ⟨sf, s', hwalk, -⟩ := resolveNames_eq_ok h
  obtain ⟨s₁, c₁, hread₁, hscope₁⟩ := exists_readAt_of_stateBefore hwalk 40
    (·.scopes.bindingScope) (p := (places reopenedParse)[0]) (a := ⟨0⟩) (List.getElem_mem _)
    (by decide +kernel)
  obtain ⟨s₂, c₂, hread₂, hscope₂⟩ := exists_readAt_of_stateBefore hwalk 40
    (·.scopes.bindingScope) (p := (places reopenedParse)[6]) (a := ⟨0⟩) (List.getElem_mem _)
    (by decide +kernel)
  obtain ⟨sb, cb, hreadb, hscopeb⟩ := exists_readAt_of_stateBefore hwalk 40
    (·.scopes.bindingScope) (p := (places reopenedParse)[2]) (a := ⟨1⟩) (List.getElem_mem _)
    (by decide +kernel)
  obtain ⟨sd, cd, hreadd, hscoped⟩ := exists_readAt_of_stateBefore hwalk 40
    (·.scopes.bindingScope) (p := (places reopenedParse)[3]) (a := ⟨1⟩) (List.getElem_mem _)
    (by decide +kernel)
  have hd : (places reopenedParse)[3].DefinesDirectly reopenedSource "t.cpp" reopenedParse tree
      (places reopenedParse)[2] "T" [.tag, .ordinary] :=
    ⟨.single ⟨1, rfl, rfl, rfl, rfl, rfl, rfl⟩, ⟨.structTag, .tag (Or.inl rfl) rfl, hcontent⟩,
      sb, cb, sd, cd, hreadb, hreadd, hscoped.trans hscopeb.symm⟩
  have hb₁ : (places reopenedParse)[0].IsNamespaceBody (places reopenedParse)[2] :=
    ⟨rfl, 2, by decide, rfl, rfl, rfl, rfl, rfl, rfl⟩
  have hb₂ : (places reopenedParse)[6].IsNamespaceBody (places reopenedParse)[8] :=
    ⟨rfl, 2, by decide, rfl, rfl, rfl, rfl, rfl, rfl⟩
  obtain ⟨b, x, -, hall⟩ := reopened_namespaces_share_types h (List.getElem_mem _)
    (List.getElem_mem _) hb₁ hb₂ (.simple rfl rfl rfl rfl (by decide +kernel)) (by decide) hread₁
    hread₂ (hscope₁.trans hscope₂.symm) hd
  obtain ⟨s, context, outline, hread⟩ := exists_readAt_child (k := 0) hwalk
    (p := (places reopenedParse)[9]) (q := (places reopenedParse)[10])
    (mem_allPlaces (List.getElem_mem _)) ⟨rfl, rfl, rfl, rfl, rfl, rfl⟩
  have hdeclaration : (places reopenedParse)[8].IsParent (places reopenedParse)[9] :=
    ⟨1, rfl, rfl, rfl, rfl, rfl, rfl⟩
  have habove : (places reopenedParse)[8].IsAbove (places reopenedParse)[10] :=
    .tail (.single hdeclaration) ⟨0, rfl, rfl, rfl, rfl, rfl, rfl⟩
  obtain ⟨hdefinition, hfound⟩ := hall _ s _ habove hread
  exact ⟨tree, stats, h, htarget, _, List.getElem_mem _, rfl, s, b, x, hread, hdefinition,
    (hfound [.ordinary] .ordinary (by decide) (by decide)).imp_right And.left⟩

/-! ### Namespaces with nested names -/

/-- The source `namespace a::b { struct T { }; } namespace a::b { T t; }`. -/
def nestedSource : ByteArray :=
  "namespace a::b { struct T { }; } namespace a::b { T t; }\n".toUTF8

open Concrete.Node in
/-- Its parse. -/
def nestedParse : Concrete.Parse where
  root := onLine .translationUnit none 0 57
    [onLine .namespaceDefinition none 0 32
      [token "namespace" 0,
        onLine .nestedNamespaceSpecifier (some .name) 10 14
          [onLine .namespaceIdentifier none 10 11 [], token "::" 11,
            onLine .namespaceIdentifier none 13 14 []],
        onLine (.other "declaration_list") (some .body) 15 32
          [token "\x7b" 15,
            onLine .structSpecifier none 17 29
              [token "struct" 17, onLine .typeIdentifier (some .name) 24 25 [],
                onLine (.other "field_declaration_list") (some .body) 26 29
                  [token "\x7b" 26, token "\x7d" 28]],
            token ";" 29, token "\x7d" 31]],
      onLine .namespaceDefinition none 33 56
        [token "namespace" 33,
          onLine .nestedNamespaceSpecifier (some .name) 43 47
            [onLine .namespaceIdentifier none 43 44 [], token "::" 44,
              onLine .namespaceIdentifier none 46 47 []],
          onLine (.other "declaration_list") (some .body) 48 56
            [token "\x7b" 48,
              onLine .declaration none 50 54
                [onLine .typeIdentifier (some .type) 50 51 [],
                  onLine .identifier (some .declarator) 52 53 [], token ";" 53],
              token "\x7d" 55]]]
  hasError := false

/-- A namespace with a nested name is not opened again: no scope that is searched in the second
body of `a::b` gives `T` a meaning, though the scope of the first body has it mean the struct
still. -/
theorem nested_namespace_not_reopened : ∃ tree stats,
    resolveNames .cpp nestedSource "t.cpp" nestedParse = .ok (tree, stats) ∧
      ∃ p₁ ∈ places nestedParse, ∃ p₂ ∈ places nestedParse, ∃ b₁ b₂ d u : Place,
        p₁.IsNamespaceBody b₁ ∧ p₂.IsNamespaceBody b₂ ∧
        (∃ n₁ n₂, p₁.node.child? .name = some n₁ ∧ p₂.node.child? .name = some n₂ ∧
          textOf nestedSource n₁.item = textOf nestedSource n₂.item) ∧
        p₁.id.index + p₁.node.keptCount ≤ p₂.id.index ∧
        (∃ s₁ s₂ c₁ c₂, p₁.ReadAt .cpp nestedSource "t.cpp" nestedParse s₁ c₁ ∧
          p₂.ReadAt .cpp nestedSource "t.cpp" nestedParse s₂ c₂ ∧
          s₁.scopes.bindingScope = s₂.scopes.bindingScope) ∧
        d.DefinesDirectly nestedSource "t.cpp" nestedParse tree b₁ "T" [.tag, .ordinary] ∧
        b₂.IsAbove u ∧
        ∃ s context b x, u.ReadAt .cpp nestedSource "t.cpp" nestedParse s context ∧
          u.UsesName nestedSource context [.ordinary] "T" ∧
          s.scopes.local? b .ordinary "T" = some x ∧ s.scopes.definition? x = some d.id ∧
          s.scopes.lookup [.ordinary] "T" .lexical = none ∧ tree.target? u.id = none := by
  have hvalue : (resolveNames .cpp nestedSource "t.cpp" nestedParse).toOption.map
      (fun r => (r.1.target? ⟨15⟩, r.1.content? ⟨6⟩)) =
        some (none, some (.definition ⟨.structTag, "T"⟩)) := by
    decide +kernel
  obtain ⟨⟨tree, stats⟩, h, hvalue⟩ := exists_ok_of_map hvalue
  obtain ⟨htarget, hcontent⟩ := Prod.mk.inj hvalue
  obtain ⟨sf, s', hwalk, -⟩ := resolveNames_eq_ok h
  obtain ⟨s₁, c₁, hread₁, hscope₁⟩ := exists_readAt_of_stateBefore hwalk 40
    (·.scopes.bindingScope) (p := (places nestedParse)[0]) (a := ⟨0⟩) (List.getElem_mem _)
    (by decide +kernel)
  obtain ⟨s₂, c₂, hread₂, hscope₂⟩ := exists_readAt_of_stateBefore hwalk 40
    (·.scopes.bindingScope) (p := (places nestedParse)[8]) (a := ⟨0⟩) (List.getElem_mem _)
    (by decide +kernel)
  obtain ⟨sb, cb, hreadb, hscopeb⟩ := exists_readAt_of_stateBefore hwalk 40
    (·.scopes.bindingScope) (p := (places nestedParse)[4]) (a := ⟨1⟩) (List.getElem_mem _)
    (by decide +kernel)
  obtain ⟨sd, cd, hreadd, hscoped⟩ := exists_readAt_of_stateBefore hwalk 40
    (·.scopes.bindingScope) (p := (places nestedParse)[5]) (a := ⟨1⟩) (List.getElem_mem _)
    (by decide +kernel)
  have hd : (places nestedParse)[5].DefinesDirectly nestedSource "t.cpp" nestedParse tree
      (places nestedParse)[4] "T" [.tag, .ordinary] :=
    ⟨.single ⟨1, rfl, rfl, rfl, rfl, rfl, rfl⟩, ⟨.structTag, .tag (Or.inl rfl) rfl, hcontent⟩,
      sb, cb, sd, cd, hreadb, hreadd, hscoped.trans hscopeb.symm⟩
  obtain ⟨s, context, outline, hread⟩ := exists_readAt_child (k := 0) hwalk
    (p := (places nestedParse)[13]) (q := (places nestedParse)[14])
    (mem_allPlaces (List.getElem_mem _)) ⟨rfl, rfl, rfl, rfl, rfl, rfl⟩
  have hdeclaration : (places nestedParse)[12].IsParent (places nestedParse)[13] :=
    ⟨1, rfl, rfl, rfl, rfl, rfl, rfl⟩
  have habove : (places nestedParse)[12].IsAbove (places nestedParse)[14] :=
    .tail (.single hdeclaration) ⟨0, rfl, rfl, rfl, rfl, rfl, rfl⟩
  have hview := hread.view_of_stateBefore 40 (fun s => (s.scopes.local? ⟨1⟩ .ordinary "T",
    s.scopes.definition? ⟨0⟩, s.scopes.lookup [.ordinary] "T" .lexical))
    (a := (some ⟨0⟩, some ⟨6⟩, none)) (by decide +kernel)
  obtain ⟨hlocal, hview⟩ := Prod.mk.inj hview
  obtain ⟨hdefinition, hlookup⟩ := Prod.mk.inj hview
  exact ⟨tree, stats, h, _, List.getElem_mem _, (places nestedParse)[8], List.getElem_mem _,
    (places nestedParse)[4], (places nestedParse)[12], (places nestedParse)[5],
    (places nestedParse)[14], ⟨rfl, 2, by decide, rfl, rfl, rfl, rfl, rfl, rfl⟩,
    ⟨rfl, 2, by decide, rfl, rfl, rfl, rfl, rfl, rfl⟩, ⟨_, _, rfl, rfl, by decide +kernel⟩,
    by decide, ⟨s₁, s₂, c₁, c₂, hread₁, hread₂, hscope₁.trans hscope₂.symm⟩, hd, habove,
    s, _, ⟨1⟩, ⟨0⟩, hread, ⟨.type rfl trivial, rfl, by decide +kernel⟩, hlocal, hdefinition,
    hlookup, htarget⟩

end TypeUses.Resolution
