import TypeUses.Proofs.Resolution.Qualified
import TypeUses.Proofs.Resolution.Typedefs

/-!
# Resolution — segments that no qualified name carries

Behind `::` a name may stand in other nodes than the `name` of a qualified name.  The namespaces in
`namespace x = a::b::c;` stand in nested specifiers, and a template behind the keyword `template`,
as in `a::template Box<int>`, stands in a dependent name.  These nodes do not hand on where the
segment in front of the name leads.

* `Carried`, `Behind`: the segments that such a node carries, and the segment in front of one.
* `Segment.BoundAmong`: a reference is bound to what is found among the members of an entity.
* `carried_segments_sought_lexically`: a segment in such a node is sought from the current scope
  outwards, so that it is bound among the members of the segment in front of it just if both lookups
  agree.  They do if the members are in sight (`Table.InSight`).

Where the members are not in sight the segment may lead nowhere (`alias_segment_escapes`).
-/

namespace TypeUses

namespace Table

/-- From the current scope outwards, the scopes that are searched among the members of `e` give the
name a meaning, and none in front of them does. -/
def InSight (t : Table) (spaces : List Space) (name : String) (e : Option EntityId) : Prop :=
  ∃ nearer farther, t.sought .lexical = nearer ++ (t.sought (.member e) ++ farther) ∧
    (∀ s ∈ nearer, t.localIn? spaces name s = none) ∧
    (t.lookup spaces name (.member e)).isSome

/-- **Members in sight are found** from the current scope outwards. -/
theorem lookup_of_inSight {t : Table} {spaces : List Space} {name : String} {e : Option EntityId}
    (h : t.InSight spaces name e) :
    t.lookup spaces name .lexical = t.lookup spaces name (.member e) := by
  obtain ⟨nearer, farther, hsought, hnearer, hfound⟩ := h
  obtain ⟨x, hx⟩ := Option.isSome_iff_exists.1 hfound
  have hnone : nearer.findSome? (t.localIn? spaces name) = none :=
    List.findSome?_eq_none_iff.2 hnearer
  rw [hx, lookup_eq_findSome?, hsought, List.findSome?_append, hnone, List.findSome?_append,
    ← lookup_eq_findSome?, hx]
  rfl

end Table

namespace Resolution

variable {language : Language} {source : ByteArray} {spelling : String} {parse : Concrete.Parse}

/-! ### Segments -/

namespace Place

/-- Nested namespace specifiers, one in the other, hold place `q` below place `p`. -/
def Nests : Place → Place → Prop :=
  Relation.ReflTransGen fun p q => p.IsParent q ∧ p.node.kind = .nestedNamespaceSpecifier

/-- Place `m` is that of the namespace that an alias stands for, which no field marks. -/
structure IsAliased (parse : Concrete.Parse) (m : Place) : Prop where
  parent : ∃ p ∈ allPlaces parse, p.node.kind = .namespaceAliasDefinition ∧ p.IsParent m
  field : m.node.field = none

/-- Place `t` is that of a template behind the keyword `template` in the qualified name at `q`. -/
structure IsDependent (parse : Concrete.Parse) (q t : Place) : Prop where
  mem : q ∈ allPlaces parse
  kind : q.node.kind = .qualifiedIdentifier
  name : ∃ d, q.IsParent d ∧ d.node.kind = .other "dependent_name" ∧ d.node.field = some .name ∧
    d.IsParent t
  field : t.node.field = none

end Place

/-- The identifier of a namespace, as a segment. -/
def namespaceSegment (p : Place) : Segment := ⟨p, [.namespaces, .tag]⟩

/-- The name of a template, as a segment. -/
def templateSegment (p : Place) : Segment := ⟨p, [.ordinary]⟩

section Segments
variable (parse : Concrete.Parse)

/-- A node that is not a qualified name carries the segment. -/
inductive Carried : Segment → Prop
  | aliased {m b : Place} (hm : m.IsAliased parse) (hb : m.Nests b)
      (hkind : b.node.kind = .namespaceIdentifier) : Carried (namespaceSegment b)
  | dependent {q t b : Place} (ht : q.IsDependent parse t) (hb : t.IsTemplateName b) :
      Carried (templateSegment b)

/-- Segment `g₀` is the one in front of segment `g`, which a node that is not a qualified name
carries. -/
inductive Behind : Segment → Segment → Prop
  | aliased {m a b : Place} (hm : m.IsAliased parse) (ha : m.Nests a) (hb : m.Nests b)
      (hkinda : a.node.kind = .namespaceIdentifier) (hkindb : b.node.kind = .namespaceIdentifier)
      (hab : a.id.index < b.id.index)
      (hnext : ∀ c, m.Nests c → c.node.kind = .namespaceIdentifier →
        ¬ (a.id.index < c.id.index ∧ c.id.index < b.id.index)) :
      Behind (namespaceSegment a) (namespaceSegment b)
  | namespaced {q a t b : Place} (ht : q.IsDependent parse t) (hb : t.IsTemplateName b)
      (ha : q.IsParent a) (hscope : q.node.child? .scope = some a.node)
      (hkind : a.node.kind = .namespaceIdentifier) :
      Behind (namespaceSegment a) (templateSegment b)
  | templated {q a g t b : Place} (ht : q.IsDependent parse t) (hb : t.IsTemplateName b)
      (ha : q.IsParent a) (hscope : q.node.child? .scope = some a.node)
      (hg : a.IsTemplateName g) : Behind (templateSegment g) (templateSegment b)

end Segments

theorem Behind.carried {g₀ g : Segment} (h : Behind parse g₀ g) : Carried parse g := by
  cases h with
  | aliased hm _ hb _ hkind => exact .aliased hm hb hkind
  | namespaced ht hb | templated ht hb => exact .dependent ht hb

/-- A specifier holds its namespaces one behind the other. -/
theorem behind_of_isParent {m a b : Place} (hm : m.IsAliased parse)
    (hkind : m.node.kind = .nestedNamespaceSpecifier) (ha : m.IsParent a) (hb : m.IsParent b)
    (hkinda : a.node.kind = .namespaceIdentifier) (hkindb : b.node.kind = .namespaceIdentifier)
    (hab : b.id.index = a.id.index + 1) :
    Behind parse (namespaceSegment a) (namespaceSegment b) :=
  .aliased hm (.single ⟨ha, hkind⟩) (.single ⟨hb, hkind⟩) hkinda hkindb (by omega)
    fun c _ _ => by omega

/-- In the end, in state `sf`, the reference at the segment's place is bound to what is found among
the members of `e` in state `s`. -/
def Segment.BoundAmong (source : ByteArray) (g : Segment) (s sf : State) (e : Option EntityId) :
    Prop :=
  ∀ x, (g.place.id, x) ∈ sf.pending ↔
    s.scopes.lookup g.spaces (textOf source g.place.node.item) (.member e) = some x

/-! ### In which contexts the segments are read -/

/-- A namespace alias hands the plain context to what it names. -/
theorem childContext_aliased {n c : Concrete.Node} {context : Context} {outline : Outline}
    (hkind : n.kind = .namespaceAliasDefinition) (hfield : c.field = none) :
    childContext n context outline c = .plain := by
  simp [childContext, declaratorContext, hkind, hfield]

/-- A nested specifier hands on the context that it has. -/
theorem childContext_nested {n c : Concrete.Node} {context : Context} {outline : Outline}
    (hkind : n.kind = .nestedNamespaceSpecifier) : childContext n context outline c = context := by
  simp only [childContext, hkind]

/-- A dependent name keeps to itself where it is looked up. -/
theorem childContext_dependent {n c : Concrete.Node} {context : Context} {outline : Outline}
    (hkind : n.kind = .other "dependent_name") (hfield : c.field = none) :
    childContext n context outline c = .plain := by
  simp [childContext, declaratorContext, hkind, hfield]

/-- The qualifier of a name is looked up where the name is. -/
theorem childContext_scope {n c : Concrete.Node} {context : Context} {outline : Outline}
    (hkind : n.kind = .qualifiedIdentifier) (hfield : c.field = some .scope) :
    childContext n context outline c = ⟨.use, context.lookup⟩ := by
  simp only [childContext, hkind, hfield]

section Walk
variable {sf s' : State}
  (hwalk : walk language source (.initial language spelling) (initialSteps parse) = .ok sf)
include hwalk

/-- What nested specifiers hold is read in the context of the first of them. -/
theorem readAt_of_nests {m b : Place} {s : State} {context : Context}
    (hread : m.ReadAt language source spelling parse s context) (h : m.Nests b) :
    ∃ s, b.ReadAt language source spelling parse s context := by
  induction h with
  | refl => exact ⟨s, hread⟩
  | tail _ hstep ih =>
      obtain ⟨⟨k, hchild⟩, hkind⟩ := hstep
      obtain ⟨s₁, hread₁⟩ := ih
      obtain ⟨s₂, hread₂⟩ := hread₁.child hwalk hchild
      rw [childContext_nested hkind] at hread₂
      exact ⟨s₂, hread₂⟩

/-- The namespaces of an alias are read in the plain context. -/
theorem readAt_of_isAliased {m b : Place} (hm : m.IsAliased parse) (hb : m.Nests b) :
    ∃ s, b.ReadAt language source spelling parse s .plain := by
  obtain ⟨p, hp, hkind, k, hchild⟩ := hm.parent
  obtain ⟨s, context, outline, hread⟩ := exists_readAt_child hwalk hp hchild
  rw [childContext_aliased hkind hm.field] at hread
  exact readAt_of_nests hwalk hread hb

/-- A template in a dependent name is read in the plain context. -/
theorem readAt_of_isDependent {q t : Place} (ht : q.IsDependent parse t) :
    ∃ s, t.ReadAt language source spelling parse s .plain := by
  obtain ⟨d, ⟨j, hd⟩, hkind, -, k, hchild⟩ := ht.name
  obtain ⟨s, context, outline, hread⟩ := exists_readAt_child hwalk ht.mem hd
  obtain ⟨s₁, hread₁⟩ := hread.child hwalk hchild
  exact ⟨s₁, childContext_dependent hkind ht.field ▸ hread₁⟩

/-! ### What is found for the segments -/

variable (hfinish : sf.finish = .ok s')
include hfinish

/-- The identifier of a namespace that is read as a use is found where it is looked up. -/
theorem found_of_namespace {a : Place} {s : State} {look : Lookup}
    (hread : a.ReadAt language source spelling parse s ⟨.use, look⟩)
    (hkind : a.node.kind = .namespaceIdentifier) :
    ∃ e, (namespaceSegment a).Found language source spelling parse s'.tree sf s look e := by
  obtain ⟨kind, hne, hreading⟩ := @readNamespaceIdentifier_of_use source s.scopes
    ⟨a.node, a.outer, a.parent, .use, look⟩ rfl
  refine ⟨_, found_of_readAt hwalk hfinish hread hne ?_⟩
  simp only [Place.reading, readNode, hkind]
  exact hreading

/-- The name of a template that is no own name is found where the template is looked up. -/
theorem found_of_template {t g : Place} {s : State} {role : Role} {look : Lookup}
    (hread : t.ReadAt language source spelling parse s ⟨role, look⟩) (hrole : role ≠ .ownName)
    (hg : t.IsTemplateName g) :
    ∃ s₁ e, (templateSegment g).Found language source spelling parse s'.tree sf s₁ look e := by
  obtain ⟨k, hchild⟩ := hg.child
  obtain ⟨s₁, hread₁⟩ := hread.child hwalk hchild
  rw [childContext_templateName hg.kind (field_of_child? hg.name) hrole] at hread₁
  have hne : ReferenceKind.templateName ≠ .label := by decide
  refine ⟨s₁, _, found_of_readAt hwalk hfinish hread₁ hne ?_⟩
  simp only [Place.reading, readNode, hg.type]
  exact readTypeIdentifier_of_templateName rfl

/-- A carried segment is sought from the current scope outwards. -/
theorem found_of_carried {g : Segment} (h : Carried parse g) :
    ∃ s e, g.Found language source spelling parse s'.tree sf s .lexical e := by
  cases h with
  | aliased hm hb hkind =>
      obtain ⟨s, hread⟩ := readAt_of_isAliased hwalk hm hb
      exact ⟨s, found_of_namespace hwalk hfinish hread hkind⟩
  | dependent ht hb =>
      obtain ⟨s, hread⟩ := readAt_of_isDependent hwalk ht
      exact found_of_template hwalk hfinish hread (by decide) hb

/-- The segment in front of a carried one is read, and something is found for it or not. -/
theorem found_of_behind {g₀ g : Segment} (h : Behind parse g₀ g) :
    ∃ s look e, g₀.Found language source spelling parse s'.tree sf s look e := by
  have exists_readAt_scope : ∀ {q t a : Place}, q.IsDependent parse t → q.IsParent a →
      q.node.child? .scope = some a.node →
        ∃ s look, a.ReadAt language source spelling parse s ⟨.use, look⟩ := by
    intro q t a ht ha hscope
    obtain ⟨k, hchild⟩ := ha
    obtain ⟨s, context, outline, hread⟩ := exists_readAt_child hwalk ht.mem hchild
    exact ⟨s, _, childContext_scope ht.kind (field_of_child? hscope) ▸ hread⟩
  cases h with
  | aliased hm ha _ hkind =>
      obtain ⟨s, e, hfound⟩ := found_of_carried hwalk hfinish (.aliased hm ha hkind)
      exact ⟨s, _, e, hfound⟩
  | namespaced ht _ ha hscope hkind =>
      obtain ⟨s, look, hread⟩ := exists_readAt_scope ht ha hscope
      exact ⟨s, look, found_of_namespace hwalk hfinish hread hkind⟩
  | templated ht _ ha hscope hg =>
      obtain ⟨s, look, hread⟩ := exists_readAt_scope ht ha hscope
      obtain ⟨s₁, e, hfound⟩ := found_of_template hwalk hfinish hread (by decide) hg
      exact ⟨s₁, look, e, hfound⟩

end Walk

/-- A segment is bound among the members of an entity just if they give it what the lookup finds. -/
theorem boundAmong_iff {tree : Tree} {s sf : State} {g : Segment} {look : Lookup}
    {e e₀ : Option EntityId}
    (h : g.Found language source spelling parse tree sf s look e) :
    g.BoundAmong source s sf e₀ ↔
      s.scopes.lookup g.spaces (textOf source g.place.node.item) look =
        s.scopes.lookup g.spaces (textOf source g.place.node.item) (.member e₀) := by
  rw [Table.lookup_eq_findSome? _ _ _ look, h.first, Option.ext_iff]
  exact forall_congr' fun x => by rw [h.bound x]

/-- A carried segment is sought in the state that is computed for its place. -/
theorem found_of_stateBefore {tree : Tree} {stats : Stats} {sf t : State} {g : Segment} {n : Nat}
    (h : resolveNames language source spelling parse = .ok (tree, stats))
    (hwalk : walk language source (.initial language spelling) (initialSteps parse) = .ok sf)
    (hg : Carried parse g)
    (ht : stateBefore language source g.place.id n (.initial language spelling)
      (initialSteps parse) = some t) :
    g.Found language source spelling parse tree sf t .lexical
      (t.scopes.lookup g.spaces (textOf source g.place.node.item) .lexical) := by
  obtain ⟨sf', s', hwalk', hfinish, rfl⟩ := resolveNames_eq_ok h
  obtain rfl := Except.ok.inj (hwalk'.symm.trans hwalk)
  obtain ⟨s, e, hfound⟩ := found_of_carried hwalk hfinish hg
  obtain ⟨role, hread⟩ := hfound.read
  obtain rfl := hread.eq_of_stateBefore ht
  rwa [Table.lookup_eq_findSome?, hfound.first]

/-- **Segments that no qualified name carries are sought lexically.**  Take a namespace in what a
namespace alias stands for, or a template behind the keyword `template`.  It is sought from the
current scope outwards.  So it is bound to what is found among the members of the entity that the
segment in front of it means if and only if the two lookups agree, and they agree if these members
are in sight. -/
theorem carried_segments_sought_lexically {tree : Tree} {stats : Stats}
    (h : resolveNames language source spelling parse = .ok (tree, stats)) {g : Segment}
    (hg : Carried parse g) :
    ∃ sf s e, walk language source (.initial language spelling) (initialSteps parse) = .ok sf ∧
      g.Found language source spelling parse tree sf s .lexical e ∧
      ∀ g₀, Behind parse g₀ g → ∃ s₀ look e₀,
        g₀.Found language source spelling parse tree sf s₀ look e₀ ∧
        (g.BoundAmong source s sf e₀ ↔
          s.scopes.lookup g.spaces (textOf source g.place.node.item) .lexical =
            s.scopes.lookup g.spaces (textOf source g.place.node.item) (.member e₀)) ∧
        (s.scopes.InSight g.spaces (textOf source g.place.node.item) e₀ →
          g.BoundAmong source s sf e₀) := by
  obtain ⟨sf, s', hwalk, hfinish, rfl⟩ := resolveNames_eq_ok h
  obtain ⟨s, e, hfound⟩ := found_of_carried hwalk hfinish hg
  refine ⟨sf, s, e, hwalk, hfound, fun g₀ hbehind => ?_⟩
  obtain ⟨s₀, look, e₀, hfound₀⟩ := found_of_behind hwalk hfinish hbehind
  refine ⟨s₀, look, e₀, hfound₀, boundAmong_iff hfound, fun hsight => ?_⟩
  exact (boundAmong_iff hfound).2 (Table.lookup_of_inSight hsight)

/-! ### Members in sight -/

/-- The source `namespace a{namespace b{}namespace c=a::b;}`. -/
def innerAliasSource : ByteArray := "namespace a{namespace b{}namespace c=a::b;}".toUTF8

open Concrete.Node in
/-- Its parse. -/
def innerAliasParse : Concrete.Parse where
  root := onLine .translationUnit none 0 43
    [onLine .namespaceDefinition none 0 43
      [token "namespace" 0, onLine .namespaceIdentifier (some .name) 10 11 [],
        onLine (.other "declaration_list") (some .body) 11 43
          [token "\x7b" 11,
            onLine .namespaceDefinition none 12 25
              [token "namespace" 12, onLine .namespaceIdentifier (some .name) 22 23 [],
                onLine (.other "declaration_list") (some .body) 23 25
                  [token "\x7b" 23, token "\x7d" 24]],
            onLine .namespaceAliasDefinition none 25 42
              [token "namespace" 25, onLine .namespaceIdentifier (some .name) 35 36 [],
                token "=" 36,
                onLine .nestedNamespaceSpecifier none 37 41
                  [onLine .namespaceIdentifier none 37 38 [], token "::" 38,
                    onLine .namespaceIdentifier none 40 41 []],
                token ";" 41],
            token "\x7d" 42]]]
  hasError := false

/-- In the namespace `a` itself the members of `a` are in sight, and `b` is bound among them. -/
theorem carried_segments_sought_lexically_inner : ∃ tree stats,
    resolveNames .cpp innerAliasSource "t.cpp" innerAliasParse = .ok (tree, stats) ∧
      tree.content? ⟨10⟩ = some (.reference ⟨.namespaceName, "a", some ⟨1⟩⟩) ∧
      tree.content? ⟨11⟩ = some (.reference ⟨.namespaceName, "b", some ⟨4⟩⟩) ∧
      ∃ a b, Behind innerAliasParse a b ∧ a.place.id = ⟨10⟩ ∧ b.place.id = ⟨11⟩ ∧
        ∃ sf s s₀ look e₀, a.Found .cpp innerAliasSource "t.cpp" innerAliasParse tree sf s₀ look e₀ ∧
          s.scopes.InSight b.spaces "b" e₀ ∧ b.BoundAmong innerAliasSource s sf e₀ := by
  have hvalue : (resolveNames .cpp innerAliasSource "t.cpp" innerAliasParse).toOption.map
      (fun r => (r.1.content? ⟨10⟩, r.1.content? ⟨11⟩)) =
        some (some (.reference ⟨.namespaceName, "a", some ⟨1⟩⟩),
          some (.reference ⟨.namespaceName, "b", some ⟨4⟩⟩)) := by
    decide +kernel
  obtain ⟨⟨tree, stats⟩, h, hvalue⟩ := exists_ok_of_map hvalue
  obtain ⟨ha, hb⟩ := Prod.mk.inj hvalue
  have hm : (places innerAliasParse)[8].IsAliased innerAliasParse :=
    ⟨⟨(places innerAliasParse)[6], mem_allPlaces (List.getElem_mem _), rfl, 3,
      rfl, rfl, rfl, rfl, rfl, rfl⟩, rfl⟩
  have hab : Behind innerAliasParse (namespaceSegment (places innerAliasParse)[9])
      (namespaceSegment (places innerAliasParse)[10]) :=
    behind_of_isParent hm rfl ⟨0, rfl, rfl, rfl, rfl, rfl, rfl⟩ ⟨2, rfl, rfl, rfl, rfl, rfl, rfl⟩
      rfl rfl rfl
  obtain ⟨sf, s, e, hwalk, hfound, hbehind⟩ := carried_segments_sought_lexically h hab.carried
  obtain ⟨s₀, look, e₀, hfound₀, -, hbound⟩ := hbehind _ hab
  -- the first segment means the namespace that is entity 0
  have hstate₀ : (stateBefore .cpp innerAliasSource ⟨10⟩ 40 (.initial .cpp "t.cpp")
      (initialSteps innerAliasParse)).map
        (fun s => s.scopes.lookup [.namespaces, .tag] (textOf innerAliasSource
          (places innerAliasParse)[9].node.item) .lexical) = some (some ⟨0⟩) := by
    decide +kernel
  obtain ⟨t₀, ht₀, hentity⟩ := Option.map_eq_some_iff.1 hstate₀
  have hcarried : Carried innerAliasParse (namespaceSegment (places innerAliasParse)[9]) :=
    .aliased hm (.single ⟨⟨0, rfl, rfl, rfl, rfl, rfl, rfl⟩, rfl⟩) rfl
  obtain ⟨rfl, rfl, rfl⟩ := hfound₀.unique (found_of_stateBefore h hwalk hcarried ht₀)
  -- its members are searched first where the second segment is read
  have hstate : (stateBefore .cpp innerAliasSource ⟨11⟩ 40 (.initial .cpp "t.cpp")
      (initialSteps innerAliasParse)).map
        (fun s => (s.scopes.sought .lexical, s.scopes.sought (.member (some ⟨0⟩)),
          (s.scopes.lookup [.namespaces, .tag] "b" (.member (some ⟨0⟩))).isSome)) =
            some ([⟨1⟩, ⟨0⟩], [⟨1⟩], true) := by
    decide +kernel
  obtain ⟨t, ht, hsight⟩ := Option.map_eq_some_iff.1 hstate
  obtain ⟨rfl, -, -⟩ := hfound.unique (found_of_stateBefore h hwalk hab.carried ht)
  obtain ⟨hlexical, hsight⟩ := Prod.mk.inj hsight
  obtain ⟨hmember, hsome⟩ := Prod.mk.inj hsight
  have hname : textOf innerAliasSource (places innerAliasParse)[10].node.item = "b" := by
    decide +kernel
  have hsight : s.scopes.InSight [.namespaces, .tag] "b" (some ⟨0⟩) :=
    ⟨[], [⟨0⟩], by rw [hlexical, hmember]; rfl, by simp, hsome⟩
  rw [← hentity] at hsight
  exact ⟨tree, stats, h, ha, hb, _, _, hab, rfl, rfl, sf, s, _, _, _, hfound₀, hsight,
    hbound (hname ▸ hsight)⟩

/-! ### Members that are not in sight -/

/-- The source `namespace a { namespace b { } } namespace c = a::b;`. -/
def outerAliasSource : ByteArray := "namespace a { namespace b { } } namespace c = a::b;\n".toUTF8

open Concrete.Node in
/-- Its parse. -/
def outerAliasParse : Concrete.Parse where
  root := onLine .translationUnit none 0 52
    [onLine .namespaceDefinition none 0 31
      [token "namespace" 0, onLine .namespaceIdentifier (some .name) 10 11 [],
        onLine (.other "declaration_list") (some .body) 12 31
          [token "\x7b" 12,
            onLine .namespaceDefinition none 14 29
              [token "namespace" 14, onLine .namespaceIdentifier (some .name) 24 25 [],
                onLine (.other "declaration_list") (some .body) 26 29
                  [token "\x7b" 26, token "\x7d" 28]],
            token "\x7d" 30]],
      onLine .namespaceAliasDefinition none 32 51
        [token "namespace" 32, onLine .namespaceIdentifier (some .name) 42 43 [], token "=" 44,
          onLine .nestedNamespaceSpecifier none 46 50
            [onLine .namespaceIdentifier none 46 47 [], token "::" 47,
              onLine .namespaceIdentifier none 49 50 []],
          token ";" 50]]
  hasError := false

/-- Outside of the namespace `a` its member `b` is not found behind `a::` in the alias. -/
theorem alias_segment_escapes : ∃ tree stats,
    resolveNames .cpp outerAliasSource "t.cpp" outerAliasParse = .ok (tree, stats) ∧
      tree.content? ⟨4⟩ = some (.definition ⟨.namespaceName, "b"⟩) ∧
      tree.content? ⟨10⟩ = some (.reference ⟨.namespaceName, "a", some ⟨1⟩⟩) ∧
      tree.content? ⟨11⟩ = some (.reference ⟨.namespaceName, "b", none⟩) ∧
      ∃ a b, Behind outerAliasParse a b ∧ a.place.id = ⟨10⟩ ∧ b.place.id = ⟨11⟩ ∧
        ∃ sf s s₀ e₀ x, walk .cpp outerAliasSource (.initial .cpp "t.cpp")
            (initialSteps outerAliasParse) = .ok sf ∧
          a.Found .cpp outerAliasSource "t.cpp" outerAliasParse tree sf s₀ .lexical e₀ ∧
          b.Found .cpp outerAliasSource "t.cpp" outerAliasParse tree sf s .lexical none ∧
          s.scopes.lookup b.spaces "b" (.member e₀) = some x ∧
          ¬ b.BoundAmong outerAliasSource s sf e₀ := by
  have hvalue : (resolveNames .cpp outerAliasSource "t.cpp" outerAliasParse).toOption.map
      (fun r => (r.1.content? ⟨4⟩, r.1.content? ⟨10⟩, r.1.content? ⟨11⟩)) =
        some (some (.definition ⟨.namespaceName, "b"⟩),
          some (.reference ⟨.namespaceName, "a", some ⟨1⟩⟩),
          some (.reference ⟨.namespaceName, "b", none⟩)) := by
    decide +kernel
  obtain ⟨⟨tree, stats⟩, h, hvalue⟩ := exists_ok_of_map hvalue
  obtain ⟨hdefinition, hvalue⟩ := Prod.mk.inj hvalue
  obtain ⟨ha, hb⟩ := Prod.mk.inj hvalue
  obtain ⟨sf, s', hwalk, -⟩ := resolveNames_eq_ok h
  have hm : (places outerAliasParse)[8].IsAliased outerAliasParse :=
    ⟨⟨(places outerAliasParse)[6], mem_allPlaces (List.getElem_mem _), rfl, 3,
      rfl, rfl, rfl, rfl, rfl, rfl⟩, rfl⟩
  have hab : Behind outerAliasParse (namespaceSegment (places outerAliasParse)[9])
      (namespaceSegment (places outerAliasParse)[10]) :=
    behind_of_isParent hm rfl ⟨0, rfl, rfl, rfl, rfl, rfl, rfl⟩ ⟨2, rfl, rfl, rfl, rfl, rfl, rfl⟩
      rfl rfl rfl
  have hcarried : Carried outerAliasParse (namespaceSegment (places outerAliasParse)[9]) :=
    .aliased hm (.single ⟨⟨0, rfl, rfl, rfl, rfl, rfl, rfl⟩, rfl⟩) rfl
  have hname : textOf outerAliasSource (places outerAliasParse)[10].node.item = "b" := by
    decide +kernel
  have hstate₀ : (stateBefore .cpp outerAliasSource ⟨10⟩ 40 (.initial .cpp "t.cpp")
      (initialSteps outerAliasParse)).map
        (fun s => s.scopes.lookup [.namespaces, .tag] (textOf outerAliasSource
          (places outerAliasParse)[9].node.item) .lexical) = some (some ⟨0⟩) := by
    decide +kernel
  obtain ⟨t₀, ht₀, hentity⟩ := Option.map_eq_some_iff.1 hstate₀
  have hstate : (stateBefore .cpp outerAliasSource ⟨11⟩ 40 (.initial .cpp "t.cpp")
      (initialSteps outerAliasParse)).map
        (fun s => (s.scopes.lookup [.namespaces, .tag] "b" .lexical,
          s.scopes.lookup [.namespaces, .tag] "b" (.member (some ⟨0⟩)))) =
            some (none, some ⟨1⟩) := by
    decide +kernel
  obtain ⟨t, ht, hlookup⟩ := Option.map_eq_some_iff.1 hstate
  obtain ⟨hlexical, hmember⟩ := Prod.mk.inj hlookup
  have hfound₀ := found_of_stateBefore h hwalk hcarried ht₀
  have hfound := found_of_stateBefore h hwalk hab.carried ht
  have hnone : t.scopes.lookup [.namespaces, .tag] (textOf outerAliasSource
      (places outerAliasParse)[10].node.item) .lexical = none := hname ▸ hlexical
  rw [namespaceSegment, hnone] at hfound
  rw [namespaceSegment, hentity] at hfound₀
  refine ⟨tree, stats, h, hdefinition, ha, hb, _, _, hab, rfl, rfl, sf, t, t₀, _, _, hwalk, hfound₀,
    hfound, hmember, fun hbound => ?_⟩
  have hagree := (boundAmong_iff hfound).1 hbound
  rw [hnone, hname, hmember] at hagree
  cases hagree

end Resolution

end TypeUses
