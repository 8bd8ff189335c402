import Mathlib.Logic.Relation
import TypeUses.Proofs.Resolution.Naming
import TypeUses.Proofs.Resolution.Reads
import TypeUses.Proofs.Scope.Locals

/-!
# Resolution — the names that a `typedef` defines

A `typedef` gives each of its declarators a role, which the nodes around a name hand down to the
declarator inside them.  A type identifier in this role is defined; in any other it is not
(`definition_readTypeIdentifier`).

* `Concrete.Node.Introduces`: a node gives a child a role in which a type identifier is defined.
* `Concrete.Node.Wraps`: a node hands such a role on to a child.  These are the only two ways in
  which a child gets it (`defines_childContext`, `role_of_wraps`).
* `Place.LeadsTo`: a place is reached through nodes each of which wraps the next.  So the type
  identifiers to which a declarator leads are what the `typedef` defines, and whatever else is
  defined in the declarator is introduced there (`typedef_names_defined`).

A wrapper that marks the declarator inside it with no field, and is neither in parentheses nor a
reference, leads nowhere: a name with attributes is not defined (`attributed_name_escapes`).
-/

namespace TypeUses

/-! ### How roles are handed down -/

namespace Concrete.Node

/-- The node is a parameter of a template. -/
def IsTypeParameter (n : Node) : Prop :=
  n.kind = .typeParameter ∨ n.kind = .variadicTypeParameter ∨ n.kind = .optionalTypeParameter

/-- The node defines a name, as a `kind`, with its child. -/
inductive Introduces (n c : Node) : EntityKind → Prop
  | typedefName (hn : n.kind = .typeDefinition) (hc : c.field = some .declarator) :
      Introduces n c .typedefName
  | typeAlias (hn : n.kind = .aliasDeclaration) (hc : c.field = some .name) :
      Introduces n c .typeAlias
  | templateParameter (hn : n.IsTypeParameter) (hc : c.kind = .typeIdentifier)
      (hdefault : c.field ≠ some .defaultType) : Introduces n c .templateParameter

/-- Names of types are introduced by typedefs, aliases and template parameters alone. -/
theorem Introduces.kind_mem {n c : Node} {kind : EntityKind} (h : n.Introduces c kind) :
    n.kind ∈ [Kind.typeDefinition, .aliasDeclaration, .typeParameter, .variadicTypeParameter,
      .optionalTypeParameter] := by
  cases h with
  | typedefName hn | typeAlias hn => simp [hn]
  | templateParameter hn => rcases hn with hn | hn | hn <;> simp [hn]

/-- The node is a `using` directive, which names a namespace. -/
def IsUsingDirective (n : Node) : Prop :=
  n.kind = .usingDeclaration ∧ n.hasToken .namespaceToken = true

/-- The node wraps the declarator or the name that its child is. -/
inductive Wraps (n c : Node) : Prop
  /-- a pointer, an array or a function, say, has the declarator in it as a field -/
  | declarator (hc : c.field = some .declarator) (hown : ∀ kind, ¬ n.Introduces c kind)
      (husing : ¬ n.IsUsingDirective) : Wraps n c
  /-- parentheses and references do not mark it -/
  | inner (hn : n.kind = .parenthesizedDeclarator ∨ n.kind = .referenceDeclarator) : Wraps n c
  | lastSegment (hn : n.kind = .qualifiedIdentifier) (hc : c.field = some .name) : Wraps n c
  | segment (hn : n.kind = .nestedNamespaceSpecifier) : Wraps n c

/-- The declarators of pointers, arrays and functions are nodes of no kind of their own. -/
theorem Wraps.of_other {n c : Node} {name : String} (hn : n.kind = .other name)
    (hc : c.field = some .declarator) : n.Wraps c := by
  refine .declarator hc (fun kind hown => ?_) (fun husing => ?_)
  · simpa [hn] using hown.kind_mem
  · cases hn.symm.trans husing.1

end Concrete.Node

namespace Resolution

variable {language : Language} {source : ByteArray} {spelling : String} {parse : Concrete.Parse}

section Roles
variable {n c : Concrete.Node} {context : Context} {outline : Outline}

/-- A node that does not introduce the name of its child, and is no directive, hands the role of a
defined name only to what it wraps. -/
theorem defines_declaratorContext {kind : EntityKind} (hown : ∀ kind, ¬ n.Introduces c kind)
    (husing : ¬ n.IsUsingDirective)
    (h : (declaratorContext n context c).role.defines? = some kind) :
    context.role.defines? = some kind ∧ n.Wraps c := by
  simp only [declaratorContext] at h
  split at h
  · next hwraps =>
    refine ⟨h, ?_⟩
    have hcases : (n.kind = .parenthesizedDeclarator ∨ n.kind = .referenceDeclarator) ∨
        c.field = some .declarator := by
      simpa using (Bool.and_eq_true_iff.1 hwraps).1
    rcases hcases with hn | hc
    · exact .inner hn
    · exact .declarator hc hown husing
  · cases h

theorem defines_parameterContext {kind : EntityKind} (hn : n.IsTypeParameter)
    (h : (parameterContext n context c).role.defines? = some kind) :
    n.Introduces c kind ∨ context.role.defines? = some kind ∧ n.Wraps c := by
  simp only [parameterContext] at h
  split at h
  · next hname =>
    obtain ⟨hc, hdefault⟩ : c.kind = .typeIdentifier ∧ c.field ≠ some .defaultType := by
      simpa using hname
    cases h
    exact .inl (.templateParameter hn hc hdefault)
  · next hname =>
    refine .inr (defines_declaratorContext (fun kind hown => ?_) (fun husing => ?_) h)
    · cases hown with
      | typedefName hn' | typeAlias hn' =>
          rw [Concrete.Node.IsTypeParameter, hn'] at hn
          simp at hn
      | templateParameter _ hc hdefault => exact hname (by simp [hc, hdefault])
    · rw [Concrete.Node.IsTypeParameter, husing.1] at hn
      simp at hn

theorem defines_usingContext {kind : EntityKind} (hn : n.kind = .usingDeclaration)
    (h : (usingContext n context c).role.defines? = some kind) :
    context.role.defines? = some kind ∧ n.Wraps c := by
  simp only [usingContext] at h
  split at h
  · cases h
  · next htoken =>
    refine defines_declaratorContext (fun kind hown => ?_) (fun husing => htoken husing.2) h
    simpa [hn] using hown.kind_mem

/-- **Where the role of a defined name comes from.**  The node around the name introduces it, or
wraps it and has the role itself. -/
theorem defines_childContext {kind : EntityKind}
    (h : (childContext n context outline c).role.defines? = some kind) :
    n.Introduces c kind ∨ context.role.defines? = some kind ∧ n.Wraps c := by
  have specifierName : ∀ kind', (specifierNameContext kind' outline).role.defines? ≠ some kind := by
    intro kind'
    simp only [specifierNameContext]
    split <;> simp [Context.ofRole, Role.defines?]
  unfold childContext at h
  split at h
  iterate 4 exact absurd h (specifierName _)
  · next hn hc => cases h; exact .inl (.typedefName hn hc)
  · next hn hc => cases h; exact .inl (.typeAlias hn hc)
  iterate 3 cases h
  · next hn => exact .inr ⟨h, .segment hn⟩
  · next hn => exact defines_parameterContext (.inl hn) h
  · next hn => exact defines_parameterContext (.inr (.inl hn)) h
  · next hn => exact defines_parameterContext (.inr (.inr hn)) h
  · cases h
  · next hn hc => exact .inr ⟨h, .lastSegment hn hc⟩
  · dsimp only at h
    split at h <;> cases h
  · next hn => exact .inr (defines_usingContext hn h)
  · refine .inr (defines_declaratorContext (fun kind hown => ?_) (fun husing => ?_) h)
    · cases hown with
      | typedefName hn hc =>
          exact ‹n.kind = .typeDefinition → c.field = some .declarator → False› hn hc
      | typeAlias hn hc =>
          exact ‹n.kind = .aliasDeclaration → c.field = some .name → False› hn hc
      | templateParameter hn =>
          rcases hn with hn | hn | hn
          · exact ‹n.kind = .typeParameter → False› hn
          · exact ‹n.kind = .variadicTypeParameter → False› hn
          · exact ‹n.kind = .optionalTypeParameter → False› hn
    · exact ‹n.kind = .usingDeclaration → False› husing.1

/-- A declarator hands the role of a type's name on to the declarator that it wraps. -/
theorem declaratorContext_of_declaredType {kind : EntityKind}
    (hrole : context.role = .declaredType kind)
    (hwraps : (n.kind = .parenthesizedDeclarator ∨ n.kind = .referenceDeclarator) ∨
      c.field = some .declarator) : declaratorContext n context c = context := by
  have hdeclared : context.role.isDeclaredType = true := by rw [hrole]; rfl
  rw [declaratorContext, if_pos]
  simpa [hdeclared] using hwraps

/-- **A node hands the role of a declared type to what it wraps.** -/
theorem role_of_wraps {kind : EntityKind} (h : n.Wraps c)
    (hrole : context.role = .declaredType kind) :
    (childContext n context outline c).role = .declaredType kind := by
  cases h with
  | declarator hc hown husing =>
      have hsame := declaratorContext_of_declaredType (n := n) hrole (.inr hc)
      have hparameter : n.IsTypeParameter → parameterContext n context c = context := by
        intro hn
        rw [parameterContext, if_neg, hsame]
        intro hname
        have hname : c.kind = .typeIdentifier := by simpa [hc] using hname
        exact hown _ (.templateParameter hn hname (by simp [hc]))
      unfold childContext
      split
      iterate 4 next hf => cases hc.symm.trans hf
      · next hn _ => exact absurd (.typedefName hn hc) (hown _)
      iterate 4 next hf => cases hc.symm.trans hf
      · exact hrole
      · next hn => rw [hparameter (.inl hn), hrole]
      · next hn => rw [hparameter (.inr (.inl hn)), hrole]
      · next hn => rw [hparameter (.inr (.inr hn)), hrole]
      iterate 3 next hf => cases hc.symm.trans hf
      · next hn => rw [usingContext, if_neg fun htoken => husing ⟨hn, htoken⟩, hsame, hrole]
      · rw [hsame, hrole]
  | inner hn =>
      have hsame := declaratorContext_of_declaredType (c := c) hrole (.inl hn)
      rcases hn with hn | hn <;> simp only [childContext, hn, hsame, hrole]
  | lastSegment hn hc => simp only [childContext, hn, hc, hrole]
  | segment hn => simp only [childContext, hn, hrole]

end Roles

/-! ### Down from a declarator -/

namespace Place

/-- Place `q` lies right below place `p`. -/
def IsParent (p q : Place) : Prop := ∃ k, p.IsChild k q

/-- Place `q` lies at or below place `p`. -/
def IsAbove : Place → Place → Prop := Relation.ReflTransGen IsParent

/-- Place `p` leads to place `q` through nodes each of which wraps the next. -/
def LeadsTo : Place → Place → Prop :=
  Relation.ReflTransGen fun p q => p.IsParent q ∧ p.node.Wraps q.node

/-- A definition at or below place `d` introduces, as a `kind`, the name at place `t`. -/
def IntroducesWithin (d t : Place) (kind : EntityKind) : Prop :=
  ∃ m c, d.IsAbove m ∧ m.IsParent c ∧ m.node.Introduces c.node kind ∧ c.LeadsTo t

/-- No node to which the place leads wraps two children, and no type identifier wraps any. -/
def LeadsStraight (d : Place) : Prop :=
  ∀ m, d.LeadsTo m → ∀ c, m.IsParent c → m.node.Wraps c.node →
    m.node.kind ≠ .typeIdentifier ∧ ∀ c', m.IsParent c' → m.node.Wraps c'.node → c' = c

/-- A place that leads straight leads to one type identifier. -/
theorem LeadsStraight.unique {d t u : Place} (h : d.LeadsStraight) (ht : d.LeadsTo t)
    (hu : d.LeadsTo u) (htype : t.node.kind = .typeIdentifier)
    (hutype : u.node.kind = .typeIdentifier) : u = t := by
  induction ht using Relation.ReflTransGen.head_induction_on with
  | refl =>
      rcases hu.cases_head with rfl | ⟨c, ⟨hc, hwraps⟩, -⟩
      · rfl
      · exact absurd htype (h t .refl c hc hwraps).1
  | @head d c hstep _ ih =>
      obtain ⟨hname, hone⟩ := h d .refl c hstep.1 hstep.2
      rcases hu.cases_head with rfl | ⟨c', ⟨hc', hwraps'⟩, hu⟩
      · exact absurd hutype hname
      · obtain rfl := hone c' hc' hwraps'
        exact ih (fun m hm => h m (hm.head hstep)) hu

/-- When the walk reads the place, it binds the name, as an ordinary one, to what the place defines,
in the innermost active scope that is not a template's. -/
def BindsOrdinary (language : Language) (source : ByteArray) (spelling : String)
    (parse : Concrete.Parse) (t : Place) (name : String) : Prop :=
  ∃ s context b e, t.ReadAt language source spelling parse s context ∧ s.scopes.InnermostPlain b ∧
    (t.reading language source s context).scopes.local? b .ordinary name = some e ∧
      (t.reading language source s context).scopes.definition? e = some t.id

end Place

section Walk
variable {sf : State} {p d t : Place}
  (hwalk : walk language source (.initial language spelling) (initialSteps parse) = .ok sf)
include hwalk

/-- A declarator of a `typedef` is read as one. -/
theorem readAt_declarator (hp : p ∈ allPlaces parse) (hkind : p.node.kind = .typeDefinition)
    (hd : p.IsParent d) (hfield : d.node.field = some .declarator) :
    ∃ s, d.ReadAt language source spelling parse s (.ofRole (.declaredType .typedefName)) := by
  obtain ⟨k, hd⟩ := hd
  obtain ⟨s, context, outline, hread⟩ := exists_readAt_child hwalk hp hd
  refine ⟨s, ?_⟩
  have hcontext : childContext p.node context outline d.node =
      .ofRole (.declaredType .typedefName) := by
    simp only [childContext, hkind, hfield]
  rwa [hcontext] at hread

/-- What a declarator leads to is read in the declarator's role. -/
theorem readAt_of_leadsTo {kind : EntityKind} {s : State} {context : Context}
    (hread : d.ReadAt language source spelling parse s context)
    (hrole : context.role = .declaredType kind) (h : d.LeadsTo t) :
    ∃ s context, t.ReadAt language source spelling parse s context ∧
      context.role = .declaredType kind := by
  induction h with
  | refl => exact ⟨s, context, hread, hrole⟩
  | tail _ hstep ih =>
      obtain ⟨⟨k, hchild⟩, hwraps⟩ := hstep
      obtain ⟨s₁, context₁, hread₁, hrole₁⟩ := ih
      obtain ⟨s₂, hread₂⟩ := hread₁.child hwalk hchild
      exact ⟨s₂, _, hread₂, role_of_wraps hwraps hrole₁⟩

/-- At and below a declarator a role says what a name is defined as only where the declarator leads,
or a definition inside of it. -/
theorem defines_of_isAbove {s : State}
    (hread : d.ReadAt language source spelling parse s (.ofRole (.declaredType .typedefName)))
    (h : d.IsAbove t) :
    ∃ s context, t.ReadAt language source spelling parse s context ∧
      ∀ kind, context.role.defines? = some kind →
        d.LeadsTo t ∧ kind = .typedefName ∨ d.IntroducesWithin t kind := by
  induction h with
  | refl =>
      refine ⟨s, _, hread, ?_⟩
      rintro kind ⟨⟩
      exact .inl ⟨.refl, rfl⟩
  | @tail m c hm hmc ih =>
      obtain ⟨k, hchild⟩ := hmc
      obtain ⟨s₁, context₁, hread₁, hdefines⟩ := ih
      obtain ⟨s₂, hread₂⟩ := hread₁.child hwalk hchild
      refine ⟨s₂, _, hread₂, ?_⟩
      intro kind hrole
      rcases defines_childContext hrole with hintroduces | ⟨hrole, hwraps⟩
      · exact .inr ⟨m, c, hm, ⟨k, hchild⟩, hintroduces, .refl⟩
      · rcases hdefines kind hrole with ⟨hleads, hkind⟩ | ⟨m', c', hm', hmc', hintroduces, hleads⟩
        · exact .inl ⟨hleads.tail ⟨⟨k, hchild⟩, hwraps⟩, hkind⟩
        · exact .inr ⟨m', c', hm', hmc', hintroduces, hleads.tail ⟨⟨k, hchild⟩, hwraps⟩⟩

end Walk

/-- The name of a declared type is bound to what it defines. -/
theorem bindsOrdinary_of_readAt {s : State} {context : Context} {kind : EntityKind} {t : Place}
    (hread : t.ReadAt language source spelling parse s context)
    (hkind : t.node.kind = .typeIdentifier) (hrole : context.role = .declaredType kind)
    (hne : kind ≠ .namespaceName) :
    t.BindsOrdinary language source spelling parse (textOf source t.node.item) := by
  obtain ⟨rest, hruns⟩ := hread.runs
  have standing := (sound_of_parse hruns).1.standing
  have hscopes : (t.reading language source s context).scopes =
      (s.scopes.perform (.define .ordinary (textOf source t.node.item) kind t.id)).2 := by
    simp only [Place.reading, readNode, hkind, readTypeIdentifier, hrole, hread.id]
    rfl
  have hanswer : (s.scopes.perform (.define .ordinary (textOf source t.node.item) kind t.id)).1 =
      .entity _ := rfl
  obtain ⟨b, hb, hlocal⟩ := Table.local?_of_answer standing hanswer
  cases hb
  refine ⟨s, context, _, _, hread, (nested_of_runs hruns).2, hscopes ▸ hlocal, hscopes ▸ ?_⟩
  exact Table.definition?_of_answer standing hanswer rfl fun h => hne (Option.some.inj h)

/-- **The names that a `typedef` defines.**  A type identifier to which a declarator of the
`typedef` leads is a definition of its text as the name of a type, which is bound as an ordinary name
in the innermost active scope that is not a template's.  A type identifier in the declarator that is a
definition is one of these, or another definition inside the declarator introduces it.  So if the
declarator leads straight to a name, it is the only one that is defined on account of the
declarator. -/
theorem typedef_names_defined {tree : Tree} {stats : Stats}
    (h : resolveNames language source spelling parse = .ok (tree, stats)) {p d : Place}
    (hp : p ∈ allPlaces parse) (hkind : p.node.kind = .typeDefinition) (hd : p.IsParent d)
    (hfield : d.node.field = some .declarator) :
    (∀ t, d.LeadsTo t → t.node.kind = .typeIdentifier →
      tree.content? t.id = some (.definition ⟨.typedefName, textOf source t.node.item⟩) ∧
        t.BindsOrdinary language source spelling parse (textOf source t.node.item)) ∧
    ∀ u, d.IsAbove u → u.node.kind = .typeIdentifier →
      ∀ kind name, tree.content? u.id = some (.definition ⟨kind, name⟩) →
        (d.LeadsTo u ∧ kind = .typedefName ∨ d.IntroducesWithin u kind) ∧
          (d.LeadsStraight → ∀ t, d.LeadsTo t → t.node.kind = .typeIdentifier →
            u = t ∨ d.IntroducesWithin u kind) := by
  obtain ⟨sf, s', hwalk, hfinish, rfl⟩ := resolveNames_eq_ok h
  have hgrows := (linked_of_link hfinish).1.grows
  obtain ⟨s, hread⟩ := readAt_declarator hwalk hp hkind hd hfield
  constructor
  · intro t hleads htype
    obtain ⟨s₁, context, hread₁, hrole⟩ := readAt_of_leadsTo hwalk hread rfl hleads
    have hbinds := bindsOrdinary_of_readAt hread₁ htype hrole (by decide)
    refine ⟨(definition_of_readAt hwalk hgrows hread₁ htype).2 ⟨?_, rfl⟩, hbinds⟩
    rw [hrole]
    rfl
  · intro u habove hutype kind name hdefinition
    obtain ⟨s₁, context, hread₁, hdefines⟩ := defines_of_isAbove hwalk hread habove
    have hrole := ((definition_of_readAt hwalk hgrows hread₁ hutype).1 hdefinition).1
    have hcases := hdefines kind hrole
    refine ⟨hcases, fun hstraight t hleads htype => hcases.imp_left ?_⟩
    rintro ⟨hu, -⟩
    exact hstraight.unique hleads hu htype hutype

/-- The source `typedef S (*f[2])(S*);`. -/
def pointerSource : ByteArray := "typedef S (*f[2])(S*);".toUTF8

open Concrete.Node in
/-- Its parse. -/
def pointerParse : Concrete.Parse where
  root := onLine .translationUnit none 0 22
    [onLine .typeDefinition none 0 22
      [token "typedef" 0, onLine .typeIdentifier (some .type) 8 9 [],
        onLine (.other "function_declarator") (some .declarator) 10 21
          [onLine .parenthesizedDeclarator (some .declarator) 10 17
            [token "(" 10,
              onLine (.other "pointer_declarator") none 11 16
                [token "*" 11,
                  onLine (.other "array_declarator") (some .declarator) 12 16
                    [onLine .typeIdentifier (some .declarator) 12 13 [], token "[" 13,
                      onLine (.other "number_literal") (some (.other "size")) 14 15 [],
                      token "]" 15]],
              token ")" 16],
            onLine (.other "parameter_list") (some (.other "parameters")) 17 21
              [token "(" 17,
                onLine (.other "parameter_declaration") none 18 20
                  [onLine .typeIdentifier (some .type) 18 19 [],
                    onLine (.other "abstract_pointer_declarator") (some .declarator) 19 20
                      [token "*" 19]],
                token ")" 20]],
        token ";" 21]]
  hasError := false

/-- The name of an array of pointers to functions is defined, and the type of a parameter is not. -/
theorem typedef_names_defined_pointer : ∃ tree stats,
    resolveNames .c pointerSource "t.c" pointerParse = .ok (tree, stats) ∧
      (places pointerParse)[2].LeadsTo (places pointerParse)[6] ∧
      tree.content? ⟨7⟩ = some (.definition ⟨.typedefName, "f"⟩) ∧
      (places pointerParse)[6].BindsOrdinary .c pointerSource "t.c" pointerParse "f" ∧
      tree.content? ⟨11⟩ = some (.reference ⟨.typeName, "S", none⟩) := by
  have hvalue : (resolveNames .c pointerSource "t.c" pointerParse).toOption.map
      (fun r => r.1.content? ⟨11⟩) = some (some (.reference ⟨.typeName, "S", none⟩)) := by
    decide +kernel
  obtain ⟨⟨tree, stats⟩, h, hparameter⟩ := exists_ok_of_map hvalue
  have hleads : (places pointerParse)[2].LeadsTo (places pointerParse)[6] := by
    refine .head (b := (places pointerParse)[3]) ⟨⟨0, rfl, rfl, rfl, rfl, rfl, rfl⟩, ?_⟩ <|
      .head (b := (places pointerParse)[4]) ⟨⟨1, rfl, rfl, rfl, rfl, rfl, rfl⟩, ?_⟩ <|
      .head (b := (places pointerParse)[5]) ⟨⟨1, rfl, rfl, rfl, rfl, rfl, rfl⟩, ?_⟩ <|
      .single ⟨⟨0, rfl, rfl, rfl, rfl, rfl, rfl⟩, ?_⟩
    · exact .of_other rfl rfl
    · exact .inner (.inl rfl)
    · exact .of_other rfl rfl
    · exact .of_other rfl rfl
  obtain ⟨hcontent, hbinds⟩ := (typedef_names_defined h (p := (places pointerParse)[0])
    (d := (places pointerParse)[2]) (mem_allPlaces (List.getElem_mem _)) rfl
    ⟨2, rfl, rfl, rfl, rfl, rfl, rfl⟩ rfl).1 _ hleads rfl
  have hname : textOf pointerSource (places pointerParse)[6].node.item = "f" := by decide +kernel
  rw [hname] at hcontent hbinds
  exact ⟨tree, stats, h, hleads, hcontent, hbinds, hparameter⟩

/-! ### A declarator that leads nowhere -/

/-- The source `typedef int T [[deprecated]]; T t;`. -/
def attributedSource : ByteArray := "typedef int T [[deprecated]]; T t;\n".toUTF8

open Concrete.Node in
/-- Its parse. -/
def attributedParse : Concrete.Parse where
  root := onLine .translationUnit none 0 35
    [onLine .typeDefinition none 0 29
      [token "typedef" 0, onLine (.other "primitive_type") (some .type) 8 11 [],
        onLine (.other "attributed_declarator") (some .declarator) 12 28
          [onLine .typeIdentifier none 12 13 [],
            onLine (.other "attribute_declaration") none 14 28
              [token "[[" 14,
                onLine (.other "attribute") none 16 26 [onLine .identifier (some .name) 16 26 []],
                token "]]" 26]],
        token ";" 28],
      onLine .declaration none 30 34
        [onLine .typeIdentifier (some .type) 30 31 [],
          onLine .identifier (some .declarator) 32 33 [], token ";" 33]]
  hasError := false

/-- The name in a declarator with attributes is not defined, and neither is its use resolved. -/
theorem attributed_name_escapes : ∃ tree stats,
    resolveNames .c attributedSource "t.c" attributedParse = .ok (tree, stats) ∧
      ∃ p ∈ places attributedParse, ∃ d ∈ places attributedParse, ∃ t ∈ places attributedParse,
        p.node.kind = .typeDefinition ∧ p.IsParent d ∧ d.node.field = some .declarator ∧
        d.node.kind = .other "attributed_declarator" ∧ d.IsParent t ∧
        t.node.kind = .typeIdentifier ∧
        tree.content? t.id = some (.reference ⟨.typeName, "T", none⟩) ∧
        tree.content? ⟨9⟩ = some (.reference ⟨.typeName, "T", none⟩) := by
  have hvalue : (resolveNames .c attributedSource "t.c" attributedParse).toOption.map
      (fun r => (r.1.content? ⟨4⟩, r.1.content? ⟨9⟩)) =
        some (some (.reference ⟨.typeName, "T", none⟩),
          some (.reference ⟨.typeName, "T", none⟩)) := by
    decide +kernel
  obtain ⟨⟨tree, stats⟩, h, hvalue⟩ := exists_ok_of_map hvalue
  obtain ⟨hname, huse⟩ := Prod.mk.inj hvalue
  exact ⟨tree, stats, h, (places attributedParse)[0], List.getElem_mem _,
    (places attributedParse)[2], List.getElem_mem _, (places attributedParse)[3],
    List.getElem_mem _, rfl, ⟨2, rfl, rfl, rfl, rfl, rfl, rfl⟩, rfl, rfl,
    ⟨0, rfl, rfl, rfl, rfl, rfl, rfl⟩, rfl, hname, huse⟩

end Resolution

end TypeUses
