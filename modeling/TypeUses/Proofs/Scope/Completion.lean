import TypeUses.Proofs.Scope.WriteOnce

/-!
# Scopes — a declared name gets its definition later

A declaration answers with an entity that need not have a definition.  The scope binds the name to
it (`means_of_declaration`) until some operation binds the name there to an entity that it makes
(`BindsAnew`); nothing else changes what the name means in the scope (`Means.performAll`).  As
long as it does so, a further declaration of an interchangeable kind answers with the same entity
(`Means.declaration`), and a definition of such a kind completes it (`Means.definition`), while
one of another kind makes an entity of its own (`Means.other_definition`).

So a definition completes what has been declared, whatever lies between the two
(`declared_is_completed`).  A namespace has no kind but its own to be interchanged with, so that its
name is never bound anew (`Means.perform_namespace`), and each definition answers with the one
entity (`Means.namespace_answer`).
-/

namespace TypeUses.Table

variable {t t' : Table} {op : Operation} {s : ScopeId} {space : Space} {name : String}
  {kind kind' : EntityKind} {e : EntityId} {d : NodeId}

/-! ### Naming an entity -/

/-- The operation names an entity of a kind in scope `s`.  The node defines it; if there is none, it
is only declared. -/
def NamesIn (t : Table) (op : Operation) (s : ScopeId) (space : Space) (name : String)
    (kind : EntityKind) (node : Option NodeId) : Prop :=
  ∃ accepts, op.binding? = some ⟨accepts, space, name, kind, node⟩ ∧ t.innermost accepts = s

/-- The operation binds the name in scope `s` to an entity that it makes.  Where tags are types, the
name of a tag is an ordinary name as well. -/
def BindsAnew (t : Table) (op : Operation) (s : ScopeId) (space : Space) (name : String) : Prop :=
  (t.perform op).1 = .entity ⟨t.entities.size⟩ ∧
    ∃ b ∈ op.binding?, t.innermost b.accepts = s ∧ b.name = name ∧
      (b.space = space ∨ t.tagsAreTypes ∧ b.space = .tag ∧ space = .ordinary)

/-- None of the operations binds the name anew in scope `s`. -/
def LeavesBound (s : ScopeId) (space : Space) (name : String) : Table → List Operation → Prop
  | _, [] => True
  | t, op :: ops =>
    ¬ t.BindsAnew op s space name ∧ LeavesBound s space name (t.perform op).2 ops

/-- What is named as one of the kinds may be named as one of the other: the kinds are the same, or
tags are types and both are tags. -/
def Interchangeable (t : Table) (kind kind' : EntityKind) : Prop :=
  kind' = kind ∨ t.tagsAreTypes = true ∧ kind.isTag = true ∧ kind'.isTag = true

instance : Decidable (t.BindsAnew op s space name) :=
  inferInstanceAs (Decidable (_ ∧ ∃ b ∈ op.binding?, _))

instance LeavesBound.decidable : (t : Table) → (ops : List Operation) →
    Decidable (LeavesBound s space name t ops)
  | _, [] => isTrue trivial
  | t, op :: ops =>
    have := LeavesBound.decidable (t.perform op).2 ops
    inferInstanceAs (Decidable (_ ∧ _))

/-! ### Kinds -/

/-- Kinds are compatible just when they are interchangeable. -/
theorem compatible_iff : t.compatible kind kind' = true ↔ t.Interchangeable kind kind' := by
  simp only [compatible, Interchangeable, Bool.or_eq_true, Bool.and_eq_true, beq_iff_eq, and_assoc,
    eq_comm (a := kind)]

namespace Interchangeable

theorem refl (t : Table) (kind : EntityKind) : t.Interchangeable kind kind := Or.inl rfl

theorem symm (h : t.Interchangeable kind kind') : t.Interchangeable kind' kind :=
  h.imp Eq.symm fun ⟨htypes, htag, htag'⟩ => ⟨htypes, htag', htag⟩

theorem trans {kind'' : EntityKind} (h : t.Interchangeable kind kind')
    (h' : t.Interchangeable kind' kind'') : t.Interchangeable kind kind'' := by
  rcases h with rfl | ⟨htypes, htag, htag'⟩
  · exact h'
  · rcases h' with rfl | ⟨-, -, htag''⟩
    · exact Or.inr ⟨htypes, htag, htag'⟩
    · exact Or.inr ⟨htypes, htag, htag''⟩

theorem of_tagsAreTypes (h : t.Interchangeable kind kind')
    (htypes : t'.tagsAreTypes = t.tagsAreTypes) : t'.Interchangeable kind kind' := by
  rwa [Interchangeable, htypes]

end Interchangeable

/-- An entity turns only into a kind that is interchangeable with its own. -/
theorem Turns.interchangeable (h : Turns t t' e kind kind') : t.Interchangeable kind kind' :=
  h.imp_right fun ⟨_, _, htags⟩ => htags

/-! ### What a name means in a scope -/

/-- Scope `s` binds the name to the entity, which may be named as one of the kind. -/
structure Means (t : Table) (s : ScopeId) (space : Space) (name : String) (kind : EntityKind)
    (e : EntityId) : Prop where
  bound : t.local? s space name = some e
  kind : ∃ existing, t.kind? e = some existing ∧ t.Interchangeable existing kind

/-- A declaration binds the name to the entity with which it answers. -/
theorem means_of_declaration (ht : t.Standing) (hop : t.NamesIn op s space name kind none)
    (he : (t.perform op).1 = .entity e) : (t.perform op).2.Means s space name kind e := by
  obtain ⟨accepts, hb, rfl⟩ := hop
  have hchanges := changes_perform ht op
  rw [he] at hchanges
  generalize (t.perform op).2 = t' at hchanges ⊢
  cases hchanges with
  | rebind hb' hlocal hkind hcompatible =>
      cases hb'.symm.trans hb
      exact ⟨hlocal, _, hkind, compatible_iff.1 hcompatible⟩
  | create hb' hs =>
      cases hb'.symm.trans hb
      refine ⟨by rw [local?_create hs, if_pos ⟨rfl, rfl, Or.inl rfl⟩], kind, ?_, .refl _ kind⟩
      rw [kind?, entity?_create, if_pos rfl]
      rfl

namespace Means

variable (h : t.Means s space name kind e)
include h

/-- Only what binds a name anew changes what it means. -/
theorem perform (ht : t.Standing) (hno : ¬ t.BindsAnew op s space name) :
    (t.perform op).2.Means s space name kind e := by
  have htypes := (keeps_perform t op).tagsAreTypes
  obtain ⟨existing, hk, halike⟩ := h.kind
  obtain ⟨existing', hk', hturns⟩ : ∃ k, (t.perform op).2.kind? e = some k ∧
      Turns t (t.perform op).2 e existing k := kind?_of_perform ht hk
  refine ⟨?_, existing', hk', (hturns.interchangeable.symm.trans halike).of_tagsAreTypes htypes⟩
  rcases locals_of_perform ht op with hsame | ⟨b, hb, hnew, hlocal⟩
  · exact (hsame ..).trans h.bound
  · obtain ⟨info, hi, -⟩ := Option.map_eq_some_iff.1 hnew
    rw [hlocal, if_neg fun hanew => hno ⟨?_, b, hb, hanew⟩]
    · exact h.bound
    · exact (answer_of_new (Nat.le_refl _) (lt_of_entity? hi)).1

/-- **A name goes on to mean the same** as long as it is not bound anew. -/
theorem performAll (ht : t.Closed t.present) {ops : List Operation} (hops : t.Allows ops)
    (hfree : LeavesBound s space name t ops) :
    (t.performAll ops).2.Means s space name kind e := by
  induction ops generalizing t with
  | nil => exact h
  | cons op ops ih =>
      exact ih (h.perform ht.standing hfree.1) (ht.perform_present hops.1) hops.2 hfree.2

theorem interchangeable_iff {existing : EntityKind} (hk : t.kind? e = some existing) :
    t.Interchangeable existing kind' ↔ t.Interchangeable kind kind' := by
  obtain ⟨_, hk', halike⟩ := h.kind
  cases hk'.symm.trans hk
  exact ⟨halike.symm.trans, halike.trans⟩

/-- An interchangeable kind finds the entity under its name. -/
theorem compatible?_eq_some (halike : t.Interchangeable kind kind') :
    t.compatible? s space name kind' = some e := by
  obtain ⟨existing, hk, -⟩ := h.kind
  have hcompatible := compatible_iff.2 ((h.interchangeable_iff hk).2 halike)
  simp [compatible?, h.bound, hk, hcompatible]

theorem compatible?_eq_none (hother : ¬ t.Interchangeable kind kind') :
    t.compatible? s space name kind' = none := by
  obtain ⟨existing, hk, -⟩ := h.kind
  have hcompatible := mt compatible_iff.1 (mt (h.interchangeable_iff hk).1 hother)
  simp [compatible?, h.bound, hk, hcompatible]

/-- A declaration answers with the entity that the name means. -/
theorem declaration (ht : t.Standing) (hop : t.NamesIn op s space name kind' none)
    (halike : t.Interchangeable kind kind') : (t.perform op).1 = .entity e := by
  obtain ⟨accepts, hb, rfl⟩ := hop
  rw [perform_of_binding ht.current hb, bindName, declareIn, h.compatible?_eq_some halike]

/-- A definition completes the entity that the name means, if it has none yet. -/
theorem definition (ht : t.Standing) (hop : t.NamesIn op s space name kind' (some d))
    (halike : t.Interchangeable kind kind') (hnone : t.definition? e = none) :
    (t.perform op).1 = .entity e ∧ (t.perform op).2.definition? e = some d ∧
      ¬ t.BindsAnew op s space name := by
  obtain ⟨accepts, hb, rfl⟩ := hop
  obtain ⟨existing, hk, -⟩ := h.kind
  obtain ⟨info, hi, -⟩ := Option.map_eq_some_iff.1 hk
  have hperform : t.perform op = (.entity e, t.complete e kind' d) := by
    rw [perform_of_binding ht.current hb]
    simp [bindName, defineIn, h.compatible?_eq_some halike, hnone]
  refine ⟨by rw [hperform], ?_, fun hanew => ?_⟩
  · have hinfo : info.definition = none := by simpa [definition?, hi] using hnone
    simp [hperform, definition?, hi, hinfo]
  · -- an entity that is made was not there
    have hnew := hanew.1
    rw [hperform] at hnew
    cases hnew
    exact Nat.lt_irrefl _ (lt_of_entity? hi)

/-- A definition of another kind makes an entity of its own. -/
theorem other_definition (ht : t.Standing) (hop : t.NamesIn op s space name kind' (some d))
    (hother : ¬ t.Interchangeable kind kind') :
    ∃ e', (t.perform op).1 = .entity e' ∧ e' ≠ e ∧ t.entity? e' = none ∧
      (t.perform op).2.definition? e = t.definition? e := by
  obtain ⟨accepts, hb, rfl⟩ := hop
  obtain ⟨existing, hk, -⟩ := h.kind
  obtain ⟨info, hi, -⟩ := Option.map_eq_some_iff.1 hk
  have hne : e ≠ ⟨t.entities.size⟩ := by
    rintro rfl
    exact Nat.lt_irrefl _ (lt_of_entity? hi)
  have hperform : t.perform op = (.entity ⟨t.entities.size⟩,
      (t.create (t.innermost accepts) space name ⟨kind', some d, none⟩).2) := by
    rw [perform_of_binding ht.current hb]
    simp only [bindName, defineIn, h.compatible?_eq_none hother]
    rfl
  refine ⟨⟨t.entities.size⟩, by rw [hperform], hne.symm, Array.getElem?_size, ?_⟩
  rw [hperform, definition?, entity?_create, if_neg hne, definition?]

end Means

/-! ### Names of namespaces -/

section Namespaces
variable {b : Binding}

namespace Means

variable (h : t.Means s .namespaces name .namespaceName e) (ht : t.Standing)
include h ht

/-- A binding of the name as that of a namespace answers with the namespace that it means. -/
theorem namespace_answer (hb : op.binding? = some b) (hs : t.innermost b.accepts = s)
    (hname : b.name = name) (hspace : b.space = .namespaces) (hkind : b.kind = .namespaceName) :
    (t.perform op).1 = .entity e := by
  have hcompatible := h.compatible?_eq_some (.refl t .namespaceName)
  rw [perform_of_binding ht.current hb, bindName]
  cases b.node with
  | some node => simp [defineIn, hs, hname, hspace, hkind, hcompatible]
  | none => simp [declareIn, hs, hname, hspace, hkind, hcompatible]

/-- **The name of a namespace is never bound anew** as that of another. -/
theorem perform_namespace
    (hop : ∀ b ∈ op.binding?, b.space = .namespaces → b.kind = .namespaceName) :
    (t.perform op).2.Means s .namespaces name .namespaceName e := by
  refine h.perform ht ?_
  rintro ⟨hnew, b, hb, hs, hname, hspace | ⟨-, -, hspace⟩⟩
  · rw [h.namespace_answer ht hb hs hname hspace (hop b hb hspace)] at hnew
    obtain ⟨existing, hk, -⟩ := h.kind
    obtain ⟨info, hi, -⟩ := Option.map_eq_some_iff.1 hk
    cases hnew
    exact Nat.lt_irrefl _ (lt_of_entity? hi)
  · cases hspace

end Means

/-- The definition of a namespace binds its name to the entity with which it answers. -/
theorem means_of_namespace (ht : t.Standing) {d : NodeId}
    (h : (t.perform (.define .namespaces name .namespaceName d)).1 = .entity e) :
    (t.perform (.define .namespaces name .namespaceName d)).2.Means t.bindingScope .namespaces name
      .namespaceName e := by
  obtain ⟨b, hb, hlocal⟩ := local?_of_answer ht h
  cases hb
  exact ⟨hlocal, .namespaceName, (defined_of_answer ht h rfl).2, .refl _ _⟩

end Namespaces

/-! ### Declarations and definitions -/

/-- Every declaration of the name in scope `s`, as of a kind interchangeable with this one, answers
with the entity. -/
def DeclaredAs (t : Table) (s : ScopeId) (space : Space) (name : String) (kind : EntityKind)
    (e : EntityId) : Prop :=
  ∀ op kind', t.NamesIn op s space name kind' none → t.Interchangeable kind kind' →
    (t.perform op).1 = .entity e

theorem NamesIn.subject? {node : Option NodeId} (h : t.NamesIn op s space name kind node) :
    op.subject? = none := by
  obtain ⟨accepts, hb, -⟩ := h
  cases op <;> cases hb <;> rfl

theorem NamesIn.reachable {node : Option NodeId} (h : t.NamesIn op s space name kind node)
    (ht : t.Reachable) : (t.perform op).2.Reachable := by
  have hop : t.Allows [op] := ⟨by simp [h.subject?], trivial⟩
  exact ht.performAll hop

theorem LeavesBound.of_append {ops ops' : List Operation}
    (h : LeavesBound s space name t (ops ++ ops')) : LeavesBound s space name t ops := by
  induction ops generalizing t with
  | nil => exact trivial
  | cons op ops ih => exact ⟨h.1, ih h.2⟩

/-- **What is declared is completed.**  Let a declaration in scope `s` answer with entity `e`, and
let operations follow none of which binds the name anew there.  All the while the name means `e`
in the scope, and every declaration of it there as of an interchangeable kind answers with `e`.
If `e` is still not defined then, a definition of such a kind answers with `e`: its node defines
`e` whatever follows, and as long as the name is not bound anew, declarations go on to answer with
`e`.  A definition of another kind answers with a new entity, and leaves `e` without a definition.
-/
theorem declared_is_completed (ht : t.Reachable) (hop : t.NamesIn op s space name kind none)
    (he : (t.perform op).1 = .entity e) {ops : List Operation} (hops : (t.perform op).2.Allows ops)
    (hfree : LeavesBound s space name (t.perform op).2 ops)
    (hnone : ((t.perform op).2.performAll ops).2.definition? e = none) :
    (∀ front back, ops = front ++ back →
      let t₁ := ((t.perform op).2.performAll front).2
      t₁.search [space] name s = some e ∧ t₁.DeclaredAs s space name kind e) ∧
    let t₁ := ((t.perform op).2.performAll ops).2
    ∀ op' kind' d, t₁.NamesIn op' s space name kind' (some d) →
      (t.Interchangeable kind kind' → (t₁.perform op').1 = .entity e ∧
        ∀ later, (t₁.perform op').2.Allows later →
          let t₂ := ((t₁.perform op').2.performAll later).2
          t₂.definition? e = some d ∧
            (LeavesBound s space name (t₁.perform op').2 later →
              t₂.DeclaredAs s space name kind e)) ∧
      (¬ t.Interchangeable kind kind' → ∃ e', (t₁.perform op').1 = .entity e' ∧ e' ≠ e ∧
        t₁.entity? e' = none ∧ (t₁.perform op').2.definition? e = none) := by
  have hmade := hop.reachable ht
  have hmeans := means_of_declaration ht.closed.standing hop he
  refine ⟨?_, ?_⟩
  · rintro front back rfl t₁
    have hfront := (allows_append.1 hops).1
    have hmeans₁ : t₁.Means s space name kind e :=
      hmeans.performAll hmade.closed hfront hfree.of_append
    refine ⟨?_, fun op' kind' => hmeans₁.declaration (hmade.performAll hfront).closed.standing⟩
    rw [search, List.findSome?_cons, localIn?, List.findSome?_cons, hmeans₁.bound]
  · intro t₁ op' kind' d hop'
    have hreachable₁ : t₁.Reachable := hmade.performAll hops
    have hstanding₁ := hreachable₁.closed.standing
    have hmeans₁ : t₁.Means s space name kind e := hmeans.performAll hmade.closed hops hfree
    have htypes : t₁.tagsAreTypes = t.tagsAreTypes :=
      (keeps_performAll _ ops).tagsAreTypes.trans (keeps_perform t op).tagsAreTypes
    -- an interchangeable kind completes the entity, any other makes an entity of its own
    refine ⟨fun halike => ?_, fun hother => ?_⟩
    · obtain ⟨hanswer, hdefined, hkeeps⟩ :=
        hmeans₁.definition hstanding₁ hop' (halike.of_tagsAreTypes htypes) hnone
      refine ⟨hanswer, fun later hlater => ⟨?_, fun hfree₂ op'' kind'' => ?_⟩⟩
      · exact (keeps_performAll _ later).definition hdefined
      · -- the definition does not bind the name anew either
        have hmade₁ := hop'.reachable hreachable₁
        exact ((hmeans₁.perform hstanding₁ hkeeps).performAll hmade₁.closed hlater
          hfree₂).declaration (hmade₁.performAll hlater).closed.standing
    · obtain ⟨e', hanswer, hne, hnew, hsame⟩ := hmeans₁.other_definition hstanding₁ hop'
        fun halike => hother (halike.of_tagsAreTypes htypes.symm)
      exact ⟨e', hanswer, hne, hnew, hsame.trans hnone⟩

/-- A struct that its first use declares in a template.  A block declares another of that name
before the template declares it as a class, which is then defined; a typedef would not define it.
-/
theorem declared_is_completed_class :
    let t := ((empty true).performAll [.enter .template]).2
    let ops : List Operation :=
      [.enter .block, .declare .tag "P" .structTag, .leave, .declare .tag "P" .classTag]
    let t₁ := ((t.perform (.declareImplicit .tag "P" .structTag)).2.performAll ops).2
    let define := Operation.define .tag "P" .classTag ⟨7⟩
    let later : List Operation := [.enter .function, .define .tag "P" .enumTag ⟨8⟩, .leave]
    let t₂ := ((t₁.perform define).2.performAll later).2
    (t.perform (.declareImplicit .tag "P" .structTag)).1 = .entity ⟨0⟩ ∧
      t₁.definition? ⟨0⟩ = none ∧ t₁.search [.tag] "P" fileScope = some ⟨0⟩ ∧
      (t₁.perform define).1 = .entity ⟨0⟩ ∧ t₂.definition? ⟨0⟩ = some ⟨7⟩ ∧
      (t₂.perform (.declare .tag "P" .structTag)).1 = .entity ⟨0⟩ ∧
      ∃ e, (t₁.perform (.define .tag "P" .typedefName ⟨9⟩)).1 = .entity e ∧ e ≠ ⟨0⟩ := by
  intro t ops t₁ define later t₂
  have ht : t.Reachable := (reachable_empty true).performAll (by decide)
  have hdeclares : t.NamesIn (.declareImplicit .tag "P" .structTag) fileScope .tag "P" .structTag
      none := ⟨_, rfl, by decide⟩
  have hallowed : (t.perform (.declareImplicit .tag "P" .structTag)).2.Allows ops := by decide
  have hnone : t₁.definition? ⟨0⟩ = none := by decide
  obtain ⟨hall, hdefinition⟩ :=
    declared_is_completed ht hdeclares (by decide) hallowed (by decide) hnone
  obtain ⟨hmeans, -⟩ := hall ops [] (List.append_nil ops).symm
  obtain ⟨hclass, -⟩ := hdefinition define .classTag ⟨7⟩ ⟨_, rfl, by decide⟩
  obtain ⟨-, htypedef⟩ :=
    hdefinition (.define .tag "P" .typedefName ⟨9⟩) .typedefName ⟨9⟩ ⟨_, rfl, by decide⟩
  obtain ⟨hanswer, hlater⟩ := hclass (Or.inr (by decide))
  obtain ⟨hdefined, hagain⟩ := hlater later (by decide)
  obtain ⟨e, hother, hne, -⟩ := htypedef fun halike => by
    rcases halike with h | ⟨-, -, h⟩ <;> cases h
  exact ⟨by decide, hnone, hmeans, hanswer, hdefined,
    hagain (by decide) _ .structTag ⟨_, rfl, by decide⟩ (Or.inl rfl), e, hother, hne⟩

end TypeUses.Table
