import TypeUses.Proofs.Scope.Apart
import TypeUses.Proofs.Scope.Binding

/-!
# Scopes — where entities are bound

A table is `Placed` if each of its entities is bound in one scope, has a scope for its members only
if it is defined, and if the scopes that are used are scopes of members.  Every operation keeps this,
if the members that it enters are those of a defined entity (`Placed.perform`).

What an operation does is told here for all operations together.  For an entity: where the one with
which it answers is bound (`holds_of_answer`), when it defines one (`defined_of_perform`) and when it
gives one a scope for its members (`members?_of_perform`); its kind may become another only when it
gets its definition (`kind?_of_perform`).  For a scope: when it becomes active
(`mem_active_of_perform`), what is around it (`chain_of_perform`) and what it comes to use
(`usedBy_of_perform`).
-/

namespace TypeUses.Table

/-- Scope `s` binds a name to the entity. -/
def Holds (t : Table) (s : ScopeId) (e : EntityId) : Prop :=
  ∃ scope, t.scope? s = some scope ∧ ∃ b ∈ scope.names, b.2 = e

/-- An entity of kind `kind` in `t` may be one of kind `kind'` in `t'`: the kinds are the same, or the
entity is defined in between, tags are types and both kinds are tags. -/
def Turns (t t' : Table) (e : EntityId) (kind kind' : EntityKind) : Prop :=
  kind' = kind ∨ t.definition? e = none ∧ (∃ d, t'.definition? e = some d) ∧
    t.tagsAreTypes = true ∧ kind.isTag = true ∧ kind'.isTag = true

variable {t t' : Table} {op : Operation} {s x : ScopeId} {e : EntityId}

/-- A defined entity keeps its kind. -/
theorem Turns.of_defined {kind kind' : EntityKind} (h : Turns t t' e kind kind') {d : NodeId}
    (hd : t.definition? e = some d) : kind' = kind := by
  rcases h with rfl | ⟨hnone, -⟩
  · rfl
  · rw [hd] at hnone; cases hnone

/-! ### The changes that operations are made of -/

theorem Holds.grows {new : NodeId → Prop} (h : t.Holds s e) (hg : Grows new t t') :
    t'.Holds s e := by
  obtain ⟨scope, hs, b, hb, he⟩ := h
  obtain ⟨scope', hs', -, -, hn⟩ := hg.scope hs
  exact ⟨scope', hs', b, hn b hb, he⟩

theorem Holds.lt (h : t.Holds s e) : s.index < t.scopes.size := by
  obtain ⟨scope, hs, -⟩ := h
  exact lt_of_scope? hs

theorem holds_of_scopes (h : t'.scopes = t.scopes) : t'.Holds s e ↔ t.Holds s e := by
  rw [Holds, Holds, scope?, scope?, h]

theorem holds_of_newScope {kind : ScopeKind} (h : (t.newScope kind).2.Holds s e) :
    t.Holds s e := by
  obtain ⟨scope, hs, b, hb, he⟩ := h
  rw [scope?_newScope] at hs
  split at hs
  · cases hs; cases hb
  · exact ⟨scope, hs, b, hb, he⟩

theorem holds_of_useIn {y : ScopeId} (h : (t.useIn y x).Holds s e) : t.Holds s e := by
  obtain ⟨scope, hs, b, hb, he⟩ := h
  rw [scope?_useIn] at hs
  split at hs
  · obtain ⟨old, hold, rfl⟩ := Option.map_eq_some_iff.1 hs
    exact ⟨old, hold, b, by rwa [Scope.names_use] at hb, he⟩
  · exact ⟨scope, hs, b, hb, he⟩

theorem holds_of_create {y : ScopeId} {space : Space} {name : String} {info : EntityInfo}
    (h : (t.create y space name info).2.Holds s e) :
    t.Holds s e ∨ s = y ∧ e = ⟨t.entities.size⟩ := by
  obtain ⟨scope, hs, b, hb, he⟩ := h
  rw [scope?_create] at hs
  split at hs
  · next hsy =>
    obtain ⟨old, hold, rfl⟩ := Option.map_eq_some_iff.1 hs
    rcases Scope.mem_names_bind hb with ⟨-, hb⟩ | hb
    · exact Or.inr ⟨hsy, he ▸ hb⟩
    · exact Or.inl ⟨old, hold, b, hb, he⟩
  · exact Or.inl ⟨scope, hs, b, hb, he⟩

theorem holds_create (hs : s.index < t.scopes.size) (space : Space) (name : String)
    (info : EntityInfo) : (t.create s space name info).2.Holds s ⟨t.entities.size⟩ := by
  obtain ⟨scope, ho⟩ := exists_scope? hs
  have hmem : space ∈ t.boundSpaces space := mem_boundSpaces.2 (Or.inl rfl)
  refine ⟨scope.bind (t.boundSpaces space) name ⟨t.entities.size⟩, ?_, ((space, name), _), ?_, rfl⟩
  · rw [scope?_create, if_pos rfl, ho, Option.map_some]
  · exact List.mem_append_left _ (List.mem_map.2 ⟨space, hmem, rfl⟩)

theorem holds_of_local? {space : Space} {name : String} (h : t.local? s space name = some e) :
    t.Holds s e := by
  obtain ⟨scope, ho, hb⟩ := bound_of_local? h
  exact ⟨scope, ho, _, hb, rfl⟩

/-- What a search finds is bound in the scope or in one that it uses. -/
theorem holds_of_search {spaces : List Space} {name : String}
    (h : t.search spaces name s = some e) : ∃ x, (x = s ∨ x ∈ t.usedBy s) ∧ t.Holds x e := by
  obtain ⟨x, scope, space, -, hx, ho, hb⟩ := bound_of_search h
  exact ⟨x, hx, scope, ho, _, hb, rfl⟩

/-! ### What an operation does to an entity -/

/-- Two kinds are compatible only if they are one or, where tags are types, both are of tags. -/
theorem tags_of_compatible {existing kind : EntityKind} (h : t.compatible existing kind = true)
    (hne : kind ≠ existing) :
    t.tagsAreTypes = true ∧ existing.isTag = true ∧ kind.isTag = true := by
  simp only [compatible, Bool.or_eq_true, Bool.and_eq_true, beq_iff_eq] at h
  rcases h with heq | ⟨⟨htypes, hexisting⟩, hkind⟩
  · exact absurd heq.symm hne
  · exact ⟨htypes, hexisting, hkind⟩

/-- What a name means again keeps its kind, or is defined as another kind of tag. -/
theorem kind?_of_rebind {b : Binding} {existing : EntityKind} (hkind : t.kind? e = some existing)
    (hcompatible : t.compatible existing b.kind = true)
    (hagain : b.node = none ∨ t.definition? e = none ∨ b.kind = .namespaceName) :
    ∃ kind, (t.rebind b e).kind? e = some kind ∧ Turns t (t.rebind b e) e existing kind := by
  obtain ⟨info, hi, -⟩ := Option.map_eq_some_iff.1 hkind
  have hkind' := kind?_rebind (b := b) hi e
  rw [if_pos rfl] at hkind'
  by_cases hno : b.node = none
  · rw [if_pos hno, hkind] at hkind'
    exact ⟨existing, hkind', Or.inl rfl⟩
  · rw [if_neg hno] at hkind'
    refine ⟨b.kind, hkind', ?_⟩
    by_cases hsame : b.kind = existing
    · exact Or.inl hsame
    · obtain ⟨node, hn⟩ := Option.ne_none_iff_exists'.1 hno
      have hnone : t.definition? e = none := by
        rcases hagain with hno' | hnone | hns
        · exact absurd hno' hno
        · exact hnone
        · -- a namespace is compatible with a namespace alone
          rw [hns] at hcompatible hsame
          exact absurd (eq_namespaceName_of_compatible hcompatible).symm hsame
      refine Or.inr ⟨hnone, ⟨node, ?_⟩, tags_of_compatible hcompatible hsame⟩
      rw [definition?_rebind hi, hnone, if_pos rfl, hn]
      rfl

section Perform
variable (ht : t.Standing)
include ht

/-- The entity with which a binding answers is bound in the scope of the binding. -/
theorem holds_of_answer (h : (t.perform op).1 = .entity e) :
    ∃ b, op.binding? = some b ∧ (t.perform op).2.Holds (t.innermost b.accepts) e := by
  have hchanges := changes_perform ht op
  rw [h] at hchanges
  generalize (t.perform op).2 = t' at hchanges ⊢
  cases hchanges with
  | rebind hb hlocal =>
      exact ⟨_, hb, (holds_of_scopes (scopes_rebind t _ e)).2 (holds_of_local? hlocal)⟩
  | create hb hs => exact ⟨_, hb, holds_create hs _ _ _⟩

/-- The entity with which a binding answers is there. -/
theorem lt_of_answer (h : (t.perform op).1 = .entity e) :
    e.index < (t.perform op).2.entities.size := by
  have hchanges := changes_perform ht op
  rw [h] at hchanges
  generalize (t.perform op).2 = t' at hchanges ⊢
  cases hchanges with
  | rebind hb hlocal hkind =>
      obtain ⟨info, hi, -⟩ := Option.map_eq_some_iff.1 hkind
      rw [entities_size_rebind]
      exact lt_of_entity? hi
  | create =>
      rw [entities_size_create]
      exact Nat.lt_succ_self _

/-- A scope comes to bind no entity but the one that is made. -/
theorem holds_of_perform (h : (t.perform op).2.Holds s e) :
    t.Holds s e ∨ e = ⟨t.entities.size⟩ ∧ (t.perform op).1 = .entity e ∧
      ∃ b, op.binding? = some b ∧ s = t.innermost b.accepts := by
  have hchanges := changes_perform ht op
  generalize (t.perform op).1 = answer, (t.perform op).2 = t' at hchanges h ⊢
  cases hchanges with
  | rebind => exact Or.inl ((holds_of_scopes (scopes_rebind t _ _)).1 h)
  | create hb =>
      exact (holds_of_create h).imp_right fun ⟨hs, he⟩ => ⟨he, congrArg _ he.symm, _, hb, hs⟩
  | enter | enterNew => exact Or.inl (holds_of_newScope h)
  | enterAgain | useNone => exact Or.inl h
  | leave => exact Or.inl ((holds_of_scopes t.scopes_leave).1 h)
  | use => exact Or.inl (holds_of_useIn h)

/-- An entity is defined by the operation that answers with it and records the node. -/
theorem defined_of_perform {d : NodeId} (h : (t.perform op).2.definition? e = some d) :
    t.definition? e = some d ∨
      t.definition? e = none ∧ (t.perform op).1 = .entity e ∧ op.node? = some d := by
  have hchanges := changes_perform ht op
  generalize (t.perform op).1 = answer, (t.perform op).2 = t' at hchanges h ⊢
  cases hchanges with
  | rebind hb hlocal hkind =>
      obtain ⟨info, hi, -⟩ := Option.map_eq_some_iff.1 hkind
      rw [definition?_rebind hi] at h
      rcases Option.or_eq_some_iff.1 h with h | ⟨hnone, h⟩
      · exact Or.inl h
      · split at h
        · next he =>
          exact Or.inr ⟨hnone, congrArg _ he.symm, (Operation.node?_of_binding hb).trans h⟩
        · cases h
  | create hb =>
      rw [definition?, entity?_create] at h
      split at h
      · next he =>
        refine Or.inr ⟨?_, congrArg _ he.symm, (Operation.node?_of_binding hb).trans h⟩
        rw [he, definition?, entity?, Array.getElem?_size]
        rfl
      · exact Or.inl h
  | enter | enterAgain | use | useNone => exact Or.inl h
  | enterNew => exact Or.inl ((definition?_setMembers ..).symm.trans h)
  | leave => exact Or.inl (by rwa [definition?, entity?_leave] at h)

/-- A namespace is the only entity that is defined again. -/
theorem namespaceName_of_answer {d d' : NodeId} (h : (t.perform op).1 = .entity e)
    (hnode : op.node? = some d') (hd : t.definition? e = some d) :
    t.kind? e = some .namespaceName := by
  have hchanges := changes_perform ht op
  rw [h] at hchanges
  generalize (t.perform op).2 = t' at hchanges
  cases hchanges with
  | rebind hb hlocal hkind hcompatible hagain =>
      rw [Operation.node?_of_binding hb] at hnode
      rcases hagain with hno | hno | hns
      · rw [hno] at hnode; cases hnode
      · rw [hd] at hno; cases hno
      · rw [hns] at hcompatible
        rw [hkind, eq_namespaceName_of_compatible hcompatible]
  | create hb =>
      obtain ⟨info, hi, -⟩ := definition?_eq_some_iff.1 hd
      exact absurd (lt_of_entity? hi) (Nat.lt_irrefl _)

/-- An entity with which an operation answers that records a node is defined, and of the kind that
is bound. -/
theorem defined_of_answer {d : NodeId} (h : (t.perform op).1 = .entity e)
    (hnode : op.node? = some d) :
    (∃ d', (t.perform op).2.definition? e = some d') ∧ (t.perform op).2.kind? e = op.kind? := by
  have hchanges := changes_perform ht op
  rw [h] at hchanges
  generalize (t.perform op).2 = t' at hchanges ⊢
  cases hchanges with
  | @rebind _ b _ _ hb hlocal hkind =>
      obtain ⟨info, hi, -⟩ := Option.map_eq_some_iff.1 hkind
      rw [Operation.node?_of_binding hb] at hnode
      refine ⟨?_, ?_⟩
      · rw [definition?_rebind hi, if_pos rfl, hnode]
        cases t.definition? e with
        | none => exact ⟨d, rfl⟩
        | some d' => exact ⟨d', rfl⟩
      · rw [kind?_rebind hi, if_pos rfl, hnode, Operation.kind?_of_binding hb]
        rfl
  | @create _ b hb =>
      rw [Operation.node?_of_binding hb] at hnode
      rw [definition?, kind?, entity?_create, if_pos rfl, Operation.kind?_of_binding hb]
      exact ⟨⟨d, hnode⟩, rfl⟩

/-- What is defined and is no namespace is defined by the node that the operation records. -/
theorem definition?_of_answer {d : NodeId} (h : (t.perform op).1 = .entity e)
    (hnode : op.node? = some d) (hkind : op.kind? ≠ some .namespaceName) :
    (t.perform op).2.definition? e = some d := by
  have hchanges := changes_perform ht op
  rw [h] at hchanges
  generalize (t.perform op).2 = t' at hchanges ⊢
  cases hchanges with
  | rebind hb hlocal hexisting hcompatible hagain =>
      obtain ⟨info, hi, -⟩ := Option.map_eq_some_iff.1 hexisting
      rw [Operation.node?_of_binding hb] at hnode
      rw [Operation.kind?_of_binding hb] at hkind
      rcases hagain with hno | hno | hns
      · rw [hno] at hnode; cases hnode
      · rw [definition?_rebind hi, if_pos rfl, hno, Option.none_or, hnode]
      · exact absurd (congrArg some hns) hkind
  | create hb =>
      rw [definition?, entity?_create, if_pos rfl]
      exact (Operation.node?_of_binding hb).symm.trans hnode

/-- **The kind of an entity** changes from one tag to another, where tags are types, and only when the
entity is defined. -/
theorem kind?_of_perform {kind : EntityKind} (hk : t.kind? e = some kind) :
    ∃ kind', (t.perform op).2.kind? e = some kind' ∧ Turns t (t.perform op).2 e kind kind' := by
  have hchanges := changes_perform ht op
  generalize (t.perform op).1 = answer, (t.perform op).2 = t' at hchanges ⊢
  cases hchanges with
  | @rebind _ b x existing hb hlocal hkind hcompatible hagain =>
      by_cases hx : e = x
      · subst hx
        cases hkind.symm.trans hk
        exact kind?_of_rebind hkind hcompatible hagain
      · obtain ⟨info, hi, -⟩ := Option.map_eq_some_iff.1 hkind
        exact ⟨kind, by rw [kind?_rebind hi, if_neg hx, hk], Or.inl rfl⟩
  | create =>
      obtain ⟨info, hi, -⟩ := Option.map_eq_some_iff.1 hk
      have hne : e ≠ ⟨t.entities.size⟩ := fun he => by
        rw [he] at hi
        exact Nat.lt_irrefl _ (lt_of_entity? hi)
      exact ⟨kind, by rw [kind?, entity?_create, if_neg hne]; exact hk, Or.inl rfl⟩
  | enter | enterAgain | use | useNone => exact ⟨kind, hk, Or.inl rfl⟩
  | enterNew => exact ⟨kind, (kind?_setMembers ..).trans hk, Or.inl rfl⟩
  | leave => exact ⟨kind, by rw [kind?, entity?_leave]; exact hk, Or.inl rfl⟩

/-- The kind of a defined entity stays. -/
theorem kind?_of_defined {d : NodeId} (h : t.definition? e = some d) :
    (t.perform op).2.kind? e = t.kind? e := by
  obtain ⟨info, hi, -⟩ := definition?_eq_some_iff.1 h
  have hk : t.kind? e = some info.kind := by rw [kind?, hi]; rfl
  obtain ⟨kind', hk', hturns⟩ := kind?_of_perform ht hk
  rw [hk', hturns.of_defined h, hk]

/-- An entity has a scope for its members once they are entered. -/
theorem members?_of_perform (h : (t.perform op).2.members? e = some s) :
    t.members? e = some s ∨ s = ⟨t.scopes.size⟩ ∧
      t.scopes.size < (t.perform op).2.scopes.size ∧ ∃ kind, op = .enterMembers e kind := by
  have hchanges := changes_perform ht op
  generalize (t.perform op).1 = answer, (t.perform op).2 = t' at hchanges h ⊢
  cases hchanges with
  | rebind => exact Or.inl (by rwa [members?_rebind] at h)
  | create =>
      rw [members?, entity?_create] at h
      split at h
      · cases h
      · exact Or.inl h
  | enter | enterAgain | use | useNone => exact Or.inl h
  | enterNew kind =>
      rw [members?, entity?_activate, entity?_setMembers] at h
      split at h
      · next he =>
        obtain ⟨info, hi, hs⟩ := Option.bind_eq_some_iff.1 h
        obtain ⟨old, -, rfl⟩ := Option.map_eq_some_iff.1 hi
        cases hs
        exact Or.inr ⟨rfl, lt_size_newScope t kind, kind, he ▸ rfl⟩
      · exact Or.inl h
  | leave => exact Or.inl (by rwa [members?, entity?_leave] at h)

/-- A scope becomes active if it is made, or if it is that of the members that are entered. -/
theorem mem_active_of_perform (h : s ∈ (t.perform op).2.active) :
    s ∈ t.active ∨ s = ⟨t.scopes.size⟩ ∧ t.scopes.size < (t.perform op).2.scopes.size ∨
      ∃ e kind, op = .enterMembers e kind ∧ t.members? e = some s := by
  have hchanges := changes_perform ht op
  generalize (t.perform op).1 = answer, (t.perform op).2 = t' at hchanges h ⊢
  cases hchanges with
  | rebind => exact Or.inl (by rwa [active_rebind] at h)
  | create | use | useNone => exact Or.inl h
  | enter kind =>
      rcases List.mem_cons.1 h with rfl | h
      · exact Or.inr (Or.inl ⟨rfl, lt_size_newScope t kind⟩)
      · exact Or.inl h
  | enterNew kind =>
      rcases List.mem_cons.1 h with rfl | h
      · exact Or.inr (Or.inl ⟨rfl, lt_size_newScope t kind⟩)
      · exact Or.inl h
  | enterAgain kind hm =>
      rcases List.mem_cons.1 h with rfl | h
      · exact Or.inr (Or.inr ⟨_, kind, rfl, hm⟩)
      · exact Or.inl h
  | leave => exact Or.inl (mem_active_of_leave h)

/-- A scope that is made is inside the current one. -/
theorem chain_of_perform (h : x ∈ (t.perform op).2.chain s) :
    x ∈ t.chain s ∨ s = ⟨t.scopes.size⟩ ∧ x ∈ t.chain t.current := by
  have made : ∀ {kind}, x ∈ (t.newScope kind).2.chain s →
      x ∈ t.chain s ∨ s = ⟨t.scopes.size⟩ ∧ x ∈ t.chain t.current := by
    intro kind h
    rw [chain, scope?_newScope] at h
    split at h
    · next hs =>
      rcases List.mem_cons.1 h with rfl | h
      · exact Or.inl List.mem_cons_self
      · exact Or.inr ⟨hs, h⟩
    · exact Or.inl h
  have hchanges := changes_perform ht op
  generalize (t.perform op).1 = answer, (t.perform op).2 = t' at hchanges h
  cases hchanges with
  | rebind => exact Or.inl (by rwa [chain, scope?, scopes_rebind] at h)
  | create => exact Or.inl (by rwa [chain_create] at h)
  | use => exact Or.inl (by rwa [chain_useIn] at h)
  | enter | enterNew => exact made h
  | enterAgain | useNone => exact Or.inl h
  | leave => exact Or.inl (by rwa [chain, scope?_leave] at h)

/-- A scope comes to use the members of an entity that is used. -/
theorem usedBy_of_perform (h : x ∈ (t.perform op).2.usedBy s) :
    x ∈ t.usedBy s ∨ s = t.bindingScope ∧ ∃ e, op = .useNamespace e ∧ t.members? e = some x := by
  have hchanges := changes_perform ht op
  generalize (t.perform op).1 = answer, (t.perform op).2 = t' at hchanges h
  cases hchanges with
  | rebind => exact Or.inl (by rwa [usedBy, scope?, scopes_rebind] at h)
  | create => exact Or.inl (by rwa [usedBy_create] at h)
  | enter kind => exact Or.inl (by rwa [← usedBy_newScope t kind])
  | enterNew kind => exact Or.inl (by rwa [← usedBy_newScope t kind])
  | enterAgain | useNone => exact Or.inl h
  | leave => exact Or.inl (by rwa [usedBy, scope?_leave] at h)
  | use hm =>
      rw [usedBy, scope?_useIn] at h
      split at h
      · next hs =>
        cases ho : t.scope? s with
        | none => rw [ho] at h; cases h
        | some scope =>
            rw [ho] at h
            rcases Scope.mem_used_use h with rfl | h
            · exact Or.inr ⟨hs, _, rfl, hm⟩
            · exact Or.inl (by rw [usedBy, ho]; exact h)
      · exact Or.inl h

/-- What may be entered or bound in stays there. -/
theorem Standing.perform (op : Operation) : (t.perform op).2.Standing where
  file := Nat.lt_of_lt_of_le ht.file (keeps_perform t op).scopes_le
  active s hs := by
    rcases mem_active_of_perform ht hs with hs | ⟨rfl, hlt⟩ | ⟨e, kind, -, hm⟩
    · exact Nat.lt_of_lt_of_le (ht.active s hs) (keeps_perform t op).scopes_le
    · exact hlt
    · exact Nat.lt_of_lt_of_le (ht.members hm) (keeps_perform t op).scopes_le
  members {e s} hm := by
    rcases members?_of_perform ht hm with hm | ⟨rfl, hlt, -⟩
    · exact Nat.lt_of_lt_of_le (ht.members hm) (keeps_perform t op).scopes_le
    · exact hlt

end Perform

/-! ### What is bound in new scopes -/

/-- The entity is bound in a scope that is not among those of `t₀`. -/
def NewlyHeld (t₀ t : Table) (e : EntityId) : Prop :=
  ∃ x, t₀.NewScope x ∧ t.Holds x e

variable {t₀ : Table}

theorem NewlyHeld.grows {new : NodeId → Prop} (h : t₀.NewlyHeld t e) (hg : Grows new t t') :
    t₀.NewlyHeld t' e := by
  obtain ⟨x, hx, hholds⟩ := h
  exact ⟨x, hx, hholds.grows hg⟩

theorem NewlyHeld.of_le {t₁ : Table} (h : t₁.NewlyHeld t e)
    (hle : t₀.scopes.size ≤ t₁.scopes.size) : t₀.NewlyHeld t e := by
  obtain ⟨x, hx, hholds⟩ := h
  exact ⟨x, Nat.le_trans hle hx, hholds⟩

/-- What an operation defines inside a wall is bound inside it. -/
theorem Walled.newlyHeld_of_answer {P : ScopeKind → Prop} (h : Walled P t₀ t)
    (hP : ∀ kind, P kind → kind ≠ .template) (ht : t.Standing) {d : NodeId}
    (hanswer : (t.perform op).1 = .entity e) (hnode : op.node? = some d) :
    t₀.NewlyHeld (t.perform op).2 e := by
  obtain ⟨b, hb, hholds⟩ := holds_of_answer ht hanswer
  exact ⟨_, h.innermost fun kind hk => Operation.accepts_of_node hb hnode (hP kind hk), hholds⟩

/-! ### Tables in which entities have their places -/

/-- Each entity is bound in one scope, has members only if it is defined, and what is used are
members. -/
structure Placed (t : Table) : Prop where
  holds : ∀ {e : EntityId}, e.index < t.entities.size → ∃ s, t.Holds s e
  there : ∀ {s e}, t.Holds s e → e.index < t.entities.size
  unique : ∀ {s s' e}, t.Holds s e → t.Holds s' e → s = s'
  members : ∀ {e s}, t.members? e = some s → ∃ d, t.definition? e = some d
  used : ∀ {s x}, x ∈ t.usedBy s → ∃ e, t.members? e = some x

namespace Placed

theorem empty (tagsAreTypes : Bool) : (empty tagsAreTypes).Placed := by
  have hnone : ∀ {s : ScopeId} {scope : Scope},
      (Table.empty tagsAreTypes).scope? s = some scope → scope.names = [] ∧ scope.used = [] := by
    rintro ⟨i⟩ scope hs
    cases i with
    | zero => cases hs; exact ⟨rfl, rfl⟩
    | succ i => cases hs
  have hfree : ∀ {s e}, ¬ (Table.empty tagsAreTypes).Holds s e := by
    rintro s e ⟨scope, hs, b, hb, -⟩
    rw [(hnone hs).1] at hb
    cases hb
  refine ⟨nofun, fun h => (hfree h).elim, fun h => (hfree h).elim, nofun, fun {s x} h => ?_⟩
  cases hs : (Table.empty tagsAreTypes).scope? s with
  | none => rw [usedBy, hs] at h; cases h
  | some scope =>
      rw [usedBy, hs, Option.map_some, (hnone hs).2] at h
      cases h

/-- **An operation keeps entities in their places**, if the members that it enters are those of a
defined entity. -/
theorem perform (h : t.Placed) (ht : t.Standing)
    (hop : ∀ e kind, op = .enterMembers e kind → ∃ d, t.definition? e = some d) :
    (t.perform op).2.Placed := by
  have grows := keeps_perform t op
  refine ⟨fun {e} he => ?_, fun {s e} hs => ?_, fun {s s' e} hs hs' => ?_, fun {e s} hm => ?_,
    fun {s x} hx => ?_⟩
  · by_cases hold : e.index < t.entities.size
    · obtain ⟨s, hs⟩ := h.holds hold
      exact ⟨s, hs.grows grows⟩
    · obtain ⟨b, -, hb⟩ := holds_of_answer ht (answer_of_new (Nat.le_of_not_lt hold) he).1
      exact ⟨_, hb⟩
  · rcases holds_of_perform ht hs with hs | ⟨rfl, hanswer, -⟩
    · exact Nat.lt_of_lt_of_le (h.there hs) grows.entities_le
    · exact lt_of_answer ht hanswer
  · rcases holds_of_perform ht hs with hs | ⟨rfl, -, b, hb, rfl⟩ <;>
      rcases holds_of_perform ht hs' with hs' | ⟨he, -, b', hb', rfl⟩
    · exact h.unique hs hs'
    · exact absurd (h.there hs) (he ▸ Nat.lt_irrefl _)
    · exact absurd (h.there hs') (Nat.lt_irrefl _)
    · cases hb.symm.trans hb'
      rfl
  · rcases members?_of_perform ht hm with hm | ⟨-, -, kind, rfl⟩
    · obtain ⟨d, hd⟩ := h.members hm
      exact ⟨d, grows.definition hd⟩
    · obtain ⟨d, hd⟩ := hop e kind rfl
      exact ⟨d, grows.definition hd⟩
  · rcases usedBy_of_perform ht hx with hx | ⟨-, e, -, hm⟩
    · obtain ⟨e, hm⟩ := h.used hx
      exact ⟨e, grows.members hm⟩
    · exact ⟨e, grows.members hm⟩

/-- What is bound in a new scope is new. -/
theorem newEntity {t₀ : Table} {new : NodeId → Prop} (h₀ : t₀.Placed) (h : t.Placed)
    (grows : Grows new t₀ t) {s : ScopeId} (hs : t₀.NewScope s) (hholds : t.Holds s e) :
    t₀.NewEntity e := by
  refine Nat.le_of_not_lt fun he => ?_
  obtain ⟨x, hx⟩ := h₀.holds he
  rw [h.unique hholds (hx.grows grows)] at hs
  exact absurd hx.lt (Nat.not_lt.2 hs)

/-- What defines an entity that is bound in a new scope is new. -/
theorem defined_of_holds {t₀ : Table} {new : NodeId → Prop} (h₀ : t₀.Placed) (h : t.Placed)
    (grows : Grows new t₀ t) {s : ScopeId} (hs : t₀.NewScope s) (hholds : t.Holds s e) {d : NodeId}
    (hd : t.definition? e = some d) : new d := by
  rcases grows.defined hd with hd | hnew
  · obtain ⟨info, hi, -⟩ := definition?_eq_some_iff.1 hd
    exact absurd (lt_of_entity? hi) (Nat.not_lt.2 (h₀.newEntity h grows hs hholds))
  · exact hnew

end Placed

end TypeUses.Table
