import TypeUses.Proofs.Scope.Growth

/-!
# Scopes — what an operation can do

The operations that bind a name differ in the scope that they bind it in and in what they bind
(`Binding`), and in nothing else (`perform_of_binding`).  So there are eight things that an
operation can do to a table (`Changes`), and every operation does one of them (`changes_perform`).
-/

namespace TypeUses

/-- A name to be bound. -/
structure Binding where
  /-- in the innermost active scope of such a kind -/
  accepts : ScopeKind → Bool
  space : Space
  name : String
  kind : EntityKind
  /-- the node that defines the entity, unless it is only declared -/
  node : Option NodeId

/-- The name that an operation binds. -/
def Operation.binding? : Operation → Option Binding
  | define space name kind node => some ⟨fun k => k != .template, space, name, kind, some node⟩
  | defineParameter name kind node => some ⟨fun _ => true, .ordinary, name, kind, some node⟩
  | declare space name kind => some ⟨fun k => k != .template, space, name, kind, none⟩
  | declareImplicit space name kind =>
    some ⟨fun k => k != .classBody && k != .template, space, name, kind, none⟩
  | enter _ | enterMembers .. | leave | useNamespace _ => none

theorem Operation.node?_of_binding {op : Operation} {b : Binding} (hb : op.binding? = some b) :
    op.node? = b.node := by
  cases op <;> cases hb <;> rfl

theorem Operation.space?_of_binding {op : Operation} {b : Binding} (hb : op.binding? = some b) :
    op.space? = some b.space := by
  cases op <;> cases hb <;> rfl

theorem Operation.kind?_of_binding {op : Operation} {b : Binding} (hb : op.binding? = some b) :
    op.kind? = some b.kind := by
  cases op <;> cases hb <;> rfl

/-- Only a template does not take a definition. -/
theorem Operation.accepts_of_node {op : Operation} {b : Binding} {d : NodeId} {kind : ScopeKind}
    (hb : op.binding? = some b) (hnode : op.node? = some d) (hk : kind ≠ .template) :
    b.accepts kind = true := by
  cases op <;> cases hb <;> cases hnode
  · simpa using hk
  · rfl

namespace Table

/-- Binds a name. -/
def bindName (t : Table) (b : Binding) : EntityId × Table :=
  match b.node with
  | some node => t.defineIn (t.innermost b.accepts) b.space b.name b.kind node
  | none => t.declareIn (t.innermost b.accepts) b.space b.name b.kind

/-- Binds a name to an entity that it means already. -/
def rebind (t : Table) (b : Binding) (e : EntityId) : Table :=
  match b.node with
  | some node => t.complete e b.kind node
  | none => t

variable {t : Table} {op : Operation} {b : Binding} {e : EntityId}

/-! ### Binding names -/

theorem innermost_true (hcurrent : t.current.index < t.scopes.size) :
    t.innermost (fun _ => true) = t.current := by
  obtain ⟨scope, hs⟩ := exists_scope? hcurrent
  rw [innermost, active, List.find?_cons_of_pos (by rw [hs]; rfl), Option.getD_some]

/-- **The operations that bind names** differ in what they bind only. -/
theorem perform_of_binding (hcurrent : t.current.index < t.scopes.size)
    (hb : op.binding? = some b) :
    t.perform op = (.entity (t.bindName b).1, (t.bindName b).2) := by
  cases op with
  | enter | enterMembers | leave | useNamespace => cases hb
  | define | declare | declareImplicit => cases hb; rfl
  | defineParameter =>
      cases hb
      rw [bindName, innermost_true hcurrent]
      rfl

section Rebind
variable (t : Table) (b : Binding) (e : EntityId)

@[simp] theorem active_rebind : (t.rebind b e).active = t.active := by
  unfold rebind; split <;> rfl

@[simp] theorem tagsAreTypes_rebind : (t.rebind b e).tagsAreTypes = t.tagsAreTypes := by
  unfold rebind; split <;> rfl

@[simp] theorem scopes_rebind : (t.rebind b e).scopes = t.scopes := by
  unfold rebind; split <;> rfl

@[simp] theorem entities_size_rebind : (t.rebind b e).entities.size = t.entities.size := by
  unfold rebind; split <;> simp

@[simp] theorem members?_rebind (x : EntityId) : (t.rebind b e).members? x = t.members? x := by
  unfold rebind
  split
  · rw [members?, entity?_complete, members?]
    split
    · cases t.entity? x <;> rfl
    · rfl
  · rfl

end Rebind

/-- A definition gives its entity the kind that it says, a declaration only if there was none. -/
theorem kind?_rebind {info : EntityInfo} (hi : t.entity? e = some info) (x : EntityId) :
    (t.rebind b e).kind? x =
      if x = e then (if b.node = none then t.kind? x else none).or (some b.kind)
      else t.kind? x := by
  unfold rebind
  by_cases hx : x = e
  · subst hx
    cases hn : b.node <;> simp [kind?, hi]
  · cases hn : b.node <;> simp [kind?, hx]

/-- A binding gives its entity a definition, if it had none, and no other. -/
theorem definition?_rebind {info : EntityInfo} (hi : t.entity? e = some info) (x : EntityId) :
    (t.rebind b e).definition? x = (t.definition? x).or (if x = e then b.node else none) := by
  unfold rebind
  by_cases hx : x = e
  · subst hx
    cases hn : b.node <;> simp [definition?, hi]
  · cases hn : b.node <;> simp [definition?, hx]

/-- Where tags are types, a tag is bound as an ordinary name as well. -/
theorem mem_boundSpaces {space space' : Space} : space' ∈ t.boundSpaces space ↔
    space = space' ∨ t.tagsAreTypes ∧ space = .tag ∧ space' = .ordinary := by
  cases space <;> cases space' <;> cases ht : t.tagsAreTypes <;> simp [boundSpaces, ht]

/-- **What a binding does.**  It keeps the entity that the scope binds already under the name, and
may define it; or it makes a new one. -/
theorem bindName_cases (t : Table) (b : Binding) :
    (∃ e, t.compatible? (t.innermost b.accepts) b.space b.name b.kind = some e ∧
      (b.node = none ∨ t.definition? e = none ∨ b.kind = .namespaceName) ∧
      t.bindName b = (e, t.rebind b e)) ∨
    t.bindName b =
      t.create (t.innermost b.accepts) b.space b.name ⟨b.kind, b.node, none⟩ := by
  unfold bindName rebind
  cases b.node with
  | some node =>
      rcases t.defineIn_cases (t.innermost b.accepts) b.space b.name b.kind node with
        ⟨e, he, hd, h⟩ | h
      · exact Or.inl ⟨e, he, Or.inr hd, h⟩
      · exact Or.inr h
  | none =>
      rcases t.declareIn_cases (t.innermost b.accepts) b.space b.name b.kind with ⟨e, he, h⟩ | h
      · exact Or.inl ⟨e, he, Or.inl rfl, h⟩
      · exact Or.inr h

/-- A namespace is compatible with a namespace alone. -/
theorem eq_namespaceName_of_compatible {existing : EntityKind}
    (h : t.compatible existing .namespaceName = true) : existing = .namespaceName := by
  simpa [compatible, EntityKind.isTag] using h

/-! ### Operations -/

/-- The scopes that an operation may enter or bind in are there. -/
structure Standing (t : Table) : Prop where
  file : fileScope.index < t.scopes.size
  active : ∀ s ∈ t.active, s.index < t.scopes.size
  members : ∀ {e s}, t.members? e = some s → s.index < t.scopes.size

theorem Standing.current (h : t.Standing) : t.current.index < t.scopes.size :=
  h.active _ List.mem_cons_self

theorem Standing.innermost (h : t.Standing) (accept : ScopeKind → Bool) :
    (t.innermost accept).index < t.scopes.size := by
  rcases t.innermost_mem accept with hm | he
  · exact h.active _ hm
  · rw [he]; exact h.file

/-- What an operation can do to a table, and the answer that it gives. -/
inductive Changes (t : Table) : Operation → Answer → Table → Prop
  /-- a name means again the entity that the scope binds already -/
  | rebind {op : Operation} {b : Binding} {e : EntityId} {existing : EntityKind}
      (hb : op.binding? = some b) (hlocal : t.local? (t.innermost b.accepts) b.space b.name = some e)
      (hkind : t.kind? e = some existing) (hcompatible : t.compatible existing b.kind = true)
      (hagain : b.node = none ∨ t.definition? e = none ∨ b.kind = .namespaceName) :
      Changes t op (.entity e) (t.rebind b e)
  /-- a new entity is made -/
  | create {op : Operation} {b : Binding} (hb : op.binding? = some b)
      (hs : (t.innermost b.accepts).index < t.scopes.size) :
      Changes t op (.entity ⟨t.entities.size⟩)
        (t.create (t.innermost b.accepts) b.space b.name ⟨b.kind, b.node, none⟩).2
  | enter (kind : ScopeKind) :
      Changes t (.enter kind) (.scope ⟨t.scopes.size⟩)
        ((t.newScope kind).2.activate ⟨t.scopes.size⟩)
  /-- members are entered for the first time -/
  | enterNew {e : EntityId} (kind : ScopeKind) (hm : t.members? e = none) :
      Changes t (.enterMembers e kind) (.scope ⟨t.scopes.size⟩)
        (((t.newScope kind).2.setMembers e ⟨t.scopes.size⟩).activate ⟨t.scopes.size⟩)
  | enterAgain {e : EntityId} {s : ScopeId} (kind : ScopeKind) (hm : t.members? e = some s) :
      Changes t (.enterMembers e kind) (.scope s) (t.activate s)
  | leave : Changes t .leave .done t.leave
  | use {e : EntityId} {s : ScopeId} (hm : t.members? e = some s)
      (hs : t.bindingScope.index < t.scopes.size) :
      Changes t (.useNamespace e) .done (t.useIn t.bindingScope s)
  | useNone {e : EntityId} (hm : t.members? e = none) : Changes t (.useNamespace e) .done t

/-- **What an operation can do.** -/
theorem changes_perform (ht : t.Standing) (op : Operation) :
    Changes t op (t.perform op).1 (t.perform op).2 := by
  cases hb : op.binding? with
  | some b =>
      rw [perform_of_binding ht.current hb]
      rcases t.bindName_cases b with ⟨e, he, hagain, hbind⟩ | hbind <;> rw [hbind]
      · obtain ⟨hlocal, existing, hkind, hcompatible⟩ := local?_of_compatible? he
        exact .rebind hb hlocal hkind hcompatible hagain
      · exact .create hb (ht.innermost _)
  | none =>
      cases op with
      | define | defineParameter | declare | declareImplicit => cases hb
      | enter kind => exact .enter kind
      | enterMembers e kind =>
          show Changes t _ (.scope (t.enterMembers e kind).1) (t.enterMembers e kind).2
          cases hm : t.members? e with
          | some s => rw [enterMembers_of_some hm]; exact .enterAgain kind hm
          | none => rw [enterMembers_of_none hm]; exact .enterNew kind hm
      | leave => exact .leave
      | useNamespace e =>
          show Changes t _ .done (t.useNamespace e)
          rw [useNamespace_eq]
          cases hm : t.members? e with
          | some s => exact .use hm (ht.innermost _)
          | none => exact .useNone hm

end Table

end TypeUses
