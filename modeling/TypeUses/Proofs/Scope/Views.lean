import TypeUses.Scope.Operation

/-!
# Scopes — what the operations change

A table is seen through its scopes (`scope?`), its entities (`entity?`) and its active scopes
(`active`).  Each operation is made of a few changes, and of each change it is said here what the
three views are after it:

* `newScope`, `setMembers`, `activate`, `leave` for entering and leaving;
* `create`, `complete` for binding names, of which `defineIn_cases` and `declareIn_cases` say
  when each is made;
* `useIn` for `using` directives.

What a search finds is bound in the scope or in one that it uses (`bound_of_search`).
-/

namespace TypeUses

namespace Scope

theorem mem_of_local? {s : Scope} {space : Space} {name : String} {e : EntityId}
    (h : s.local? space name = some e) : ((space, name), e) ∈ s.names := by
  obtain ⟨_, _, hl, -⟩ := List.lookup_eq_some_iff.1 h
  rw [hl]
  exact List.mem_append_right _ List.mem_cons_self

theorem mem_names_bind {s : Scope} {spaces : List Space} {name : String} {e : EntityId}
    {b : (Space × String) × EntityId} (h : b ∈ (s.bind spaces name e).names) :
    (b.1.2 = name ∧ b.2 = e) ∨ b ∈ s.names := by
  rcases List.mem_append.1 h with h | h
  · obtain ⟨space, -, rfl⟩ := List.mem_map.1 h
    exact Or.inl ⟨rfl, rfl⟩
  · exact Or.inr h

@[simp] theorem kind_use (s : Scope) (x : ScopeId) : (s.use x).kind = s.kind := by
  unfold use; split <;> rfl

@[simp] theorem enclosing_use (s : Scope) (x : ScopeId) : (s.use x).enclosing = s.enclosing := by
  unfold use; split <;> rfl

@[simp] theorem names_use (s : Scope) (x : ScopeId) : (s.use x).names = s.names := by
  unfold use; split <;> rfl

theorem mem_used_use {s : Scope} {x y : ScopeId} (h : y ∈ (s.use x).used) : y = x ∨ y ∈ s.used := by
  simp only [use] at h
  split at h
  · exact Or.inr h
  · rcases List.mem_append.1 h with h | h
    · exact Or.inr h
    · exact Or.inl (List.mem_singleton.1 h)

end Scope

namespace Table

/-! ### Numbers in use -/

theorem lt_of_scope? {t : Table} {s : ScopeId} {scope : Scope} (h : t.scope? s = some scope) :
    s.index < t.scopes.size :=
  (Array.getElem?_eq_some_iff.1 h).1

theorem lt_of_entity? {t : Table} {e : EntityId} {info : EntityInfo}
    (h : t.entity? e = some info) : e.index < t.entities.size :=
  (Array.getElem?_eq_some_iff.1 h).1

theorem exists_scope? {t : Table} {s : ScopeId} (h : s.index < t.scopes.size) :
    ∃ scope, t.scope? s = some scope :=
  ⟨_, Array.getElem?_eq_some_iff.2 ⟨h, rfl⟩⟩

theorem members?_eq_some_iff {t : Table} {e : EntityId} {s : ScopeId} :
    t.members? e = some s ↔ ∃ info, t.entity? e = some info ∧ info.members = some s :=
  Option.bind_eq_some_iff

theorem definition?_eq_some_iff {t : Table} {e : EntityId} {d : NodeId} :
    t.definition? e = some d ↔ ∃ info, t.entity? e = some info ∧ info.definition = some d :=
  Option.bind_eq_some_iff

/-! ### Finding names -/

theorem bound_of_local? {t : Table} {s : ScopeId} {space : Space} {name : String} {e : EntityId}
    (h : t.local? s space name = some e) :
    ∃ scope, t.scope? s = some scope ∧ ((space, name), e) ∈ scope.names := by
  obtain ⟨scope, hs, hl⟩ := Option.bind_eq_some_iff.1 h
  exact ⟨scope, hs, Scope.mem_of_local? hl⟩

/-- What is found in a scope is bound there or in a scope that it uses. -/
theorem bound_of_search {t : Table} {spaces : List Space} {name : String} {s : ScopeId}
    {e : EntityId} (h : t.search spaces name s = some e) :
    ∃ x scope, ∃ space ∈ spaces, (x = s ∨ x ∈ t.usedBy s) ∧ t.scope? x = some scope ∧
      ((space, name), e) ∈ scope.names := by
  obtain ⟨x, hx, hl⟩ := List.exists_of_findSome?_eq_some h
  obtain ⟨space, hspace, hl⟩ := List.exists_of_findSome?_eq_some hl
  obtain ⟨scope, hs, hb⟩ := bound_of_local? hl
  exact ⟨x, scope, space, hspace, List.mem_cons.1 hx, hs, hb⟩

/-- A lookup searches one scope after the other. -/
theorem search_of_lookup {t : Table} {spaces : List Space} {name : String} {look : Lookup}
    {e : EntityId} (h : t.lookup spaces name look = some e) :
    ∃ s, t.search spaces name s = some e ∧
      match look with
      | .lexical => s ∈ t.chain t.current
      | .member (some q) => t.members? q = some s
      | .member none => False
      | .global => s = fileScope := by
  cases look with
  | lexical =>
      obtain ⟨s, hs, hl⟩ := List.exists_of_findSome?_eq_some h
      exact ⟨s, hl, hs⟩
  | member q =>
      cases q with
      | none => simp [lookup] at h
      | some q =>
          obtain ⟨s, hs, hl⟩ := Option.bind_eq_some_iff.1 h
          exact ⟨s, hl, hs⟩
  | global => exact ⟨fileScope, h, rfl⟩

theorem lt_of_mem_usedBy {t : Table} {s x : ScopeId} (h : x ∈ t.usedBy s) :
    s.index < t.scopes.size := by
  cases hs : t.scope? s with
  | none => rw [usedBy, hs] at h; cases h
  | some scope => exact lt_of_scope? hs

/-! ### Entering and leaving -/

/-- Gives an entity a scope for its members. -/
def setMembers (t : Table) (e : EntityId) (s : ScopeId) : Table :=
  { t with entities := t.entities.modify e.index fun info => { info with members := some s } }

theorem enter_eq (t : Table) (kind : ScopeKind) :
    t.enter kind = (⟨t.scopes.size⟩, (t.newScope kind).2.activate ⟨t.scopes.size⟩) := rfl

/-- Members that have been entered before are entered in the scope that they have. -/
theorem enterMembers_of_some {t : Table} {e : EntityId} {s : ScopeId} (h : t.members? e = some s)
    (kind : ScopeKind) : t.enterMembers e kind = (s, t.activate s) := by
  unfold enterMembers; rw [h]

/-- Members that have not been entered get a fresh scope. -/
theorem enterMembers_of_none {t : Table} {e : EntityId} (h : t.members? e = none)
    (kind : ScopeKind) :
    t.enterMembers e kind =
      (⟨t.scopes.size⟩,
        ((t.newScope kind).2.setMembers e ⟨t.scopes.size⟩).activate ⟨t.scopes.size⟩) := by
  unfold enterMembers; rw [h]; rfl

theorem active_enterMembers (t : Table) (e : EntityId) (kind : ScopeKind) :
    ∃ s, (t.enterMembers e kind).2.active = s :: t.active := by
  cases hm : t.members? e with
  | some s => exact ⟨s, by rw [enterMembers_of_some hm]; rfl⟩
  | none => exact ⟨⟨t.scopes.size⟩, by rw [enterMembers_of_none hm]; rfl⟩

section Views
variable (t : Table)

@[simp] theorem scope?_activate (s x : ScopeId) : (t.activate s).scope? x = t.scope? x := rfl

@[simp] theorem entity?_activate (s : ScopeId) (e : EntityId) :
    (t.activate s).entity? e = t.entity? e := rfl

@[simp] theorem active_activate (s : ScopeId) : (t.activate s).active = s :: t.active := rfl

@[simp] theorem scope?_newScope (kind : ScopeKind) (x : ScopeId) :
    (t.newScope kind).2.scope? x =
      if x = ⟨t.scopes.size⟩ then some ⟨kind, t.chain t.current, [], []⟩ else t.scope? x := by
  simp only [newScope, scope?, Array.getElem?_push, ScopeId.ext_iff]

@[simp] theorem entity?_newScope (kind : ScopeKind) (e : EntityId) :
    (t.newScope kind).2.entity? e = t.entity? e := rfl

@[simp] theorem active_newScope (kind : ScopeKind) : (t.newScope kind).2.active = t.active := rfl

@[simp] theorem size_newScope (kind : ScopeKind) :
    (t.newScope kind).2.scopes.size = t.scopes.size + 1 := Array.size_push _

@[simp] theorem scope?_setMembers (e : EntityId) (s x : ScopeId) :
    (t.setMembers e s).scope? x = t.scope? x := rfl

@[simp] theorem entity?_setMembers (e x : EntityId) (s : ScopeId) :
    (t.setMembers e s).entity? x =
      if x = e then (t.entity? x).map fun info => { info with members := some s }
      else t.entity? x := by
  simp only [setMembers, entity?, Array.getElem?_modify, EntityId.ext_iff, eq_comm (a := e.index)]

@[simp] theorem kind?_setMembers (e x : EntityId) (s : ScopeId) :
    (t.setMembers e s).kind? x = t.kind? x := by
  rw [kind?, entity?_setMembers, kind?]
  split
  · rw [Option.map_map]; rfl
  · rfl

@[simp] theorem definition?_setMembers (e x : EntityId) (s : ScopeId) :
    (t.setMembers e s).definition? x = t.definition? x := by
  rw [definition?, entity?_setMembers, definition?]
  split
  · rw [Option.bind_map]; rfl
  · rfl

@[simp] theorem active_setMembers (e : EntityId) (s : ScopeId) :
    (t.setMembers e s).active = t.active := rfl

@[simp] theorem entities_size_setMembers (e : EntityId) (s : ScopeId) :
    (t.setMembers e s).entities.size = t.entities.size := Array.size_modify

@[simp] theorem scopes_leave : t.leave.scopes = t.scopes := by unfold leave; split <;> rfl

@[simp] theorem entities_leave : t.leave.entities = t.entities := by unfold leave; split <;> rfl

@[simp] theorem scope?_leave (x : ScopeId) : t.leave.scope? x = t.scope? x := by simp [scope?]

@[simp] theorem entity?_leave (e : EntityId) : t.leave.entity? e = t.entity? e := by simp [entity?]

/-! ### Binding names and using namespaces -/

/-- Makes the names of scope `x` visible in scope `s`. -/
def useIn (s x : ScopeId) : Table :=
  { t with scopes := t.scopes.modify s.index (·.use x) }

theorem useNamespace_eq (e : EntityId) :
    t.useNamespace e =
      match t.members? e with
      | some s => t.useIn t.bindingScope s
      | none => t := rfl

@[simp] theorem scope?_create (s x : ScopeId) (space : Space) (name : String)
    (info : EntityInfo) :
    (t.create s space name info).2.scope? x =
      if x = s then (t.scope? x).map (·.bind (t.boundSpaces space) name ⟨t.entities.size⟩)
      else t.scope? x := by
  simp only [create, scope?, Array.getElem?_modify, ScopeId.ext_iff, eq_comm (a := s.index)]

@[simp] theorem entity?_create (s : ScopeId) (e : EntityId) (space : Space) (name : String)
    (info : EntityInfo) :
    (t.create s space name info).2.entity? e =
      if e = ⟨t.entities.size⟩ then some info else t.entity? e := by
  simp only [create, entity?, Array.getElem?_push, EntityId.ext_iff]

@[simp] theorem active_create (s : ScopeId) (space : Space) (name : String) (info : EntityInfo) :
    (t.create s space name info).2.active = t.active := rfl

@[simp] theorem scopes_size_create (s : ScopeId) (space : Space) (name : String)
    (info : EntityInfo) : (t.create s space name info).2.scopes.size = t.scopes.size :=
  Array.size_modify

@[simp] theorem entities_size_create (s : ScopeId) (space : Space) (name : String)
    (info : EntityInfo) : (t.create s space name info).2.entities.size = t.entities.size + 1 :=
  Array.size_push _

@[simp] theorem scope?_complete (e : EntityId) (kind : EntityKind) (node : NodeId) (x : ScopeId) :
    (t.complete e kind node).scope? x = t.scope? x := rfl

@[simp] theorem entity?_complete (e x : EntityId) (kind : EntityKind) (node : NodeId) :
    (t.complete e kind node).entity? x =
      if x = e then
        (t.entity? x).map fun info =>
          { info with kind := kind, definition := info.definition.or (some node) }
      else t.entity? x := by
  simp only [complete, entity?, Array.getElem?_modify, EntityId.ext_iff, eq_comm (a := e.index)]

@[simp] theorem active_complete (e : EntityId) (kind : EntityKind) (node : NodeId) :
    (t.complete e kind node).active = t.active := rfl

@[simp] theorem entities_size_complete (e : EntityId) (kind : EntityKind) (node : NodeId) :
    (t.complete e kind node).entities.size = t.entities.size := Array.size_modify

@[simp] theorem scope?_useIn (s x y : ScopeId) :
    (t.useIn s x).scope? y = if y = s then (t.scope? y).map (·.use x) else t.scope? y := by
  simp only [useIn, scope?, Array.getElem?_modify, ScopeId.ext_iff, eq_comm (a := s.index)]

@[simp] theorem entity?_useIn (s x : ScopeId) (e : EntityId) :
    (t.useIn s x).entity? e = t.entity? e := rfl

@[simp] theorem active_useIn (s x : ScopeId) : (t.useIn s x).active = t.active := rfl

@[simp] theorem scopes_size_useIn (s x : ScopeId) :
    (t.useIn s x).scopes.size = t.scopes.size := Array.size_modify

@[simp] theorem local?_newScope (kind : ScopeKind) (s : ScopeId) (space : Space) (name : String) :
    (t.newScope kind).2.local? s space name = t.local? s space name := by
  rw [local?, scope?_newScope, local?]
  split
  · next hs => rw [hs, scope?, Array.getElem?_size]; rfl
  · rfl

@[simp] theorem usedBy_newScope (kind : ScopeKind) (s : ScopeId) :
    (t.newScope kind).2.usedBy s = t.usedBy s := by
  rw [usedBy, scope?_newScope, usedBy]
  split
  · next hs => rw [hs, scope?, Array.getElem?_size]; rfl
  · rfl

@[simp] theorem usedBy_create (s x : ScopeId) (space : Space) (name : String)
    (info : EntityInfo) : (t.create s space name info).2.usedBy x = t.usedBy x := by
  rw [usedBy, scope?_create, usedBy]
  split
  · cases t.scope? x <;> rfl
  · rfl

@[simp] theorem chain_create (s x : ScopeId) (space : Space) (name : String)
    (info : EntityInfo) : (t.create s space name info).2.chain x = t.chain x := by
  rw [chain, scope?_create, chain]
  split
  · cases t.scope? x <;> rfl
  · rfl

@[simp] theorem chain_useIn (s x y : ScopeId) : (t.useIn s x).chain y = t.chain y := by
  rw [chain, scope?_useIn, chain]
  split
  · cases t.scope? y <;> simp
  · rfl

theorem lt_size_newScope (t : Table) (kind : ScopeKind) :
    t.scopes.size < (t.newScope kind).2.scopes.size := by
  rw [size_newScope]
  exact Nat.lt_succ_self _

end Views

/-- The active scopes after the innermost of several is left. -/
theorem active_leave {t : Table} {s x : ScopeId} {rest : List ScopeId}
    (h : t.active = s :: x :: rest) : t.leave.active = x :: rest := by
  have ho : t.outer = x :: rest := (List.cons.inj h).2
  simp only [leave]
  rw [ho]
  rfl

theorem mem_active_of_leave {t : Table} {s : ScopeId} (h : s ∈ t.leave.active) : s ∈ t.active := by
  simp only [leave] at h
  split at h
  · next x rest ho =>
    have hs : s ∈ t.outer := ho ▸ h
    exact List.mem_cons_of_mem _ hs
  · exact h

/-- The entity that a scope binds already under a name and a compatible kind. -/
theorem local?_of_compatible? {t : Table} {s : ScopeId} {space : Space} {name : String}
    {kind : EntityKind} {e : EntityId} (h : t.compatible? s space name kind = some e) :
    t.local? s space name = some e ∧
      ∃ existing, t.kind? e = some existing ∧ t.compatible existing kind = true := by
  obtain ⟨hl, hk⟩ := Option.filter_eq_some_iff.1 h
  cases hk' : t.kind? e with
  | none => simp [hk'] at hk
  | some existing => exact ⟨hl, existing, rfl, by simpa [hk'] using hk⟩

/-- **What a definition does.**  It completes the entity that the scope declares already, or opens
its namespace again; or it makes a new entity. -/
theorem defineIn_cases (t : Table) (s : ScopeId) (space : Space) (name : String)
    (kind : EntityKind) (node : NodeId) :
    (∃ e, t.compatible? s space name kind = some e ∧
      (t.definition? e = none ∨ kind = .namespaceName) ∧
      t.defineIn s space name kind node = (e, t.complete e kind node)) ∨
    t.defineIn s space name kind node = t.create s space name ⟨kind, some node, none⟩ := by
  simp only [defineIn]
  cases h : t.compatible? s space name kind with
  | none => exact Or.inr rfl
  | some e =>
      by_cases hd : (t.definition? e).isNone || kind == .namespaceName
      · refine Or.inl ⟨e, rfl, ?_, if_pos hd⟩
        simpa using hd
      · exact Or.inr (if_neg hd)

/-- **What a declaration does.**  It keeps the entity that the scope binds already, or makes a new
one. -/
theorem declareIn_cases (t : Table) (s : ScopeId) (space : Space) (name : String)
    (kind : EntityKind) :
    (∃ e, t.compatible? s space name kind = some e ∧
      t.declareIn s space name kind = (e, t)) ∨
    t.declareIn s space name kind = t.create s space name ⟨kind, none, none⟩ := by
  simp only [declareIn]
  cases h : t.compatible? s space name kind with
  | none => exact Or.inr rfl
  | some e => exact Or.inl ⟨e, rfl, rfl⟩

/-- A name is bound in an active scope or in the file scope. -/
theorem innermost_mem (t : Table) (accept : ScopeKind → Bool) :
    t.innermost accept ∈ t.active ∨ t.innermost accept = fileScope := by
  simp only [innermost]
  cases h : t.active.find? fun s =>
      ((t.scope? s).map fun scope => accept scope.kind).getD false with
  | none => exact Or.inr rfl
  | some s => exact Or.inl (List.mem_of_find?_eq_some h)

end Table

end TypeUses
