import TypeUses.Proofs.Scope.Growth

/-!
# Scopes — the name of an entity

An entity is `Bound` under a name if some scope binds the name to it.  A table is `Named` if an
entity is bound under one name only, and the node that defines it defines that name.

* `Named.perform`: an operation keeps this, if the node that it records defines the name that it
  binds.
* `boundIn_of_answer`: the entity with which a binding answers is bound under the name, in the space
  of the binding.
-/

namespace TypeUses.Table

/-- Some scope binds the name to the entity in the space. -/
def BoundIn (t : Table) (space : Space) (name : String) (e : EntityId) : Prop :=
  ∃ s scope, t.scope? s = some scope ∧ ((space, name), e) ∈ scope.names

/-- Some scope binds the name to the entity. -/
def Bound (t : Table) (name : String) (e : EntityId) : Prop :=
  ∃ s scope space, t.scope? s = some scope ∧ ((space, name), e) ∈ scope.names

theorem bound_iff {t : Table} {name : String} {e : EntityId} :
    t.Bound name e ↔ ∃ space, t.BoundIn space name e :=
  ⟨fun ⟨s, scope, space, hs, hb⟩ => ⟨space, s, scope, hs, hb⟩,
    fun ⟨space, s, scope, hs, hb⟩ => ⟨s, scope, space, hs, hb⟩⟩

theorem BoundIn.bound {t : Table} {space : Space} {name : String} {e : EntityId}
    (h : t.BoundIn space name e) : t.Bound name e :=
  bound_iff.2 ⟨space, h⟩

/-- An entity is there and bound under one name only, and a node that defines it defines that name;
`fits` tells which nodes may define which names. -/
structure Named (fits : NodeId → String → Prop) (t : Table) : Prop where
  lt : ∀ {name e}, t.Bound name e → e.index < t.entities.size
  unique : ∀ {name name' e}, t.Bound name e → t.Bound name' e → name = name'
  definition : ∀ {name e d}, t.Bound name e → t.definition? e = some d → fits d name

variable {fits : NodeId → String → Prop} {t t' : Table}

/-- In the table with the file scope alone nothing is bound. -/
theorem not_bound_empty {tagsAreTypes : Bool} {name : String} {e : EntityId} :
    ¬ (empty tagsAreTypes).Bound name e := by
  rintro ⟨⟨i⟩, scope, space, hs, hb⟩
  cases i with
  | zero => cases hs; cases hb
  | succ i => cases hs

theorem BoundIn.grows {new : NodeId → Prop} (h : Grows new t t') {space : Space} {name : String}
    {e : EntityId} (hb : t.BoundIn space name e) : t'.BoundIn space name e := by
  obtain ⟨s, scope, hs, hb⟩ := hb
  obtain ⟨scope', hs', -, -, hn⟩ := h.scope hs
  exact ⟨s, scope', hs', hn _ hb⟩

theorem Bound.grows {new : NodeId → Prop} (h : Grows new t t') {name : String} {e : EntityId}
    (hb : t.Bound name e) : t'.Bound name e := by
  obtain ⟨space, hb⟩ := bound_iff.1 hb
  exact (hb.grows h).bound

theorem boundIn_of_local? {s : ScopeId} {space : Space} {name : String} {e : EntityId}
    (h : t.local? s space name = some e) : t.BoundIn space name e := by
  obtain ⟨scope, hs, hb⟩ := bound_of_local? h
  exact ⟨s, scope, hs, hb⟩

/-- What a name is taken to complete is bound under it. -/
theorem boundIn_of_compatible? {s : ScopeId} {space : Space} {name : String} {kind : EntityKind}
    {e : EntityId} (h : t.compatible? s space name kind = some e) : t.BoundIn space name e :=
  boundIn_of_local? (local?_of_compatible? h).1

/-- What a lookup finds is bound under the name, in one of the spaces. -/
theorem boundIn_of_lookup {spaces : List Space} {name : String} {look : Lookup} {e : EntityId}
    (h : t.lookup spaces name look = some e) : ∃ space ∈ spaces, t.BoundIn space name e := by
  obtain ⟨s, hs, -⟩ := search_of_lookup h
  obtain ⟨x, scope, space, hspace, -, hx, hb⟩ := bound_of_search hs
  exact ⟨space, hspace, x, scope, hx, hb⟩

/-! ### The changes that operations are made of -/

section Changes
variable {space : Space} {name : String} {e : EntityId}

theorem boundIn_of_newScope {kind : ScopeKind} (h : (t.newScope kind).2.BoundIn space name e) :
    t.BoundIn space name e := by
  obtain ⟨s, scope, hs, hb⟩ := h
  rw [scope?_newScope] at hs
  split at hs
  · cases hs; cases hb
  · exact ⟨s, scope, hs, hb⟩

theorem boundIn_of_leave (h : t.leave.BoundIn space name e) : t.BoundIn space name e := by
  obtain ⟨s, scope, hs, hb⟩ := h
  exact ⟨s, scope, by rwa [scope?_leave] at hs, hb⟩

theorem boundIn_of_useIn {s x : ScopeId} (h : (t.useIn s x).BoundIn space name e) :
    t.BoundIn space name e := by
  obtain ⟨y, scope, hy, hb⟩ := h
  rw [scope?_useIn] at hy
  split at hy
  · obtain ⟨old, hold, rfl⟩ := Option.map_eq_some_iff.1 hy
    exact ⟨y, old, hold, by rwa [Scope.names_use] at hb⟩
  · exact ⟨y, scope, hy, hb⟩

theorem boundIn_of_create {s : ScopeId} {space' : Space} {bound : String} {info : EntityInfo}
    (h : (t.create s space' bound info).2.BoundIn space name e) :
    t.BoundIn space name e ∨
      space ∈ t.boundSpaces space' ∧ name = bound ∧ e = ⟨t.entities.size⟩ := by
  obtain ⟨y, scope, hy, hb⟩ := h
  rw [scope?_create] at hy
  split at hy
  · obtain ⟨old, hold, rfl⟩ := Option.map_eq_some_iff.1 hy
    rcases List.mem_append.1 hb with hb | hb
    · obtain ⟨x, hx, he⟩ := List.mem_map.1 hb
      cases he
      exact Or.inr ⟨hx, rfl, rfl⟩
    · exact Or.inl ⟨y, old, hold, hb⟩
  · exact Or.inl ⟨y, scope, hy, hb⟩

theorem bound_of_create {s : ScopeId} {space : Space} {bound : String} {info : EntityInfo}
    (h : (t.create s space bound info).2.Bound name e) :
    t.Bound name e ∨ name = bound ∧ e = ⟨t.entities.size⟩ := by
  obtain ⟨space', h⟩ := bound_iff.1 h
  exact (boundIn_of_create h).imp BoundIn.bound And.right

/-- The new entity is bound in the space, if the scope is there. -/
theorem boundIn_create {s : ScopeId} (hs : s.index < t.scopes.size) (space : Space)
    (name : String) (info : EntityInfo) :
    (t.create s space name info).2.BoundIn space name ⟨t.entities.size⟩ := by
  obtain ⟨scope, ho⟩ := exists_scope? hs
  have hspace : space ∈ t.boundSpaces space := by
    simp only [boundSpaces]
    split
    · split <;> exact List.mem_cons_self
    · exact List.mem_cons_self
  refine ⟨s, scope.bind (t.boundSpaces space) name ⟨t.entities.size⟩, ?_, ?_⟩
  · rw [scope?_create, if_pos rfl, ho, Option.map_some]
  · exact List.mem_append_left _ (List.mem_map.2 ⟨space, hspace, rfl⟩)

end Changes

namespace Named

theorem mono {fits' : NodeId → String → Prop} (h : t.Named fits)
    (hfits : ∀ d name, fits d name → fits' d name) : t.Named fits' :=
  ⟨h.lt, h.unique, fun hb hd => hfits _ _ (h.definition hb hd)⟩

/-- A table that binds no more and defines no more is named if the other is. -/
theorem of_bound (h : t.Named fits)
    (hb : ∀ {space name e}, t'.BoundIn space name e → t.BoundIn space name e)
    (he : t.entities.size ≤ t'.entities.size)
    (hd : ∀ {e d}, t'.definition? e = some d → t.definition? e = some d) : t'.Named fits :=
  have hb : ∀ {name e}, t'.Bound name e → t.Bound name e := fun hbound =>
    bound_iff.2 ((bound_iff.1 hbound).imp fun _ => hb)
  { lt := fun hbound => Nat.lt_of_lt_of_le (h.lt (hb hbound)) he
    unique := fun hbound hbound' => h.unique (hb hbound) (hb hbound')
    definition := fun hbound hdef => h.definition (hb hbound) (hd hdef) }

theorem create (h : t.Named fits) {s : ScopeId} {space : Space} {name : String}
    {info : EntityInfo} (hfits : ∀ d, info.definition = some d → fits d name) :
    (t.create s space name info).2.Named fits where
  lt {n e} hb := by
    rw [entities_size_create]
    rcases bound_of_create hb with hb | ⟨-, rfl⟩
    · exact Nat.lt_succ_of_lt (h.lt hb)
    · exact Nat.lt_succ_self _
  unique {n n' e} hb hb' := by
    -- the new entity is bound under its own name alone, as its number is a new one
    rcases bound_of_create hb with hb | ⟨rfl, rfl⟩ <;>
      rcases bound_of_create hb' with hb' | ⟨hn, he⟩
    · exact h.unique hb hb'
    · exact absurd (h.lt hb) (by rw [he]; exact Nat.lt_irrefl _)
    · exact absurd (h.lt hb') (Nat.lt_irrefl _)
    · exact hn.symm
  definition {n e d} hb hd := by
    obtain ⟨i, hi, hd⟩ := definition?_eq_some_iff.1 hd
    rw [entity?_create] at hi
    rcases bound_of_create hb with hb | ⟨rfl, rfl⟩
    · have hne : e ≠ ⟨t.entities.size⟩ := by
        intro he
        have hlt := h.lt hb
        rw [he] at hlt
        exact Nat.lt_irrefl _ hlt
      rw [if_neg hne] at hi
      exact h.definition hb (definition?_eq_some_iff.2 ⟨i, hi, hd⟩)
    · rw [if_pos rfl] at hi
      cases hi
      exact hfits d hd

theorem complete (h : t.Named fits) {name : String} {e : EntityId} (he : t.Bound name e)
    {kind : EntityKind} {node : NodeId} (hfits : fits node name) :
    (t.complete e kind node).Named fits where
  lt hb := by rw [entities_size_complete]; exact h.lt hb
  unique hb hb' := h.unique hb hb'
  definition {n x d} hb hd := by
    obtain ⟨i, hi, hd⟩ := definition?_eq_some_iff.1 hd
    rw [entity?_complete] at hi
    split at hi
    · next hx =>
      obtain ⟨old, hold, rfl⟩ := Option.map_eq_some_iff.1 hi
      rcases Option.or_eq_some_iff.1 hd with hd | ⟨-, hd⟩
      · exact h.definition hb (definition?_eq_some_iff.2 ⟨old, hold, hd⟩)
      · -- the definition is new, so that the name has to be the one that is defined
        cases hd
        rw [h.unique hb (hx ▸ he)]
        exact hfits
    · exact h.definition hb (definition?_eq_some_iff.2 ⟨i, hi, hd⟩)

/-! ### The operations -/

theorem defineIn (h : t.Named fits) {s : ScopeId} {space : Space} {name : String}
    {kind : EntityKind} {node : NodeId} (hfits : fits node name) :
    (t.defineIn s space name kind node).2.Named fits := by
  rcases t.defineIn_cases s space name kind node with ⟨e, he, -, hd⟩ | hd <;> rw [hd]
  · exact h.complete (boundIn_of_compatible? he).bound hfits
  · exact h.create fun d hd => by cases hd; exact hfits

theorem declareIn (h : t.Named fits) (s : ScopeId) (space : Space) (name : String)
    (kind : EntityKind) : (t.declareIn s space name kind).2.Named fits := by
  rcases t.declareIn_cases s space name kind with ⟨e, -, hd⟩ | hd <;> rw [hd]
  · exact h
  · exact h.create nofun

theorem newScope (h : t.Named fits) (kind : ScopeKind) : (t.newScope kind).2.Named fits :=
  h.of_bound boundIn_of_newScope (Nat.le_refl _) id

theorem enterMembers (h : t.Named fits) (e : EntityId) (kind : ScopeKind) :
    (t.enterMembers e kind).2.Named fits := by
  cases hm : t.members? e with
  | some s => rw [enterMembers_of_some hm]; exact h.of_bound id (Nat.le_refl _) id
  | none =>
      rw [enterMembers_of_none hm]
      refine (h.newScope kind).of_bound id ?_ fun {x d} hd => ?_
      · exact Nat.le_of_eq (entities_size_setMembers _ e _).symm
      · obtain ⟨i, hi, hd⟩ := definition?_eq_some_iff.1 hd
        rw [entity?_activate, entity?_setMembers] at hi
        split at hi
        · obtain ⟨old, hold, rfl⟩ := Option.map_eq_some_iff.1 hi
          exact definition?_eq_some_iff.2 ⟨old, hold, hd⟩
        · exact definition?_eq_some_iff.2 ⟨i, hi, hd⟩

/-- **An operation keeps the names of entities**, if the node that it records defines the name. -/
theorem perform (h : t.Named fits) (op : Operation)
    (hfits : ∀ d, op.node? = some d → ∃ name, op.name? = some name ∧ fits d name) :
    (t.perform op).2.Named fits := by
  cases op with
  | enter kind => exact (h.newScope kind).of_bound id (Nat.le_refl _) id
  | enterMembers e kind => exact h.enterMembers e kind
  | leave =>
      refine h.of_bound boundIn_of_leave ?_ fun hd => ?_
      · exact Nat.le_of_eq (congrArg Array.size t.entities_leave.symm)
      · rwa [Table.perform, definition?, entity?_leave] at hd
  | define | defineParameter =>
      obtain ⟨name, hname, hfits⟩ := hfits _ rfl
      cases hname
      exact h.defineIn hfits
  | declare | declareImplicit => exact h.declareIn _ _ _ _
  | useNamespace e =>
      show (t.useNamespace e).Named fits
      rw [useNamespace_eq]
      split
      · exact h.of_bound boundIn_of_useIn (Nat.le_refl _) id
      · exact h

end Named

/-! ### The answer of a binding -/

/-- The entity of a definition is bound under its name. -/
theorem boundIn_defineIn {s : ScopeId} (hs : s.index < t.scopes.size) (space : Space)
    (name : String) (kind : EntityKind) (node : NodeId) :
    (t.defineIn s space name kind node).2.BoundIn space name
      (t.defineIn s space name kind node).1 := by
  rcases t.defineIn_cases s space name kind node with ⟨e, he, -, hd⟩ | hd <;> rw [hd]
  · show t.BoundIn space name e
    exact boundIn_of_compatible? he
  · exact boundIn_create hs space name _

theorem boundIn_declareIn {s : ScopeId} (hs : s.index < t.scopes.size) (space : Space)
    (name : String) (kind : EntityKind) :
    (t.declareIn s space name kind).2.BoundIn space name (t.declareIn s space name kind).1 := by
  rcases t.declareIn_cases s space name kind with ⟨e, he, hd⟩ | hd <;> rw [hd]
  · exact boundIn_of_compatible? he
  · exact boundIn_create hs space name _

/-- The entity with which a binding answers is bound under the name in its space, if the active
scopes are there. -/
theorem boundIn_of_answer (hfile : fileScope.index < t.scopes.size)
    (hactive : ∀ s ∈ t.active, s.index < t.scopes.size) {op : Operation} {space : Space}
    {name : String} {e : EntityId} (hspace : op.space? = some space)
    (hname : op.name? = some name) (hanswer : (t.perform op).1 = .entity e) :
    (t.perform op).2.BoundIn space name e := by
  have innermost : ∀ accept, (t.innermost accept).index < t.scopes.size := by
    intro accept
    rcases t.innermost_mem accept with hm | he
    · exact hactive _ hm
    · rw [he]; exact hfile
  cases op with
  | enter | enterMembers | leave | useNamespace => cases hname
  | define =>
      cases hspace
      cases hname
      cases hanswer
      exact boundIn_defineIn (innermost _) _ _ _ _
  | defineParameter =>
      cases hspace
      cases hname
      cases hanswer
      exact boundIn_defineIn (hactive _ List.mem_cons_self) _ _ _ _
  | declare | declareImplicit =>
      cases hspace
      cases hname
      cases hanswer
      exact boundIn_declareIn (innermost _) _ _ _

end TypeUses.Table
