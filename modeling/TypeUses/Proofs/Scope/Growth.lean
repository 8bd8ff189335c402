import TypeUses.Proofs.Scope.Views

/-!
# Scopes — what no operation takes back

`Grows new t t'` relates a table to a later one.  Scopes keep their kind, the scopes around them and
the names that they bind; an entity that is defined keeps its definition, and one that has a scope
for its members keeps it; an entity that gets a definition gets one of the nodes `new`.  It is a
preorder, and every operation respects it (`grows_perform`).

The operations that only bind names or make them visible (`Operation.IsBinding`) leave the active
scopes alone (`active_perform`).  They alone make entities (`answer_of_new`).
-/

namespace TypeUses

namespace Operation

/-- The node that an operation records as a definition. -/
def node? : Operation → Option NodeId
  | define _ _ _ node | defineParameter _ _ node => some node
  | _ => none

/-- The name that an operation binds. -/
def name? : Operation → Option String
  | define _ name _ _ | defineParameter name _ _ | declare _ name _ | declareImplicit _ name _ =>
    some name
  | enter _ | enterMembers .. | leave | useNamespace _ => none

/-- The space in which an operation binds. -/
def space? : Operation → Option Space
  | define space _ _ _ | declare space _ _ | declareImplicit space _ _ => some space
  | defineParameter .. => some .ordinary
  | enter _ | enterMembers .. | leave | useNamespace _ => none

/-- The kind of entity that an operation binds. -/
def kind? : Operation → Option EntityKind
  | define _ _ kind _ | defineParameter _ kind _ | declare _ _ kind | declareImplicit _ _ kind =>
    some kind
  | enter _ | enterMembers .. | leave | useNamespace _ => none

/-- The operation binds names or makes them visible, and neither enters nor leaves a scope. -/
def IsBinding : Operation → Prop
  | enter _ | enterMembers .. | leave => False
  | _ => True

end Operation

namespace Table

/-- What `t` knows stays known in `t'`, and what is newly defined there satisfies `new`. -/
structure Grows (new : NodeId → Prop) (t t' : Table) : Prop where
  tagsAreTypes : t'.tagsAreTypes = t.tagsAreTypes
  scopes_le : t.scopes.size ≤ t'.scopes.size
  entities_le : t.entities.size ≤ t'.entities.size
  scope : ∀ {s scope}, t.scope? s = some scope →
    ∃ scope', t'.scope? s = some scope' ∧ scope'.kind = scope.kind ∧
      scope'.enclosing = scope.enclosing ∧ ∀ b ∈ scope.names, b ∈ scope'.names
  definition : ∀ {e d}, t.definition? e = some d → t'.definition? e = some d
  defined : ∀ {e d}, t'.definition? e = some d → t.definition? e = some d ∨ new d
  members : ∀ {e s}, t.members? e = some s → t'.members? e = some s

variable {new : NodeId → Prop} {t t' : Table}

theorem Grows.refl (new : NodeId → Prop) (t : Table) : Grows new t t where
  tagsAreTypes := rfl
  scopes_le := Nat.le_refl _
  entities_le := Nat.le_refl _
  scope h := ⟨_, h, rfl, rfl, fun _ => id⟩
  definition h := h
  defined h := Or.inl h
  members h := h

theorem Grows.trans {t'' : Table} (h : Grows new t t') (h' : Grows new t' t'') :
    Grows new t t'' where
  tagsAreTypes := h'.tagsAreTypes.trans h.tagsAreTypes
  scopes_le := Nat.le_trans h.scopes_le h'.scopes_le
  entities_le := Nat.le_trans h.entities_le h'.entities_le
  scope hs := by
    obtain ⟨scope', hs', hk, he, hn⟩ := h.scope hs
    obtain ⟨scope'', hs'', hk', he', hn'⟩ := h'.scope hs'
    exact ⟨scope'', hs'', hk'.trans hk, he'.trans he, fun b hb => hn' b (hn b hb)⟩
  definition hd := h'.definition (h.definition hd)
  defined hd := (h'.defined hd).elim h.defined Or.inr
  members hm := h'.members (h.members hm)

theorem Grows.mono {new' : NodeId → Prop} (h : Grows new t t') (hnew : ∀ d, new d → new' d) :
    Grows new' t t' :=
  ⟨h.tagsAreTypes, h.scopes_le, h.entities_le, h.scope, h.definition,
    fun hd => (h.defined hd).imp_right (hnew _), h.members⟩

/-- The scopes around a scope stay. -/
theorem Grows.chain (h : Grows new t t') {s : ScopeId} (hs : s.index < t.scopes.size) :
    t'.chain s = t.chain s := by
  obtain ⟨scope, ho⟩ := exists_scope? hs
  obtain ⟨scope', ho', -, henclosing, -⟩ := h.scope ho
  rw [Table.chain, ho', Table.chain, ho, Option.map_some, Option.map_some, henclosing]

/-! ### The changes that operations are made of -/

/-- A change of the active scopes alone respects growth. -/
theorem grows_of_active (htags : t'.tagsAreTypes = t.tagsAreTypes) (hs : t'.scopes = t.scopes)
    (he : t'.entities = t.entities) : Grows new t t' where
  tagsAreTypes := htags
  scopes_le := Nat.le_of_eq (congrArg Array.size hs.symm)
  entities_le := Nat.le_of_eq (congrArg Array.size he.symm)
  scope h := ⟨_, by rw [scope?, hs]; exact h, rfl, rfl, fun _ => id⟩
  definition h := by rw [definition?, entity?, he]; exact h
  defined h := by rw [definition?, entity?, he] at h; exact Or.inl h
  members h := by rw [members?, entity?, he]; exact h

theorem grows_activate (new : NodeId → Prop) (t : Table) (s : ScopeId) :
    Grows new t (t.activate s) :=
  grows_of_active rfl rfl rfl

theorem grows_leave (new : NodeId → Prop) (t : Table) : Grows new t t.leave :=
  grows_of_active (by unfold leave; split <;> rfl) t.scopes_leave t.entities_leave

theorem grows_newScope (new : NodeId → Prop) (t : Table) (kind : ScopeKind) :
    Grows new t (t.newScope kind).2 where
  tagsAreTypes := rfl
  scopes_le := by rw [size_newScope]; exact Nat.le_succ _
  entities_le := Nat.le_refl _
  scope {s scope} hs := by
    have hne : s ≠ ⟨t.scopes.size⟩ := fun e => by subst e; exact Nat.lt_irrefl _ (lt_of_scope? hs)
    exact ⟨scope, by rw [scope?_newScope, if_neg hne, hs], rfl, rfl, fun _ => id⟩
  definition h := h
  defined h := Or.inl h
  members h := h

/-- A change of entities that leaves the scopes alone respects growth if it does so for each
entity. -/
theorem grows_of_entities (htags : t'.tagsAreTypes = t.tagsAreTypes) (hs : t'.scopes = t.scopes)
    (hsize : t.entities.size ≤ t'.entities.size)
    (hinfo : ∀ e, t'.entity? e = t.entity? e ∨ ∃ info info', t.entity? e = some info ∧
      t'.entity? e = some info' ∧
      (∀ d, info.definition = some d → info'.definition = some d) ∧
      (∀ d, info'.definition = some d → info.definition = some d ∨ new d) ∧
      ∀ s, info.members = some s → info'.members = some s) :
    Grows new t t' where
  tagsAreTypes := htags
  scopes_le := Nat.le_of_eq (congrArg Array.size hs.symm)
  entities_le := hsize
  scope {s scope} h := ⟨scope, by rw [scope?, hs]; exact h, rfl, rfl, fun _ => id⟩
  definition {e d} h := by
    rcases hinfo e with he | ⟨info, info', he, he', hd, -, -⟩
    · rw [definition?, he]; exact h
    · rw [definition?, he] at h
      rw [definition?, he']
      exact hd d h
  defined {e d} h := by
    rcases hinfo e with he | ⟨info, info', he, he', -, hd, -⟩
    · rw [definition?, he] at h; exact Or.inl h
    · rw [definition?, he'] at h
      rw [definition?, he]
      exact hd d h
  members {e s} h := by
    rcases hinfo e with he | ⟨info, info', he, he', -, -, hm⟩
    · rw [members?, he]; exact h
    · rw [members?, he] at h
      rw [members?, he']
      exact hm s h

theorem grows_setMembers (new : NodeId → Prop) {e : EntityId} (h : t.members? e = none)
    (s : ScopeId) : Grows new t (t.setMembers e s) := by
  refine grows_of_entities rfl rfl (Nat.le_of_eq (entities_size_setMembers t e s).symm)
    fun x => ?_
  by_cases hx : x = e
  · subst hx
    cases hi : t.entity? x with
    | none => exact Or.inl (by simp [hi])
    | some info =>
        rw [members?, hi] at h
        refine Or.inr ⟨info, { info with members := some s }, rfl, by simp [hi], fun d hd => hd,
          fun d hd => Or.inl hd, fun y hy => ?_⟩
        rw [show info.members = none from h] at hy
        cases hy
  · exact Or.inl (by simp [hx])

theorem grows_complete {e : EntityId} {kind : EntityKind} {node : NodeId} (hnew : new node) :
    Grows new t (t.complete e kind node) := by
  refine grows_of_entities rfl rfl (Nat.le_of_eq (entities_size_complete t e kind node).symm)
    fun x => ?_
  by_cases hx : x = e
  · subst hx
    cases hi : t.entity? x with
    | none => exact Or.inl (by simp [hi])
    | some info =>
        refine Or.inr ⟨info,
          { info with kind := kind, definition := info.definition.or (some node) }, rfl,
          by rw [entity?_complete, if_pos rfl, hi, Option.map_some], fun d hd => ?_,
          fun d hd => ?_, fun s hs => hs⟩
        · rw [hd]; rfl
        · cases hd' : info.definition with
          | none => rw [hd'] at hd; cases hd; exact Or.inr hnew
          | some d' => rw [hd'] at hd; exact Or.inl hd
  · exact Or.inl (by simp [hx])

/-- A change of scopes that leaves the entities alone respects growth if it does so for each
scope. -/
theorem grows_of_scopes (htags : t'.tagsAreTypes = t.tagsAreTypes)
    (hsize : t'.scopes.size = t.scopes.size) (he : t'.entities = t.entities)
    (hscope : ∀ {s scope}, t.scope? s = some scope → ∃ scope', t'.scope? s = some scope' ∧
      scope'.kind = scope.kind ∧ scope'.enclosing = scope.enclosing ∧
      ∀ b ∈ scope.names, b ∈ scope'.names) : Grows new t t' where
  tagsAreTypes := htags
  scopes_le := Nat.le_of_eq hsize.symm
  entities_le := Nat.le_of_eq (congrArg Array.size he.symm)
  scope := hscope
  definition h := by rw [definition?, entity?, he]; exact h
  defined h := by rw [definition?, entity?, he] at h; exact Or.inl h
  members h := by rw [members?, entity?, he]; exact h

theorem grows_useIn (new : NodeId → Prop) (t : Table) (s x : ScopeId) :
    Grows new t (t.useIn s x) := by
  refine grows_of_scopes rfl (scopes_size_useIn t s x) rfl fun {y scope} hy => ?_
  by_cases h : y = s
  · exact ⟨scope.use x, by simp [h, h ▸ hy], by simp, by simp, by simp⟩
  · exact ⟨scope, by simp [h, hy], rfl, rfl, fun _ => id⟩

theorem grows_create {s : ScopeId} {space : Space} {name : String} {info : EntityInfo}
    (hnew : ∀ d, info.definition = some d → new d) :
    Grows new t (t.create s space name info).2 where
  tagsAreTypes := rfl
  scopes_le := Nat.le_of_eq (scopes_size_create t s space name info).symm
  entities_le := by rw [entities_size_create]; exact Nat.le_succ _
  scope {x scope} hx := by
    by_cases h : x = s
    · exact ⟨scope.bind (t.boundSpaces space) name ⟨t.entities.size⟩,
        by rw [scope?_create, if_pos h, hx, Option.map_some], rfl, rfl,
        fun b hb => List.mem_append_right _ hb⟩
    · exact ⟨scope, by rw [scope?_create, if_neg h, hx], rfl, rfl, fun _ => id⟩
  definition {e d} h := by
    obtain ⟨i, hi, hd⟩ := definition?_eq_some_iff.1 h
    have hne : e ≠ ⟨t.entities.size⟩ := by
      intro he
      subst he; exact Nat.lt_irrefl _ (lt_of_entity? hi)
    exact definition?_eq_some_iff.2 ⟨i, by rw [entity?_create, if_neg hne, hi], hd⟩
  defined {e d} h := by
    obtain ⟨i, hi, hd⟩ := definition?_eq_some_iff.1 h
    rw [entity?_create] at hi
    split at hi
    · cases hi; exact Or.inr (hnew d hd)
    · exact Or.inl (definition?_eq_some_iff.2 ⟨i, hi, hd⟩)
  members {e x} h := by
    obtain ⟨i, hi, hm⟩ := members?_eq_some_iff.1 h
    have hne : e ≠ ⟨t.entities.size⟩ := by
      intro he
      subst he; exact Nat.lt_irrefl _ (lt_of_entity? hi)
    exact members?_eq_some_iff.2 ⟨i, by rw [entity?_create, if_neg hne, hi], hm⟩

/-! ### Bindings -/

theorem active_defineIn (t : Table) (s : ScopeId) (space : Space) (name : String)
    (kind : EntityKind) (node : NodeId) :
    (t.defineIn s space name kind node).2.active = t.active := by
  rcases t.defineIn_cases s space name kind node with ⟨e, -, -, h⟩ | h <;> rw [h] <;> rfl

theorem active_declareIn (t : Table) (s : ScopeId) (space : Space) (name : String)
    (kind : EntityKind) : (t.declareIn s space name kind).2.active = t.active := by
  rcases t.declareIn_cases s space name kind with ⟨e, -, h⟩ | h
  · rw [h]
  · rw [h]
    rfl

theorem scopes_size_defineIn (t : Table) (s : ScopeId) (space : Space) (name : String)
    (kind : EntityKind) (node : NodeId) :
    (t.defineIn s space name kind node).2.scopes.size = t.scopes.size := by
  rcases t.defineIn_cases s space name kind node with ⟨e, -, -, h⟩ | h <;> rw [h]
  · rfl
  · exact scopes_size_create ..

theorem scopes_size_declareIn (t : Table) (s : ScopeId) (space : Space) (name : String)
    (kind : EntityKind) : (t.declareIn s space name kind).2.scopes.size = t.scopes.size := by
  rcases t.declareIn_cases s space name kind with ⟨e, -, h⟩ | h <;> rw [h]
  exact scopes_size_create ..

/-- A binding leaves the active scopes alone. -/
theorem active_perform {t : Table} {op : Operation} (h : op.IsBinding) :
    (t.perform op).2.active = t.active := by
  cases op with
  | enter | enterMembers | leave => exact h.elim
  | define | defineParameter => exact active_defineIn ..
  | declare | declareImplicit => exact active_declareIn ..
  | useNamespace e =>
      show (t.useNamespace e).active = t.active
      rw [useNamespace_eq]
      split <;> rfl

/-- A binding makes no scope. -/
theorem scopes_size_perform {t : Table} {op : Operation} (h : op.IsBinding) :
    (t.perform op).2.scopes.size = t.scopes.size := by
  cases op with
  | enter | enterMembers | leave => exact h.elim
  | define | defineParameter => exact scopes_size_defineIn ..
  | declare | declareImplicit => exact scopes_size_declareIn ..
  | useNamespace e =>
      show (t.useNamespace e).scopes.size = t.scopes.size
      rw [useNamespace_eq]
      split
      · exact scopes_size_useIn ..
      · rfl

/-! ### The operations -/

theorem grows_defineIn {s : ScopeId} {space : Space} {name : String} {kind : EntityKind}
    {node : NodeId} (hnew : new node) : Grows new t (t.defineIn s space name kind node).2 := by
  rcases t.defineIn_cases s space name kind node with ⟨e, -, -, h⟩ | h <;> rw [h]
  · exact grows_complete hnew
  · exact grows_create fun d hd => by cases hd; exact hnew

theorem grows_declareIn (new : NodeId → Prop) (t : Table) (s : ScopeId) (space : Space)
    (name : String) (kind : EntityKind) : Grows new t (t.declareIn s space name kind).2 := by
  rcases t.declareIn_cases s space name kind with ⟨e, -, h⟩ | h <;> rw [h]
  · exact .refl new t
  · exact grows_create nofun

theorem grows_enterMembers (new : NodeId → Prop) (t : Table) (e : EntityId) (kind : ScopeKind) :
    Grows new t (t.enterMembers e kind).2 := by
  cases h : t.members? e with
  | some s => rw [enterMembers_of_some h]; exact grows_activate new t s
  | none =>
      rw [enterMembers_of_none h]
      have hm : (t.newScope kind).2.members? e = none := h
      exact ((grows_newScope new t kind).trans (grows_setMembers new hm _)).trans
        (grows_activate new _ _)

theorem grows_useNamespace (new : NodeId → Prop) (t : Table) (e : EntityId) :
    Grows new t (t.useNamespace e) := by
  rw [useNamespace_eq]
  split
  · exact grows_useIn new t _ _
  · exact .refl new t

/-- **What no operation takes back.** -/
theorem grows_perform {op : Operation} (hnew : ∀ d, op.node? = some d → new d) :
    Grows new t (t.perform op).2 := by
  cases op with
  | enter kind => exact (grows_newScope new t kind).trans (grows_activate new _ _)
  | enterMembers e kind => exact grows_enterMembers new t e kind
  | leave => exact grows_leave new t
  | define | defineParameter => exact grows_defineIn (hnew _ rfl)
  | declare | declareImplicit => exact grows_declareIn new t _ _ _ _
  | useNamespace e => exact grows_useNamespace new t e

/-- The same, whatever nodes the operation records. -/
theorem keeps_perform (t : Table) (op : Operation) : Grows (fun _ => True) t (t.perform op).2 :=
  grows_perform fun _ _ => trivial

/-! ### New entities -/

section New
variable {e : EntityId}

theorem new_of_create {s : ScopeId} {space : Space} {name : String} {info : EntityInfo}
    (hnew : t.entities.size ≤ e.index)
    (he : e.index < (t.create s space name info).2.entities.size) :
    e = (t.create s space name info).1 ∧
      (t.create s space name info).2.definition? e = info.definition := by
  rw [entities_size_create] at he
  obtain rfl : e = ⟨t.entities.size⟩ := EntityId.ext (Nat.le_antisymm (Nat.le_of_lt_succ he) hnew)
  exact ⟨rfl, by rw [definition?, entity?_create, if_pos rfl]; rfl⟩

/-- An entity that a definition makes is the one that it answers with, and has the definition. -/
theorem new_of_defineIn {s : ScopeId} {space : Space} {name : String} {kind : EntityKind}
    {node : NodeId} (hnew : t.entities.size ≤ e.index)
    (he : e.index < (t.defineIn s space name kind node).2.entities.size) :
    e = (t.defineIn s space name kind node).1 ∧
      (t.defineIn s space name kind node).2.definition? e = some node := by
  rcases t.defineIn_cases s space name kind node with ⟨x, -, -, hd⟩ | hd <;> rw [hd] at he ⊢
  · rw [entities_size_complete] at he
    omega
  · exact new_of_create hnew he

/-- An entity that a declaration makes is the one that it answers with, and has no definition. -/
theorem new_of_declareIn {s : ScopeId} {space : Space} {name : String} {kind : EntityKind}
    (hnew : t.entities.size ≤ e.index)
    (he : e.index < (t.declareIn s space name kind).2.entities.size) :
    e = (t.declareIn s space name kind).1 ∧
      (t.declareIn s space name kind).2.definition? e = none := by
  rcases t.declareIn_cases s space name kind with ⟨x, -, hd⟩ | hd <;> rw [hd] at he ⊢
  · exact absurd he (Nat.not_lt.2 hnew)
  · exact new_of_create hnew he

/-- **A new entity** is the answer of a binding, and what the binding records defines it. -/
theorem answer_of_new {op : Operation} (hnew : t.entities.size ≤ e.index)
    (he : e.index < (t.perform op).2.entities.size) :
    (t.perform op).1 = .entity e ∧ (t.perform op).2.definition? e = op.node? := by
  cases op with
  | enter kind => exact absurd he (Nat.not_lt.2 hnew)
  | enterMembers x kind =>
      have hsize : (t.enterMembers x kind).2.entities.size = t.entities.size := by
        cases hm : t.members? x with
        | some s => rw [enterMembers_of_some hm]; rfl
        | none => rw [enterMembers_of_none hm]; exact entities_size_setMembers _ x _
      rw [Table.perform, hsize] at he
      omega
  | leave =>
      rw [Table.perform, entities_leave] at he
      omega
  | define | defineParameter =>
      obtain ⟨hanswer, hdef⟩ := new_of_defineIn hnew he
      exact ⟨congrArg Answer.entity hanswer.symm, hdef⟩
  | declare | declareImplicit =>
      obtain ⟨hanswer, hdef⟩ := new_of_declareIn hnew he
      exact ⟨congrArg Answer.entity hanswer.symm, hdef⟩
  | useNamespace x =>
      have hsize : (t.useNamespace x).entities.size = t.entities.size := by
        rw [useNamespace_eq]
        split <;> rfl
      rw [Table.perform, hsize] at he
      omega

end New

end Table

end TypeUses
