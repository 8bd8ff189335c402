import TypeUses.Proofs.Scope.Growth

/-!
# Scopes — realms that a table does not lead out of

A `Realm` is a set of scopes, of entities and of nodes.  A table is `Closed` in a realm if nothing
that it says of the realm leads out of it: neither the active scopes, nor the scopes around a scope
or used in it, nor the entities bound in it, nor the definition and the members of an entity.

* `Closed.lookup`: a lookup in the realm stays there.
* `Closed.perform`: so does an operation, if what it is about and what it makes lie in the realm.
  The entity with which it answers is in the realm then (`Closed.answer`).
-/

namespace TypeUses

/-- A set of scopes, of entities and of nodes. -/
structure Realm where
  scope : ScopeId → Prop
  entity : EntityId → Prop
  node : NodeId → Prop

/-- The entity in which a lookup begins, if it begins in one, lies in the realm. -/
def Lookup.In (A : Realm) : Lookup → Prop
  | .member (some e) => A.entity e
  | .lexical | .member none | .global => True

/-- What a scope leads to lies in the realm. -/
structure Scope.In (A : Realm) (s : Scope) : Prop where
  enclosing : ∀ x ∈ s.enclosing, A.scope x
  names : ∀ b ∈ s.names, A.entity b.2
  used : ∀ x ∈ s.used, A.scope x

/-- What an entity leads to lies in the realm. -/
structure EntityInfo.In (A : Realm) (info : EntityInfo) : Prop where
  definition : ∀ d, info.definition = some d → A.node d
  members : ∀ s, info.members = some s → A.scope s

theorem Scope.In.bind {A : Realm} {s : Scope} (h : s.In A) (spaces : List Space) (name : String)
    {e : EntityId} (he : A.entity e) : (s.bind spaces name e).In A where
  enclosing := h.enclosing
  names b hb := by
    rcases mem_names_bind hb with ⟨-, hb⟩ | hb
    · exact hb ▸ he
    · exact h.names b hb
  used := h.used

theorem Scope.In.use {A : Realm} {s : Scope} (h : s.In A) {x : ScopeId} (hx : A.scope x) :
    (s.use x).In A where
  enclosing y hy := h.enclosing y (by rwa [enclosing_use] at hy)
  names b hb := h.names b (by rwa [names_use] at hb)
  used y hy := by
    rcases mem_used_use hy with rfl | hy
    · exact hx
    · exact h.used y hy

namespace Table

/-- Nothing that the table says of the realm leads out of it. -/
structure Closed (A : Realm) (t : Table) : Prop where
  file : A.scope fileScope
  active : ∀ s ∈ t.active, A.scope s
  scope : ∀ {s scope}, A.scope s → t.scope? s = some scope → scope.In A
  entity : ∀ {e info}, A.entity e → t.entity? e = some info → info.In A

namespace Closed

variable {A : Realm} {t : Table}

/-- A realm may be enlarged by scopes and entities that the table does not have. -/
theorem enlarge {B : Realm} (h : t.Closed A) (hscope : ∀ s, A.scope s → B.scope s)
    (hentity : ∀ e, A.entity e → B.entity e) (hnode : ∀ d, A.node d → B.node d)
    (oldScope : ∀ s, B.scope s → s.index < t.scopes.size → A.scope s)
    (oldEntity : ∀ e, B.entity e → e.index < t.entities.size → A.entity e) : t.Closed B where
  file := hscope _ h.file
  active s hs := hscope s (h.active s hs)
  scope {s scope} hs ho := by
    have hin := h.scope (oldScope s hs (lt_of_scope? ho)) ho
    exact ⟨fun x hx => hscope x (hin.enclosing x hx), fun b hb => hentity _ (hin.names b hb),
      fun x hx => hscope x (hin.used x hx)⟩
  entity {e info} he hi := by
    have hin := h.entity (oldEntity e he (lt_of_entity? hi)) hi
    exact ⟨fun d hd => hnode d (hin.definition d hd), fun s hs => hscope s (hin.members s hs)⟩

/-! ### Finding names -/

theorem members (h : t.Closed A) {e : EntityId} (he : A.entity e) {s : ScopeId}
    (hs : t.members? e = some s) : A.scope s := by
  obtain ⟨info, hi, hm⟩ := members?_eq_some_iff.1 hs
  exact (h.entity he hi).members s hm

theorem definition (h : t.Closed A) {e : EntityId} (he : A.entity e) {d : NodeId}
    (hd : t.definition? e = some d) : A.node d := by
  obtain ⟨info, hi, hd⟩ := definition?_eq_some_iff.1 hd
  exact (h.entity he hi).definition d hd

theorem current (h : t.Closed A) : A.scope t.current := h.active _ List.mem_cons_self

theorem chain (h : t.Closed A) {s : ScopeId} (hs : A.scope s) : ∀ x ∈ t.chain s, A.scope x := by
  intro x hx
  rcases List.mem_cons.1 hx with rfl | hx
  · exact hs
  · cases ho : t.scope? s with
    | none => simp [ho] at hx
    | some scope =>
        rw [ho] at hx
        exact (h.scope hs ho).enclosing x hx

theorem usedBy (h : t.Closed A) {s : ScopeId} (hs : A.scope s) : ∀ x ∈ t.usedBy s, A.scope x := by
  intro x hx
  cases ho : t.scope? s with
  | none => simp [Table.usedBy, ho] at hx
  | some scope =>
      rw [Table.usedBy, ho] at hx
      exact (h.scope hs ho).used x hx

theorem compatible? (h : t.Closed A) {s : ScopeId} (hs : A.scope s) {space : Space}
    {name : String} {kind : EntityKind} {e : EntityId}
    (he : t.compatible? s space name kind = some e) : A.entity e := by
  obtain ⟨scope, ho, hb⟩ := bound_of_local? (local?_of_compatible? he).1
  exact (h.scope hs ho).names _ hb

/-- What a lookup from a scope of the realm finds is of the realm. -/
theorem search (h : t.Closed A) {s : ScopeId} (hs : A.scope s) {spaces : List Space}
    {name : String} {e : EntityId} (he : t.search spaces name s = some e) : A.entity e := by
  obtain ⟨x, scope, space, -, hx, ho, hb⟩ := bound_of_search he
  rcases hx with rfl | hx
  · exact (h.scope hs ho).names _ hb
  · exact (h.scope (h.usedBy hs x hx) ho).names _ hb

/-- **A lookup in a realm stays there.** -/
theorem lookup (h : t.Closed A) {spaces : List Space} {name : String} {look : Lookup}
    (hlook : look.In A) {e : EntityId} (he : t.lookup spaces name look = some e) : A.entity e := by
  obtain ⟨s, hs, hl⟩ := search_of_lookup he
  refine h.search ?_ hs
  cases look with
  | lexical => exact h.chain h.current s hl
  | member q =>
      cases q with
      | none => exact hl.elim
      | some q => exact h.members hlook hl
  | global => exact hl ▸ h.file

theorem innermost (h : t.Closed A) (accept : ScopeKind → Bool) :
    A.scope (t.innermost accept) := by
  rcases t.innermost_mem accept with hm | he
  · exact h.active _ hm
  · exact he ▸ h.file

/-! ### The changes that operations are made of -/

theorem activate (h : t.Closed A) {s : ScopeId} (hs : A.scope s) : (t.activate s).Closed A where
  file := h.file
  active x hx := (List.mem_cons.1 hx).elim (fun e => e ▸ hs) (h.active x)
  scope := h.scope
  entity := h.entity

theorem leave (h : t.Closed A) : t.leave.Closed A where
  file := h.file
  active s hs := h.active s (mem_active_of_leave hs)
  scope hs ho := h.scope hs (by rwa [scope?_leave] at ho)
  entity he hi := h.entity he (by rwa [entity?_leave] at hi)

theorem newScope (h : t.Closed A) (kind : ScopeKind) : (t.newScope kind).2.Closed A where
  file := h.file
  active := h.active
  scope {s scope} hs ho := by
    rw [scope?_newScope] at ho
    split at ho
    · cases ho; exact ⟨h.chain h.current, nofun, nofun⟩
    · exact h.scope hs ho
  entity := h.entity

theorem setMembers (h : t.Closed A) (e : EntityId) {s : ScopeId} (hs : A.scope s) :
    (t.setMembers e s).Closed A where
  file := h.file
  active := h.active
  scope := h.scope
  entity {x info} hx hi := by
    rw [entity?_setMembers] at hi
    split at hi
    · obtain ⟨old, hold, rfl⟩ := Option.map_eq_some_iff.1 hi
      exact ⟨(h.entity hx hold).definition, fun y hy => by cases hy; exact hs⟩
    · exact h.entity hx hi

theorem useIn (h : t.Closed A) (s : ScopeId) {x : ScopeId} (hx : A.scope x) :
    (t.useIn s x).Closed A where
  file := h.file
  active := h.active
  scope {y scope} hy ho := by
    rw [scope?_useIn] at ho
    split at ho
    · obtain ⟨old, hold, rfl⟩ := Option.map_eq_some_iff.1 ho
      exact (h.scope hy hold).use hx
    · exact h.scope hy ho
  entity := h.entity

theorem create (h : t.Closed A) (s : ScopeId) (space : Space) (name : String) {info : EntityInfo}
    (hnew : A.entity ⟨t.entities.size⟩) (hinfo : info.In A) :
    (t.create s space name info).2.Closed A where
  file := h.file
  active := h.active
  scope {y scope} hy ho := by
    rw [scope?_create] at ho
    split at ho
    · obtain ⟨old, hold, rfl⟩ := Option.map_eq_some_iff.1 ho
      exact (h.scope hy hold).bind _ name hnew
    · exact h.scope hy ho
  entity {e i} he hi := by
    rw [entity?_create] at hi
    split at hi
    · cases hi; exact hinfo
    · exact h.entity he hi

theorem complete (h : t.Closed A) (e : EntityId) (kind : EntityKind) {node : NodeId}
    (hnode : A.node node) : (t.complete e kind node).Closed A where
  file := h.file
  active := h.active
  scope := h.scope
  entity {x info} hx hi := by
    rw [entity?_complete] at hi
    split at hi
    · obtain ⟨old, hold, rfl⟩ := Option.map_eq_some_iff.1 hi
      refine ⟨fun d hd => ?_, (h.entity hx hold).members⟩
      rcases Option.or_eq_some_iff.1 hd with hd | ⟨-, hd⟩
      · exact (h.entity hx hold).definition d hd
      · cases hd; exact hnode
    · exact h.entity hx hi

/-! ### The operations -/

theorem enterMembers (h : t.Closed A) {e : EntityId} (he : A.entity e) (kind : ScopeKind)
    (hnew : t.members? e = none → A.scope ⟨t.scopes.size⟩) :
    (t.enterMembers e kind).2.Closed A := by
  cases hm : t.members? e with
  | some s => rw [enterMembers_of_some hm]; exact h.activate (h.members he hm)
  | none =>
      rw [enterMembers_of_none hm]
      exact ((h.newScope kind).setMembers e (hnew hm)).activate (hnew hm)

/-- Defining keeps a table closed, if the node and the entity that may be made are of the realm. -/
theorem defineIn (h : t.Closed A) (s : ScopeId) (space : Space) (name : String)
    (kind : EntityKind) {node : NodeId} (hnode : A.node node)
    (hnew : t.entities.size < (t.defineIn s space name kind node).2.entities.size →
      A.entity ⟨t.entities.size⟩) :
    (t.defineIn s space name kind node).2.Closed A := by
  rcases t.defineIn_cases s space name kind node with ⟨e, -, -, hd⟩ | hd <;> rw [hd] at hnew ⊢
  · exact h.complete e kind hnode
  · exact h.create s space name (hnew (by simp)) ⟨fun d hd => by cases hd; exact hnode, nofun⟩

theorem declareIn (h : t.Closed A) (s : ScopeId) (space : Space) (name : String)
    (kind : EntityKind) (hnew : t.entities.size < (t.declareIn s space name kind).2.entities.size →
      A.entity ⟨t.entities.size⟩) :
    (t.declareIn s space name kind).2.Closed A := by
  rcases t.declareIn_cases s space name kind with ⟨e, -, hd⟩ | hd <;> rw [hd] at hnew ⊢
  · exact h
  · exact h.create s space name (hnew (by simp)) ⟨nofun, nofun⟩

theorem useNamespace (h : t.Closed A) {e : EntityId} (he : A.entity e) :
    (t.useNamespace e).Closed A := by
  rw [useNamespace_eq]
  split
  · next s hm => exact h.useIn _ (h.members he hm)
  · exact h

/-- **An operation stays in a realm** if what it is about and what it makes lie there. -/
theorem perform (h : t.Closed A) {op : Operation}
    (hsubject : ∀ e, op.subject? = some e → A.entity e)
    (hnode : ∀ d, op.node? = some d → A.node d)
    (hscope : t.scopes.size < (t.perform op).2.scopes.size → A.scope ⟨t.scopes.size⟩)
    (hentity : t.entities.size < (t.perform op).2.entities.size → A.entity ⟨t.entities.size⟩) :
    (t.perform op).2.Closed A := by
  cases op with
  | enter kind =>
      -- the scope that is made has the first number that is free
      exact (h.newScope kind).activate (hscope (Nat.lt_of_lt_of_eq (Nat.lt_succ_self _)
        (size_newScope t kind).symm))
  | enterMembers e kind =>
      refine h.enterMembers (hsubject e rfl) kind fun hm => hscope ?_
      show _ < (t.enterMembers e kind).2.scopes.size
      rw [enterMembers_of_none hm]
      exact Nat.lt_of_lt_of_eq (Nat.lt_succ_self _) (size_newScope t kind).symm
  | leave => exact h.leave
  | define | defineParameter => exact h.defineIn _ _ _ _ (hnode _ rfl) hentity
  | declare | declareImplicit => exact h.declareIn _ _ _ _ hentity
  | useNamespace e => exact h.useNamespace (hsubject e rfl)

/-- The entity with which an operation answers lies in the realm. -/
theorem answer (h : t.Closed A) {op : Operation} {e : EntityId}
    (hanswer : (t.perform op).1 = .entity e)
    (hentity : t.entities.size < (t.perform op).2.entities.size → A.entity ⟨t.entities.size⟩) :
    A.entity e := by
  have defineIn : ∀ {s space name kind node}, A.scope s →
      (t.entities.size < (t.defineIn s space name kind node).2.entities.size →
        A.entity ⟨t.entities.size⟩) → A.entity (t.defineIn s space name kind node).1 := by
    intro s space name kind node hs hnew
    rcases t.defineIn_cases s space name kind node with ⟨e, he, -, hd⟩ | hd <;> rw [hd] at hnew ⊢
    · exact h.compatible? hs he
    · exact hnew (by simp)
  have declareIn : ∀ {s space name kind}, A.scope s →
      (t.entities.size < (t.declareIn s space name kind).2.entities.size →
        A.entity ⟨t.entities.size⟩) → A.entity (t.declareIn s space name kind).1 := by
    intro s space name kind hs hnew
    rcases t.declareIn_cases s space name kind with ⟨e, he, hd⟩ | hd <;> rw [hd] at hnew ⊢
    · exact h.compatible? hs he
    · exact hnew (by simp)
  cases op with
  | enter | enterMembers | leave | useNamespace => cases hanswer
  | define => cases hanswer; exact defineIn (h.innermost _) hentity
  | defineParameter => cases hanswer; exact defineIn h.current hentity
  | declare | declareImplicit => cases hanswer; exact declareIn (h.innermost _) hentity

end Closed

end Table

end TypeUses
