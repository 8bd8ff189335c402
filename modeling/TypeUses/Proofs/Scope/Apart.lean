import TypeUses.Proofs.Scope.Growth

/-!
# Scopes — what stays behind a wall

Inside a scope that is neither a class's nor a template's the table binds nothing outside of it.
`Apart t₀ t` says that `t` has the scopes and entities of `t₀` as they were, and that the scopes and
entities from `t₀` on lead to each other only, by the names that they bind and the members that they
have.  `Walled P t₀ t` says that a scope from `t₀` on whose kind satisfies `P` is active, and all
that is active inside it is from `t₀` on.

Together (`Inside`, where `P` is `ScopeKind.IsWall`) they are kept by every binding
(`Inside.perform`), since the scope in which a name is bound is never sought beyond such a scope
(`Walled.innermost`), and by entering scopes; the entity with which a binding answers is from `t₀`
on (`Inside.answer`).
-/

namespace TypeUses

/-- No name is bound beyond a scope of this kind. -/
def ScopeKind.IsWall (kind : ScopeKind) : Prop := kind ≠ .classBody ∧ kind ≠ .template

namespace Table

/-- The scope is not among those of `t`. -/
def NewScope (t : Table) (s : ScopeId) : Prop := t.scopes.size ≤ s.index

/-- The entity is not among those of `t`. -/
def NewEntity (t : Table) (e : EntityId) : Prop := t.entities.size ≤ e.index

/-- What was there is as it was, and what is new is bound only where it is new. -/
structure Apart (t₀ t : Table) : Prop where
  scopes_le : t₀.scopes.size ≤ t.scopes.size
  entities_le : t₀.entities.size ≤ t.entities.size
  scope : ∀ s, ¬ t₀.NewScope s → t.scope? s = t₀.scope? s
  entity : ∀ e, ¬ t₀.NewEntity e → t.entity? e = t₀.entity? e
  names : ∀ {s scope}, t₀.NewScope s → t.scope? s = some scope →
    ∀ b ∈ scope.names, t₀.NewEntity b.2
  members : ∀ {e s}, t₀.NewEntity e → t.members? e = some s → t₀.NewScope s

/-- A new scope of a kind that satisfies `P` is active, and all that is active inside it is new. -/
def Walled (P : ScopeKind → Prop) (t₀ t : Table) : Prop :=
  ∃ inner wall outer scope, t.active = inner ++ wall :: outer ∧ (∀ s ∈ inner, t₀.NewScope s) ∧
    t₀.NewScope wall ∧ t.scope? wall = some scope ∧ P scope.kind

/-- Between `t₀` and `t` a wall was entered, and is not left, beyond which nothing changed. -/
structure Inside (t₀ t : Table) : Prop where
  apart : Apart t₀ t
  walled : Walled ScopeKind.IsWall t₀ t

variable {P : ScopeKind → Prop} {t₀ t t' : Table}

/-! ### Walls -/

/-- A wall stays where it is while scopes keep their kind. -/
theorem Walled.of_active {new : NodeId → Prop} (h : Walled P t₀ t) (hg : Grows new t t')
    (hactive : t'.active = t.active) : Walled P t₀ t' := by
  obtain ⟨inner, wall, outer, scope, ha, hinner, hwall, hs, hk⟩ := h
  obtain ⟨scope', hs', hk', -⟩ := hg.scope hs
  exact ⟨inner, wall, outer, scope', hactive.trans ha, hinner, hwall, hs', hk'.symm ▸ hk⟩

/-- A new scope may be entered. -/
theorem Walled.of_enter {new : NodeId → Prop} (h : Walled P t₀ t) (hg : Grows new t t')
    {s : ScopeId} (hs : t₀.NewScope s) (hactive : t'.active = s :: t.active) : Walled P t₀ t' := by
  obtain ⟨inner, wall, outer, scope, ha, hinner, hwall, ho, hk⟩ := h
  obtain ⟨scope', ho', hk', -⟩ := hg.scope ho
  refine ⟨s :: inner, wall, outer, scope', by rw [hactive, ha]; rfl, fun x hx => ?_, hwall, ho',
    hk'.symm ▸ hk⟩
  rcases List.mem_cons.1 hx with rfl | hx
  · exact hs
  · exact hinner x hx

theorem Walled.current (h : Walled P t₀ t) : t₀.NewScope t.current := by
  obtain ⟨inner, wall, outer, scope, ha, hinner, hwall, -⟩ := h
  cases inner with
  | nil => exact (List.cons.inj ha).1 ▸ hwall
  | cons s inner => exact (List.cons.inj ha).1 ▸ hinner s List.mem_cons_self

/-- **No name is bound beyond a wall.** -/
theorem Walled.innermost (h : Walled P t₀ t) {accept : ScopeKind → Bool}
    (haccept : ∀ kind : ScopeKind, P kind → accept kind = true) :
    t₀.NewScope (t.innermost accept) := by
  obtain ⟨inner, wall, outer, scope, ha, hinner, hwall, hs, hk⟩ := h
  -- the wall accepts, so that a search from the innermost scope on does not get beyond it
  have found : ∀ p : ScopeId → Bool, p wall = true →
      t₀.NewScope (((inner ++ wall :: outer).find? p).getD fileScope) := by
    intro p hp
    rw [List.find?_append, List.find?_cons_of_pos hp]
    cases hf : inner.find? p with
    | none => exact hwall
    | some s => exact hinner s (List.mem_of_find?_eq_some hf)
  simp only [Table.innermost]
  rw [ha]
  refine found _ ?_
  rw [hs]
  exact haccept _ hk

/-- Names are bound in a new scope. -/
theorem Walled.bindingScope (h : Walled P t₀ t) (hP : ∀ kind, P kind → kind ≠ .template) :
    t₀.NewScope t.bindingScope :=
  h.innermost fun kind hk => by simpa using hP kind hk

/-- Tags that declare themselves are bound in a new scope. -/
theorem Walled.implicitScope (h : Walled P t₀ t) (hP : ∀ kind : ScopeKind, P kind → kind.IsWall) :
    t₀.NewScope t.implicitScope :=
  h.innermost fun kind hk => by simpa [ScopeKind.IsWall] using hP kind hk

/-- A scope that is entered is a wall if it has the kind. -/
theorem Walled.of_enter_self (t : Table) {kind : ScopeKind} (hk : P kind) :
    Walled P t (t.enter kind).2 := by
  refine ⟨[], ⟨t.scopes.size⟩, t.active, ⟨kind, t.chain t.current, [], []⟩, rfl, nofun,
    Nat.le_refl _, ?_, hk⟩
  rw [enter_eq, scope?_activate, scope?_newScope, if_pos rfl]

/-! ### The changes that operations are made of -/

namespace Apart

theorem refl (t : Table) : Apart t t where
  scopes_le := Nat.le_refl _
  entities_le := Nat.le_refl _
  scope _ _ := rfl
  entity _ _ := rfl
  names hs ho := absurd (lt_of_scope? ho) (Nat.not_lt.2 hs)
  members he hm := by
    obtain ⟨i, hi, -⟩ := members?_eq_some_iff.1 hm
    exact absurd (lt_of_entity? hi) (Nat.not_lt.2 he)

theorem compatible? (h : Apart t₀ t) {s : ScopeId} (hs : t₀.NewScope s) {space : Space}
    {name : String} {kind : EntityKind} {e : EntityId}
    (he : t.compatible? s space name kind = some e) : t₀.NewEntity e := by
  obtain ⟨scope, ho, hb⟩ := bound_of_local? (local?_of_compatible? he).1
  exact h.names hs ho _ hb

/-- A table with the same scopes and entities is apart as well. -/
theorem of_eq (h : Apart t₀ t) (hs : t'.scopes = t.scopes) (he : t'.entities = t.entities) :
    Apart t₀ t' where
  scopes_le := by rw [hs]; exact h.scopes_le
  entities_le := by rw [he]; exact h.entities_le
  scope s hold := by rw [scope?, hs]; exact h.scope s hold
  entity e hold := by rw [entity?, he]; exact h.entity e hold
  names hnew ho := h.names hnew (by rwa [scope?, hs] at ho)
  members hnew hm := h.members hnew (by rwa [members?, entity?, he] at hm)

theorem newScope (h : Apart t₀ t) (kind : ScopeKind) : Apart t₀ (t.newScope kind).2 where
  scopes_le := by rw [size_newScope]; exact Nat.le_succ_of_le h.scopes_le
  entities_le := h.entities_le
  scope s hold := by
    have hne : s ≠ ⟨t.scopes.size⟩ := fun e => hold (by rw [e]; exact h.scopes_le)
    rw [scope?_newScope, if_neg hne]
    exact h.scope s hold
  entity := h.entity
  names {s scope} hnew ho := by
    rw [scope?_newScope] at ho
    split at ho
    · cases ho; exact nofun
    · exact h.names hnew ho
  members := h.members

theorem setMembers (h : Apart t₀ t) {e : EntityId} (he : t₀.NewEntity e) {s : ScopeId}
    (hs : t₀.NewScope s) : Apart t₀ (t.setMembers e s) where
  scopes_le := h.scopes_le
  entities_le := by rw [entities_size_setMembers]; exact h.entities_le
  scope := h.scope
  entity x hold := by
    rw [entity?_setMembers, if_neg fun hx => hold (by rw [hx]; exact he)]
    exact h.entity x hold
  names := h.names
  members {x y} hx hm := by
    obtain ⟨i, hi, hm⟩ := members?_eq_some_iff.1 hm
    rw [entity?_setMembers] at hi
    split at hi
    · obtain ⟨old, -, rfl⟩ := Option.map_eq_some_iff.1 hi
      cases hm
      exact hs
    · exact h.members hx (members?_eq_some_iff.2 ⟨i, hi, hm⟩)

theorem useIn (h : Apart t₀ t) {s : ScopeId} (hs : t₀.NewScope s) (x : ScopeId) :
    Apart t₀ (t.useIn s x) where
  scopes_le := by rw [scopes_size_useIn]; exact h.scopes_le
  entities_le := h.entities_le
  scope y hold := by
    rw [scope?_useIn, if_neg fun hy => hold (by rw [hy]; exact hs)]
    exact h.scope y hold
  entity := h.entity
  names {y scope} hnew ho b hb := by
    rw [scope?_useIn] at ho
    split at ho
    · obtain ⟨old, hold, rfl⟩ := Option.map_eq_some_iff.1 ho
      exact h.names hnew hold b (by rwa [Scope.names_use] at hb)
    · exact h.names hnew ho b hb
  members := h.members

theorem create (h : Apart t₀ t) {s : ScopeId} (hs : t₀.NewScope s) (space : Space) (name : String)
    {info : EntityInfo} (hmem : info.members = none) :
    Apart t₀ (t.create s space name info).2 where
  scopes_le := by rw [scopes_size_create]; exact h.scopes_le
  entities_le := by rw [entities_size_create]; exact Nat.le_succ_of_le h.entities_le
  scope y hold := by
    rw [scope?_create, if_neg fun hy => hold (by rw [hy]; exact hs)]
    exact h.scope y hold
  entity e hold := by
    rw [entity?_create, if_neg fun he => hold (by rw [he]; exact h.entities_le)]
    exact h.entity e hold
  names {y scope} hnew ho b hb := by
    rw [scope?_create] at ho
    split at ho
    · obtain ⟨old, hold, rfl⟩ := Option.map_eq_some_iff.1 ho
      rcases Scope.mem_names_bind hb with ⟨-, he⟩ | hb
      · -- the new name is bound to the new entity
        rw [he]; exact h.entities_le
      · exact h.names hnew hold b hb
    · exact h.names hnew ho b hb
  members {e x} he hm := by
    obtain ⟨i, hi, hm⟩ := members?_eq_some_iff.1 hm
    rw [entity?_create] at hi
    split at hi
    · cases hi; rw [hmem] at hm; cases hm
    · exact h.members he (members?_eq_some_iff.2 ⟨i, hi, hm⟩)

theorem complete (h : Apart t₀ t) {e : EntityId} (he : t₀.NewEntity e) (kind : EntityKind)
    (node : NodeId) : Apart t₀ (t.complete e kind node) where
  scopes_le := h.scopes_le
  entities_le := by rw [entities_size_complete]; exact h.entities_le
  scope := h.scope
  entity x hold := by
    rw [entity?_complete, if_neg fun hx => hold (by rw [hx]; exact he)]
    exact h.entity x hold
  names := h.names
  members {x s} hx hm := by
    obtain ⟨i, hi, hm⟩ := members?_eq_some_iff.1 hm
    rw [entity?_complete] at hi
    split at hi
    · obtain ⟨old, hold, rfl⟩ := Option.map_eq_some_iff.1 hi
      exact h.members hx (members?_eq_some_iff.2 ⟨old, hold, hm⟩)
    · exact h.members hx (members?_eq_some_iff.2 ⟨i, hi, hm⟩)

/-! ### Binding names -/

/-- A definition in a new scope leaves what was there as it was, and is of a new entity. -/
theorem defineIn (h : Apart t₀ t) {s : ScopeId} (hs : t₀.NewScope s) (space : Space)
    (name : String) (kind : EntityKind) (node : NodeId) :
    Apart t₀ (t.defineIn s space name kind node).2 ∧
      t₀.NewEntity (t.defineIn s space name kind node).1 := by
  rcases t.defineIn_cases s space name kind node with ⟨e, he, -, hd⟩ | hd <;> rw [hd]
  · exact ⟨h.complete (h.compatible? hs he) kind node, h.compatible? hs he⟩
  · exact ⟨h.create hs space name rfl, h.entities_le⟩

/-- A declaration in a new scope leaves what was there as it was, and is of a new entity. -/
theorem declareIn (h : Apart t₀ t) {s : ScopeId} (hs : t₀.NewScope s) (space : Space)
    (name : String) (kind : EntityKind) :
    Apart t₀ (t.declareIn s space name kind).2 ∧
      t₀.NewEntity (t.declareIn s space name kind).1 := by
  rcases t.declareIn_cases s space name kind with ⟨e, he, hd⟩ | hd <;> rw [hd]
  · exact ⟨h, h.compatible? hs he⟩
  · exact ⟨h.create hs space name rfl, h.entities_le⟩

end Apart

/-! ### Inside a wall -/

namespace Inside

theorem bindingScope (h : Inside t₀ t) : t₀.NewScope t.bindingScope :=
  h.walled.bindingScope fun _ hk => hk.2

theorem implicitScope (h : Inside t₀ t) : t₀.NewScope t.implicitScope :=
  h.walled.implicitScope fun _ => id

/-- Inside a wall every binding leaves what was there as it was, and answers with a new entity. -/
theorem apart_perform (h : Inside t₀ t) {op : Operation} (hop : op.IsBinding) :
    Apart t₀ (t.perform op).2 ∧ ∀ e, (t.perform op).1 = .entity e → t₀.NewEntity e := by
  have answer : ∀ {p : EntityId × Table}, Apart t₀ p.2 ∧ t₀.NewEntity p.1 →
      Apart t₀ p.2 ∧ ∀ e, Answer.entity p.1 = .entity e → t₀.NewEntity e :=
    fun hp => ⟨hp.1, fun e he => Answer.entity.inj he ▸ hp.2⟩
  cases op with
  | enter | enterMembers | leave => exact hop.elim
  | define => exact answer (h.apart.defineIn h.bindingScope _ _ _ _)
  | defineParameter => exact answer (h.apart.defineIn h.walled.current _ _ _ _)
  | declare => exact answer (h.apart.declareIn h.bindingScope _ _ _)
  | declareImplicit => exact answer (h.apart.declareIn h.implicitScope _ _ _)
  | useNamespace e =>
      refine ⟨?_, nofun⟩
      show Apart t₀ (t.useNamespace e)
      rw [useNamespace_eq]
      split
      · exact h.apart.useIn h.bindingScope _
      · exact h.apart

/-- **A binding inside a wall stays inside.** -/
theorem perform (h : Inside t₀ t) {op : Operation} (hop : op.IsBinding) :
    Inside t₀ (t.perform op).2 :=
  ⟨(h.apart_perform hop).1, h.walled.of_active (keeps_perform t op) (active_perform hop)⟩

/-- The entity with which a binding answers is new. -/
theorem answer (h : Inside t₀ t) {op : Operation} (hop : op.IsBinding) {e : EntityId}
    (he : (t.perform op).1 = .entity e) : t₀.NewEntity e :=
  (h.apart_perform hop).2 e he

theorem enter (h : Inside t₀ t) (kind : ScopeKind) : Inside t₀ (t.enter kind).2 :=
  ⟨(h.apart.newScope kind).of_eq rfl rfl,
    h.walled.of_enter (keeps_perform t (.enter kind)) h.apart.scopes_le rfl⟩

/-- The members of a new entity may be entered. -/
theorem enterMembers (h : Inside t₀ t) {e : EntityId} (he : t₀.NewEntity e) (kind : ScopeKind) :
    Inside t₀ (t.enterMembers e kind).2 := by
  have hg := grows_enterMembers (fun _ => True) t e kind
  cases hm : t.members? e with
  | some s =>
      rw [enterMembers_of_some hm] at hg ⊢
      exact ⟨h.apart.of_eq rfl rfl, h.walled.of_enter hg (h.apart.members he hm) rfl⟩
  | none =>
      rw [enterMembers_of_none hm] at hg ⊢
      exact ⟨((h.apart.newScope kind).setMembers he h.apart.scopes_le).of_eq rfl rfl,
        h.walled.of_enter hg h.apart.scopes_le rfl⟩

/-- The scope of a wall's kind is a wall when it is entered. -/
theorem of_enter (t : Table) {kind : ScopeKind} (hk : kind.IsWall) :
    Inside t (t.enter kind).2 :=
  ⟨((Apart.refl t).newScope kind).of_eq rfl rfl, .of_enter_self t hk⟩

end Inside

end Table

end TypeUses
