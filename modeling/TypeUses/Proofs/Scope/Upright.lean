import TypeUses.Proofs.Scope.Nesting

/-!
# Scopes — the scopes around a scope and the active scopes

Templates left out (`plain`), the scopes around an active scope are the active scopes from it
outwards, and the scope of an entity's members lies right inside the scope that binds the entity.
A table in which this is so is `Upright`.

* `Upright.plain_chain_current`: in an upright table a name is looked up along the active scopes.
* `Upright.perform`: an operation keeps a table upright, if the members that it enters are those
  of an entity that the binding scope binds.

Members that are entered again keep the scopes around them that they had at first.  So it matters
that the scope which binds their entity is the same then and now, and that around it nothing has
changed.
-/

namespace TypeUses.Table

/-- The scope is there and not a template's. -/
def isPlain (t : Table) (s : ScopeId) : Bool :=
  ((t.scope? s).map fun scope => scope.kind != .template).getD false

/-- Those of the scopes that are not templates'. -/
def plain (t : Table) (scopes : List ScopeId) : List ScopeId :=
  scopes.filter t.isPlain

/-- Templates left out, the active scopes lie around each other, and the scope of an entity's
members lies right inside the scope that binds the entity. -/
structure Upright (t : Table) : Prop where
  file : t.isPlain fileScope = true
  active : ∀ {s outer}, s :: outer <:+ t.active → t.plain (t.chain s) = t.plain (s :: outer)
  members : ∀ {e m b}, t.members? e = some m → t.Holds b e →
    t.isPlain m = true ∧ t.plain (t.chain m) = m :: t.plain (t.chain b)

variable {new : NodeId → Prop} {t t' : Table} {op : Operation} {s : ScopeId} {e : EntityId}

/-! ### Scopes that are not templates' -/

theorem isPlain_eq_true_iff :
    t.isPlain s = true ↔ ∃ scope, t.scope? s = some scope ∧ scope.kind ≠ .template := by
  cases ho : t.scope? s <;> simp [isPlain, ho]

theorem plain_cons_of_isPlain (hs : t.isPlain s = true) (scopes : List ScopeId) :
    t.plain (s :: scopes) = s :: t.plain scopes :=
  List.filter_cons_of_pos hs

/-- A definition is bound in the innermost active scope that is not a template's. -/
theorem bindingScope_eq (t : Table) :
    t.bindingScope = (t.plain t.active).head?.getD fileScope := by
  rw [plain, List.head?_filter]
  rfl

theorem bindingScope_of_current (h : t.isPlain t.current = true) : t.bindingScope = t.current := by
  rw [bindingScope_eq, active, plain_cons_of_isPlain h]
  rfl

theorem isPlain_of_grows (hg : Grows new t t') (hs : s.index < t.scopes.size) :
    t'.isPlain s = t.isPlain s := by
  obtain ⟨scope, ho⟩ := exists_scope? hs
  obtain ⟨scope', ho', hkind, -⟩ := hg.scope ho
  rw [isPlain, ho', isPlain, ho, Option.map_some, Option.map_some, hkind]

theorem plain_of_grows (hg : Grows new t t') {scopes : List ScopeId}
    (hscopes : ∀ s ∈ scopes, s.index < t.scopes.size) : t'.plain scopes = t.plain scopes :=
  List.filter_congr fun s hs => isPlain_of_grows hg (hscopes s hs)

/-- Where names are bound depends on the active scopes alone. -/
theorem bindingScope_of_grows (hg : Grows new t t') (ht : t.Standing)
    (hactive : t'.active = t.active) : t'.bindingScope = t.bindingScope := by
  rw [bindingScope_eq, bindingScope_eq, hactive, plain_of_grows hg ht.active]

theorem Nested.lt_of_mem_chain (h : t.Nested) (hs : s.index < t.scopes.size) :
    ∀ x ∈ t.chain s, x.index < t.scopes.size :=
  fun x hx => Nat.lt_of_le_of_lt ((h.pairwise_chain hs).2 x hx) hs

/-- What lies around a scope stays. -/
theorem plain_chain_of_grows (hg : Grows new t t') (hn : t.Nested) (hs : s.index < t.scopes.size) :
    t'.plain (t'.chain s) = t.plain (t.chain s) := by
  rw [hg.chain hs, plain_of_grows hg (hn.lt_of_mem_chain hs)]

theorem mem_active_of_suffix {outer : List ScopeId} (h : s :: outer <:+ t.active) : s ∈ t.active :=
  h.subset List.mem_cons_self

namespace Upright

theorem empty (tagsAreTypes : Bool) : (empty tagsAreTypes).Upright where
  file := rfl
  active {s outer} h := by
    obtain ⟨rfl, rfl⟩ : s = fileScope ∧ outer = [] := by
      have heq : s :: outer = [fileScope] := by
        rcases List.suffix_cons_iff.1 h with heq | hnil
        · exact heq
        · cases List.suffix_nil.1 hnil
      exact ⟨(List.cons.inj heq).1, (List.cons.inj heq).2⟩
    rfl
  members := nofun

variable (h : t.Upright)
include h

/-- **A name is looked up along the active scopes**, templates left out. -/
theorem plain_chain_current : t.plain (t.chain t.current) = t.plain t.active :=
  h.active (List.suffix_refl _)

/-- The active scopes outside of the binding scope are those around it. -/
theorem plain_chain_bindingScope (hn : t.Nested) :
    t.plain (t.chain t.bindingScope) = t.plain t.active := by
  have hfile : ∃ x ∈ t.active, t.isPlain x = true :=
    ⟨fileScope, List.mem_of_getLast? hn.outermost, h.file⟩
  obtain ⟨b, hb⟩ := Option.isSome_iff_exists.1 (List.find?_isSome.2 hfile)
  have hbinding : t.bindingScope = b := by
    show (t.active.find? t.isPlain).getD fileScope = b
    rw [hb, Option.getD_some]
  obtain ⟨hplain, inner, outer, hactive, hinner⟩ := List.find?_eq_some_iff_append.1 hb
  have hnone : inner.filter t.isPlain = [] := List.filter_eq_nil_iff.2 fun x hx => by
    simpa using hinner x hx
  rw [hbinding, h.active ⟨inner, hactive.symm⟩, plain, plain, hactive, List.filter_append, hnone,
    List.nil_append]

/-- The scope in which definitions are bound is active. -/
theorem bindingScope_mem (hn : t.Nested) : t.bindingScope ∈ t.plain t.active := by
  have hfile : fileScope ∈ t.plain t.active :=
    List.mem_filter.2 ⟨List.mem_of_getLast? hn.outermost, h.file⟩
  rw [bindingScope_eq]
  cases hplain : t.plain t.active with
  | nil => rw [hplain] at hfile; cases hfile
  | cons b rest => exact List.mem_cons_self

/-- What lies around the active scopes is as it was, whatever becomes active further in. -/
theorem active_of_grows (hg : Grows new t t') (ht : t.Standing) (hn : t.Nested)
    {outer : List ScopeId} (hsuffix : s :: outer <:+ t.active) :
    t'.plain (t'.chain s) = t'.plain (s :: outer) := by
  rw [plain_chain_of_grows hg hn (ht.active s (mem_active_of_suffix hsuffix)), h.active hsuffix]
  exact (plain_of_grows hg fun x hx => ht.active x (hsuffix.subset hx)).symm

/-- An active scope that is no template's is searched for an unqualified name. -/
theorem mem_chain_of_active (hs : s ∈ t.active) (hplain : t.isPlain s = true) :
    s ∈ t.chain t.current := by
  have hmem : s ∈ t.plain (t.chain t.current) := by
    rw [h.plain_chain_current]
    exact List.mem_filter.2 ⟨hs, hplain⟩
  exact (List.mem_filter.1 hmem).1

/-- The members of an entity that the binding scope binds lie right inside the active scopes. -/
theorem plain_chain_members (hn : t.Nested) {m : ScopeId} (hm : t.members? e = some m)
    (he : t.Holds t.bindingScope e) : t.plain (t.chain m) = t.plain (m :: t.active) := by
  obtain ⟨hplain, hchain⟩ := h.members hm he
  rw [hchain, h.plain_chain_bindingScope hn, plain_cons_of_isPlain hplain]

/-- A scope that is made lies right inside the active scopes. -/
theorem plain_chain_new (hg : Grows new t t') (ht : t.Standing) (hn : t.Nested)
    (hchain : t'.chain s = s :: t.chain t.current) :
    t'.plain (t'.chain s) = t'.plain (s :: t.active) := by
  have htail : t'.plain (t.chain t.current) = t'.plain t.active := by
    rw [plain_of_grows hg (hn.lt_of_mem_chain ht.current), h.plain_chain_current,
      plain_of_grows hg ht.active]
  rw [hchain, plain, plain, List.filter_cons, List.filter_cons]
  exact congrArg (fun rest => if t'.isPlain s = true then s :: rest else rest) htail

end Upright

/-- A scope that is made for members has the kind for which it is made. -/
theorem isPlain_of_enterMembers {kind : ScopeKind} (hnone : t.members? e = none)
    (hkind : kind ≠ .template) :
    (t.perform (.enterMembers e kind)).2.isPlain ⟨t.scopes.size⟩ = true := by
  refine isPlain_eq_true_iff.2 ⟨⟨kind, t.chain t.current, [], []⟩, ?_, hkind⟩
  show (t.enterMembers e kind).2.scope? _ = _
  rw [enterMembers_of_none hnone]
  simp

/-- The members that have been entered are those of the entity. -/
theorem members?_of_enterMembers {info : EntityInfo} (he : t.entity? e = some info)
    (kind : ScopeKind) :
    (t.perform (.enterMembers e kind)).2.members? e =
      some (t.perform (.enterMembers e kind)).2.current := by
  show (t.enterMembers e kind).2.members? e = some (t.enterMembers e kind).2.current
  cases hm : t.members? e with
  | some m =>
      rw [enterMembers_of_some hm]
      exact hm
  | none =>
      rw [enterMembers_of_none hm]
      have hinfo : ((t.newScope kind).2.setMembers e ⟨t.scopes.size⟩).entity? e =
          some { info with members := some ⟨t.scopes.size⟩ } := by simp [he]
      rw [members?, entity?_activate, hinfo]
      rfl

/-- An operation enters a scope that it makes or that of an entity's members, or no scope. -/
theorem active_cases_of_perform (ht : t.Standing) (op : Operation) :
    (t.perform op).2.active <:+ t.active ∨
      ∃ x, (t.perform op).2.active = x :: t.active ∧
        (x = ⟨t.scopes.size⟩ ∧ x.index < (t.perform op).2.scopes.size ∨
          ∃ e kind, op = .enterMembers e kind ∧ t.members? e = some x) := by
  have hchanges := changes_perform ht op
  generalize (t.perform op).1 = answer, (t.perform op).2 = t' at hchanges ⊢
  cases hchanges with
  | rebind => exact Or.inl (active_rebind t _ _ ▸ List.suffix_refl _)
  | create | use | useNone => exact Or.inl (List.suffix_refl _)
  | enter kind | enterNew kind =>
      exact Or.inr ⟨_, rfl, Or.inl ⟨rfl, lt_size_newScope t kind⟩⟩
  | enterAgain kind hm => exact Or.inr ⟨_, rfl, Or.inr ⟨_, kind, rfl, hm⟩⟩
  | leave =>
      refine Or.inl ?_
      cases ho : t.outer with
      | nil =>
          have hleave : t.leave = t := by rw [leave, ho]
          exact hleave.symm ▸ List.suffix_refl _
      | cons x rest =>
          have hactive : t.active = t.current :: x :: rest := by rw [active, ho]
          rw [active_leave hactive, hactive]
          exact List.suffix_cons _ _

namespace Upright

/-- **An operation keeps a table upright**, if the members that it enters are those of an entity
that the binding scope binds. -/
theorem perform (h : t.Upright) (ht : t.Standing) (hp : t.Placed) (hn : t.Nested)
    (hop : ∀ e kind, op = .enterMembers e kind → kind ≠ .template ∧ t.Holds t.bindingScope e) :
    (t.perform op).2.Upright := by
  have hg := keeps_perform t op
  refine ⟨(isPlain_of_grows hg ht.file).trans h.file, fun {s outer} hsuffix => ?_,
    fun {e m b} hm hb => ?_⟩
  · rcases active_cases_of_perform ht op with hactive | ⟨x, hactive, hx⟩
    · exact h.active_of_grows hg ht hn (hsuffix.trans hactive)
    · rw [hactive] at hsuffix
      rcases List.suffix_cons_iff.1 hsuffix with heq | hsuffix
      · obtain ⟨rfl, rfl⟩ := List.cons.inj heq
        rcases hx with ⟨rfl, hlt⟩ | ⟨e, kind, rfl, hm⟩
        · exact h.plain_chain_new hg ht hn (chain_of_new ht (Nat.le_refl _) hlt).2
        · -- the scope of the members lies where it lay when it was made
          have hmembers := h.plain_chain_members hn hm (hop e kind rfl).2
          rw [plain_chain_of_grows hg hn (ht.members hm), hmembers]
          refine (plain_of_grows hg fun y hy => ?_).symm
          rcases List.mem_cons.1 hy with rfl | hy
          · exact ht.members hm
          · exact ht.active y hy
      · exact h.active_of_grows hg ht hn hsuffix
  · rcases members?_of_perform ht hm with hm | ⟨rfl, hlt, kind, rfl⟩
    · have hb : t.Holds b e := by
        rcases holds_of_perform ht hb with hb | ⟨rfl, -⟩
        · exact hb
        · obtain ⟨info, hi, -⟩ := members?_eq_some_iff.1 hm
          exact absurd (lt_of_entity? hi) (Nat.lt_irrefl _)
      obtain ⟨hplain, hchain⟩ := h.members hm hb
      refine ⟨(isPlain_of_grows hg (ht.members hm)).trans hplain, ?_⟩
      rw [plain_chain_of_grows hg hn (ht.members hm), hchain, plain_chain_of_grows hg hn hb.lt]
    · obtain ⟨hkind, hholds⟩ := hop e kind rfl
      have hnone : t.members? e = none := Option.eq_none_iff_forall_ne_some.2 fun x hx => by
        cases (hg.members hx).symm.trans hm
        exact Nat.lt_irrefl _ (ht.members hx)
      have hplain := isPlain_of_enterMembers hnone hkind
      obtain ⟨-, hchain⟩ := chain_of_new (s := ⟨t.scopes.size⟩) ht (Nat.le_refl _) hlt
      obtain rfl : b = t.bindingScope := by
        rcases holds_of_perform ht hb with hb | ⟨-, -, x, hx, -⟩
        · exact hp.unique hb hholds
        · cases hx
      refine ⟨hplain, ?_⟩
      rw [h.plain_chain_new hg ht hn hchain, plain_cons_of_isPlain hplain,
        plain_chain_of_grows hg hn hholds.lt, h.plain_chain_bindingScope hn,
        plain_of_grows hg ht.active]

end Upright

/-! ### Looking a name up -/

/-- What a scope on the way binds is found, unless a nearer scope gives the name a meaning. -/
theorem lookup_of_localIn? {inner outer : List ScopeId} {spaces : List Space} {name : String}
    (hchain : t.chain t.current = inner ++ s :: outer)
    (hinner : ∀ z ∈ inner, t.search spaces name z = none)
    (hlocal : t.localIn? spaces name s = some e) : t.lookup spaces name .lexical = some e := by
  have hsearch : t.search spaces name s = some e := by simp [search, hlocal]
  have hnone : inner.findSome? (t.search spaces name) = none := List.findSome?_eq_none_iff.2 hinner
  rw [lookup, hchain, List.findSome?_append, hnone, Option.none_or, List.findSome?_cons, hsearch]

end TypeUses.Table
