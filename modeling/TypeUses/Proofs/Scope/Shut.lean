import TypeUses.Proofs.Scope.Placed
import TypeUses.Proofs.Scope.Reachable

/-!
# Scopes — scopes that cannot be entered again

A set `X` of scopes is `Shut` in a table if none of them is active, none is around a scope that is
not in `X`, and the entities whose members lie in `X` are `Barred`: no operation outside of `X`
answers with one of them as what it defines.  Then every operation leaves `X` shut
(`Shut.perform`), if it does not enter members that lie in `X`, and the entity that it defines has
no members there (`Shut.members_of_answer`).

What a lookup finds is not bound in `X` while no scope outside uses one of `X`
(`Shut.holds_of_lexical`), and never in a scope of `X` that is not that of an entity's members
(`Shut.holds_of_lookup`).
-/

namespace TypeUses.Table

variable {X : ScopeId → Prop} {B : EntityId → Prop} {t : Table} {op : Operation} {e : EntityId}

/-- Nothing defines the entity outside of `X`: it is bound in `X`, or it is defined already and not
a namespace. -/
def Barred (X : ScopeId → Prop) (t : Table) (e : EntityId) : Prop :=
  (∃ s, X s ∧ t.Holds s e) ∨
    (∃ d, t.definition? e = some d) ∧ t.kind? e ≠ some .namespaceName

/-- Only the entities `B`, which are barred, lead into `X`. -/
structure Shut (X : ScopeId → Prop) (B : EntityId → Prop) (t : Table) : Prop where
  there : ∀ {s}, X s → s.index < t.scopes.size
  file : ¬ X fileScope
  active : ∀ s ∈ t.active, ¬ X s
  chain : ∀ {s}, ¬ X s → ∀ x ∈ t.chain s, ¬ X x
  members : ∀ {e s}, t.members? e = some s → X s → B e
  barred : ∀ {e}, B e → t.Barred X e

/-- No scope outside of `X` uses one of `X`. -/
def Unused (X : ScopeId → Prop) (t : Table) : Prop :=
  ∀ s, ¬ X s → ∀ x ∈ t.usedBy s, ¬ X x

/-- The scope is there, and it is not that of an entity's members. -/
structure Memberless (t : Table) (s : ScopeId) : Prop where
  there : s.index < t.scopes.size
  members : ∀ e, t.members? e ≠ some s

/-! ### What operations keep -/

/-- An entity that is barred stays so. -/
theorem Barred.perform (h : t.Barred X e) (ht : t.Standing) (op : Operation) :
    (t.perform op).2.Barred X e := by
  have grows := keeps_perform t op
  rcases h with ⟨s, hs, hholds⟩ | ⟨⟨d, hd⟩, hkind⟩
  · exact Or.inl ⟨s, hs, hholds.grows grows⟩
  · exact Or.inr ⟨⟨d, grows.definition hd⟩, by rwa [kind?_of_defined ht hd]⟩

theorem Memberless.perform {s : ScopeId} (h : t.Memberless s) (ht : t.Standing) (op : Operation) :
    (t.perform op).2.Memberless s where
  there := Nat.lt_of_lt_of_le h.there (keeps_perform t op).scopes_le
  members e hm := by
    rcases members?_of_perform ht hm with hm | ⟨rfl, -⟩
    · exact h.members e hm
    · exact Nat.lt_irrefl _ h.there

/-- Scopes stay unused while no namespace whose members they are is used. -/
theorem Unused.perform (h : t.Unused X) (ht : t.Standing)
    (hop : ∀ e, op = .useNamespace e → ∀ s, t.members? e = some s → ¬ X s) :
    (t.perform op).2.Unused X := by
  intro s hs x hx
  rcases usedBy_of_perform ht hx with hx | ⟨-, e, he, hm⟩
  · exact h s hs x hx
  · exact hop e he x hm

namespace Shut

theorem new (h : t.Shut X B) : ¬ X ⟨t.scopes.size⟩ :=
  fun hs => Nat.lt_irrefl _ (h.there hs)

/-- **No operation opens what is shut**, if it does not enter members there. -/
theorem perform (h : t.Shut X B) (ht : t.Standing)
    (hop : ∀ e kind, op = .enterMembers e kind → ∀ s, t.members? e = some s → ¬ X s) :
    (t.perform op).2.Shut X B where
  there hs := Nat.lt_of_lt_of_le (h.there hs) (keeps_perform t op).scopes_le
  file := h.file
  active s hs := by
    rcases mem_active_of_perform ht hs with hs | ⟨rfl, -⟩ | ⟨e, kind, he, hm⟩
    · exact h.active s hs
    · exact h.new
    · exact hop e kind he s hm
  chain {s} hs x hx := by
    rcases chain_of_perform ht hx with hx | ⟨-, hx⟩
    · exact h.chain hs x hx
    · exact h.chain (h.active _ List.mem_cons_self) x hx
  members {e s} hm hs := by
    rcases members?_of_perform ht hm with hm | ⟨rfl, -⟩
    · exact h.members hm hs
    · exact absurd hs h.new
  barred hb := (h.barred hb).perform ht op

theorem innermost (h : t.Shut X B) (accept : ScopeKind → Bool) : ¬ X (t.innermost accept) := by
  rcases t.innermost_mem accept with hm | he
  · exact h.active _ hm
  · rw [he]
    exact h.file

/-- What an operation defines has no members in what is shut. -/
theorem members_of_answer (h : t.Shut X B) (hp : t.Placed) (ht : t.Standing) {d : NodeId}
    (hanswer : (t.perform op).1 = .entity e) (hnode : op.node? = some d) {s : ScopeId}
    (hm : (t.perform op).2.members? e = some s) : ¬ X s := by
  intro hs
  have hno : ∀ {e kind}, op ≠ .enterMembers e kind := by
    rintro e kind rfl
    cases hnode
  have hm := (members?_of_perform ht hm).resolve_right fun ⟨_, _, _, he⟩ => hno he
  have hplaced : (t.perform op).2.Placed := hp.perform ht fun e kind he => absurd he hno
  obtain ⟨b, -, hholds⟩ := holds_of_answer ht hanswer
  rcases h.barred (h.members hm hs) with ⟨x, hx, hbound⟩ | ⟨⟨d', hd⟩, hkind⟩
  · -- it is bound in one scope only, which is active
    rw [hplaced.unique (hbound.grows (keeps_perform t op)) hholds] at hx
    exact h.innermost _ hx
  · exact hkind (namespaceName_of_answer ht hanswer hnode hd)

/-- An entity that has no members in what is shut gets none there. -/
theorem members_of_perform (h : t.Shut X B) (ht : t.Standing)
    (hfree : ∀ s, t.members? e = some s → ¬ X s) {s : ScopeId}
    (hm : (t.perform op).2.members? e = some s) : ¬ X s := by
  rcases members?_of_perform ht hm with hm | ⟨rfl, -⟩
  · exact hfree s hm
  · exact h.new

/-! ### What lookups find -/

/-- What an unqualified name means is not bound in what is shut and unused. -/
theorem holds_of_lexical (h : t.Shut X B) (hu : t.Unused X) {spaces : List Space} {name : String}
    (hl : t.lookup spaces name .lexical = some e) : ∃ x, ¬ X x ∧ t.Holds x e := by
  obtain ⟨s, hsearch, hs⟩ := search_of_lookup hl
  have hs : ¬ X s := h.chain (h.active _ List.mem_cons_self) s hs
  obtain ⟨x, rfl | hx, hholds⟩ := holds_of_search hsearch
  · exact ⟨x, hs, hholds⟩
  · exact ⟨x, hu s hs x hx, hholds⟩

/-- What a name means is not bound in a scope that is shut and not that of an entity's members. -/
theorem holds_of_lookup (h : t.Shut X B) (hp : t.Placed) {z : ScopeId} (hz : X z)
    (hfree : t.Memberless z) {spaces : List Space} {name : String} {look : Lookup}
    (hl : t.lookup spaces name look = some e) : ∃ x, x ≠ z ∧ t.Holds x e := by
  obtain ⟨s, hsearch, hs⟩ := search_of_lookup hl
  have hne : s ≠ z := by
    rintro rfl
    cases look with
    | lexical => exact h.chain (h.active _ List.mem_cons_self) s hs hz
    | member q =>
        cases q with
        | none => exact hs
        | some q => exact hfree.members q hs
    | global => exact h.file (hs ▸ hz)
  obtain ⟨x, rfl | hx, hholds⟩ := holds_of_search hsearch
  · exact ⟨x, hne, hholds⟩
  · obtain ⟨e', hm⟩ := hp.used hx
    exact ⟨x, fun he => hfree.members e' (he ▸ hm), hholds⟩

end Shut

/-! ### What is made from a table on -/

/-- The scopes from table `t₀` on that are there in table `t`. -/
def MadeSince (t₀ t : Table) (s : ScopeId) : Prop :=
  t₀.NewScope s ∧ s.index < t.scopes.size

/-- Nothing defines the entity outside of the scopes from table `t₀` on, and a node from number `n`
on has defined it. -/
def BarredFrom (n : Nat) (t₀ t : Table) (e : EntityId) : Prop :=
  t.Barred t₀.NewScope e ∧ ∃ d, t.definition? e = some d ∧ n ≤ d.index

section BarredFrom
variable {n : Nat} {t₀ : Table}

theorem BarredFrom.perform (h : t₀.BarredFrom n t e) (ht : t.Standing) (op : Operation) :
    t₀.BarredFrom n (t.perform op).2 e := by
  obtain ⟨hbarred, d, hd, hle⟩ := h
  exact ⟨hbarred.perform ht op, d, (keeps_perform t op).definition hd, hle⟩

/-- So it is if the entity is bound in such a scope. -/
theorem NewlyHeld.barredFrom (h : t₀.NewlyHeld t e) (h₀ : t₀.Placed) (hp : t.Placed)
    (grows : Grows (fun d => n ≤ d.index) t₀ t) {d : NodeId} (hd : t.definition? e = some d) :
    t₀.BarredFrom n t e := by
  obtain ⟨x, hx, hholds⟩ := h
  exact ⟨Or.inl ⟨x, hx, hholds⟩, d, hd, h₀.defined_of_holds hp grows hx hholds hd⟩

end BarredFrom

/-- **When the active scopes are again what they were**, all new scopes are shut, if nothing outside
of them defines the entities whose members lie in them. -/
theorem shut_madeSince {t₀ : Table} {new : NodeId → Prop} (hclosed : t₀.Closed t₀.present)
    (grows : Grows new t₀ t) (hactive : t.active = t₀.active)
    (hmembers : ∀ e s, t.members? e = some s → t₀.NewScope s → t.Barred t₀.NewScope e) :
    t.Shut (t₀.MadeSince t) (fun e => ∃ s, t₀.MadeSince t s ∧ t.members? e = some s) where
  there hs := hs.2
  file hs := absurd hclosed.file (Nat.not_lt.2 hs.1)
  active s hs hnew := by
    rw [hactive] at hs
    exact absurd (hclosed.active s hs) (Nat.not_lt.2 hnew.1)
  chain {s} hs x hx hnew := by
    by_cases hold : s.index < t₀.scopes.size
    · rw [grows.chain hold] at hx
      exact absurd (hclosed.chain hold x hx) (Nat.not_lt.2 hnew.1)
    · -- a scope that is neither old nor made since is not there
      have hnone : t.scope? s = none :=
        Array.getElem?_eq_none (Nat.le_of_not_lt fun hlt => hs ⟨Nat.le_of_not_lt hold, hlt⟩)
      rw [Table.chain, hnone] at hx
      rw [List.mem_singleton.1 hx] at hnew
      exact hs hnew
  members {e s} hm hs := ⟨s, hs, hm⟩
  barred := by
    rintro e ⟨s, hs, hm⟩
    rcases hmembers e s hm hs.1 with ⟨x, hx, hholds⟩ | hdefined
    · exact Or.inl ⟨x, ⟨hx, hholds.lt⟩, hholds⟩
    · exact Or.inr hdefined

end TypeUses.Table
