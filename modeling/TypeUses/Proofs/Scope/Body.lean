import TypeUses.Proofs.Scope.Placed
import TypeUses.Proofs.Scope.Reachable

/-!
# Scopes — inside the body of a class

In the scope of a class a tag that is used first is bound outside of it, and all that is defined is
bound in it.  `InBody c n t₀ t` says so of a table `t`, if `t₀` is the table in which the members of
class `c` are entered for the first time and `n` the number of the next node.  It is kept by bindings
(`InBody.perform`) and by entering scopes; when a scope is left that was entered inside, the class's
own scope included, what is bound inside is bound there as before (`HeldIn.leave`).

Until then the class is `Unentered`: it is defined, no namespace, and without a scope for its
members, and no operation answers with it as what it defines.
-/

namespace TypeUses.Table

variable {c : EntityId} {n : Nat} {t₀ t t' : Table} {op : Operation} {e : EntityId}

/-! ### Before the members are entered -/

/-- The entity is defined, no namespace, and has no scope for its members. -/
structure Unentered (c : EntityId) (t : Table) : Prop where
  standing : t.Standing
  members : t.members? c = none
  defined : ∃ d, t.definition? c = some d
  kind : t.kind? c ≠ some .namespaceName

namespace Unentered

/-- Only entering its members gives `c` a scope. -/
theorem perform (h : Unentered c t) (hop : ∀ kind, op ≠ .enterMembers c kind) :
    Unentered c (t.perform op).2 := by
  obtain ⟨d, hd⟩ := h.defined
  refine ⟨h.standing.perform op, Option.eq_none_iff_forall_ne_some.2 fun s hs => ?_,
    ⟨d, (keeps_perform t op).definition hd⟩, ?_⟩
  · rcases members?_of_perform h.standing hs with hs | ⟨-, -, kind, he⟩
    · rw [h.members] at hs
      cases hs
    · exact hop kind he
  · rw [kind?_of_defined h.standing hd]
    exact h.kind

theorem leave (h : Unentered c t) : Unentered c t.leave := by
  show Unentered c (t.perform .leave).2
  exact h.perform nofun

theorem ne_of_answer (h : Unentered c t) {d : NodeId} (hanswer : (t.perform op).1 = .entity e)
    (hnode : op.node? = some d) : e ≠ c := by
  rintro rfl
  obtain ⟨d', hd⟩ := h.defined
  exact h.kind (namespaceName_of_answer h.standing hanswer hnode hd)

end Unentered

/-- What a binding defines that binds no namespace is unentered, and the node defines it. -/
theorem unentered_of_answer (hp : t.Placed) (ht : t.Standing) {d : NodeId} {kind : EntityKind}
    (hanswer : (t.perform op).1 = .entity c) (hnode : op.node? = some d)
    (hkind : op.kind? = some kind) (hne : kind ≠ .namespaceName) :
    Unentered c (t.perform op).2 ∧ (t.perform op).2.definition? c = some d := by
  obtain ⟨⟨d', hd'⟩, hk⟩ := defined_of_answer ht hanswer hnode
  rw [hkind] at hk
  have hnew : ∀ {x}, t.definition? c ≠ some x := by
    intro x hx
    rw [kind?_of_defined ht hx, namespaceName_of_answer ht hanswer hnode hx] at hk
    exact hne (Option.some.inj hk).symm
  have hd : (t.perform op).2.definition? c = some d := by
    rcases defined_of_perform ht hd' with h | ⟨-, -, h⟩
    · exact absurd h hnew
    · rw [hd', Option.some.inj (h.symm.trans hnode)]
  refine ⟨⟨ht.perform op, Option.eq_none_iff_forall_ne_some.2 fun s hs => ?_, ⟨d, hd⟩, ?_⟩, hd⟩
  · rcases members?_of_perform ht hs with hs | ⟨-, -, kind, rfl⟩
    · obtain ⟨x, hx⟩ := hp.members hs
      exact hnew hx
    · cases hnode
  · rw [hk]
    exact fun he => hne (Option.some.inj he)

/-! ### What is bound inside -/

/-- What is defined from node `n` on is bound in new scopes, and only class `c` and what is bound in
new scopes have their members there. -/
structure HeldIn (c : EntityId) (n : Nat) (t₀ t : Table) : Prop where
  standing : t.Standing
  scopes_le : t₀.scopes.size ≤ t.scopes.size
  defined : ∀ {e d}, t.definition? e = some d → n ≤ d.index → t₀.NewlyHeld t e
  members : ∀ {e s}, t.members? e = some s → t₀.NewScope s → e = c ∨ t₀.NewlyHeld t e
  inner : ∀ {e s}, t₀.NewlyHeld t e → t.members? e = some s → t₀.NewScope s
  used : ∀ {s}, ¬ t₀.NewScope s → ∀ x ∈ t.usedBy s, ¬ t₀.NewScope x

namespace HeldIn

/-- What is bound inside stays so, if what the operation defines is bound inside, if it enters the
members only of what is, and makes members visible only in a new scope. -/
theorem perform (h : HeldIn c n t₀ t)
    (hanswer : ∀ e d, (t.perform op).1 = .entity e → op.node? = some d →
      t₀.NewlyHeld (t.perform op).2 e)
    (hop : ∀ e kind, op = .enterMembers e kind → t₀.NewlyHeld t e)
    (huse : ∀ e, op = .useNamespace e → t₀.NewScope t.bindingScope) :
    HeldIn c n t₀ (t.perform op).2 := by
  have ht := h.standing
  have grows := keeps_perform t op
  refine ⟨ht.perform op, Nat.le_trans h.scopes_le grows.scopes_le, fun {e d} hd hn => ?_,
    fun {e s} hm hs => ?_, fun {e s} he hm => ?_, fun {s} hs x hx hnew => ?_⟩
  · rcases defined_of_perform ht hd with hd | ⟨-, he, hnode⟩
    · exact (h.defined hd hn).grows grows
    · exact hanswer e d he hnode
  · rcases members?_of_perform ht hm with hm | ⟨-, -, kind, he⟩
    · exact (h.members hm hs).imp_right fun he => he.grows grows
    · exact Or.inr ((hop e kind he).grows grows)
  · rcases members?_of_perform ht hm with hm | ⟨rfl, -⟩
    · obtain ⟨x, hx, hholds⟩ := he
      rcases holds_of_perform ht hholds with hholds | ⟨rfl, -⟩
      · exact h.inner ⟨x, hx, hholds⟩ hm
      · obtain ⟨info, hi, -⟩ := members?_eq_some_iff.1 hm
        exact absurd (lt_of_entity? hi) (Nat.lt_irrefl _)
    · exact h.scopes_le
  · rcases usedBy_of_perform ht hx with hx | ⟨rfl, e, he, -⟩
    · exact h.used hs x hx hnew
    · exact hs (huse e he)

theorem leave (h : HeldIn c n t₀ t) : HeldIn c n t₀ t.leave := by
  show HeldIn c n t₀ (t.perform .leave).2
  exact h.perform nofun nofun nofun

end HeldIn

/-! ### Inside the class's scope -/

/-- The scope of class `c` is active, and what is defined inside it is bound inside it. -/
structure InBody (c : EntityId) (n : Nat) (t₀ t : Table) : Prop where
  held : HeldIn c n t₀ t
  walled : Walled (· = .classBody) t₀ t

namespace InBody

/-- An entity that a binding defines is bound in a new scope. -/
theorem newlyHeld_of_answer (h : InBody c n t₀ t) {d : NodeId}
    (hanswer : (t.perform op).1 = .entity e) (hnode : op.node? = some d) :
    t₀.NewlyHeld (t.perform op).2 e := by
  refine h.walled.newlyHeld_of_answer (fun kind hk => ?_) h.held.standing hanswer hnode
  rw [hk]
  decide

/-- **A binding inside the body of a class stays inside.** -/
theorem perform (h : InBody c n t₀ t) (hop : op.IsBinding) : InBody c n t₀ (t.perform op).2 := by
  refine ⟨h.held.perform (fun e d => h.newlyHeld_of_answer) ?_ ?_,
    h.walled.of_active (keeps_perform t op) (active_perform hop)⟩
  · rintro e kind rfl
    exact hop.elim
  · intro e _
    exact h.walled.bindingScope fun kind hk => by rw [hk]; decide

theorem enter (h : InBody c n t₀ t) (kind : ScopeKind) : InBody c n t₀ (t.enter kind).2 := by
  show InBody c n t₀ (t.perform (.enter kind)).2
  exact ⟨h.held.perform nofun nofun nofun,
    h.walled.of_enter (keeps_perform t _) h.held.scopes_le rfl⟩

/-- The members of what is bound in a new scope may be entered. -/
theorem enterMembers (h : InBody c n t₀ t) (he : t₀.NewlyHeld t e) (kind : ScopeKind) :
    InBody c n t₀ (t.enterMembers e kind).2 := by
  have hg := grows_enterMembers (fun _ => True) t e kind
  show InBody c n t₀ (t.perform (.enterMembers e kind)).2
  refine ⟨h.held.perform nofun (by rintro _ _ ⟨⟩; exact he) nofun, ?_⟩
  show Walled _ _ (t.enterMembers e kind).2
  cases hm : t.members? e with
  | some s =>
      rw [enterMembers_of_some hm] at hg ⊢
      exact h.walled.of_enter hg (h.held.inner he hm) rfl
  | none =>
      rw [enterMembers_of_none hm] at hg ⊢
      exact h.walled.of_enter hg h.held.scopes_le rfl

/-- The body of a class begins when its members are entered for the first time. -/
theorem of_enterMembers (hclosed : t₀.Closed t₀.present) (hm : t₀.members? c = none)
    (hold : ∀ {e d}, t₀.definition? e = some d → d.index < n) :
    InBody c n t₀ (t₀.enterMembers c .classBody).2 := by
  have ht := hclosed.standing
  have hwalled : Walled (· = .classBody) t₀ (t₀.enterMembers c .classBody).2 := by
    rw [enterMembers_of_none hm]
    refine ⟨[], ⟨t₀.scopes.size⟩, t₀.active, ⟨.classBody, t₀.chain t₀.current, [], []⟩, rfl, nofun,
      Nat.le_refl _, ?_, rfl⟩
    rw [scope?_activate, scope?_setMembers, scope?_newScope, if_pos rfl]
  have hanswer : ∀ e, (t₀.perform (.enterMembers c .classBody)).1 ≠ .entity e := nofun
  show InBody c n t₀ (t₀.perform (.enterMembers c .classBody)).2
  refine ⟨⟨ht.perform _, (keeps_perform t₀ _).scopes_le, fun {e d} hd hn => ?_,
    fun {e s} hmem hs => ?_, fun {e s} he hmem => ?_, fun {s} hs x hx hnew => ?_⟩, hwalled⟩
  · rcases defined_of_perform ht hd with hd | ⟨-, he, -⟩
    · exact absurd (hold hd) (Nat.not_lt.2 hn)
    · exact absurd he (hanswer e)
  · rcases members?_of_perform ht hmem with hmem | ⟨-, -, kind, he⟩
    · exact absurd (ht.members hmem) (Nat.not_lt.2 hs)
    · cases he
      exact Or.inl rfl
  · obtain ⟨x, hx, hholds⟩ := he
    rcases holds_of_perform ht hholds with hholds | ⟨-, he, -⟩
    · exact absurd hholds.lt (Nat.not_lt.2 hx)
    · exact absurd he (hanswer e)
  · rcases usedBy_of_perform ht hx with hx | ⟨-, e, he, -⟩
    · by_cases hlt : s.index < t₀.scopes.size
      · exact absurd (hclosed.usedBy hlt x hx) (Nat.not_lt.2 hnew)
      · exact hs (Nat.le_of_not_lt hlt)
    · cases he

end InBody

end TypeUses.Table
