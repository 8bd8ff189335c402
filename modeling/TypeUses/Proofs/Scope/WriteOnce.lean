import TypeUses.Proofs.Scope.Locals
import TypeUses.Proofs.Scope.Nesting

/-!
# Scopes — what an entity never gives up

An entity that is only declared may become another kind of tag where tags are types, when it gets its
definition (`kind?_of_perform`).  From then on its kind and its definition stay; so do the scope of
its members and that scope's parent, and the names bound there go on to be bound.

* `Settles t t'`: what is known of entities and scopes in `t` is settled in `t'`.  It is a preorder
  (`Settles.trans`) that every operation respects (`settles_perform`).
* `entities_write_once`: so do operations one after the other.
-/

namespace TypeUses.Table

variable {t t' : Table} {s : ScopeId} {e : EntityId}

/-- What is known of entities and scopes in `t` is settled in `t'`. -/
structure Settles (t t' : Table) : Prop where
  grows : Grows (fun _ => True) t t'
  kind : ∀ {e kind}, t.kind? e = some kind →
    ∃ kind', t'.kind? e = some kind' ∧ Turns t t' e kind kind'
  locals : ∀ {s space name e}, t.local? s space name = some e →
    ∃ e', t'.local? s space name = some e' ∧ (e' = e ∨ t.entities.size ≤ e'.index)

/-- **An operation settles what is known.** -/
theorem settles_perform (ht : t.Standing) (op : Operation) : t.Settles (t.perform op).2 where
  grows := keeps_perform t op
  kind hk := kind?_of_perform ht hk
  locals hl := by
    obtain ⟨e', hl', he'⟩ := local?_of_perform ht hl
    exact ⟨e', hl', he'.imp_right fun he => Nat.le_of_eq (congrArg EntityId.index he).symm⟩

/-! ### Operations one after the other -/

namespace Settles

theorem refl (t : Table) : t.Settles t :=
  ⟨.refl _ t, fun hk => ⟨_, hk, Or.inl rfl⟩, fun hl => ⟨_, hl, Or.inl rfl⟩⟩

theorem trans {t'' : Table} (h : t.Settles t') (h' : t'.Settles t'') : t.Settles t'' where
  grows := h.grows.trans h'.grows
  kind {e kind} hk := by
    obtain ⟨kind', hk', hchange⟩ := h.kind hk
    obtain ⟨kind'', hk'', hchange'⟩ := h'.kind hk'
    refine ⟨kind'', hk'', ?_⟩
    -- of the two changes at most one is one of kind, since it leaves the entity defined
    rcases hchange with rfl | ⟨hnone, ⟨d, hd⟩, htypes, htag, htag'⟩
    · refine hchange'.imp_right fun ⟨hnone, hd, htypes, htags⟩ => ⟨?_, hd, ?_, htags⟩
      · cases hd : t.definition? e with
        | none => rfl
        | some d => rw [h.grows.definition hd] at hnone; cases hnone
      · rw [← h.grows.tagsAreTypes, htypes]
    · rcases hchange' with rfl | ⟨hnone', -⟩
      · exact Or.inr ⟨hnone, ⟨d, h'.grows.definition hd⟩, htypes, htag, htag'⟩
      · rw [hd] at hnone'; cases hnone'
  locals {s space name e} hl := by
    obtain ⟨e', hl', he'⟩ := h.locals hl
    obtain ⟨e'', hl'', he''⟩ := h'.locals hl'
    refine ⟨e'', hl'', ?_⟩
    rcases he'' with rfl | hnew
    · exact he'
    · exact Or.inr (Nat.le_trans h.grows.entities_le hnew)

/-- The kind of a defined entity stays. -/
theorem kind_of_defined (h : t.Settles t') {d : NodeId} (hd : t.definition? e = some d) :
    t'.kind? e = t.kind? e := by
  obtain ⟨info, hi, -⟩ := definition?_eq_some_iff.1 hd
  have hk : t.kind? e = some info.kind := by rw [kind?, hi]; rfl
  obtain ⟨kind', hk', hturns⟩ := h.kind hk
  rw [hk', hturns.of_defined hd, hk]

/-- Whether an entity is a tag stays. -/
theorem isTag (h : t.Settles t') {kind : EntityKind} (hk : t.kind? e = some kind) :
    ∃ kind', t'.kind? e = some kind' ∧ kind'.isTag = kind.isTag := by
  obtain ⟨kind', hk', rfl | ⟨-, -, -, htag, htag'⟩⟩ := h.kind hk
  · exact ⟨_, hk', rfl⟩
  · exact ⟨kind', hk', htag'.trans htag.symm⟩

/-- The parent of a scope stays. -/
theorem parent (h : t.Settles t') (hs : s.index < t.scopes.size) : t'.parent? s = t.parent? s := by
  obtain ⟨scope, ho⟩ := exists_scope? hs
  obtain ⟨scope', ho', -, henclosing, -⟩ := h.grows.scope ho
  rw [parent?, ho', parent?, ho, Option.bind_some, Option.bind_some, henclosing]

end Settles

/-- Operations that are allowed change nothing that is settled. -/
theorem settles_performAll (ht : t.Closed t.present) {ops : List Operation} (hops : t.Allows ops) :
    t.Settles (t.performAll ops).2 := by
  have hboth := hops.induction (P := fun t' => t'.Closed t'.present ∧ t.Settles t')
    (fun ⟨hclosed, hsettles⟩ hop =>
      ⟨hclosed.perform_present hop, hsettles.trans (settles_perform hclosed.standing _)⟩)
    ⟨ht, .refl t⟩
  exact hboth.2

/-- **Entities are written once.**  Whatever operations follow, the definition of an entity stays and
with it the kind; the kind of an entity without a definition becomes another only from tag to tag and
where tags are types; the members of an entity that has a scope for them are entered there, where
every name that was bound is bound, to the same entity or one made since; and the parent of a scope
stays. -/
theorem entities_write_once (ht : t.Reachable) {ops : List Operation} (hops : t.Allows ops) :
    let t' := (t.performAll ops).2
    (∀ e d, t.definition? e = some d →
      t'.definition? e = some d ∧ t'.kind? e = t.kind? e) ∧
    (∀ e kind, t.kind? e = some kind → ∃ kind', t'.kind? e = some kind' ∧ (kind' ≠ kind →
      t.definition? e = none ∧ t.tagsAreTypes = true ∧ kind.isTag = true ∧ kind'.isTag = true)) ∧
    (∀ e s kind, t.members? e = some s →
      (t'.enterMembers e kind).1 = s ∧ (t'.enterMembers e kind).2.current = s ∧
        ∀ space name x, t.local? s space name = some x →
          ∃ x', (t'.enterMembers e kind).2.local? s space name = some x' ∧
            (x' = x ∨ t.entities.size ≤ x'.index)) ∧
    ∀ s : ScopeId, s.index < t.scopes.size → t'.parent? s = t.parent? s := by
  intro t'
  have h : t.Settles t' := settles_performAll ht.closed hops
  refine ⟨fun e d hd => ⟨h.grows.definition hd, h.kind_of_defined hd⟩, fun e kind hk => ?_,
    fun e s kind hm => ?_, fun s => h.parent⟩
  · obtain ⟨kind', hk', hchange⟩ := h.kind hk
    refine ⟨kind', hk', fun hne => ?_⟩
    rcases hchange with rfl | ⟨hnone, -, htags⟩
    · exact absurd rfl hne
    · exact ⟨hnone, htags⟩
  · rw [enterMembers_of_some (h.grows.members hm)]
    exact ⟨rfl, rfl, fun _ _ _ hl => h.locals hl⟩

/-- A tag whose members are entered before it is defined as one of another kind, and whose name then
becomes that of another entity. -/
theorem entities_write_once_tag :
    let t := ((empty true).performAll
      [.declare .tag "S" .structTag, .enterMembers ⟨0⟩ .classBody,
        .define .ordinary "T" .typedefName ⟨1⟩, .leave]).2
    let t' := (t.performAll
      [.define .tag "S" .classTag ⟨2⟩, .define .tag "S" .structTag ⟨3⟩]).2
    (∃ kind, t'.kind? ⟨0⟩ = some kind ∧ kind ≠ .structTag) ∧ t.definition? ⟨0⟩ = none ∧
      (t'.enterMembers ⟨0⟩ .classBody).1 = ⟨1⟩ ∧
      (∃ x, (t'.enterMembers ⟨0⟩ .classBody).2.local? ⟨1⟩ .ordinary "T" = some x) ∧
      t'.parent? ⟨1⟩ = t.parent? ⟨1⟩ := by
  intro t t'
  have ht : t.Reachable := (reachable_empty true).performAll (by decide)
  have hops : t.Allows [.define .tag "S" .classTag ⟨2⟩, .define .tag "S" .structTag ⟨3⟩] := by
    decide
  have hkind : t.kind? ⟨0⟩ = some .structTag := by decide
  have hmembers : t.members? ⟨0⟩ = some ⟨1⟩ := by decide
  have hlocal : t.local? ⟨1⟩ .ordinary "T" = some ⟨1⟩ := by decide
  have hclass : t'.kind? ⟨0⟩ = some .classTag := by decide
  obtain ⟨-, hkinds, hagain, hparents⟩ := entities_write_once ht hops
  obtain ⟨kind, hk, hchange⟩ := hkinds ⟨0⟩ .structTag hkind
  have hne : kind ≠ .structTag := by
    rintro rfl
    cases hk.symm.trans hclass
  obtain ⟨hsame, -, hbound⟩ := hagain ⟨0⟩ ⟨1⟩ .classBody hmembers
  obtain ⟨x, hx, -⟩ := hbound .ordinary "T" ⟨1⟩ hlocal
  exact ⟨⟨kind, hk, hne⟩, (hchange hne).1, hsame, ⟨x, hx⟩, hparents ⟨1⟩ (by decide)⟩

end TypeUses.Table
