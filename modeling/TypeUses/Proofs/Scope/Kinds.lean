import TypeUses.Proofs.Scope.Names

/-!
# Scopes — the kind of an entity

A space admits some kinds of entities only: tags, namespaces, or what an ordinary name can mean, a
tag where tags are types (`Space.Admits`).  A table is `Kinded` if every name means an entity of a
kind that its space admits, and the node that defines an entity defines one of its kind.

* `Kinded.perform`: an operation keeps this, if its space admits the kind that it binds and the node
  that it records defines one of that kind.

The kind of an entity may change when it is defined, from one tag to another where tags are types;
the spaces in which it is bound admit both (`admits_of_compatible`).
-/

namespace TypeUses

/-- The kinds of entities that a name of a space can mean. -/
def Space.Admits (tagsAreTypes : Bool) : Space → EntityKind → Prop
  | .tag, kind => kind.isTag = true
  | .ordinary, kind =>
    kind = .typedefName ∨ kind = .typeAlias ∨ kind = .templateParameter ∨
      tagsAreTypes = true ∧ kind.isTag = true
  | .namespaces, kind => kind = .namespaceName

instance Space.decidableAdmits (tagsAreTypes : Bool) :
    (space : Space) → (kind : EntityKind) → Decidable (space.Admits tagsAreTypes kind)
  | .tag, kind => inferInstanceAs (Decidable (kind.isTag = true))
  | .ordinary, _ => inferInstanceAs (Decidable (_ ∨ _))
  | .namespaces, kind => inferInstanceAs (Decidable (kind = .namespaceName))

/-- Only the space of the namespaces admits a namespace, and no space admits a label. -/
theorem Space.Admits.ne {tagsAreTypes : Bool} {space : Space} {kind : EntityKind}
    (h : space.Admits tagsAreTypes kind) (hspace : space ≠ .namespaces) :
    kind ≠ .label ∧ kind ≠ .namespaceName := by
  have htag : kind.isTag = true → kind ≠ .label ∧ kind ≠ .namespaceName := by
    cases kind <;> simp [EntityKind.isTag]
  cases space with
  | tag => exact htag h
  | namespaces => exact absurd rfl hspace
  | ordinary =>
      rcases h with rfl | rfl | rfl | ⟨-, h⟩
      · exact ⟨nofun, nofun⟩
      · exact ⟨nofun, nofun⟩
      · exact ⟨nofun, nofun⟩
      · exact htag h

/-- What a space admits where tags are not types it admits everywhere. -/
theorem Space.Admits.everywhere {space : Space} {kind : EntityKind} (h : space.Admits false kind)
    (tagsAreTypes : Bool) : space.Admits tagsAreTypes kind := by
  cases space with
  | tag | namespaces => exact h
  | ordinary =>
      refine h.imp_right (Or.imp_right (Or.imp_right ?_))
      rintro ⟨htypes, -⟩
      cases htypes

/-- Where tags are not types no ordinary name means a tag. -/
theorem Space.Admits.isTag_eq_false {kind : EntityKind} (h : Space.ordinary.Admits false kind) :
    kind.isTag = false := by
  rcases h with rfl | rfl | rfl | ⟨htypes, -⟩
  · rfl
  · rfl
  · rfl
  · cases htypes

namespace Table

/-- Every name means an entity of a kind that its space admits, and a node that defines an entity
defines one of its kind; `fits` tells which nodes may define which kinds. -/
structure Kinded (fits : NodeId → EntityKind → Prop) (t : Table) : Prop where
  bound : ∀ {space name e}, t.BoundIn space name e →
    ∃ kind, t.kind? e = some kind ∧ space.Admits t.tagsAreTypes kind
  definition : ∀ {e kind d}, t.kind? e = some kind → t.definition? e = some d → fits d kind

variable {fits : NodeId → EntityKind → Prop} {t t' : Table}

theorem kind?_eq_some_iff {e : EntityId} {kind : EntityKind} :
    t.kind? e = some kind ↔ ∃ info, t.entity? e = some info ∧ info.kind = kind :=
  Option.map_eq_some_iff

/-- A space that admits a kind admits every kind that is compatible with it. -/
theorem admits_of_compatible {space : Space} {existing kind : EntityKind}
    (h : t.compatible existing kind = true) (ha : space.Admits t.tagsAreTypes existing) :
    space.Admits t.tagsAreTypes kind := by
  simp only [compatible, Bool.or_eq_true, beq_iff_eq, Bool.and_eq_true] at h
  rcases h with rfl | ⟨⟨htags, hexisting⟩, hkind⟩
  · exact ha
  · cases space with
    | tag => exact hkind
    | ordinary => exact Or.inr (Or.inr (Or.inr ⟨htags, hkind⟩))
    | namespaces => subst ha; cases hexisting

/-- The spaces in which a name is bound admit the kinds that its space admits. -/
theorem admits_of_boundSpaces {space space' : Space} {kind : EntityKind}
    (h : space' ∈ t.boundSpaces space) (ha : space.Admits t.tagsAreTypes kind) :
    space'.Admits t.tagsAreTypes kind := by
  cases space with
  | tag =>
      simp only [boundSpaces] at h
      split at h
      · next htags =>
        rcases List.mem_cons.1 h with rfl | h
        · exact ha
        · rw [List.mem_singleton.1 h]
          exact Or.inr (Or.inr (Or.inr ⟨htags, ha⟩))
      · rw [List.mem_singleton.1 h]
        exact ha
  | ordinary | namespaces =>
      rw [List.mem_singleton.1 h]
      exact ha

namespace Kinded

theorem mono {fits' : NodeId → EntityKind → Prop} (h : t.Kinded fits)
    (hfits : ∀ d kind, fits d kind → fits' d kind) : t.Kinded fits' :=
  ⟨h.bound, fun hk hd => hfits _ _ (h.definition hk hd)⟩

/-- A table that binds no more, and says of kinds and definitions the same, is kinded if the other
is. -/
theorem of_boundIn (h : t.Kinded fits) (htags : t'.tagsAreTypes = t.tagsAreTypes)
    (hb : ∀ {space name e}, t'.BoundIn space name e → t.BoundIn space name e)
    (hk : ∀ e, t'.kind? e = t.kind? e) (hd : ∀ e, t'.definition? e = t.definition? e) :
    t'.Kinded fits where
  bound hbound := by
    rw [hk, htags]
    exact h.bound (hb hbound)
  definition hkind hdef := by
    rw [hk] at hkind
    rw [hd] at hdef
    exact h.definition hkind hdef

theorem create (h : t.Kinded fits) {s : ScopeId} {space : Space} {name : String}
    {info : EntityInfo} (hadmits : space.Admits t.tagsAreTypes info.kind)
    (hfits : ∀ d, info.definition = some d → fits d info.kind) :
    (t.create s space name info).2.Kinded fits where
  bound {space' n e} hb := by
    rcases boundIn_of_create hb with hb | ⟨hspace, -, rfl⟩
    · obtain ⟨kind, hkind, ha⟩ := h.bound hb
      obtain ⟨i, hi, -⟩ := kind?_eq_some_iff.1 hkind
      have hne : e ≠ ⟨t.entities.size⟩ := by
        rintro rfl
        exact Nat.lt_irrefl _ (lt_of_entity? hi)
      refine ⟨kind, ?_, ha⟩
      rwa [kind?, entity?_create, if_neg hne]
    · refine ⟨info.kind, ?_, admits_of_boundSpaces hspace hadmits⟩
      rw [kind?, entity?_create, if_pos rfl, Option.map_some]
  definition {e kind d} hkind hdef := by
    rw [kind?, entity?_create] at hkind
    rw [definition?, entity?_create] at hdef
    split at hkind
    · next he =>
      rw [if_pos he] at hdef
      cases hkind
      exact hfits d hdef
    · next he =>
      rw [if_neg he] at hdef
      exact h.definition hkind hdef

theorem complete (h : t.Kinded fits) {e : EntityId} {existing kind : EntityKind} {node : NodeId}
    (hexisting : t.kind? e = some existing) (hcompatible : t.compatible existing kind = true)
    (hfits : fits node kind) (hkept : t.definition? e = none ∨ existing = kind) :
    (t.complete e kind node).Kinded fits where
  bound {space n x} hb := by
    obtain ⟨old, hold, ha⟩ := h.bound hb
    rw [kind?, entity?_complete]
    split
    · next hx =>
      obtain ⟨i, hi, rfl⟩ := kind?_eq_some_iff.1 hold
      rw [hx, hexisting] at hold
      cases hold
      exact ⟨kind, by rw [hi]; rfl, admits_of_compatible hcompatible ha⟩
    · exact ⟨old, hold, ha⟩
  definition {x k d} hk hd := by
    rw [kind?, entity?_complete] at hk
    obtain ⟨i, hi, hd⟩ := definition?_eq_some_iff.1 hd
    rw [entity?_complete] at hi
    split at hk
    · next hx =>
      rw [if_pos hx] at hi
      obtain ⟨old, hold, rfl⟩ := Option.map_eq_some_iff.1 hi
      rw [hold] at hk
      cases hk
      rcases Option.or_eq_some_iff.1 hd with hd | ⟨-, hd⟩
      · -- the entity was defined before, so that its kind stays
        have hdef : t.definition? e = some d := definition?_eq_some_iff.2 ⟨old, hx ▸ hold, hd⟩
        rcases hkept with hnone | rfl
        · rw [hnone] at hdef; cases hdef
        · exact h.definition hexisting hdef
      · cases hd
        exact hfits
    · next hx =>
      rw [if_neg hx] at hi
      exact h.definition hk (definition?_eq_some_iff.2 ⟨i, hi, hd⟩)

/-! ### The operations -/

theorem defineIn (h : t.Kinded fits) {s : ScopeId} {space : Space} {name : String}
    {kind : EntityKind} {node : NodeId} (hadmits : space.Admits t.tagsAreTypes kind)
    (hfits : fits node kind) : (t.defineIn s space name kind node).2.Kinded fits := by
  rcases t.defineIn_cases s space name kind node with ⟨e, he, hnew, hd⟩ | hd <;> rw [hd]
  · obtain ⟨-, existing, hexisting, hcompatible⟩ := local?_of_compatible? he
    refine h.complete hexisting hcompatible hfits (hnew.imp_right fun hkind => ?_)
    -- a namespace is compatible with a namespace alone
    subst hkind
    simpa [compatible, EntityKind.isTag] using hcompatible
  · exact h.create hadmits fun d hd => by cases hd; exact hfits

theorem declareIn (h : t.Kinded fits) (s : ScopeId) {space : Space} (name : String)
    {kind : EntityKind} (hadmits : space.Admits t.tagsAreTypes kind) :
    (t.declareIn s space name kind).2.Kinded fits := by
  rcases t.declareIn_cases s space name kind with ⟨e, -, hd⟩ | hd <;> rw [hd]
  · exact h
  · exact h.create hadmits nofun

theorem newScope (h : t.Kinded fits) (kind : ScopeKind) : (t.newScope kind).2.Kinded fits :=
  h.of_boundIn rfl boundIn_of_newScope (fun _ => rfl) fun _ => rfl

theorem enterMembers (h : t.Kinded fits) (e : EntityId) (kind : ScopeKind) :
    (t.enterMembers e kind).2.Kinded fits := by
  cases hm : t.members? e with
  | some s =>
      rw [enterMembers_of_some hm]
      exact h.of_boundIn rfl id (fun _ => rfl) fun _ => rfl
  | none =>
      rw [enterMembers_of_none hm]
      refine (h.newScope kind).of_boundIn rfl id (fun x => ?_) fun x => ?_
      · rw [kind?, entity?_activate, entity?_setMembers, kind?]
        split
        · rw [Option.map_map]
          rfl
        · rfl
      · rw [definition?, entity?_activate, entity?_setMembers, definition?]
        split
        · rw [Option.bind_map]
          rfl
        · rfl

/-- **An operation keeps the kinds of entities**, if its space admits the kind that it binds and the
node that it records defines one of that kind. -/
theorem perform (h : t.Kinded fits) (op : Operation)
    (hadmits : ∀ space kind, op.space? = some space → op.kind? = some kind →
      space.Admits t.tagsAreTypes kind)
    (hfits : ∀ d kind, op.node? = some d → op.kind? = some kind → fits d kind) :
    (t.perform op).2.Kinded fits := by
  cases op with
  | enter kind => exact (h.newScope kind).of_boundIn rfl id (fun _ => rfl) fun _ => rfl
  | enterMembers e kind => exact h.enterMembers e kind
  | leave =>
      refine h.of_boundIn ?_ boundIn_of_leave (fun e => ?_) fun e => ?_
      · exact (grows_leave (fun _ => True) t).tagsAreTypes
      · rw [Table.perform, kind?, entity?_leave, kind?]
      · rw [Table.perform, definition?, entity?_leave, definition?]
  | define | defineParameter => exact h.defineIn (hadmits _ _ rfl rfl) (hfits _ _ rfl rfl)
  | declare | declareImplicit => exact h.declareIn _ _ (hadmits _ _ rfl rfl)
  | useNamespace e =>
      show (t.useNamespace e).Kinded fits
      rw [useNamespace_eq]
      split
      · exact h.of_boundIn rfl boundIn_of_useIn (fun _ => rfl) fun _ => rfl
      · exact h

end Kinded

end Table

end TypeUses
