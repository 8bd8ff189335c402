import TypeUses.Proofs.Scope.Placed
import TypeUses.Proofs.Scope.Reachable

/-!
# Scopes — how scopes lie in each other

The scope right around a scope is its parent (`parent?`).  A table is `Nested` if its scopes form a
tree under the file scope in which a parent has the smaller number, the file scope is the outermost
active one, each entity has the scope of its members for itself, and no scope uses another twice.

* `Nested.perform`: every operation keeps this.
* `Nested.chain_induction`: what holds of the file scope and is handed down from parents holds of
  every scope, together with the scopes around it.  So the scopes along which an unqualified name is
  looked up are those that a climb from parent to parent visits (`Nested.climbs`); their numbers fall
  (`Nested.pairwise_chain`) and the last is the file scope (`Nested.getLast?_chain`).
* `Nested.innermostPlain`: there is always an active scope in which a definition can be bound.
* `tables_well_formed`: all this holds of every table that operations make.

Entering the members of an entity again makes a scope active outside of the scopes around it.  So the
active scopes do not tell the parents, and the invariant speaks of the two apart.
-/

namespace TypeUses.Table

/-- The scope right around a scope. -/
def parent? (t : Table) (s : ScopeId) : Option ScopeId :=
  (t.scope? s).bind fun scope => scope.enclosing.head?

/-- A climb from a scope, if there is one, to its parent and on until a scope has none, and the scopes
that it visits. -/
inductive Climbs (t : Table) : Option ScopeId → List ScopeId → Prop
  | over : Climbs t none []
  | visit {s : ScopeId} {rest : List ScopeId} (h : Climbs t (t.parent? s) rest) :
      Climbs t (some s) (s :: rest)

/-- The scopes form a tree under the file scope, which is the outermost active one. -/
structure Nested (t : Table) : Prop where
  /-- no scope lies around the file scope -/
  file : t.chain fileScope = [fileScope]
  /-- around any other lies one that was made before it, with the scopes around that -/
  inner : ∀ {s : ScopeId}, s.index < t.scopes.size → s ≠ fileScope →
    ∃ p : ScopeId, p.index < s.index ∧ t.chain s = s :: t.chain p
  outermost : t.active.getLast? = some fileScope
  members_ne_file : ∀ {e s}, t.members? e = some s → s ≠ fileScope
  members_unique : ∀ {e e' s}, t.members? e = some s → t.members? e' = some s → e' = e
  used : ∀ s, (t.usedBy s).Nodup

variable {t : Table} {op : Operation} {s : ScopeId}

/-! ### What an operation does to scopes -/

/-- A scope keeps its parent. -/
theorem Grows.parent? {new : NodeId → Prop} {t' : Table} (h : Grows new t t')
    (hs : s.index < t.scopes.size) : t'.parent? s = t.parent? s := by
  obtain ⟨scope, ho⟩ := exists_scope? hs
  obtain ⟨scope', ho', -, henclosing, -⟩ := h.scope ho
  rw [Table.parent?, ho', Table.parent?, ho, Option.bind_some, Option.bind_some, henclosing]

/-- A scope comes to use another at most once. -/
theorem usedBy_useIn (t : Table) (s x y : ScopeId) : (t.useIn s x).usedBy y = t.usedBy y ∨
    x ∉ t.usedBy y ∧ (t.useIn s x).usedBy y = t.usedBy y ++ [x] := by
  rw [usedBy, scope?_useIn, usedBy]
  split
  · cases t.scope? y with
    | none => exact Or.inl rfl
    | some scope =>
        by_cases hx : x ∈ scope.used
        · exact Or.inl (by simp [Scope.use, hx])
        · exact Or.inr (by simp [Scope.use, hx])
  · exact Or.inl rfl

section Perform
variable (ht : t.Standing)
include ht

/-- An operation leaves the active scopes alone, enters one or leaves the innermost. -/
theorem active_of_perform (op : Operation) : (t.perform op).2.active = t.active ∨
    (∃ s, (t.perform op).2.active = s :: t.active) ∨
    ∃ s x rest, t.active = s :: x :: rest ∧ (t.perform op).2.active = x :: rest := by
  have hchanges := changes_perform ht op
  generalize (t.perform op).1 = answer, (t.perform op).2 = t' at hchanges ⊢
  cases hchanges with
  | rebind => exact Or.inl (active_rebind t _ _)
  | create | use | useNone => exact Or.inl rfl
  | enter | enterNew | enterAgain => exact Or.inr (Or.inl ⟨_, rfl⟩)
  | leave =>
      cases ho : t.outer with
      | nil => exact Or.inl (by rw [leave, ho])
      | cons x rest =>
          have hactive : t.active = t.current :: x :: rest := by rw [active, ho]
          exact Or.inr (Or.inr ⟨_, x, rest, hactive, active_leave hactive⟩)

/-- A scope that is made lies right inside the current one. -/
theorem chain_of_new (hnew : t.scopes.size ≤ s.index)
    (hs : s.index < (t.perform op).2.scopes.size) :
    s = ⟨t.scopes.size⟩ ∧ (t.perform op).2.chain s = s :: t.chain t.current := by
  have made : ∀ {kind}, s.index < (t.newScope kind).2.scopes.size →
      s = ⟨t.scopes.size⟩ ∧ (t.newScope kind).2.chain s = s :: t.chain t.current := by
    intro kind hs
    rw [size_newScope] at hs
    obtain rfl : s = ⟨t.scopes.size⟩ :=
      ScopeId.ext (Nat.le_antisymm (Nat.le_of_lt_succ hs) hnew)
    exact ⟨rfl, by rw [chain, scope?_newScope, if_pos rfl]; rfl⟩
  have old : ¬ s.index < t.scopes.size := Nat.not_lt.2 hnew
  have hchanges := changes_perform ht op
  generalize (t.perform op).1 = answer, (t.perform op).2 = t' at hchanges hs ⊢
  cases hchanges with
  | rebind => exact absurd (by rwa [scopes_rebind] at hs) old
  | create => exact absurd (by rwa [scopes_size_create] at hs) old
  | enter | enterNew => exact made hs
  | enterAgain | useNone => exact absurd hs old
  | leave => exact absurd (by rwa [scopes_leave] at hs) old
  | use => exact absurd (by rwa [scopes_size_useIn] at hs) old

/-- A scope goes on to use what it uses, and one scope more at the most. -/
theorem usedBy_cases_of_perform (op : Operation) (s : ScopeId) :
    (t.perform op).2.usedBy s = t.usedBy s ∨
      ∃ x, x ∉ t.usedBy s ∧ (t.perform op).2.usedBy s = t.usedBy s ++ [x] := by
  have hchanges := changes_perform ht op
  generalize (t.perform op).1 = answer, (t.perform op).2 = t' at hchanges ⊢
  cases hchanges with
  | rebind => exact Or.inl (by rw [usedBy, scope?, scopes_rebind]; rfl)
  | create => exact Or.inl (usedBy_create ..)
  | enter kind | enterNew kind => exact Or.inl (usedBy_newScope t kind s)
  | enterAgain | useNone => exact Or.inl rfl
  | leave => exact Or.inl (by rw [usedBy, scope?_leave, usedBy])
  | use => exact (usedBy_useIn t _ _ s).imp_right fun h => ⟨_, h⟩

end Perform

/-! ### Nested tables -/

namespace Nested

theorem empty (tagsAreTypes : Bool) : (empty tagsAreTypes).Nested where
  file := rfl
  inner {s} hs hne := by
    have hzero : s = fileScope := ScopeId.ext (Nat.lt_one_iff.1 hs)
    exact absurd hzero hne
  outermost := rfl
  members_ne_file := nofun
  members_unique := nofun
  used s := by
    obtain ⟨i⟩ := s
    cases i <;> exact List.nodup_nil

/-- **Every operation keeps a table nested.** -/
theorem perform (h : t.Nested) (ht : t.Standing) (op : Operation) :
    (t.perform op).2.Nested := by
  have grows := keeps_perform t op
  refine ⟨(grows.chain ht.file).trans h.file, fun {s} hs hne => ?_, ?_, fun {e s} hm => ?_,
    fun {e e' s} hm hm' => ?_, fun s => ?_⟩
  · by_cases hold : s.index < t.scopes.size
    · obtain ⟨p, hp, hchain⟩ := h.inner hold hne
      refine ⟨p, hp, ?_⟩
      rw [grows.chain hold, grows.chain (Nat.lt_trans hp hold), hchain]
    · obtain ⟨rfl, hchain⟩ := chain_of_new ht (Nat.le_of_not_lt hold) hs
      exact ⟨t.current, ht.current, by rw [hchain, grows.chain ht.current]⟩
  · rcases active_of_perform ht op with ha | ⟨s, ha⟩ | ⟨s, x, rest, hs, ha⟩
    · rw [ha, h.outermost]
    · rw [ha, ← h.outermost]
      exact List.getLast?_cons_cons
    · rw [ha, ← h.outermost, hs, List.getLast?_cons_cons]
  · rcases members?_of_perform ht hm with hm | ⟨rfl, -⟩
    · exact h.members_ne_file hm
    · intro he
      exact absurd ht.file (he ▸ Nat.lt_irrefl _)
  · -- a scope that is made is that of the members that are entered, and was no entity's before
    rcases members?_of_perform ht hm with hm | ⟨rfl, -, kind, rfl⟩ <;>
      rcases members?_of_perform ht hm' with hm' | ⟨hs', -, kind', hop'⟩
    · exact h.members_unique hm hm'
    · exact absurd (ht.members hm) (hs' ▸ Nat.lt_irrefl _)
    · exact absurd (ht.members hm') (Nat.lt_irrefl _)
    · cases hop'
      rfl
  · rcases usedBy_cases_of_perform ht op s with hu | ⟨x, hx, hu⟩
    · rw [hu]
      exact h.used s
    · rw [hu]
      refine List.nodup_append.2 ⟨h.used s, List.pairwise_singleton _ x, fun y hy z hz he => ?_⟩
      rw [he, List.mem_singleton.1 hz] at hy
      exact hx hy

/-! ### The scopes around a scope -/

/-- The parent of a scope is the next in its chain. -/
theorem parent?_eq {chain : List ScopeId} (hs : s.index < t.scopes.size)
    (hchain : t.chain s = s :: chain) : t.parent? s = chain.head? := by
  obtain ⟨scope, ho⟩ := exists_scope? hs
  rw [Table.chain, ho] at hchain
  rw [parent?, ho, ← (List.cons.inj hchain).2]
  rfl

/-- **What is handed down from parents holds of every scope**, with the scopes around it. -/
theorem chain_induction {P : ScopeId → List ScopeId → Prop} (h : t.Nested)
    (hfile : t.parent? fileScope = none → P fileScope [fileScope])
    (hinner : ∀ {s p : ScopeId}, t.parent? s = some p → p.index < s.index → P p (t.chain p) →
      P s (s :: t.chain p)) (hs : s.index < t.scopes.size) : P s (t.chain s) := by
  induction hn : s.index using Nat.strongRecOn generalizing s with
  | ind n ih =>
    by_cases he : s = fileScope
    · rw [he] at hs ⊢
      rw [h.file]
      exact hfile (parent?_eq hs h.file)
    · obtain ⟨p, hp, hchain⟩ := h.inner hs he
      rw [hchain]
      refine hinner (parent?_eq hs hchain) hp ?_
      exact ih p.index (hn ▸ hp) (Nat.lt_trans hp hs) rfl

/-- The scopes along which a name is looked up are those that a climb visits. -/
theorem climbs (h : t.Nested) (hs : s.index < t.scopes.size) :
    t.Climbs (some s) (t.chain s) := by
  refine h.chain_induction (P := fun s chain => t.Climbs (some s) chain) (fun hnone => ?_)
    (fun hparent _ hclimbs => ?_) hs
  · exact .visit (hnone ▸ .over)
  · exact .visit (hparent ▸ hclimbs)

/-- The numbers of the scopes around a scope fall. -/
theorem pairwise_chain (h : t.Nested) (hs : s.index < t.scopes.size) :
    (t.chain s).Pairwise (fun x y => y.index < x.index) ∧ ∀ x ∈ t.chain s, x.index ≤ s.index := by
  refine h.chain_induction (P := fun s chain =>
    chain.Pairwise (fun x y => y.index < x.index) ∧ ∀ x ∈ chain, x.index ≤ s.index)
    (fun _ => ?_) (fun _ hlt ⟨hpairwise, hle⟩ => ?_) hs
  · exact ⟨List.pairwise_singleton _ _, fun x hx => Nat.le_of_eq (by rw [List.mem_singleton.1 hx])⟩
  · refine ⟨List.pairwise_cons.2 ⟨fun x hx => Nat.lt_of_le_of_lt (hle x hx) hlt, hpairwise⟩, ?_⟩
    rintro x (_ | ⟨_, hx⟩)
    · exact Nat.le_refl _
    · exact Nat.le_of_lt (Nat.lt_of_le_of_lt (hle x hx) hlt)

/-- No scope lies around itself. -/
theorem nodup_chain (h : t.Nested) (hs : s.index < t.scopes.size) : (t.chain s).Nodup := by
  refine (h.pairwise_chain hs).1.imp fun hlt he => ?_
  exact Nat.lt_irrefl _ (he ▸ hlt)

/-- The last of the scopes around a scope is the file scope. -/
theorem getLast?_chain (h : t.Nested) (hs : s.index < t.scopes.size) :
    (t.chain s).getLast? = some fileScope := by
  refine h.chain_induction (P := fun _ chain => chain.getLast? = some fileScope) (fun _ => rfl)
    (fun _ _ hlast => ?_) hs
  rw [chain] at hlast ⊢
  rw [List.getLast?_cons_cons, hlast]

/-- The file scope alone has no parent. -/
theorem parent?_eq_none_iff (h : t.Nested) (hs : s.index < t.scopes.size) :
    t.parent? s = none ↔ s = fileScope := by
  constructor
  · intro hnone
    by_cases hne : s = fileScope
    · exact hne
    · obtain ⟨p, -, hchain⟩ := h.inner hs hne
      rw [parent?_eq hs hchain, chain] at hnone
      cases hnone
  · rintro rfl
    exact parent?_eq hs h.file

/-- A parent was made before what lies in it. -/
theorem lt_of_parent? (h : t.Nested) (hs : s.index < t.scopes.size) {p : ScopeId}
    (hp : t.parent? s = some p) : p.index < s.index := by
  by_cases he : s = fileScope
  · rw [(h.parent?_eq_none_iff hs).2 he] at hp
    cases hp
  · obtain ⟨q, hq, hchain⟩ := h.inner hs he
    rw [parent?_eq hs hchain] at hp
    cases hp
    exact hq

end Nested

/-! ### The scope in which a definition is bound -/

/-- Scope `s` is active and not a template's, and all scopes further in are. -/
def InnermostPlain (t : Table) (s : ScopeId) : Prop :=
  ∃ inner outer, t.active = inner ++ s :: outer ∧
    (∃ scope, t.scope? s = some scope ∧ scope.kind ≠ .template) ∧
      ∀ x ∈ inner, ∀ scope, t.scope? x = some scope → scope.kind = .template

/-- A definition is bound in the innermost scope that is not a template's. -/
theorem Nested.innermostPlain (h : t.Nested) {file : Scope} (hfile : t.scope? fileScope = some file)
    (hkind : file.kind ≠ .template) : t.InnermostPlain t.bindingScope := by
  have hmem : fileScope ∈ t.active := List.mem_of_getLast? h.outermost
  rw [bindingScope, innermost]
  cases hfind : t.active.find? fun s =>
      ((t.scope? s).map fun scope => scope.kind != .template).getD false with
  | none =>
      have hno := List.find?_eq_none.1 hfind _ hmem
      simp [hfile, hkind] at hno
  | some s =>
      obtain ⟨hs, inner, outer, hactive, hinner⟩ := List.find?_eq_some_iff_append.1 hfind
      refine ⟨inner, outer, hactive, ?_, fun x hx scope ho => ?_⟩
      · obtain ⟨scope, ho, hplain⟩ : ∃ scope, t.scope? s = some scope ∧
            (scope.kind != .template) = true := by
          cases ho : t.scope? s with
          | none => simp [ho] at hs
          | some scope => exact ⟨scope, rfl, by simpa [ho] using hs⟩
        exact ⟨scope, ho, by simpa using hplain⟩
      · have hno := hinner x hx
        simpa [ho] using hno

/-! ### Reachable tables -/

theorem Reachable.nested (h : t.Reachable) : t.Nested := by
  have hboth : t.Closed t.present ∧ t.Nested :=
    h.induction (P := fun t => t.Closed t.present ∧ t.Nested)
      (fun tagsAreTypes => ⟨closed_empty tagsAreTypes, .empty tagsAreTypes⟩)
      fun ⟨hclosed, hnested⟩ hop =>
        ⟨hclosed.perform_present hop, hnested.perform hclosed.standing _⟩
  exact hboth.2

/-- **The tables that operations make are well-formed.**  The file scope is the outermost active one
and alone has no parent; every other scope was made after its parent, so that the lookup of an
unqualified name, which climbs from parent to parent, visits each scope at most once and ends at the
file scope.  All entities and scopes that the table speaks of are there; an entity has the scope of
its members for itself, which is not the file scope; and no scope uses another twice. -/
theorem tables_well_formed (ht : t.Reachable) :
    t.active.getLast? = some fileScope ∧ (∀ s ∈ t.active, s.index < t.scopes.size) ∧
      (∀ s : ScopeId, s.index < t.scopes.size →
        (t.parent? s = none ↔ s = fileScope) ∧ ∀ p, t.parent? s = some p → p.index < s.index) ∧
      (∃ visited, t.Climbs (some t.current) visited ∧ visited.Nodup ∧
        visited.getLast? = some fileScope ∧ ∀ spaces name,
          t.lookup spaces name .lexical = visited.findSome? (t.search spaces name)) ∧
      (∀ s scope, t.scope? s = some scope → (∀ b ∈ scope.names, b.2.index < t.entities.size) ∧
        ∀ x ∈ scope.used, x.index < t.scopes.size) ∧
      (∀ e s, t.members? e = some s → s.index < t.scopes.size ∧ s ≠ fileScope ∧
        ∀ e', t.members? e' = some s → e' = e) ∧
      ∀ s, (t.usedBy s).Nodup := by
  have hclosed := ht.closed
  have hnested := ht.nested
  have hcurrent := hclosed.standing.current
  refine ⟨hnested.outermost, hclosed.active, fun s hs => ?_, ?_, fun s scope ho => ?_,
    fun e s hm => ?_, hnested.used⟩
  · exact ⟨hnested.parent?_eq_none_iff hs, fun p => hnested.lt_of_parent? hs⟩
  · exact ⟨_, hnested.climbs hcurrent, hnested.nodup_chain hcurrent,
      hnested.getLast?_chain hcurrent, fun _ _ => rfl⟩
  · have hin := hclosed.scope (lt_of_scope? ho) ho
    exact ⟨hin.names, hin.used⟩
  · exact ⟨hclosed.standing.members hm, hnested.members_ne_file hm,
      fun e' => hnested.members_unique hm⟩

/-- A namespace that is first entered in a block and then again in a function: the lookup there climbs
to the block, which is not active any more. -/
theorem tables_well_formed_reentered :
    let ops : List Operation :=
      [.leave, .define .namespaces "n" .namespaceName ⟨1⟩, .enter .block,
        .enterMembers ⟨0⟩ .namespaceBody, .leave, .leave, .enter .function, .useNamespace ⟨0⟩,
        .useNamespace ⟨0⟩, .enterMembers ⟨0⟩ .namespaceBody]
    let t := ((empty true).performAll ops).2
    t.active = [⟨2⟩, ⟨3⟩, ⟨0⟩] ∧ t.parent? ⟨2⟩ = some ⟨1⟩ ∧
      (∃ visited, t.Climbs (some ⟨2⟩) visited ∧ visited.getLast? = some fileScope) ∧
      (∀ e, t.members? e = some ⟨2⟩ → e = ⟨0⟩) ∧ (t.usedBy ⟨3⟩).Nodup := by
  intro ops t
  have ht : t.Reachable := (reachable_empty true).performAll (by decide)
  have hmembers : t.members? ⟨0⟩ = some ⟨2⟩ := by decide
  obtain ⟨-, -, -, ⟨visited, hclimbs, -, hlast, -⟩, -, hown, hused⟩ := tables_well_formed ht
  exact ⟨by decide, by decide, ⟨visited, hclimbs, hlast⟩, (hown ⟨0⟩ ⟨2⟩ hmembers).2.2, hused ⟨3⟩⟩

end TypeUses.Table
