import Mathlib.Data.List.Basic
import TypeUses.Proofs.Scope.Apart
import TypeUses.Proofs.Scope.Reachable

/-!
# Scopes — leaving a scope restores what names mean

Operations are `Balanced` if each `leave` among them belongs to an entry among them, and the other
way round.  Let a scope that is no class's and no template's be entered, balanced operations be
performed that enter the members of new entities only, and the scope be left.  Then the active
scopes are those from before, and every name means what it meant before (`leave_restores`).

The operations stay inside the scope (`Inside.performAll`), so that the table is apart from what it
was.  A lookup that begins in what was there does not get out of it, and finds it unchanged
(`Apart.lookup_eq`).
-/

namespace TypeUses

/-- The operation enters a scope. -/
def Operation.Enters : Operation → Prop
  | enter _ | enterMembers .. => True
  | leave | define .. | defineParameter .. | declare .. | declareImplicit .. | useNamespace _ =>
    False

/-- Every scope that the operations enter they leave, and no other. -/
inductive Balanced : List Operation → Prop
  | nil : Balanced []
  | binding {op : Operation} {ops : List Operation} (hop : op.IsBinding) (h : Balanced ops) :
      Balanced (op :: ops)
  | scope {op : Operation} {inner rest : List Operation} (hop : op.Enters)
      (hinner : Balanced inner) (hrest : Balanced rest) :
      Balanced (op :: (inner ++ .leave :: rest))

namespace Table

variable {t₀ t t' : Table}

/-! ### Balanced operations stay inside a scope -/

theorem active_of_enters (t : Table) {op : Operation} (hop : op.Enters) :
    ∃ s, (t.perform op).2.active = s :: t.active := by
  cases op with
  | enter kind => exact ⟨_, rfl⟩
  | enterMembers e kind => exact t.active_enterMembers e kind
  | leave | define | defineParameter | declare | declareImplicit | useNamespace => exact hop.elim

/-- Inside a wall scopes may be entered, but for members of what was there before. -/
theorem Inside.perform_enters (h : Inside t₀ t) {op : Operation} (hop : op.Enters)
    (hnew : ∀ e kind, op = .enterMembers e kind → t₀.NewEntity e) : Inside t₀ (t.perform op).2 := by
  cases op with
  | enter kind => exact h.enter kind
  | enterMembers e kind => exact h.enterMembers (hnew e kind rfl) kind
  | leave | define | defineParameter | declare | declareImplicit | useNamespace => exact hop.elim

/-- When the scope that is entered last is left, the table is inside what it was inside before. -/
theorem Inside.leave (h : Inside t₀ t) (h' : Inside t₀ t') (hg : Grows (fun _ => True) t t')
    {s : ScopeId} (hactive : t'.active = s :: t.active) :
    Inside t₀ t'.leave ∧ t'.leave.active = t.active := by
  have hleave : t'.leave.active = t.active := active_leave hactive
  exact ⟨⟨h'.apart.of_eq (scopes_leave t') (entities_leave t'),
    h.walled.of_active (hg.trans (grows_leave _ t')) hleave⟩, hleave⟩

/-- **Balanced operations stay inside**, if they enter the members of new entities only. -/
theorem Inside.performAll {ops : List Operation} (hops : Balanced ops) (h : Inside t₀ t)
    (hnew : ∀ e kind, .enterMembers e kind ∈ ops → t₀.NewEntity e) :
    Inside t₀ (t.performAll ops).2 ∧ (t.performAll ops).2.active = t.active := by
  induction hops generalizing t with
  | nil => exact ⟨h, rfl⟩
  | binding hop _ ih =>
      obtain ⟨hin, hactive⟩ :=
        ih (h.perform hop) fun e kind he => hnew e kind (List.mem_cons_of_mem _ he)
      exact ⟨hin, hactive.trans (active_perform hop)⟩
  | @scope op inner rest hop _ _ ihInner ihRest =>
      have hin := h.perform_enters hop fun e kind he => hnew e kind (he ▸ List.mem_cons_self)
      obtain ⟨s, hs⟩ := t.active_of_enters hop
      obtain ⟨hinner, hactive⟩ := ihInner hin fun e kind he =>
        hnew e kind (List.mem_cons_of_mem _ (List.mem_append_left _ he))
      -- the scope that `op` enters is the innermost again when it is left
      obtain ⟨hleft, hback⟩ := h.leave hinner
        ((keeps_perform t op).trans (keeps_performAll _ inner)) (hactive.trans hs)
      obtain ⟨hrest, hlast⟩ := ihRest hleft fun e kind he =>
        hnew e kind (List.mem_cons_of_mem _ (List.mem_append_right _ (List.mem_cons_of_mem _ he)))
      rw [performAll_cons, performAll_append, performAll_cons]
      exact ⟨hrest, hlast.trans hback⟩

/-! ### Lookups in what was there -/

theorem findSome?_congr {α β : Type} {xs : List α} {f g : α → Option β}
    (h : ∀ x ∈ xs, f x = g x) : xs.findSome? f = xs.findSome? g := by
  rw [← List.head?_filterMap, ← List.head?_filterMap, List.filterMap_congr h]

namespace Apart

theorem scope_eq (h : Apart t₀ t) {s : ScopeId} (hs : t₀.present.scope s) :
    t.scope? s = t₀.scope? s :=
  h.scope s (Nat.not_le.2 hs)

theorem entity_eq (h : Apart t₀ t) {e : EntityId} (he : t₀.present.entity e) :
    t.entity? e = t₀.entity? e :=
  h.entity e (Nat.not_le.2 he)

/-- What was there is found as before from scopes that were there. -/
theorem search_eq (h : Apart t₀ t) (hc : t₀.Closed t₀.present) {s : ScopeId}
    (hs : t₀.present.scope s) (spaces : List Space) (name : String) :
    t.search spaces name s = t₀.search spaces name s := by
  have hused : t.usedBy s = t₀.usedBy s := by rw [usedBy, usedBy, h.scope_eq hs]
  rw [search, search, hused]
  refine findSome?_congr fun x hx => findSome?_congr fun space _ => ?_
  have hx : t₀.present.scope x := by
    rcases List.mem_cons.1 hx with rfl | hx
    · exact hs
    · exact hc.usedBy hs x hx
  rw [local?, local?, h.scope_eq hx]

/-- **A lookup that begins in what was there finds what it found there**, if the active scopes are
the same. -/
theorem lookup_eq (h : Apart t₀ t) (hc : t₀.Closed t₀.present) (hactive : t.active = t₀.active)
    {look : Lookup} (hlook : look.In t₀.present) (spaces : List Space) (name : String) :
    t.lookup spaces name look = t₀.lookup spaces name look := by
  cases look with
  | lexical =>
      have hcurrent : t.current = t₀.current := (List.cons.inj hactive).1
      have hchain : t.chain t₀.current = t₀.chain t₀.current := by
        rw [chain, chain, h.scope_eq hc.current]
      rw [lookup, lookup, hcurrent, hchain]
      exact findSome?_congr fun s hs => h.search_eq hc (hc.chain hc.current s hs) spaces name
  | member qualifier =>
      cases qualifier with
      | none => rfl
      | some e =>
          have hmembers : t.members? e = t₀.members? e := by
            rw [members?, members?, h.entity_eq hlook]
          rw [lookup, lookup, hmembers]
          cases hm : t₀.members? e with
          | none => rfl
          | some s => exact h.search_eq hc (hc.members hlook hm) spaces name
  | global => exact h.search_eq hc hc.file spaces name

end Apart

/-! ### Leaving a scope -/

/-- **Leaving a scope restores what names mean.**  When a file's, namespace's, function's or block's
scope is entered, balanced operations are performed that enter the members only of entities made
among them, and the scope is left, then the active scopes are those from before; every lookup that
does not begin at a new entity finds what it found before; and the entities from before are of the
same kind and have the same definition. -/
theorem leave_restores (ht : t.Reachable) {kind : ScopeKind}
    (hkind : kind ∈ [.file, .namespaceBody, .function, .block]) {ops : List Operation}
    (hops : Balanced ops) (hallows : (t.enter kind).2.Allows ops)
    (hnew : ∀ e k, .enterMembers e k ∈ ops → t.entities.size ≤ e.index)
    (ht' : t' = ((t.enter kind).2.performAll ops).2.leave) :
    t'.Reachable ∧ t'.active = t.active ∧
      (∀ spaces name look, (∀ e, look = .member (some e) → e.index < t.entities.size) →
        t'.lookup spaces name look = t.lookup spaces name look) ∧
      ∀ e : EntityId, e.index < t.entities.size →
        t'.kind? e = t.kind? e ∧ t'.definition? e = t.definition? e := by
  have hwall : kind.IsWall := by
    simp only [List.mem_cons, List.not_mem_nil, or_false] at hkind
    rcases hkind with rfl | rfl | rfl | rfl <;> exact ⟨nofun, nofun⟩
  -- the scope that is entered is a wall around all that the operations make
  obtain ⟨hin, hactive⟩ := (Inside.of_enter t hwall).performAll hops hnew
  have hback : t'.active = t.active := by rw [ht']; exact active_leave hactive
  have hapart : Apart t t' := by
    rw [ht']; exact hin.apart.of_eq (scopes_leave _) (entities_leave _)
  have hreach : t'.Reachable := by
    have hallows' : t.Allows (.enter kind :: (ops ++ [.leave])) :=
      ⟨nofun, allows_append.2 ⟨hallows, nofun, trivial⟩⟩
    have hperform := ht.performAll hallows'
    rw [performAll_cons, performAll_append] at hperform
    exact ht' ▸ hperform
  refine ⟨hreach, hback, fun spaces name look hlook => ?_, fun e he => ?_⟩
  · refine hapart.lookup_eq ht.closed hback ?_ spaces name
    cases look with
    | lexical | global => trivial
    | member qualifier =>
        cases qualifier with
        | none => trivial
        | some e => exact hlook e rfl
  · have he := hapart.entity_eq (e := e) he
    exact ⟨by rw [kind?, kind?, he], by rw [definition?, definition?, he]⟩

/-- A block in which the name of a type is defined again, and a class whose members are entered and
then used. -/
theorem leave_restores_block :
    let t := ((empty true).performAll [.define .ordinary "T" .typedefName ⟨1⟩]).2
    let ops : List Operation :=
      [.define .ordinary "T" .typedefName ⟨2⟩, .define .tag "S" .structTag ⟨3⟩,
        .enterMembers ⟨2⟩ .classBody, .define .ordinary "U" .typedefName ⟨4⟩, .leave,
        .useNamespace ⟨2⟩]
    let inside := ((t.enter .block).2.performAll ops).2
    inside.lookup [.ordinary] "T" .lexical = some ⟨1⟩ ∧
      inside.leave.lookup [.ordinary] "T" .lexical = some ⟨0⟩ ∧
      inside.leave.definition? ⟨0⟩ = some ⟨1⟩ := by
  intro t ops inside
  have ht : t.Reachable := (reachable_empty true).performAll ⟨nofun, trivial⟩
  have members : Balanced (.enterMembers ⟨2⟩ .classBody ::
      ([.define .ordinary "U" .typedefName ⟨4⟩] ++ .leave :: [.useNamespace ⟨2⟩])) :=
    .scope trivial (.binding trivial .nil) (.binding trivial .nil)
  have hops : Balanced ops := .binding trivial (.binding trivial members)
  have hnew : ∀ e k, .enterMembers e k ∈ ops → t.entities.size ≤ e.index := by
    intro e k he
    simp only [ops, List.mem_cons, List.not_mem_nil, reduceCtorEq, false_or, or_false,
      Operation.enterMembers.injEq] at he
    rw [he.1]
    decide
  obtain ⟨-, -, hlookup, hentity⟩ :=
    leave_restores ht (by decide : ScopeKind.block ∈ _) hops (by decide) hnew rfl
  exact ⟨by decide, (hlookup _ _ .lexical fun _ h => nomatch h).trans (by decide),
    (hentity ⟨0⟩ (by decide)).2.trans (by decide)⟩

end Table

end TypeUses
