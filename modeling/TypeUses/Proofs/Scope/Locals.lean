import TypeUses.Proofs.Scope.Placed

/-!
# Scopes — what a scope binds itself

What a scope binds changes only when an entity is made, and then in the scope of the binding and under
its name alone (`locals_of_perform`).  So a name that a scope binds it goes on to bind: the entity is
the same, or one that is made later (`local?_of_perform`).

A lookup goes by what scopes bind themselves.  If every scope that binds a name in some spaces binds
it in others too, a lookup that succeeds in the first succeeds in the others (`isSome_lookup`).
-/

namespace TypeUses

/-- A binding hides older ones of the same name in its spaces, and no others. -/
theorem Scope.local?_bind (s : Scope) (spaces : List Space) (name : String) (e : EntityId)
    (space : Space) (name' : String) :
    (s.bind spaces name e).local? space name' =
      if name = name' ∧ space ∈ spaces then some e else s.local? space name' := by
  induction spaces with
  | nil => simp [bind, local?]
  | cons x spaces ih =>
      have hcons : (s.bind (x :: spaces) name e).local? space name' =
          if (space, name') = (x, name) then some e
          else (s.bind spaces name e).local? space name' := by
        simp only [bind, local?, List.map_cons, List.cons_append, List.lookup_cons]
        split <;> simp_all
      rw [hcons, ih]
      by_cases hname : name = name' <;> by_cases hx : space = x <;> simp_all [eq_comm]

namespace Table

variable {t : Table} {op : Operation} {s : ScopeId} {e : EntityId}

/-! ### What an operation changes -/

/-- What a scope binds after an entity is made. -/
theorem local?_create {s : ScopeId} (hs : s.index < t.scopes.size) (space : Space) (name : String)
    (info : EntityInfo) (x : ScopeId) (space' : Space) (name' : String) :
    (t.create s space name info).2.local? x space' name' =
      if s = x ∧ name = name' ∧
          (space = space' ∨ t.tagsAreTypes ∧ space = .tag ∧ space' = .ordinary) then
        some ⟨t.entities.size⟩
      else t.local? x space' name' := by
  rw [local?, scope?_create]
  by_cases hx : x = s
  · subst hx
    obtain ⟨scope, ho⟩ := exists_scope? hs
    simp only [ho, local?, if_true, Option.map_some, Option.bind_some, Scope.local?_bind,
      mem_boundSpaces, true_and]
  · rw [if_neg hx, if_neg fun hx' => hx hx'.1.symm]
    rfl

theorem local?_useIn (t : Table) (s x y : ScopeId) (space : Space) (name : String) :
    (t.useIn s x).local? y space name = t.local? y space name := by
  rw [local?, scope?_useIn, local?]
  split
  · cases t.scope? y with
    | none => rfl
    | some scope => simp [Scope.local?]
  · rfl

/-- **What scopes bind after an operation.**  The same as before; or an entity is made, and the scope
of the binding binds the name to it. -/
theorem locals_of_perform (ht : t.Standing) (op : Operation) :
    (∀ s space name, (t.perform op).2.local? s space name = t.local? s space name) ∨
    ∃ b, op.binding? = some b ∧ (t.perform op).2.kind? ⟨t.entities.size⟩ = some b.kind ∧
      ∀ s space name, (t.perform op).2.local? s space name =
        if t.innermost b.accepts = s ∧ b.name = name ∧
            (b.space = space ∨ t.tagsAreTypes ∧ b.space = .tag ∧ space = .ordinary) then
          some ⟨t.entities.size⟩
        else t.local? s space name := by
  have hchanges := changes_perform ht op
  generalize (t.perform op).1 = answer, (t.perform op).2 = t' at hchanges ⊢
  cases hchanges with
  | rebind => exact Or.inl fun s space name => by rw [local?, scope?, scopes_rebind]; rfl
  | create hb hs =>
      refine Or.inr ⟨_, hb, ?_, local?_create hs _ _ _⟩
      rw [kind?, entity?_create, if_pos rfl, Option.map_some]
  | enter kind | enterNew kind => exact Or.inl (t.local?_newScope kind)
  | enterAgain | useNone => exact Or.inl fun _ _ _ => rfl
  | leave => exact Or.inl fun s space name => by rw [local?, scope?_leave, local?]
  | use => exact Or.inl (t.local?_useIn _ _)

/-- A name that a scope binds it goes on to bind, to the same entity or to the one that is made. -/
theorem local?_of_perform (ht : t.Standing) {space : Space} {name : String}
    (h : t.local? s space name = some e) :
    ∃ e', (t.perform op).2.local? s space name = some e' ∧
      (e' = e ∨ e' = ⟨t.entities.size⟩) := by
  rcases locals_of_perform ht op with hsame | ⟨b, -, -, hlocal⟩
  · exact ⟨e, (hsame ..).trans h, Or.inl rfl⟩
  · rw [hlocal]
    split
    · exact ⟨_, rfl, Or.inr rfl⟩
    · exact ⟨e, h, Or.inl rfl⟩

/-- The scope of a binding binds the name to the entity with which the binding answers. -/
theorem local?_of_answer (ht : t.Standing) (h : (t.perform op).1 = .entity e) :
    ∃ b, op.binding? = some b ∧
      (t.perform op).2.local? (t.innermost b.accepts) b.space b.name = some e := by
  have hchanges := changes_perform ht op
  rw [h] at hchanges
  generalize (t.perform op).2 = t' at hchanges ⊢
  cases hchanges with
  | rebind hb hlocal =>
      refine ⟨_, hb, ?_⟩
      rw [local?, scope?, scopes_rebind]
      exact hlocal
  | create hb hs => exact ⟨_, hb, by rw [local?_create hs, if_pos ⟨rfl, rfl, Or.inl rfl⟩]⟩

/-! ### Lookups -/

/-- If every scope that binds a name in some spaces binds it in others, then a lookup in the others
succeeds wherever a lookup in the first does. -/
theorem isSome_lookup {spaces spaces' : List Space} {name : String}
    (h : ∀ s, (t.localIn? spaces name s).isSome → (t.localIn? spaces' name s).isSome)
    (look : Lookup) (hlook : (t.lookup spaces name look).isSome) :
    (t.lookup spaces' name look).isSome := by
  have hsearch : ∀ s, (t.search spaces name s).isSome → (t.search spaces' name s).isSome := by
    intro s hs
    simp only [search, List.findSome?_isSome_iff] at hs ⊢
    obtain ⟨x, hx, hlocal⟩ := hs
    exact ⟨x, hx, h x hlocal⟩
  cases look with
  | lexical =>
      simp only [lookup, List.findSome?_isSome_iff] at hlook ⊢
      obtain ⟨s, hs, hfound⟩ := hlook
      exact ⟨s, hs, hsearch s hfound⟩
  | member qualifier =>
      cases qualifier with
      | none => cases hlook
      | some e =>
          rw [lookup] at hlook ⊢
          cases hm : t.members? e with
          | none => rw [hm] at hlook; cases hlook
          | some s => rw [hm] at hlook; exact hsearch s hlook
  | global => exact hsearch fileScope hlook

end Table

end TypeUses
