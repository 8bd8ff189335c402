import TypeUses.Proofs.Scope.Placed

/-!
# Scopes — a table without one of its entities

`t.without e` is table `t` with no name that means entity `e`.  Whatever a lookup finds that is not
`e` it finds there as well (`lookup_without`).

A binding that makes an entity does nothing else that a lookup could tell: without the entity all
lookups find what they found before (`lookup_create_without`).  What is defined under a name that is
no tag and no namespace is always a new entity, if only tags wait for a definition
(`perform_eq_create`).
-/

namespace TypeUses

/-! ### What is left out -/

/-- The scope in which no name means the entity. -/
def Scope.without (s : Scope) (e : EntityId) : Scope :=
  { s with names := s.names.filter fun b => b.2 ≠ e }

/-- The table in which no name means the entity. -/
def Table.without (t : Table) (e : EntityId) : Table :=
  { t with scopes := t.scopes.map (·.without e) }

/-- A lookup that does not find `b` finds the same when `b` is left out. -/
theorem lookup_filter_ne {α β : Type} [BEq α] [DecidableEq β] {b : β} {k : α} {l : List (α × β)}
    (h : l.lookup k ≠ some b) : (l.filter fun p => p.2 ≠ b).lookup k = l.lookup k := by
  induction l with
  | nil => rfl
  | cons p l ih =>
      obtain ⟨k', v⟩ := p
      rw [List.lookup_cons] at h ⊢
      cases hk : k == k' with
      | true =>
          -- the first pair of the key is kept
          rw [hk] at h
          have hv : decide (v ≠ b) = true := decide_eq_true fun hv => h (congrArg some hv)
          rw [List.filter_cons, if_pos hv, List.lookup_cons, hk]
      | false =>
          rw [hk] at h
          rw [List.filter_cons]
          split
          · rw [List.lookup_cons, hk]
            exact ih h
          · exact ih h

/-- A search in a list that does not end with `b` goes the same way by a function that differs only
where it gives `b`. -/
theorem findSome?_eq_of_ne {α β : Type} {f g : α → Option β} {b : β} {l : List α}
    (h : ∀ a, f a ≠ some b → g a = f a) (hl : l.findSome? f ≠ some b) :
    l.findSome? g = l.findSome? f := by
  induction l with
  | nil => rfl
  | cons a l ih =>
      rw [List.findSome?_cons] at hl ⊢
      rw [List.findSome?_cons]
      cases hf : f a with
      | some c =>
          rw [hf] at hl
          rw [h a (hf ▸ hl), hf]
      | none =>
          rw [hf] at hl
          rw [h a (by rw [hf]; nofun), hf]
          exact ih hl

theorem Scope.local?_without {s : Scope} {e : EntityId} {space : Space} {name : String}
    (h : s.local? space name ≠ some e) : (s.without e).local? space name = s.local? space name :=
  lookup_filter_ne h

theorem Scope.without_eq_self {s : Scope} {e : EntityId} (h : ∀ b ∈ s.names, b.2 ≠ e) :
    s.without e = s := by
  have hnames : (s.names.filter fun b => b.2 ≠ e) = s.names :=
    List.filter_eq_self.2 fun b hb => decide_eq_true (h b hb)
  simp only [without, hnames]

/-- Without the entity to which it has just bound a name a scope is what it was. -/
theorem Scope.bind_without {s : Scope} {e : EntityId} (h : ∀ b ∈ s.names, b.2 ≠ e)
    (spaces : List Space) (name : String) : (s.bind spaces name e).without e = s := by
  have hbound : ((spaces.map fun space => ((space, name), e)).filter fun b => b.2 ≠ e) = [] := by
    simp
  have hsame : (s.bind spaces name e).without e = s.without e := by
    simp only [without, bind, List.filter_append, hbound, List.nil_append]
  rw [hsame, without_eq_self h]

namespace Table

variable {t : Table} {e : EntityId}

section Views
variable (t : Table) (e : EntityId)

@[simp] theorem scope?_without (s : ScopeId) :
    (t.without e).scope? s = (t.scope? s).map (·.without e) := by
  rw [scope?, without, Array.getElem?_map, scope?]

@[simp] theorem members?_without (x : EntityId) : (t.without e).members? x = t.members? x := rfl

@[simp] theorem current_without : (t.without e).current = t.current := rfl

@[simp] theorem chain_without (s : ScopeId) : (t.without e).chain s = t.chain s := by
  rw [chain, scope?_without, chain]
  cases t.scope? s <;> rfl

@[simp] theorem usedBy_without (s : ScopeId) : (t.without e).usedBy s = t.usedBy s := by
  rw [usedBy, scope?_without, usedBy]
  cases t.scope? s <;> rfl

end Views

/-! ### Lookups without an entity -/

variable {spaces : List Space} {space : Space} {name : String} {s : ScopeId}

theorem local?_without (h : t.local? s space name ≠ some e) :
    (t.without e).local? s space name = t.local? s space name := by
  rw [local?] at h ⊢
  rw [local?, scope?_without]
  cases hs : t.scope? s with
  | none => rfl
  | some scope =>
      rw [hs] at h
      exact Scope.local?_without h

theorem localIn?_without (h : t.localIn? spaces name s ≠ some e) :
    (t.without e).localIn? spaces name s = t.localIn? spaces name s :=
  findSome?_eq_of_ne (fun _ => local?_without) h

/-- A lookup that does not find the entity finds the same without it. -/
theorem search_without (h : t.search spaces name s ≠ some e) :
    (t.without e).search spaces name s = t.search spaces name s := by
  rw [search, usedBy_without]
  exact findSome?_eq_of_ne (fun _ => localIn?_without) h

/-- **What is not the entity is found without it as well.** -/
theorem lookup_without {look : Lookup} (h : t.lookup spaces name look ≠ some e) :
    (t.without e).lookup spaces name look = t.lookup spaces name look := by
  cases look with
  | lexical =>
      rw [lookup, current_without, chain_without]
      exact findSome?_eq_of_ne (fun _ => search_without) h
  | member qualifier =>
      cases qualifier with
      | none => rfl
      | some q =>
          rw [lookup] at h ⊢
          rw [lookup, members?_without]
          cases hm : t.members? q with
          | none => rfl
          | some m =>
              rw [hm] at h
              exact search_without h
  | global => exact search_without h

/-! ### Before an entity is made -/

/-- A lookup goes by the scopes, the current one and those of members. -/
theorem lookup_congr {t' : Table} (hscope : ∀ s, t'.scope? s = t.scope? s)
    (hcurrent : t'.current = t.current) (hmembers : ∀ e, t'.members? e = t.members? e)
    (spaces : List Space) (name : String) (look : Lookup) :
    t'.lookup spaces name look = t.lookup spaces name look := by
  have hlocal : t'.localIn? spaces name = t.localIn? spaces name := by
    funext s
    simp only [localIn?, local?, hscope]
  have hsearch : t'.search spaces name = t.search spaces name := by
    funext s
    rw [search, search, hlocal, usedBy, usedBy, hscope]
  cases look with
  | lexical => rw [lookup, lookup, hsearch, hcurrent, chain, chain, hscope]
  | member qualifier =>
      cases qualifier with
      | none => rfl
      | some q => rw [lookup, lookup, hsearch, hmembers]
  | global => rw [lookup, lookup, hsearch]

/-- **Without the entity that is made all lookups find what they found before.** -/
theorem lookup_create_without (hp : t.Placed) (s : ScopeId) (space : Space) (name : String)
    {info : EntityInfo} (hinfo : info.members = none) (spaces : List Space) (sought : String)
    (look : Lookup) :
    ((t.create s space name info).2.without ⟨t.entities.size⟩).lookup spaces sought look =
      t.lookup spaces sought look := by
  have hnames : ∀ {x scope}, t.scope? x = some scope →
      ∀ b ∈ scope.names, b.2 ≠ ⟨t.entities.size⟩ := fun hx b hb he =>
    Nat.lt_irrefl _ (hp.there ⟨_, hx, b, hb, he⟩)
  refine lookup_congr (fun x => ?_) ?_ (fun e => ?_) spaces sought look
  · rw [scope?_without, scope?_create]
    cases hx : t.scope? x with
    | none => split <;> rfl
    | some scope =>
        split
        · exact congrArg some (Scope.bind_without (hnames hx) _ _)
        · exact congrArg some (Scope.without_eq_self (hnames hx))
  · rfl
  · rw [members?_without, members?, entity?_create, members?]
    split
    · next he => rw [he, entity?, Array.getElem?_size, Option.bind_some, hinfo]; rfl
    · rfl

/-- **When a definition makes an entity.**  What it defines is no tag and no namespace, and whatever
else is not defined yet is a tag. -/
theorem perform_eq_create (ht : t.Standing)
    (htags : ∀ e kind, t.kind? e = some kind → t.definition? e = none → kind.isTag = true)
    {op : Operation} {b : Binding} (hb : op.binding? = some b) (hnode : b.node ≠ none)
    (htag : b.kind.isTag = false) (hnamespace : b.kind ≠ .namespaceName) :
    t.perform op = (.entity ⟨t.entities.size⟩,
      (t.create (t.innermost b.accepts) b.space b.name ⟨b.kind, b.node, none⟩).2) := by
  rw [perform_of_binding ht.current hb]
  rcases t.bindName_cases b with ⟨e, he, hagain, -⟩ | hbind
  · -- the entity that the name means would be one that waits for a definition, and so a tag
    obtain ⟨-, existing, hkind, hcompatible⟩ := local?_of_compatible? he
    have hundefined : t.definition? e = none :=
      (hagain.resolve_left hnode).resolve_right hnamespace
    have hexisting : existing.isTag = true := htags e existing hkind hundefined
    have hne : b.kind ≠ existing := fun he => by
      rw [he, hexisting] at htag
      cases htag
    obtain ⟨-, -, hbtag⟩ := tags_of_compatible hcompatible hne
    rw [htag] at hbtag
    cases hbtag
  · rw [hbind]
    rfl

end Table

end TypeUses
