import TypeUses.Proofs.Resolution.Reads
import TypeUses.Proofs.Resolution.Typedefs
import TypeUses.Proofs.Scope.Upright

/-!
# Resolution — names are looked up along the active scopes

The members that the walk enters are those of an entity that a node around them defines with a
name of its own (`opensDefined_readNode`), so that the scope which binds it is the binding scope
still when they are entered.  Therefore the tables of a walk are upright (`respects_regular`,
`regular_of_readAt`): templates left out, an unqualified name is looked up along the active
scopes, however often the members have been entered before.  So the scope in which a place binds
is searched from everywhere below it (`mem_chain_of_readAt`).

What a descent preserves holds where a place is read (`Place.ReadAt.satisfies`), and below a place
where it is read itself (`Place.ReadAt.below`).
-/

namespace TypeUses.Resolution
open Concrete.Node (keptCounts)

variable {language : Language} {source : ByteArray} {spelling : String} {parse : Concrete.Parse}

/-! ### Whose members are entered -/

/-- The reading opens the members of an entity only if it has just defined the entity, with a name
that the binding scope binds. -/
def OpensDefined (t : Table) (id : NodeId) (r : Reading) : Prop :=
  ∀ o e, r.outline.opening = some o → o.entry.entity? = some e →
    ∃ space name kind scopeKind, o.entry = .members e scopeKind ∧ scopeKind ≠ .template ∧
      r.scopes = (t.perform (.define space name kind id)).2 ∧
      (t.perform (.define space name kind id)).1 = .entity e

theorem opensDefined_of_opensNoMembers {t : Table} {id : NodeId} {r : Reading}
    (h : OpensNoMembers r.outline.opening) : OpensDefined t id r := by
  intro o e ho he
  rw [h o ho] at he
  cases he

/-- A specifier opens only the members of what it defines. -/
theorem opensDefined_specifier (t : Table) (id : NodeId) (f : Frame) (kind : EntityKind) :
    OpensDefined t id (readSpecifier language source t id f kind) := by
  have plain : ∀ scopes, OpensDefined t id (.plain scopes f) := fun _ =>
    opensDefined_of_opensNoMembers opensNoMembers_none
  simp only [readSpecifier, readDefinedTag]
  split
  · split
    · next name _ =>
      intro o e ho he
      dsimp only at ho
      split at ho
      · cases ho
        cases he
        exact ⟨.tag, name, kind, .classBody, rfl, by decide, rfl, rfl⟩
      · cases ho
    · exact opensDefined_of_opensNoMembers opensNoMembers_none
  · split
    · split
      · exact opensDefined_of_opensNoMembers opensNoMembers_none
      · exact plain t
    · exact plain t

theorem opensDefined_namespace (t : Table) (id : NodeId) (f : Frame) :
    OpensDefined t id (readNamespace source t id f) := by
  unfold readNamespace
  split
  · next n _ =>
    dsimp only
    split
    · intro o e ho he
      cases ho
      cases he
      exact ⟨.namespaces, _, .namespaceName, .namespaceBody, rfl, by decide, rfl, rfl⟩
    · exact opensDefined_of_opensNoMembers (opensNoMembers_some rfl)
  · exact opensDefined_of_opensNoMembers opensNoMembers_none

/-- **Members are opened by the node that defines their entity.** -/
theorem opensDefined_readNode (language : Language) (source : ByteArray) (t : Table) (id : NodeId)
    (f : Frame) : OpensDefined t id (readNode language source t id f) := by
  have of_empty : ∀ {r : Reading}, r.outline = {} → OpensDefined t id r := fun hr =>
    opensDefined_of_opensNoMembers (by rw [hr]; exact opensNoMembers_none)
  simp only [readNode]
  split
  iterate 4 exact opensDefined_specifier t id f _
  · exact opensDefined_namespace t id f
  · exact of_empty rfl
  · exact of_empty (outline_readTypeIdentifier ..)
  · exact of_empty (outline_readNamespaceIdentifier ..)
  · split
    · exact of_empty (outline_readNamespaceIdentifier ..)
    · exact of_empty rfl
  · refine of_empty ?_
    simp only [readStatementIdentifier]
    split <;> rfl
  · exact opensDefined_of_opensNoMembers opensNoMembers_none
  iterate 5 exact opensDefined_of_opensNoMembers (opensNoMembers_some rfl)
  · exact of_empty rfl

/-! ### The tables of a walk are upright -/

/-- A table of a walk: its scopes and entities are in their places, and it is upright. -/
structure Regular (t : Table) : Prop where
  standing : t.Standing
  placed : t.Placed
  nested : t.Nested
  upright : t.Upright

/-- A scope may be entered: if it is that of members, then of a defined entity that the binding
scope binds. -/
def MayEnter (t : Table) (entry : ScopeEntry) : Prop :=
  ∀ e kind, entry = .members e kind →
    kind ≠ .template ∧ t.Holds t.bindingScope e ∧ ∃ d, t.definition? e = some d

theorem regular_initial (language : Language) (spelling : String) :
    Regular (State.initial language spelling).scopes :=
  ⟨(Table.closed_empty _).standing, .empty _, .empty _, .empty _⟩

/-- Operations keep a table regular, if members are entered only of what is defined where names are
bound. -/
theorem Regular.perform {t : Table} {op : Operation} (h : Regular t)
    (hop : ∀ e kind, op = .enterMembers e kind →
      kind ≠ .template ∧ t.Holds t.bindingScope e ∧ ∃ d, t.definition? e = some d) :
    Regular (t.perform op).2 where
  standing := h.standing.perform op
  placed := h.placed.perform h.standing fun e kind he => (hop e kind he).2.2
  nested := h.nested.perform h.standing op
  upright := h.upright.perform h.standing h.placed h.nested fun e kind he =>
    ⟨(hop e kind he).1, (hop e kind he).2.1⟩

theorem Regular.readNode {t : Table} (h : Regular t) (language : Language) (source : ByteArray)
    (id : NodeId) (f : Frame) : Regular (readNode language source t id f).scopes := by
  rcases (readAs_readNode language source t id f).scopes with he | ⟨op, hop, -, he, -⟩ <;> rw [he]
  · exact h
  · refine h.perform ?_
    rintro e kind rfl
    exact hop.elim

/-- What a node opens may be entered behind it. -/
theorem Regular.mayEnter {t : Table} (h : Regular t) (id : NodeId) (f : Frame) {o : Opening}
    (ho : (Resolution.readNode language source t id f).outline.opening = some o) :
    MayEnter (Resolution.readNode language source t id f).scopes o.entry := by
  intro e kind hentry
  obtain ⟨space, name, entityKind, scopeKind, he, hkind, hscopes, hanswer⟩ :=
    opensDefined_readNode language source t id f o e ho (by rw [hentry]; rfl)
  cases hentry.symm.trans he
  obtain ⟨b, hb, hholds⟩ := Table.holds_of_answer h.standing hanswer
  cases hb
  have hbinding : (t.perform (.define space name entityKind id)).2.bindingScope = t.bindingScope :=
    Table.bindingScope_of_grows (Table.keeps_perform t _) h.standing (Table.active_defineIn ..)
  rw [hscopes]
  exact ⟨hkind, hbinding ▸ hholds, (Table.defined_of_answer h.standing hanswer rfl).1⟩

theorem MayEnter.grows {t t' : Table} {new : NodeId → Prop} {entry : ScopeEntry}
    (h : MayEnter t entry) (ht : t.Standing) (hg : t.Grows new t')
    (hactive : t'.active = t.active) : MayEnter t' entry := by
  intro e kind he
  obtain ⟨hkind, hholds, d, hd⟩ := h e kind he
  rw [Table.bindingScope_of_grows hg ht hactive]
  exact ⟨hkind, hholds.grows hg, d, hg.definition hd⟩

/-- **What keeps the tables of a walk upright.** -/
theorem respects_regular :
    Respects language source (fun s => Regular s.scopes)
      (fun s s' => Follows s s' ∧ (Regular s.scopes → Regular s'.scopes))
      (fun s entry => Regular s.scopes ∧ MayEnter s.scopes entry) where
  refl s := ⟨.refl s, id⟩
  trans h h' := ⟨h.1.trans h'.1, fun hs => h'.2 (h.2 hs)⟩
  add {s f s' id outline} hs h := by
    have follows := follows_add h
    obtain ⟨tree, -, rfl, rfl⟩ := add_eq_ok.1 h
    have hs' := hs.readNode language source ⟨s.tree.size⟩ f
    exact ⟨hs', ⟨follows, fun _ => hs'⟩, fun o ho => ⟨hs', hs.mayEnter _ f ho⟩⟩
  keep h hq := ⟨h.2 hq.1, hq.2.grows hq.1.standing h.1.scopes h.1.active⟩
  enter {s entry} hs hq := by
    rw [scopes_enter]
    refine hs.perform fun e kind he => hq.2 e kind ?_
    cases entry <;> cases he
    rfl
  leave {s s₁ s' entry} hs _ hs₁ h hleave := by
    have hs' : Regular s'.scopes := by
      rw [(leave_eq_ok hleave).1]
      show Regular (s₁.scopes.perform .leave).2
      exact hs₁.perform nofun
    exact ⟨hs', follows_leave h.1 hleave, fun _ => hs'⟩

/-! ### What holds wherever a place is read -/

theorem Place.IsChild.mem_below {p q : Place} {k : Nat} (h : p.IsChild k q) : q ∈ p.below := by
  have hq : q = ⟨q.node, p.node, p.id, ⟨p.id.index + 1 + keptCounts (p.node.children.take k)⟩,
      p.path ++ [0 + k]⟩ := by
    rw [Nat.zero_add, ← h.id, ← h.path, ← h.outer, ← h.parent]
  exact hq ▸ child_mem_placesIn h.node h.kept

theorem Place.IsChild.mem_places {p q : Place} {k : Nat} (h : p.IsChild k q)
    (hp : p ∈ places parse) : q ∈ places parse :=
  below_placesIn h.mem_below parse.root.children hp

/-- What lies at or below a place is among the places at and below it. -/
theorem Place.IsAbove.mem_placesAt {b u : Place} (h : b.IsAbove u) :
    u ∈ placesAt b.path b.outer b.parent b.id.index b.node := by
  induction h with
  | refl =>
      obtain ⟨⟨i, cs⟩, outer, parent, ⟨id⟩, path⟩ := b
      rw [placesAt]
      exact List.mem_cons_self
  | tail _ hmc ih =>
      obtain ⟨k, hchild⟩ := hmc
      exact below_placesAt hchild.mem_below b.node ih

theorem Place.IsAbove.mem_places {b u : Place} (h : b.IsAbove u) (hb : b ∈ places parse) :
    u ∈ places parse := by
  induction h with
  | refl => exact hb
  | tail _ hmc ih =>
      obtain ⟨k, hchild⟩ := hmc
      exact hchild.mem_places ih

/-- What lies at or below a place has a number in its range. -/
theorem Place.IsAbove.id_bounds {b u : Place} (h : b.IsAbove u) :
    b.id.index ≤ u.id.index ∧ u.id.index < b.id.index + b.node.keptCount :=
  id_bounds_of_mem_placesAt h.mem_placesAt

theorem Place.IsChild.lt {p q : Place} {k : Nat} (h : p.IsChild k q) : p.id.index < q.id.index := by
  rw [h.id]
  omega

section Respects
variable {P : State → Prop} {R : State → State → Prop} {Q : State → ScopeEntry → Prop}
  {sf : State}
  (hwalk : walk language source (.initial language spelling) (initialSteps parse) = .ok sf)
include hwalk

/-- **What a descent preserves** holds of the state in which a place is read. -/
theorem Place.ReadAt.satisfies (hR : Respects language source P R Q)
    (hinitial : P (.initial language spelling)) {p : Place} (hp : p ∈ places parse) {s : State}
    {context : Context} (hread : p.ReadAt language source spelling parse s context) : P s := by
  rw [initialSteps, plan_eq] at hwalk
  obtain ⟨s', context', rest', hruns', hsize', hs'⟩ :=
    visits_placesIn hR [] 0 parse.root.children hinitial (fun _ ho => by cases ho) hwalk p hp
  obtain ⟨rest, hruns, hsize⟩ := hread
  rw [initialSteps, plan_eq] at hruns
  obtain ⟨rfl, -⟩ := visit_unique hruns hruns' (hsize.trans hsize'.symm)
  exact hs'

/-- What a descent preserves holds below a place where it holds. -/
theorem Place.ReadAt.below (hR : Respects language source P R Q) {b u : Place} {s s' : State}
    {context context' : Context} (hb : b.ReadAt language source spelling parse s context) (hs : P s)
    (habove : b.IsAbove u) (hu : u.ReadAt language source spelling parse s' context') : P s' := by
  obtain ⟨rest, hruns, hsize⟩ := hb
  have hmem := habove.mem_placesAt
  rw [← hsize] at hmem
  obtain ⟨s₁, context₁, rest₁, hruns₁, hsize₁, hs₁⟩ :=
    visits_placesAt hR b.path b.node hs (hruns.walk_eq ▸ hwalk) u hmem
  obtain ⟨rest', hruns', hsize'⟩ := hu
  obtain ⟨rfl, -⟩ := visit_unique hruns' (hruns.trans hruns₁) (hsize'.trans hsize₁.symm)
  exact hs₁

/-- Every place is read. -/
theorem exists_readAt {p : Place} (hp : p ∈ places parse) :
    ∃ s context, p.ReadAt language source spelling parse s context := by
  obtain ⟨s, context, rest, hread⟩ := visited_of_mem_places hwalk hp
  exact ⟨s, context, rest, hread⟩

/-- Every place is read, in a state of which something can be computed. -/
theorem exists_readAt_of_stateBefore {α : Type} (n : Nat) (view : State → α) {p : Place} {a : α}
    (hp : p ∈ places parse) (ha : (stateBefore language source p.id n (.initial language spelling)
      (initialSteps parse)).map view = some a) :
    ∃ s context, p.ReadAt language source spelling parse s context ∧ view s = a := by
  obtain ⟨s, context, hread⟩ := exists_readAt hwalk hp
  exact ⟨s, context, hread, hread.view_of_stateBefore n view ha⟩

omit hwalk in
/-- Of two places the one with the smaller number is read first. -/
theorem Place.ReadAt.runs_of_le {p q : Place} {s s' : State} {context context' : Context}
    (hp : p.ReadAt language source spelling parse s context)
    (hq : q.ReadAt language source spelling parse s' context')
    (hle : p.id.index ≤ q.id.index) : ∃ stack stack',
      Runs language source (.initial language spelling) (initialSteps parse) s stack ∧
        Runs language source s stack s' stack' := by
  obtain ⟨rest, hruns, hsize⟩ := hp
  obtain ⟨rest', hruns', hsize'⟩ := hq
  exact ⟨_, _, hruns, runs_of_size_le hruns hruns' (by omega)⟩

/-- Behind the reading of a place the walk goes on below it. -/
theorem Place.ReadAt.behind {p : Place} {s : State} {context : Context}
    (h : p.ReadAt language source spelling parse s context) : ∃ s₁ rest,
      Runs language source (.initial language spelling) (initialSteps parse) s
        (.visit ⟨p.node, p.outer, p.parent, context⟩ :: rest) ∧
      s₁.scopes = (p.reading language source s context).scopes ∧
      s₁.tree.size = p.id.index + 1 ∧
      Runs language source (.initial language spelling) (initialSteps parse) s₁
        (plan p.node p.id context (p.reading language source s context).outline ++ rest) ∧
      Runs language source s₁
        (plan p.node p.id context (p.reading language source s context).outline ++ rest) sf [] := by
  obtain ⟨rest, hruns, hsize⟩ := h
  obtain ⟨s₁, id, outline, hadd, hvisit, hrest⟩ := walk_visit_cons_eq_ok (hruns.walk_eq ▸ hwalk)
  obtain ⟨rfl, hsize₁⟩ := size_add hadd
  obtain ⟨tree, -, hs₁, rfl⟩ := add_eq_ok.1 hadd
  have hid : (⟨s.tree.size⟩ : NodeId) = p.id := NodeId.ext hsize
  rw [← hid]
  exact ⟨s₁, rest, hruns, by rw [hs₁]; rfl, hsize₁, hruns.trans hvisit, walk_eq_ok_iff.1 hrest⟩

/-- Behind the reading of a place come the readings of those with greater numbers. -/
theorem Place.ReadAt.runs_behind {p q : Place} {s s' : State} {context context' : Context}
    (hp : p.ReadAt language source spelling parse s context)
    (hq : q.ReadAt language source spelling parse s' context')
    (hlt : p.id.index < q.id.index) : ∃ s₁ stack stack',
      s₁.scopes = (p.reading language source s context).scopes ∧
      s₁.tree.size = p.id.index + 1 ∧
      Runs language source (.initial language spelling) (initialSteps parse) s₁ stack ∧
        Runs language source s₁ stack s' stack' := by
  obtain ⟨s₁, rest, -, hscopes, hsize₁, hruns₁, -⟩ := hp.behind hwalk
  obtain ⟨rest', hruns', hsize'⟩ := hq
  exact ⟨s₁, _, _, hscopes, hsize₁, hruns₁, runs_of_size_le hruns₁ hruns' (by omega)⟩

/-- **The tables of a walk are upright.** -/
theorem regular_of_readAt {p : Place} (hp : p ∈ places parse) {s : State} {context : Context}
    (hread : p.ReadAt language source spelling parse s context) : Regular s.scopes :=
  hread.satisfies hwalk respects_regular (regular_initial language spelling) hp

/-- What is active where a place is read is so below it, with further scopes in front. -/
theorem active_suffix_of_readAt {b u : Place} {s s' : State} {context context' : Context}
    (hb : b.ReadAt language source spelling parse s context) (habove : b.IsAbove u)
    (hu : u.ReadAt language source spelling parse s' context') :
    s.scopes.active <:+ s'.scopes.active := by
  have respects : Respects language source (fun s₁ => s.scopes.active <:+ s₁.scopes.active) Follows
      (fun _ _ => True) := by
    refine ⟨.refl, .trans, fun hs hadd => ?_, fun _ _ => trivial, fun {s₁ entry} hs _ => ?_,
      fun hs _ _ h hleave => ?_⟩
    · exact ⟨(follows_add hadd).active ▸ hs, follows_add hadd, fun _ _ => trivial⟩
    · obtain ⟨x, hx⟩ := active_enter s₁ entry
      rw [hx]
      exact hs.trans (List.suffix_cons _ _)
    · have follows := follows_leave h hleave
      exact ⟨follows.active ▸ hs, follows⟩
  exact hb.below hwalk respects (List.suffix_refl _) habove hu

/-- **The scope in which a place binds is searched below it** for an unqualified name. -/
theorem mem_chain_of_readAt {b u : Place} {s s' : State} {context context' : Context}
    (hmem : b ∈ places parse) (hb : b.ReadAt language source spelling parse s context)
    (habove : b.IsAbove u) (hu : u.ReadAt language source spelling parse s' context') :
    s.scopes.bindingScope ∈ s'.scopes.chain s'.scopes.current := by
  have hregular := regular_of_readAt hwalk hmem hb
  have hregular' := regular_of_readAt hwalk (habove.mem_places hmem) hu
  obtain ⟨hactive, hplain⟩ := List.mem_filter.1 (hregular.upright.bindingScope_mem hregular.nested)
  obtain ⟨_, _, -, hruns⟩ := hb.runs_of_le hu habove.id_bounds.1
  refine hregular'.upright.mem_chain_of_active ?_ ?_
  · exact (active_suffix_of_readAt hwalk hb habove hu).subset hactive
  · rw [Table.isPlain_of_grows (grows_of_runs hruns).1 (hregular.standing.active _ hactive)]
    exact hplain

/-- Every visit of the walk is to a place. -/
theorem exists_place_of_visit {s : State} {f : Frame} {rest : List Step}
    (h : Runs language source (.initial language spelling) (initialSteps parse) s
      (.visit f :: rest)) :
    ∃ p ∈ places parse, ∃ context, f = ⟨p.node, p.outer, p.parent, context⟩ ∧
      p.ReadAt language source spelling parse s context := by
  have hsize := size_of_walk hwalk
  rw [initialSteps, stackCount_plan, ← length_placesIn [] parse.root Tree.rootId 1 0] at hsize
  have hlt := lt_of_runs_visit h (walk_eq_ok_iff.1 hwalk)
  have hle := (grows_of_runs h).2.size_le
  have hone : (State.initial language spelling).tree.size = 1 := rfl
  have hindex : s.tree.size ∈ (places parse).map (·.id.index) := by
    rw [map_id_places, List.mem_range'_1]
    rw [hone] at hsize hle
    exact ⟨hle, hsize ▸ hlt⟩
  obtain ⟨p, hp, hid⟩ := List.mem_map.1 hindex
  obtain ⟨s', context, rest', hruns', hsize'⟩ := visited_of_mem_places hwalk hp
  obtain ⟨rfl, rfl⟩ := visit_unique h hruns' (hid.symm.trans hsize'.symm)
  exact ⟨p, hp, context, rfl, rest, h, hsize'⟩

end Respects

end TypeUses.Resolution
