import TypeUses.Proofs.Tree.Growth
import TypeUses.Resolution.Walk
import TypeUses.Scope.Operation

/-!
# Resolution — what the steps change in a state

A step adds a node (`add_eq_ok`), enters a scope (`scopes_enter`, `functions_enter`) or leaves one
(`leave_eq_ok`).  References are linked when a function is left and when the walk is over; `Linked`
says what the links change in the tree, and `exists_link` when they succeed.
-/

namespace TypeUses.Resolution

variable {language : Language} {source : ByteArray}

/-! ### Adding a node -/

/-- Adding a node succeeds just when the tree takes what the node is read as. -/
theorem add_eq_ok {s s' : State} {f : Frame} {id : NodeId} {outline : Outline} :
    s.add language source f = .ok (s', id, outline) ↔
      ∃ tree, s.tree.push? f.parent (readNode language source s.scopes ⟨s.tree.size⟩ f).content
          f.node.item.location = .ok (id, tree) ∧
        s' = s.record tree id (readNode language source s.scopes ⟨s.tree.size⟩ f) ∧
        outline = (readNode language source s.scopes ⟨s.tree.size⟩ f).outline := by
  simp only [State.add]
  split
  · next id' tree htree =>
    simp only [Except.ok.injEq, Prod.mk.injEq, htree]
    refine ⟨fun ⟨hs, hid, ho⟩ => ⟨tree, ⟨hid, rfl⟩, hid ▸ hs.symm, ho.symm⟩, ?_⟩
    rintro ⟨_, ⟨rfl, rfl⟩, rfl, rfl⟩
    exact ⟨rfl, rfl, rfl⟩
  · next fault htree => simp [htree]

/-- An addition succeeds if the parent exists and there is room. -/
theorem exists_add (language : Language) (source : ByteArray) {s : State} {f : Frame}
    (hp : f.parent.index < s.tree.size)
    (hc : s.tree.size < Tree.capacity) :
    ∃ s' outline, s.add language source f = .ok (s', ⟨s.tree.size⟩, outline) := by
  obtain ⟨tree, htree⟩ := Tree.exists_push? hp hc
    (readNode language source s.scopes ⟨s.tree.size⟩ f).content f.node.item.location
  exact ⟨_, _, add_eq_ok.2 ⟨tree, htree, rfl, rfl⟩⟩

namespace State

variable {s : State} {tree : Tree} {id : NodeId} {r : Reading}

@[simp] theorem tree_record : (s.record tree id r).tree = tree := rfl

@[simp] theorem scopes_record : (s.record tree id r).scopes = r.scopes := rfl

/-- A node that refers to an entity is pending. -/
theorem pending_record (s : State) (tree : Tree) (id : NodeId) (r : Reading) :
    (s.record tree id r).pending = s.pending ∨
      ∃ e, r.entity = some e ∧ (s.record tree id r).pending = (id, e) :: s.pending := by
  cases he : r.entity with
  | none => exact Or.inl (by simp [record, he])
  | some e => exact Or.inr ⟨e, rfl, by simp [record, he]⟩

theorem mem_pending_record {p : NodeId × EntityId} (h : p ∈ (s.record tree id r).pending) :
    p ∈ s.pending ∨ ∃ e, r.entity = some e ∧ p = (id, e) := by
  rcases s.pending_record tree id r with hr | ⟨e, he, hr⟩
  · exact Or.inl (hr ▸ h)
  · rw [hr] at h
    rcases List.mem_cons.1 h with rfl | h
    · exact Or.inr ⟨e, he, rfl⟩
    · exact Or.inl h

/-- The node is pending if it refers to an entity. -/
theorem mem_pending_record_self {e : EntityId} (h : r.entity = some e) :
    (id, e) ∈ (s.record tree id r).pending := by
  rcases s.pending_record tree id r with hr | ⟨e', he, hr⟩
  · simp [record, h]
  · rw [hr, Option.some.inj (h.symm.trans he)]
    exact List.mem_cons_self

end State

/-- What a node does to the labels and `goto`s of the function around it. -/
theorem LabelFrame.note_cases (frame : LabelFrame) (id : NodeId) (c : Content) :
    frame.note id c = frame ∨
      (∃ name, c = .definition ⟨.label, name⟩ ∧
        frame.note id c = { frame with labels := (name, id) :: frame.labels }) ∨
      ∃ spelling target, c = .reference ⟨.label, spelling, target⟩ ∧
        frame.note id c = { frame with gotos := (id, spelling) :: frame.gotos } := by
  unfold LabelFrame.note
  split
  · next name =>
    unfold addLabel
    split
    · exact Or.inl rfl
    · exact Or.inr (Or.inl ⟨name, rfl, rfl⟩)
  · next spelling target => exact Or.inr (Or.inr ⟨spelling, target, rfl, rfl⟩)
  · exact Or.inl rfl

/-! ### Linking references -/

/-- A function links a `goto` to the label of its name. -/
theorem LabelFrame.mem_links {frame : LabelFrame} {goto label : NodeId} :
    (goto, label) ∈ frame.links ↔
      ∃ name, (goto, name) ∈ frame.gotos ∧ frame.labels.lookup name = some label := by
  simp only [links, List.mem_filterMap, List.mem_reverse, Option.map_eq_some_iff, Prod.mk.injEq]
  refine ⟨?_, fun ⟨name, hg, hl⟩ => ⟨(goto, name), hg, label, hl, rfl, rfl⟩⟩
  rintro ⟨⟨_, name⟩, hg, _, hl, rfl, rfl⟩
  exact ⟨name, hg, hl⟩

/-- In the end a pending reference is linked to the definition of its entity. -/
theorem State.mem_links {s : State} {reference definition : NodeId} :
    (reference, definition) ∈ s.links ↔
      ∃ e, (reference, e) ∈ s.pending ∧ s.scopes.definition? e = some definition := by
  simp only [links, List.mem_filterMap, List.mem_reverse, Option.map_eq_some_iff, Prod.mk.injEq]
  refine ⟨?_, fun ⟨e, hp, hd⟩ => ⟨(reference, e), hp, definition, hd, rfl, rfl⟩⟩
  rintro ⟨⟨_, e⟩, hp, _, hd, rfl, rfl⟩
  exact ⟨e, hp, hd⟩

/-- What links change in a tree: targets of references, each to one of the definitions that it is
linked to. -/
structure Linked (links : List (NodeId × NodeId)) (t t' : Tree) : Prop where
  size : t'.size = t.size
  children : ∀ id, t'.children id = t.children id
  location : ∀ id, t'.location? id = t.location? id
  content : ∀ id, t'.content? id = t.content? id ∨
    ∃ d, (id, d) ∈ links ∧ t'.content? id = (t.content? id).map (Content.withTarget d)
  linked : ∀ id d, (id, d) ∈ links →
    ∃ d', (id, d') ∈ links ∧ t'.content? id = (t.content? id).map (Content.withTarget d')

namespace Linked

variable {links : List (NodeId × NodeId)} {t t' : Tree}

theorem refl (t : Tree) : Linked [] t t :=
  ⟨rfl, fun _ => rfl, fun _ => rfl, fun _ => Or.inl rfl, nofun⟩

theorem withTarget_withTarget (d d' : NodeId) (c : Content) :
    (c.withTarget d).withTarget d' = c.withTarget d' := by
  cases c <;> rfl

/-- One link and then others. -/
theorem cons {t₁ : Tree} {reference definition : NodeId}
    (h : t.resolve? reference definition = .ok t₁) (ht : Linked links t₁ t') :
    Linked ((reference, definition) :: links) t t' := by
  have again : ∀ id d, (t₁.content? id).map (Content.withTarget d) =
      (t.content? id).map (Content.withTarget d) := by
    intro id d
    rw [Tree.content?_of_resolve? h]
    split
    · rw [Option.map_map]
      exact congrArg (Option.map · (t.content? id))
        (funext (withTarget_withTarget definition d))
    · rfl
  refine ⟨ht.size.trans (Tree.size_of_resolve? h),
    fun id => (ht.children id).trans (Tree.children_of_resolve? h id),
    fun id => (ht.location id).trans (Tree.location?_of_resolve? h id),
    fun id => ?_, fun id d hd => ?_⟩
  · rcases ht.content id with hc | ⟨d, hd, hc⟩
    · rw [hc, Tree.content?_of_resolve? h]
      split
      · next he => exact Or.inr ⟨definition, he ▸ List.mem_cons_self, rfl⟩
      · exact Or.inl rfl
    · exact Or.inr ⟨d, List.mem_cons_of_mem _ hd, hc.trans (again id d)⟩
  · have later : ∀ d', (id, d') ∈ links → ∃ d', (id, d') ∈ (reference, definition) :: links ∧
        t'.content? id = (t.content? id).map (Content.withTarget d') := by
      intro d' hd'
      obtain ⟨d'', hd'', hc⟩ := ht.linked id d' hd'
      exact ⟨d'', List.mem_cons_of_mem _ hd'', hc.trans (again id d'')⟩
    rcases List.mem_cons.1 hd with he | hd
    · cases he
      rcases ht.content reference with hc | ⟨d', hd', hc⟩
      · refine ⟨definition, List.mem_cons_self, ?_⟩
        rw [hc, Tree.content?_of_resolve? h, if_pos rfl]
      · exact later d' hd'
    · exact later d hd

/-- Links to a tree let it grow. -/
theorem grows (h : Linked links t t') : t.Grows t' := by
  refine ⟨Nat.le_of_eq h.size.symm, fun id _ => ?_, fun id _ => h.location id⟩
  rcases h.content id with hc | ⟨d, -, hc⟩
  · rw [hc]
  · rw [hc, Option.map_map]
    exact congrArg (Option.map · (t.content? id)) (funext (Content.unlinked_withTarget d))

/-- A reference that has a target had it before, or is linked to it. -/
theorem of_target (h : Linked links t t') {id d : NodeId} {r : Reference}
    (hr : t'.content? id = some (.reference r)) (hd : r.target = some d) :
    t.content? id = some (.reference r) ∨
      (id, d) ∈ links ∧ ∃ target, t.content? id = some (.reference { r with target := target }) := by
  rcases h.content id with hc | ⟨d', hd', hc⟩
  · exact Or.inl (hc ▸ hr)
  · rw [hr] at hc
    obtain ⟨c, hold, he⟩ := Option.map_eq_some_iff.1 hc.symm
    cases c with
    | reference r' => cases he; cases hd; exact Or.inr ⟨hd', r'.target, hold⟩
    | _ => cases he

/-- A node that is not linked is as it was. -/
theorem content_eq (h : Linked links t t') {id : NodeId} (hid : ∀ d, (id, d) ∉ links) :
    t'.content? id = t.content? id :=
  (h.content id).resolve_right fun ⟨d, hd, _⟩ => hid d hd

/-- Links from further nodes leave the nodes of a tree as they are. -/
theorem extends_of {t₀ : Tree} (h₀ : t₀.Extends t) (h : Linked links t t')
    (hnew : ∀ id d, (id, d) ∈ links → t₀.size ≤ id.index) : t₀.Extends t' where
  size_le := by rw [h.size]; exact h₀.size_le
  content id hid := by
    rw [h.content_eq fun d hd => Nat.not_lt.2 (hnew id d hd) hid]
    exact h₀.content id hid
  location id hid := (h.location id).trans (h₀.location id hid)
  children id := by rw [h.children]; exact h₀.children id

end Linked

/-- Links change nothing but the targets of their references, and are counted. -/
theorem linked_of_link {s s' : State} {links : List (NodeId × NodeId)}
    (h : s.link links = .ok s') :
    Linked links s.tree s'.tree ∧ s' = { s with tree := s'.tree, resolved := s'.resolved } := by
  induction links generalizing s with
  | nil => cases h; exact ⟨.refl _, rfl⟩
  | cons l links ih =>
      obtain ⟨reference, definition⟩ := l
      rw [State.link] at h
      split at h
      · next tree htree =>
        obtain ⟨hl, hs⟩ := ih h
        exact ⟨.cons htree hl, hs⟩
      · cases h

/-- Links from references to definitions succeed. -/
theorem exists_link {s : State} {links : List (NodeId × NodeId)}
    (h : ∀ l ∈ links, s.tree.IsReference l.1 ∧ s.tree.IsDefinition l.2) :
    ∃ s', s.link links = .ok s' := by
  induction links generalizing s with
  | nil => exact ⟨s, rfl⟩
  | cons l links ih =>
      obtain ⟨hr, hd⟩ := h l List.mem_cons_self
      obtain ⟨tree, htree⟩ := Tree.exists_resolve? hr hd
      obtain ⟨s', hs'⟩ := ih (s := { s with tree := tree, resolved := s.resolved + 1 })
        fun l' hl' => by
          obtain ⟨hr', hd'⟩ := h l' (List.mem_cons_of_mem _ hl')
          exact ⟨hr'.grows (Tree.grows_of_resolve? htree), hd'.grows (Tree.grows_of_resolve? htree)⟩
      exact ⟨s', by rw [State.link, htree]; exact hs'⟩

/-! ### Entering and leaving scopes -/

/-- The operation with which a scope is entered. -/
def ScopeEntry.operation : ScopeEntry → Operation
  | fresh kind => .enter kind
  | members entity kind => .enterMembers entity kind
  | function => .enter .function

@[simp] theorem tree_enter (s : State) (entry : ScopeEntry) : (s.enter entry).tree = s.tree := by
  cases entry <;> rfl

@[simp] theorem pending_enter (s : State) (entry : ScopeEntry) :
    (s.enter entry).pending = s.pending := by
  cases entry <;> rfl

theorem scopes_enter (s : State) (entry : ScopeEntry) :
    (s.enter entry).scopes = (s.scopes.perform entry.operation).2 := by
  cases entry <;> rfl

theorem functions_enter (s : State) (entry : ScopeEntry) :
    (s.enter entry).functions =
      if entry = .function then {} :: s.functions else s.functions := by
  cases entry <;> rfl

/-- **How a scope is left**: the table's is left and, if it is that of a function, the `goto`s of the
function are linked. -/
theorem leave_cases {s s' : State} {entry : ScopeEntry} (h : s.leave entry = .ok s') :
    (s' = s.leaveScope ∧ (entry = .function → s.functions = [])) ∨
      ∃ frame rest, entry = .function ∧ s.functions = frame :: rest ∧
        State.link { s.leaveScope with functions := rest } frame.links = .ok s' := by
  cases entry with
  | fresh | members => cases h; exact Or.inl ⟨rfl, nofun⟩
  | function =>
      unfold State.leave State.leaveFunction at h
      dsimp only at h
      split at h
      · next frame rest hf => exact Or.inr ⟨frame, rest, rfl, hf, h⟩
      · next hf => cases h; exact Or.inl ⟨rfl, fun _ => hf⟩

/-- What leaving a scope does to the parts of the state. -/
theorem leave_eq_ok {s s' : State} {entry : ScopeEntry} (h : s.leave entry = .ok s') :
    s'.scopes = s.scopes.leave ∧ s'.pending = s.pending ∧
      ((s'.tree = s.tree ∧ s'.functions = s.functions ∧
          (entry = .function → s.functions = [])) ∨
        ∃ frame, entry = .function ∧ s.functions = frame :: s'.functions ∧
          Linked frame.links s.tree s'.tree) := by
  rcases leave_cases h with ⟨rfl, hno⟩ | ⟨frame, rest, he, hf, hlink⟩
  · exact ⟨rfl, rfl, Or.inl ⟨rfl, rfl, hno⟩⟩
  · obtain ⟨hl, hs⟩ := linked_of_link hlink
    rw [hs]
    exact ⟨rfl, rfl, Or.inr ⟨frame, he, hf, hl⟩⟩

/-- A scope can be left if the `goto`s of the innermost function are references and its labels
definitions. -/
theorem exists_leave (s : State)
    (h : ∀ frame rest, s.functions = frame :: rest → ∀ l ∈ frame.links,
      s.tree.IsReference l.1 ∧ s.tree.IsDefinition l.2) (entry : ScopeEntry) :
    ∃ s', s.leave entry = .ok s' := by
  cases entry with
  | fresh | members => exact ⟨_, rfl⟩
  | function =>
      cases hf : s.functions with
      | nil => exact ⟨s.leaveScope, by unfold State.leave State.leaveFunction; rw [hf]⟩
      | cons frame rest =>
          obtain ⟨s', hs'⟩ := exists_link (s := { s.leaveScope with functions := rest })
            (h frame rest hf)
          exact ⟨s', by unfold State.leave State.leaveFunction; rw [hf]; exact hs'⟩

end TypeUses.Resolution
