import TypeUses.Proofs.Resolution.Parents
import TypeUses.Proofs.Resolution.Tables
import TypeUses.Proofs.Resolution.Visits

/-!
# Resolution — how a place is read

The walk over a parse reads every place once, in one state and one context (`Place.ReadAt`,
`Place.ReadAt.unique`).  The context is the one that the node around it hands to its child
(`Place.ReadAt.child`, `exists_readAt_child`).  A place defines in the end what it is read to define
(`content_of_readAt`); if it is a type identifier, its role decides (`definition_of_readAt`).
-/

namespace TypeUses.Resolution
open Concrete.Node (keptCounts)

variable {language : Language} {source : ByteArray} {spelling : String} {parse : Concrete.Parse}

/-! ### Readings -/

/-- What a place is read as in a state and a context. -/
def Place.reading (language : Language) (source : ByteArray) (p : Place) (s : State)
    (context : Context) : Reading :=
  readNode language source s.scopes ⟨s.tree.size⟩ ⟨p.node, p.outer, p.parent, context⟩

/-- In state `s` the walk over the parse is about to read the place in the context. -/
def Place.ReadAt (language : Language) (source : ByteArray) (spelling : String)
    (parse : Concrete.Parse) (p : Place) (s : State) (context : Context) : Prop :=
  ∃ rest, Runs language source (.initial language spelling) (initialSteps parse) s
    (.visit ⟨p.node, p.outer, p.parent, context⟩ :: rest) ∧ s.tree.size = p.id.index

/-- A place is read when the tree has as many nodes as its number says. -/
theorem Place.ReadAt.id {p : Place} {s : State} {context : Context}
    (h : p.ReadAt language source spelling parse s context) : (⟨s.tree.size⟩ : NodeId) = p.id := by
  obtain ⟨rest, -, hsize⟩ := h
  exact NodeId.ext hsize

theorem Place.ReadAt.runs {p : Place} {s : State} {context : Context}
    (h : p.ReadAt language source spelling parse s context) :
    ∃ rest, Runs language source (.initial language spelling) (initialSteps parse) s
      (.visit ⟨p.node, p.outer, p.parent, context⟩ :: rest) := by
  obtain ⟨rest, hruns, -⟩ := h
  exact ⟨rest, hruns⟩

/-- **A place is read once.** -/
theorem Place.ReadAt.unique {p : Place} {s s' : State} {context context' : Context}
    (h : p.ReadAt language source spelling parse s context)
    (h' : p.ReadAt language source spelling parse s' context') : s = s' ∧ context = context' := by
  obtain ⟨rest, hruns, hsize⟩ := h
  obtain ⟨rest', hruns', hsize'⟩ := h'
  obtain ⟨rfl, hframe⟩ := visit_unique hruns hruns' (hsize.trans hsize'.symm)
  exact ⟨rfl, (Frame.mk.inj hframe).2.2.2⟩

/-! ### Readings, computed -/

/-- Whether the step reads a node. -/
def Step.isVisit : Step → Bool
  | visit _ => true
  | enter _ | leave _ => false

/-- The state in which the node that becomes node `id` of the tree is about to be read, if the walk
gets there within a number of steps. -/
def stateBefore (language : Language) (source : ByteArray) (id : NodeId) :
    Nat → State → List Step → Option State
  | _, _, [] | 0, _, _ => none
  | n + 1, s, step :: rest =>
    if step.isVisit ∧ s.tree.size = id.index then some s
    else
      match s.perform language source step with
      | .ok (s₁, steps) => stateBefore language source id n s₁ (steps ++ rest)
      | .error _ => none

/-- The state that is computed is one in which the walk is about to read the node. -/
theorem runs_of_stateBefore {id : NodeId} {n : Nat} {s s' : State} {stack : List Step}
    (h : stateBefore language source id n s stack = some s') :
    ∃ f rest, Runs language source s stack s' (.visit f :: rest) ∧ s'.tree.size = id.index := by
  fun_induction stateBefore language source id n s stack with
  | case1 | case2 => cases h
  | case3 n s step rest hstop =>
      obtain rfl := Option.some.inj h
      obtain ⟨hvisit, hsize⟩ := hstop
      cases step with
      | visit f => exact ⟨f, rest, .refl _ _, hsize⟩
      | enter | leave => cases hvisit
  | case4 n s step rest _ s₁ steps hstep ih =>
      obtain ⟨f, rest', hruns, hsize⟩ := ih h
      exact ⟨f, rest', .more hstep hruns, hsize⟩
  | case5 => cases h

/-- A place is read in the state that is computed for it. -/
theorem Place.ReadAt.eq_of_stateBefore {p : Place} {s s' : State} {context : Context} {n : Nat}
    (h : p.ReadAt language source spelling parse s context)
    (h' : stateBefore language source p.id n (.initial language spelling) (initialSteps parse) =
      some s') : s = s' := by
  obtain ⟨rest, hruns, hsize⟩ := h
  obtain ⟨f, rest', hruns', hsize'⟩ := runs_of_stateBefore h'
  exact (visit_unique hruns hruns' (hsize.trans hsize'.symm)).1

/-- What is computed of the state in which a place is read. -/
theorem Place.ReadAt.view_of_stateBefore {α : Type} {p : Place} {s : State} {context : Context}
    (h : p.ReadAt language source spelling parse s context) (n : Nat) (view : State → α) {a : α}
    (ha : (stateBefore language source p.id n (.initial language spelling)
      (initialSteps parse)).map view = some a) : view s = a := by
  obtain ⟨s', hs', ha⟩ := Option.map_eq_some_iff.1 ha
  rw [h.eq_of_stateBefore hs', ha]

/-! ### The contexts of children -/

/-- The walk over the children of a node gets to each kept one, whatever scope opens among them. -/
theorem exists_visit_among {node : Concrete.Node} {id : NodeId} {context : Context}
    {outline : Outline} {rest : List Step} {sf : State} {c : Concrete.Node}
    (hk : c.item.isKept = true) : ∀ {cs : List Concrete.Node} {k : Nat}
      {opening : Option Opening} {s : State}, cs[k]? = some c →
      walk language source s (visitsIn node id context outline opening cs ++ rest) = .ok sf →
        ∃ s₁ rest₁,
          Runs language source s (visitsIn node id context outline opening cs ++ rest) s₁
            (.visit ⟨c, node, id, childContext node context outline c⟩ :: rest₁) ∧
          s₁.tree.size = s.tree.size + keptCounts (cs.take k) := by
  intro cs
  induction cs with
  | nil => simp
  | cons d cs ih =>
      intro k opening s hc h
      rw [visitsIn_cons] at h ⊢
      by_cases hd : d.item.isKept
      · rw [if_pos hd, List.append_assoc] at h ⊢
        rw [walk_enter] at h
        have henter := @runs_enter language source s (opening.filter fun o => o.opensAt d)
        cases k with
        | zero =>
            cases Option.some.inj hc
            refine ⟨_, _, henter _, ?_⟩
            rw [tree_enterOpening, List.take_zero, keptCounts, Nat.add_zero]
        | succ k =>
            obtain ⟨s₁, hvisit, h⟩ := walk_append_eq_ok [.visit _] h
            obtain ⟨s₂, rest₂, hruns, hsize⟩ := ih hc h
            refine ⟨s₂, rest₂, ((henter _).trans (runs_of_walk hvisit _)).trans hruns, ?_⟩
            have hsize₁ : s₁.tree.size = _ + (d.keptCount + 0) := size_of_walk hvisit
            rw [hsize, hsize₁, tree_enterOpening, List.take_succ_cons, keptCounts, if_pos hd]
            omega
      · rw [if_neg hd] at h ⊢
        cases k with
        | zero =>
            cases Option.some.inj hc
            exact absurd hk hd
        | succ k =>
            obtain ⟨s₁, rest₁, hruns, hsize⟩ := ih hc h
            refine ⟨s₁, rest₁, hruns, ?_⟩
            rw [hsize, List.take_succ_cons, keptCounts, if_neg hd, Nat.zero_add]

/-- **A node hands its children their contexts.** -/
theorem Place.ReadAt.child {sf : State}
    (hwalk : walk language source (.initial language spelling) (initialSteps parse) = .ok sf)
    {p q : Place} {s : State} {context : Context}
    (h : p.ReadAt language source spelling parse s context) {k : Nat} (hpq : p.IsChild k q) :
    ∃ s₁, q.ReadAt language source spelling parse s₁
      (childContext p.node context (p.reading language source s context).outline q.node) := by
  obtain ⟨rest, hruns, hsize⟩ := h
  obtain ⟨s₁, id, outline, hadd, hvisit, hrest⟩ := walk_visit_cons_eq_ok (hruns.walk_eq ▸ hwalk)
  obtain ⟨rfl, hsize₁⟩ := size_add hadd
  obtain ⟨tree, -, -, rfl⟩ := add_eq_ok.1 hadd
  rw [plan_eq, List.append_assoc] at hvisit hrest
  obtain ⟨s₂, rest₂, hread, hsize₂⟩ := exists_visit_among hpq.kept hpq.node hrest
  have hread := hpq.frame (NodeId.ext hsize) _ ▸ hread
  refine ⟨s₂, rest₂, (hruns.trans hvisit).trans hread, ?_⟩
  rw [hsize₂, hsize₁, hsize, hpq.id]

/-- The children of the root are read in the context that it hands to them. -/
theorem exists_readAt_of_root {sf : State}
    (hwalk : walk language source (.initial language spelling) (initialSteps parse) = .ok sf)
    {q : Place} {k : Nat} (hq : (rootPlace parse).IsChild k q) :
    ∃ s, q.ReadAt language source spelling parse s (childContext parse.root .plain {} q.node) := by
  rw [initialSteps, plan_eq] at hwalk
  obtain ⟨s, rest, hread, hsize⟩ := exists_visit_among hq.kept hq.node hwalk
  have hread := hq.frame rfl _ ▸ hread
  exact ⟨s, rest, hread, hsize.trans hq.id.symm⟩

/-- Every child of a place is read in a context that its parent hands to it. -/
theorem exists_readAt_child {sf : State}
    (hwalk : walk language source (.initial language spelling) (initialSteps parse) = .ok sf)
    {p q : Place} (hp : p ∈ allPlaces parse) {k : Nat} (hpq : p.IsChild k q) :
    ∃ s context outline, q.ReadAt language source spelling parse s
      (childContext p.node context outline q.node) := by
  rcases List.mem_cons.1 hp with rfl | hp
  · obtain ⟨s, hread⟩ := exists_readAt_of_root hwalk hpq
    exact ⟨s, _, _, hread⟩
  · obtain ⟨s, context, rest, hruns, hsize⟩ := visited_of_mem_places hwalk hp
    obtain ⟨s₁, hread⟩ := Place.ReadAt.child hwalk ⟨rest, hruns, hsize⟩ hpq
    exact ⟨s₁, _, _, hread⟩

/-! ### Names that are defined -/

/-- What a type identifier in the role is defined as. -/
def Role.defines? : Role → Option EntityKind
  | .declaredType kind => some kind
  | .templateParameter => some .templateParameter
  | .use | .ownName | .templateName | .tag _ | .usedNamespace => none

/-- **A type identifier is defined** if and only if its role says so. -/
theorem definition_readTypeIdentifier {t : Table} {id : NodeId} {f : Frame} {e : Entity} :
    (readTypeIdentifier source t id f).content = .definition e ↔
      f.context.role.defines? = some e.kind ∧ e.name = textOf source f.node.item := by
  have tag : ∀ look name kind, (readTag t look name kind).content ≠ .definition e := by
    intro look name kind
    simp only [readTag]
    split
    · simp [Reading.ofReference]
    · split <;> simp [Reading.ofReference]
  obtain ⟨kind, name⟩ := e
  cases hrole : f.context.role with
  | tag kind => simp only [readTypeIdentifier, hrole, tag, Role.defines?, reduceCtorEq, false_and]
  | declaredType | templateParameter =>
      simp [readTypeIdentifier, hrole, Role.defines?, eq_comm]
  | use | ownName | templateName | usedNamespace =>
      simp [readTypeIdentifier, hrole, Role.defines?, Reading.plain, Reading.ofReference]

/-! ### What becomes of a reading -/

/-- In the end a node defines what it is read to define. -/
theorem content_of_read {tree : Tree} {s sf : State} {f : Frame} {rest : List Step}
    (hwalk : walk language source s (.visit f :: rest) = .ok sf) (hgrows : sf.tree.Grows tree)
    {entity : Entity} :
    tree.content? ⟨s.tree.size⟩ = some (.definition entity) ↔
      (readNode language source s.scopes ⟨s.tree.size⟩ f).content = .definition entity := by
  obtain ⟨s₁, id, outline, hadd, -, hwalk₁⟩ := walk_visit_cons_eq_ok hwalk
  obtain ⟨rfl, -⟩ := size_add hadd
  obtain ⟨tree₁, htree, rfl, -⟩ := add_eq_ok.1 hadd
  have hnew := Tree.content?_of_push? htree ⟨s.tree.size⟩
  rw [if_pos rfl] at hnew
  have hgrows := (grows_of_runs (walk_eq_ok_iff.1 hwalk₁)).2.trans hgrows
  constructor
  · intro hc
    have hu := hgrows.content _ (Tree.lt_size_of_content? hnew)
    rw [hc, State.tree_record, hnew, Option.map_some, Option.map_some] at hu
    exact Content.eq_of_unlinked_eq rfl (Option.some.inj hu).symm
  · intro hc
    rw [hc] at hnew
    exact hgrows.definition hnew

/-- In the end a place defines what it is read to define. -/
theorem content_of_readAt {tree : Tree} {sf : State}
    (hwalk : walk language source (.initial language spelling) (initialSteps parse) = .ok sf)
    (hgrows : sf.tree.Grows tree) {p : Place} {s : State} {context : Context}
    (h : p.ReadAt language source spelling parse s context) {entity : Entity} :
    tree.content? p.id = some (.definition entity) ↔
      (p.reading language source s context).content = .definition entity := by
  obtain ⟨rest, hruns⟩ := h.runs
  rw [← h.id]
  exact content_of_read (hruns.walk_eq ▸ hwalk) hgrows

/-- In the end a type identifier is defined if and only if its role says so. -/
theorem definition_of_readAt {tree : Tree} {sf : State}
    (hwalk : walk language source (.initial language spelling) (initialSteps parse) = .ok sf)
    (hgrows : sf.tree.Grows tree) {p : Place} {s : State} {context : Context}
    (h : p.ReadAt language source spelling parse s context)
    (htype : p.node.kind = .typeIdentifier) {entity : Entity} :
    tree.content? p.id = some (.definition entity) ↔
      context.role.defines? = some entity.kind ∧ entity.name = textOf source p.node.item := by
  rw [content_of_readAt hwalk hgrows h, Place.reading, readNode, htype]
  exact definition_readTypeIdentifier

end TypeUses.Resolution
