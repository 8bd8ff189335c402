import TypeUses.Proofs.Resolution.Contexts

/-!
# Resolution — the walk visits every place

A walk that gets to its end visits each place of the parse in some state (`visited_of_mem_places`),
whose tree has as many nodes as the place's number says.  If the place's node opens no scope, its
children are read with the same active scopes (`exists_visit_child`).  If it opens one, the walk
goes on with the children before the scope, the entry, the children inside and the way out
(`plan_split`), one after the other (`exists_passage`).
-/

namespace TypeUses

/-- The node may open a scope around some of its children. -/
def Concrete.Node.OpensScope (n : Concrete.Node) : Prop :=
  n.IsSpecifier ∨ n.kind ∈ [.namespaceDefinition, .functionDefinition, .compoundStatement,
    .forStatement, .forRangeLoop, .templateDeclaration]

instance (n : Concrete.Node) : Decidable n.OpensScope :=
  inferInstanceAs (Decidable (_ ∨ _))

namespace Resolution
open Concrete.Node (keptCounts)

variable {language : Language} {source : ByteArray}

/-! ### Runs that get to the end of some steps -/

/-- A walk over two stacks that gets to its end gets to the end of the first. -/
theorem walk_append_eq_ok {s s' : State} (xs : List Step) {ys : List Step}
    (h : walk language source s (xs ++ ys) = .ok s') :
    ∃ s₁, walk language source s xs = .ok s₁ ∧ walk language source s₁ ys = .ok s' := by
  rw [walk_append] at h
  exact bind_eq_ok.1 h

theorem runs_of_walk {s s₁ : State} {xs : List Step} (h : walk language source s xs = .ok s₁)
    (ys : List Step) : Runs language source s (xs ++ ys) s₁ ys :=
  (walk_eq_ok_iff.1 h).append ys

theorem size_of_walk {s s₁ : State} {xs : List Step} (h : walk language source s xs = .ok s₁) :
    s₁.tree.size = s.tree.size + stackCount xs := by
  have hsize := size_of_runs (walk_eq_ok_iff.1 h)
  rwa [stackCount_nil, Nat.add_zero] at hsize

/-- A visit that succeeds adds its node and goes on with the steps for the children. -/
theorem walk_visit_cons_eq_ok {s s' : State} {f : Frame} {rest : List Step}
    (h : walk language source s (.visit f :: rest) = .ok s') :
    ∃ s₁ id outline, s.add language source f = .ok (s₁, id, outline) ∧
      Runs language source s (.visit f :: rest) s₁ (plan f.node id f.context outline ++ rest) ∧
      walk language source s₁ (plan f.node id f.context outline ++ rest) = .ok s' := by
  rw [walk_cons] at h
  obtain ⟨⟨s₁, steps⟩, hstep, h⟩ := bind_eq_ok.1 h
  obtain ⟨id, outline, hadd, rfl⟩ := perform_visit_eq_ok.1 hstep
  exact ⟨s₁, id, outline, hadd, .more hstep (.refl _ _), h⟩

theorem runs_enter (s : State) (o : Option Opening) (rest : List Step) :
    Runs language source s ((o.map fun o => Step.enter o.entry).toList ++ rest)
      (s.enterOpening o) rest := by
  cases o with
  | none => exact .refl _ _
  | some o => exact (Runs.refl _ _).enter

/-- A walk into a scope and out of it, with what lies in front of the scope and behind it. -/
theorem walk_scope_eq_ok {s s' : State} {front inside rest : List Step} {entry : ScopeEntry}
    (h : walk language source s (front ++ .enter entry :: (inside ++ .leave entry :: rest)) =
      .ok s') :
    ∃ s₁ s₂ s₃, walk language source s front = .ok s₁ ∧
      walk language source (s₁.enter entry) inside = .ok s₂ ∧ s₂.leave entry = .ok s₃ ∧
      walk language source s₃ rest = .ok s' := by
  obtain ⟨s₁, hfront, h⟩ := walk_append_eq_ok front h
  rw [walk_cons] at h
  obtain ⟨s₂, hinside, h⟩ := walk_append_eq_ok inside h
  rw [walk_cons] at h
  obtain ⟨⟨s₃, steps⟩, hstep, h⟩ := bind_eq_ok.1 h
  obtain ⟨hleave, rfl⟩ := perform_leave_eq_ok.1 hstep
  exact ⟨s₁, s₂, s₃, hfront, hinside, hleave, h⟩

/-! ### Every place is visited -/

/-- A run from a state and a stack visits the place when the tree has as many nodes as its number
says, in a state that satisfies `P`. -/
def Visits (language : Language) (source : ByteArray) (P : State → Prop) (s : State)
    (stack : List Step) (p : Place) : Prop :=
  ∃ s' context rest, Runs language source s stack s'
    (.visit ⟨p.node, p.outer, p.parent, context⟩ :: rest) ∧ s'.tree.size = p.id.index ∧ P s'

theorem Visits.of_runs {P : State → Prop} {s s₁ : State} {stack stack₁ : List Step} {p : Place}
    (h : Runs language source s stack s₁ stack₁) (hv : Visits language source P s₁ stack₁ p) :
    Visits language source P s stack p := by
  obtain ⟨s', context, rest, hr, hsize, hP⟩ := hv
  exact ⟨s', context, rest, h.trans hr, hsize, hP⟩

section Respects
variable {P : State → Prop} {R : State → State → Prop} {Q : State → ScopeEntry → Prop}

mutual

/-- A visit to a node visits every place at and below it. -/
theorem visits_placesAt (hR : Respects language source P R Q) (path : List Nat)
    {outer : Concrete.Node} {parent : NodeId} {context : Context} :
    ∀ (n : Concrete.Node) {s s' : State} {rest : List Step}, P s →
      walk language source s (.visit ⟨n, outer, parent, context⟩ :: rest) = .ok s' →
        ∀ p ∈ placesAt path outer parent s.tree.size n,
          Visits language source P s (.visit ⟨n, outer, parent, context⟩ :: rest) p
  | .node item children, s, s', rest, hs, h, p, hp => by
      rw [placesAt] at hp
      rcases List.mem_cons.1 hp with rfl | hp
      · exact ⟨s, context, rest, .refl _ _, rfl, hs⟩
      · obtain ⟨s₁, id, outline, hadd, hruns, hwalk⟩ := walk_visit_cons_eq_ok h
        obtain ⟨hs₁, -, hQ⟩ := hR.add hs hadd
        obtain ⟨rfl, hsize⟩ := size_add hadd
        rw [plan_eq, List.append_assoc] at hruns hwalk
        rw [← hsize] at hp
        exact .of_runs hruns (visits_placesIn hR path 0 children hs₁ hQ hwalk p hp)

/-- What a descent preserves holds wherever it gets to. -/
theorem visits_placesIn (hR : Respects language source P R Q) (path : List Nat) (k : Nat)
    {node : Concrete.Node} {id : NodeId} {context : Context} {outline : Outline} :
    ∀ (cs : List Concrete.Node) {opening : Option Opening} {s s' : State} {rest : List Step},
      P s → (∀ o, opening = some o → Q s o.entry) →
      walk language source s (visitsIn node id context outline opening cs ++ rest) = .ok s' →
        ∀ p ∈ placesIn path node id s.tree.size k cs,
          Visits language source P s (visitsIn node id context outline opening cs ++ rest) p
  | [], opening, s, s', rest, hs, ho, h, p, hp => by simp [placesIn] at hp
  | c :: cs, opening, s, s', rest, hs, ho, h, p, hp => by
      rw [visitsIn_cons] at h ⊢
      rw [placesIn] at hp
      split at hp <;> rename_i hk
      · rw [if_pos hk, List.append_assoc] at h ⊢
        rw [walk_enter] at h
        have hs₀ : P (s.atChild opening c) := hR.atChild hs ho
        refine .of_runs (runs_enter s _ _) ?_
        rw [← tree_enterOpening s (opening.filter fun o => o.opensAt c)] at hp
        rcases List.mem_append.1 hp with hp | hp
        · exact visits_placesAt hR (path ++ [k]) c hs₀ h p hp
        · obtain ⟨s₁, hc, hcs⟩ := walk_append_eq_ok [.visit _] h
          obtain ⟨hs₁, hrel⟩ := hR.descend c hs₀ ((walk_visit ..).symm.trans hc)
          have hsize : s₁.tree.size = _ + (c.keptCount + 0) := size_of_walk hc
          rw [Nat.add_zero] at hsize
          rw [← hsize] at hp
          exact .of_runs (runs_of_walk hc _)
            (visits_placesIn hR path (k + 1) cs hs₁ (hR.openingAfter hrel ho) hcs p hp)
      · rw [if_neg hk] at h ⊢
        exact visits_placesIn hR path (k + 1) cs hs ho h p hp

end

end Respects

/-- **The walk visits every place.** -/
theorem visited_of_mem_places {spelling : String} {parse : Concrete.Parse} {s' : State}
    (h : walk language source (.initial language spelling) (initialSteps parse) = .ok s')
    {p : Place} (hp : p ∈ places parse) :
    ∃ s context rest, Runs language source (.initial language spelling) (initialSteps parse) s
      (.visit ⟨p.node, p.outer, p.parent, context⟩ :: rest) ∧ s.tree.size = p.id.index := by
  rw [initialSteps, plan_eq] at h ⊢
  obtain ⟨s, context, rest, hruns, hsize, -⟩ :=
    visits_placesIn respects_follows [] 0 parse.root.children trivial (fun _ _ => trivial) h p hp
  exact ⟨s, context, rest, hruns, hsize⟩

/-! ### The scopes in which a child is read -/

theorem outline_readTypeIdentifier (t : Table) (id : NodeId) (f : Frame) :
    (readTypeIdentifier source t id f).outline = {} := by
  have tag : ∀ look name kind, (readTag t look name kind).outline = {} := by
    intro look name kind
    simp only [readTag]
    split
    · rfl
    · split <;> rfl
  simp only [readTypeIdentifier]
  split
  iterate 3 rfl
  · exact tag ..
  iterate 3 rfl

theorem outline_readNamespaceIdentifier (t : Table) (f : Frame) :
    (readNamespaceIdentifier source t f).outline = {} := by
  simp only [readNamespaceIdentifier]
  split
  · rfl
  · split <;> rfl

/-- Nodes of other kinds open none. -/
theorem opening_eq_none {t : Table} {id : NodeId} {f : Frame} (h : ¬ f.node.OpensScope) :
    (readNode language source t id f).outline.opening = none := by
  have none_of_empty : ∀ {r : Reading}, r.outline = {} → r.outline.opening = none :=
    fun hr => by rw [hr]
  simp only [readNode]
  split
  · next hk => exact absurd (Or.inl (Or.inl hk)) h
  · next hk => exact absurd (Or.inl (Or.inr (Or.inl hk))) h
  · next hk => exact absurd (Or.inl (Or.inr (Or.inr (Or.inl hk)))) h
  · next hk => exact absurd (Or.inl (Or.inr (Or.inr (Or.inr hk)))) h
  · next hk => exact absurd (Or.inr (by simp [hk])) h
  · rfl
  · exact none_of_empty (outline_readTypeIdentifier ..)
  · exact none_of_empty (outline_readNamespaceIdentifier ..)
  · split
    · exact none_of_empty (outline_readNamespaceIdentifier ..)
    · rfl
  · simp only [readStatementIdentifier]
    split <;> rfl
  · rfl
  iterate 5
    next hk => exact absurd (Or.inr (by simp [hk])) h
  · rfl

/-- The walk over the children of a node gets to each kept one with the same active scopes. -/
theorem exists_visit_in {s sf : State} {node : Concrete.Node} {id : NodeId} {context : Context}
    {outline : Outline} {cs : List Concrete.Node} {rest : List Step}
    (h : walk language source s (visitsIn node id context outline none cs ++ rest) = .ok sf)
    {k : Nat} {c : Concrete.Node} (hc : cs[k]? = some c) (hk : c.item.isKept = true) :
    ∃ s₁ rest₁,
      Runs language source s (visitsIn node id context outline none cs ++ rest) s₁
        (.visit ⟨c, node, id, childContext node context outline c⟩ :: rest₁) ∧
      s₁.scopes.active = s.scopes.active ∧
      s₁.tree.size = s.tree.size + keptCounts (cs.take k) := by
  obtain ⟨hlt, rfl⟩ := List.getElem?_eq_some_iff.1 hc
  have hsplit : visitsIn node id context outline none cs =
      visitsIn node id context outline none (cs.take k) ++
        visitsIn node id context outline none (cs[k] :: cs.drop (k + 1)) := by
    conv_lhs => rw [← List.take_append_drop k cs, List.drop_eq_getElem_cons hlt]
    simp only [visitsIn, visits, List.filter_append, List.map_append]
  rw [hsplit, List.append_assoc] at h ⊢
  obtain ⟨s₁, hfront, -⟩ := walk_append_eq_ok _ h
  have hruns := runs_of_walk hfront
    (visitsIn node id context outline none (cs[k] :: cs.drop (k + 1)) ++ rest)
  rw [visitsIn_cons node id context outline none cs[k], if_pos hk] at hruns ⊢
  refine ⟨s₁, _, hruns, ?_, ?_⟩
  · exact (follows_descendAll ((walk_visitsIn ..).symm.trans hfront)).active
  · rw [size_of_walk hfront, stackCount_visitsIn]

/-- The frame in which a node reads its child is that of the child's place. -/
theorem Place.IsChild.frame {p q : Place} {k : Nat} (h : p.IsChild k q) {id : NodeId}
    (hid : id = p.id) (context : Context) :
    (⟨q.node, p.node, id, context⟩ : Frame) = ⟨q.node, q.outer, q.parent, context⟩ := by
  rw [h.outer, h.parent, hid]

/-- A node that is read as opening no scope has the same active scopes as its children. -/
theorem exists_visit_of_opening_eq_none {s sf : State} {f : Frame} {rest : List Step}
    (h : walk language source s (.visit f :: rest) = .ok sf)
    (ho : (readNode language source s.scopes ⟨s.tree.size⟩ f).outline.opening = none) {k : Nat}
    {c : Concrete.Node} (hc : f.node.children[k]? = some c) (hk : c.item.isKept = true) :
    ∃ s₁ rest₁,
      Runs language source s (.visit f :: rest) s₁
        (.visit ⟨c, f.node, ⟨s.tree.size⟩, childContext f.node f.context
          (readNode language source s.scopes ⟨s.tree.size⟩ f).outline c⟩ :: rest₁) ∧
      s₁.scopes.active = s.scopes.active ∧
      s₁.tree.size = s.tree.size + 1 + keptCounts (f.node.children.take k) := by
  obtain ⟨s₀, id, outline, hadd, hvisit, hwalk⟩ := walk_visit_cons_eq_ok h
  obtain ⟨rfl, hsize⟩ := size_add hadd
  have hactive := (follows_add hadd).active
  obtain ⟨tree, -, -, rfl⟩ := add_eq_ok.1 hadd
  rw [plan_eq, ho, List.append_assoc] at hvisit hwalk
  obtain ⟨s₁, rest₁, hruns, hact, hsize₁⟩ := exists_visit_in hwalk hc hk
  exact ⟨s₁, rest₁, hvisit.trans hruns, hact.trans hactive, by rw [hsize₁, hsize]⟩

/-- A node that opens no scope is read with the same active scopes as its children. -/
theorem exists_visit_child {s sf : State} {f : Frame} {rest : List Step}
    (h : walk language source s (.visit f :: rest) = .ok sf) (ho : ¬ f.node.OpensScope) {k : Nat}
    {c : Concrete.Node} (hc : f.node.children[k]? = some c) (hk : c.item.isKept = true) :
    ∃ s₁ rest₁,
      Runs language source s (.visit f :: rest) s₁
        (.visit ⟨c, f.node, ⟨s.tree.size⟩, childContext f.node f.context
          (readNode language source s.scopes ⟨s.tree.size⟩ f).outline c⟩ :: rest₁) ∧
      s₁.scopes.active = s.scopes.active ∧
      s₁.tree.size = s.tree.size + 1 + keptCounts (f.node.children.take k) :=
  exists_visit_of_opening_eq_none h (opening_eq_none ho) hc hk

/-! ### A scope among the children -/

/-- The scope of an opening begins at child `c`: the children `front` are read in front of it, `c`
and the children `back` inside. -/
structure Opening.Splits (o : Opening) (cs front : List Concrete.Node) (c : Concrete.Node)
    (back : List Concrete.Node) : Prop where
  children : cs = front ++ c :: back
  before : ∀ x ∈ front, x.item.isKept = true → o.opensAt x = false
  kept : c.item.isKept = true
  begins : o.opensAt c = true

theorem keptCounts_eq_zero {cs : List Concrete.Node} (h : ∀ c ∈ cs, ¬ c.item.isKept = true) :
    Concrete.Node.keptCounts cs = 0 := by
  induction cs with
  | nil => rfl
  | cons c cs ih =>
      rw [Concrete.Node.keptCounts, if_neg (h c List.mem_cons_self),
        ih fun x hx => h x (List.mem_cons_of_mem _ hx)]

/-- A scope around all children begins at the first kept one, if there is a place below. -/
theorem splits_at_kept {p q : Place} (hq : q ∈ p.below) (entry : ScopeEntry) :
    ∃ front c back, (⟨entry, none⟩ : Opening).Splits p.node.children front c back ∧
      (∀ x ∈ front, ¬ x.item.isKept = true) ∧ keptCounts front = 0 := by
  obtain ⟨pre, child, post, hchildren, hkept, -⟩ := child_of_mem_placesIn hq
  have hsome : (p.node.children.find? fun c => c.item.isKept).isSome := by
    refine List.find?_isSome.2 ⟨child, ?_, hkept⟩
    rw [hchildren]
    exact List.mem_append_right _ List.mem_cons_self
  obtain ⟨c, hc⟩ := Option.isSome_iff_exists.1 hsome
  obtain ⟨hck, front, back, hcs, hbefore⟩ := List.find?_eq_some_iff_append.1 hc
  have hnone : ∀ x ∈ front, ¬ x.item.isKept = true := by
    intro x hx hkx
    have hnot := hbefore x hx
    rw [hkx] at hnot
    cases hnot
  exact ⟨front, c, back, ⟨hcs, fun x hx hkx => absurd hkx (hnone x hx), hck, rfl⟩, hnone,
    keptCounts_eq_zero hnone⟩

/-- A scope in front of a field begins at the first kept child in the field. -/
theorem splits_at_field {cs : List Concrete.Node} {field : Concrete.Field} {k : Nat}
    (h : cs.findIdx? (fun c => c.item.isKept && c.field == some field) = some k)
    (entry : ScopeEntry) :
    ∃ c, (⟨entry, some field⟩ : Opening).Splits cs (cs.take k) c (cs.drop (k + 1)) := by
  have opens : ∀ c : Concrete.Node,
      (⟨entry, some field⟩ : Opening).opensAt c = (c.field == some field) := fun _ => BEq.comm
  obtain ⟨hlt, hbegins, hbefore⟩ := List.findIdx?_eq_some_iff_getElem.1 h
  obtain ⟨hkept, hfield⟩ := Bool.and_eq_true_iff.1 hbegins
  refine ⟨cs[k], ?_, fun x hx hkx => ?_, hkept, (opens _).trans hfield⟩
  · rw [← List.drop_eq_getElem_cons hlt, List.take_append_drop]
  · obtain ⟨i, hi, rfl⟩ := List.mem_take_iff_getElem.1 hx
    have hnot := Bool.eq_false_iff.2 (hbefore i (by omega))
    rwa [hkx, Bool.true_and, ← opens] at hnot

section Splits
variable {node : Concrete.Node} {id : NodeId} {context : Context} {outline : Outline} {o : Opening}
  {cs front back : List Concrete.Node} {c : Concrete.Node}

/-- The visits to children, the scope of an opening being entered among them. -/
theorem visitsIn_split (h : o.Splits cs front c back) :
    visitsIn node id context outline (some o) cs =
      visitsIn node id context outline none front ++
        .enter o.entry :: visitsIn node id context outline none (c :: back) := by
  obtain ⟨rfl, hbefore, hk, hc⟩ := h
  induction front with
  | nil =>
      rw [List.nil_append, visitsIn_cons, visitsIn_cons, if_pos hk, if_pos hk]
      simp [openingAfter, Option.filter, hc, visitsIn, visits]
  | cons x front ih =>
      have ih := ih fun y hy => hbefore y (List.mem_cons_of_mem _ hy)
      rw [List.cons_append, visitsIn_cons, visitsIn_cons]
      split
      · next hx =>
        have hno := hbefore x List.mem_cons_self hx
        simp only [openingAfter, Option.filter, hno]
        rw [show (if (!false) = true then some o else none) = some o from rfl, ih]
        rfl
      · exact ih

/-- What is still to be done for the children of a node that opens a scope. -/
theorem plan_split (ho : outline.opening = some o) (h : o.Splits node.children front c back)
    (rest : List Step) :
    plan node id context outline ++ rest =
      visitsIn node id context outline none front ++
        .enter o.entry :: (visitsIn node id context outline none (c :: back) ++
          .leave o.entry :: rest) := by
  rw [plan_eq, ho, visitsIn_split h, leavingSteps]
  simp only [List.append_assoc, List.cons_append, List.nil_append]

end Splits

/-- A visit up to the end of the scope that the node opens.  The node is read in state `s₀`, which
gives state `s₁`, and the children `front` follow; the scope is entered in state `s`, and after the
children `inside` it is left in state `s₂`, which gives state `s'`. -/
structure Passage (language : Language) (source : ByteArray) (f : Frame) (o : Opening)
    (front inside : List Concrete.Node) (rest : List Step) (s₀ s₁ s s₂ s' : State) : Prop where
  read : s₁.scopes = (readNode language source s₀.scopes ⟨s₀.tree.size⟩ f).scopes
  begins : ∃ stack, Runs language source s₀ (.visit f :: rest) s₁ stack
  before : descendAll language source s₁ f.node ⟨s₀.tree.size⟩ f.context
    (readNode language source s₀.scopes ⟨s₀.tree.size⟩ f).outline none front = .ok s
  enters : Runs language source s₀ (.visit f :: rest) s
    (.enter o.entry :: (visitsIn f.node ⟨s₀.tree.size⟩ f.context
      (readNode language source s₀.scopes ⟨s₀.tree.size⟩ f).outline none inside ++
        .leave o.entry :: rest))
  within : descendAll language source (s.enter o.entry) f.node ⟨s₀.tree.size⟩ f.context
    (readNode language source s₀.scopes ⟨s₀.tree.size⟩ f).outline none inside = .ok s₂
  leaves : s₂.leave o.entry = .ok s'
  size : s.tree.size = s₀.tree.size + 1 + keptCounts front
  size' : s'.tree.size = s₀.tree.size + f.node.keptCount

namespace Passage

variable {f : Frame} {o : Opening} {front inside : List Concrete.Node} {rest : List Step}
  {s₀ s₁ s s₂ s' : State}

/-- The way through the scope is the same, whatever is still to be done. -/
theorem entered (h : Passage language source f o front inside rest s₀ s₁ s s₂ s')
    (later : List Step) :
    Runs language source (s.enter o.entry) (visitsIn f.node ⟨s₀.tree.size⟩ f.context
      (readNode language source s₀.scopes ⟨s₀.tree.size⟩ f).outline none inside ++
        .leave o.entry :: later) s' later :=
  (runs_of_walk ((walk_visitsIn ..).trans h.within) _).trans
    (.more (perform_leave_eq_ok.2 ⟨h.leaves, rfl⟩) (.refl _ _))

theorem crosses (h : Passage language source f o front inside rest s₀ s₁ s s₂ s') :
    Runs language source s (.enter o.entry :: (visitsIn f.node ⟨s₀.tree.size⟩ f.context
      (readNode language source s₀.scopes ⟨s₀.tree.size⟩ f).outline none inside ++
        .leave o.entry :: rest)) s' rest :=
  (h.entered rest).enter

theorem ends (h : Passage language source f o front inside rest s₀ s₁ s s₂ s') :
    Runs language source s₀ (.visit f :: rest) s' rest :=
  h.enters.trans h.crosses

end Passage

/-- A walk that gets to its end passes the scopes on its way. -/
theorem exists_passage {s₀ sf : State} {f : Frame} {rest : List Step}
    (h : walk language source s₀ (.visit f :: rest) = .ok sf) {o : Opening}
    (ho : (readNode language source s₀.scopes ⟨s₀.tree.size⟩ f).outline.opening = some o)
    {front back : List Concrete.Node} {c : Concrete.Node}
    (hsplit : o.Splits f.node.children front c back) :
    ∃ s₁ s s₂ s', Passage language source f o front (c :: back) rest s₀ s₁ s s₂ s' := by
  obtain ⟨s₁, id, outline, hadd, hvisit, hwalk₁⟩ := walk_visit_cons_eq_ok h
  obtain ⟨rfl, hsize₁⟩ := size_add hadd
  obtain ⟨tree, -, rfl, rfl⟩ := add_eq_ok.1 hadd
  rw [plan_split ho hsplit] at hvisit hwalk₁
  -- the children in front of the scope, the entry, the children inside, the way out
  obtain ⟨s, s₂, s', hfront, hinside, hleave, -⟩ := walk_scope_eq_ok hwalk₁
  have henters := hvisit.trans (runs_of_walk hfront _)
  refine ⟨_, s, s₂, s', rfl, ⟨_, hvisit⟩, (walk_visitsIn ..).symm.trans hfront, henters,
    (walk_visitsIn ..).symm.trans hinside, hleave, ?_, ?_⟩
  · rw [size_of_walk hfront, stackCount_visitsIn, hsize₁]
  · rw [size_leave hleave, size_of_walk hinside, stackCount_visitsIn, tree_enter,
      size_of_walk hfront, stackCount_visitsIn, hsize₁, Concrete.Node.keptCount_eq,
      hsplit.children, Concrete.Node.keptCounts_append]
    omega

end Resolution

end TypeUses
