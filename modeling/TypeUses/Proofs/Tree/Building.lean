import TypeUses.Proofs.Tree.Preorder
import TypeUses.Tree.Call

/-!
# Trees — what additions and links make

A call is refused for what is wrong with it only (`Call.IsRefused`), and then nothing changes
(`outcome_perform`).  An addition gives the new node its one place, behind the other children of its
parent, and a link moves no node; so calls keep a tree well-formed (`WellFormed.perform`).  A link
leads to a definition, which stays one (`target_of_perform`, `target_of_performAll`).

`calls_make_tree`: whatever calls are made, refused ones among them, the nodes form a tree under the
root, in which every target is a definition or has come with the reference.  Numbers mean nothing in
another tree, and an addition does not look at the target of a reference that has been linked in one
(`copied_reference_keeps_target`).
-/

namespace TypeUses.Tree

/-- The target that a reference has before it is pushed; one that is made anew has none. -/
def Call.target? : Call → Option NodeId
  | push _ content _ => content.reference?.bind Reference.target
  | resolve .. => none

/-- A number that the call names is unknown or the tree is full, the node to be linked to is not a
definition, or the node to be linked is not a reference. -/
def Call.IsRefused (t : Tree) : Call → Prop
  | push parent _ _ => t.size ≤ parent.index ∨ capacity ≤ t.size
  | resolve reference definition =>
    t.size ≤ reference.index ∨ t.size ≤ definition.index ∨
      ¬ t.IsDefinition definition ∨ ¬ t.IsReference reference

variable {t t' : Tree} {id : NodeId} {call : Call} {calls : List Call}

/-! ### One call -/

/-- What a call can do to a tree, and its answer. -/
inductive Outcome (t : Tree) : Call → Except TreeFault (Option NodeId) → Tree → Prop
  | push {parent id : NodeId} {content : Content} {location : Location} {t' : Tree}
      (h : t.push? parent content location = .ok (id, t')) :
      Outcome t (.push parent content location) (.ok (some id)) t'
  | resolve {reference definition : NodeId} {t' : Tree}
      (h : t.resolve? reference definition = .ok t') :
      Outcome t (.resolve reference definition) (.ok none) t'
  | refused {call : Call} (fault : TreeFault) (h : call.IsRefused t) :
      Outcome t call (.error fault) t

/-- **What a call can do.** -/
theorem outcome_perform (t : Tree) (call : Call) :
    Outcome t call (t.perform call).1 (t.perform call).2 := by
  cases call with
  | push parent content location =>
      simp only [perform]
      cases h : t.push? parent content location with
      | ok result => exact .push h
      | error fault =>
          refine .refused fault (Decidable.or_iff_not_imp_left.2 fun hp => ?_)
          refine Nat.le_of_not_lt fun hc => ?_
          obtain ⟨t', hok⟩ := exists_push? (Nat.lt_of_not_le hp) hc content location
          rw [h] at hok
          cases hok
  | resolve reference definition =>
      simp only [perform]
      cases h : t.resolve? reference definition with
      | ok t' => exact .resolve h
      | error fault =>
          refine .refused fault (Or.inr (Or.inr (Classical.or_iff_not_imp_left.2 ?_)))
          intro hd hr
          obtain ⟨t', hok⟩ := exists_resolve? hr (Classical.not_not.1 hd)
          rw [h] at hok
          cases hok

/-- **A call fails if it is refused, and only then.** -/
theorem error_iff_isRefused (t : Tree) (call : Call) :
    (∃ fault, (t.perform call).1 = .error fault) ↔ call.IsRefused t := by
  have houtcome := outcome_perform t call
  generalize (t.perform call).1 = answer, (t.perform call).2 = t' at houtcome ⊢
  cases houtcome with
  | push h =>
      obtain ⟨⟨hp, hc⟩, -⟩ := push?_eq_ok.1 h
      refine ⟨nofun, ?_⟩
      rintro (hno | hno)
      · exact absurd hp (Nat.not_lt_of_le hno)
      · exact absurd hc (Nat.not_lt_of_le hno)
  | resolve h =>
      obtain ⟨⟨hr, hd⟩, -⟩ := resolve?_eq_ok.1 h
      refine ⟨nofun, ?_⟩
      rintro (hno | hno | hno | hno)
      · exact absurd hr.lt (Nat.not_lt_of_le hno)
      · exact absurd hd.lt (Nat.not_lt_of_le hno)
      · exact absurd hd hno
      · exact absurd hr hno
  | refused fault h => exact ⟨fun _ => h, fun _ => ⟨fault, rfl⟩⟩

/-- A call that is refused leaves the tree as it is. -/
theorem perform_of_isRefused (h : call.IsRefused t) : (t.perform call).2 = t := by
  obtain ⟨fault, herror⟩ := (error_iff_isRefused t call).2 h
  have houtcome := outcome_perform t call
  rw [herror] at houtcome
  generalize (t.perform call).2 = t' at houtcome ⊢
  cases houtcome
  rfl

/-! ### The nodes -/

namespace WellFormed

theorem empty (spelling : String) : (empty spelling).WellFormed := by
  have hnone : ∀ p, (Tree.empty spelling).children p = [] := by
    rintro ⟨_ | i⟩ <;> rfl
  refine ⟨Nat.zero_lt_one, fun hid hlt => ?_, fun h => ?_, fun p => ?_⟩
  · exact absurd (NodeId.ext (Nat.lt_one_iff.1 hlt)) hid
  · rw [hnone] at h; cases h
  · rw [hnone]; exact .nil

/-- The new node is a child of `parent` alone, behind the others. -/
theorem push? (ht : t.WellFormed) {parent : NodeId} {content : Content} {location : Location}
    (h : t.push? parent content location = .ok (id, t')) : t'.WellFormed where
  root := by rw [size_of_push? h]; exact Nat.lt_succ_of_lt ht.root
  parent {x} hx hlt := by
    rw [size_of_push? h] at hlt
    by_cases hold : x.index < t.size
    · obtain ⟨p, hp⟩ := ht.parent hx hold
      exact ⟨p, (mem_children_of_push? h).2 (Or.inl hp)⟩
    · have hnew : x = ⟨t.size⟩ :=
        NodeId.ext (Nat.le_antisymm (Nat.le_of_lt_succ hlt) (Nat.le_of_not_lt hold))
      exact ⟨parent, (mem_children_of_push? h).2 (Or.inr ⟨rfl, hnew⟩)⟩
  unique {p q x} hp hq := by
    have hnot : ∀ y, (⟨t.size⟩ : NodeId) ∉ t.children y := fun y hy =>
      Nat.lt_irrefl _ (lt_of_mem_children hy).2
    rcases (mem_children_of_push? h).1 hp with hp | ⟨rfl, rfl⟩
    · rcases (mem_children_of_push? h).1 hq with hq | ⟨-, rfl⟩
      · exact ht.unique hp hq
      · exact absurd hp (hnot p)
    · rcases (mem_children_of_push? h).1 hq with hq | ⟨rfl, -⟩
      · exact absurd hq (hnot q)
      · rfl
  rising p := by
    rw [children_of_push? h]
    refine List.pairwise_append.2 ⟨ht.rising p, ?_, fun c hc c' hc' => ?_⟩
    · split
      · exact List.pairwise_singleton _ _
      · exact .nil
    · split at hc'
      · rw [List.mem_singleton.1 hc']
        exact (lt_of_mem_children hc).2
      · cases hc'

theorem resolve? (ht : t.WellFormed) {reference definition : NodeId}
    (h : t.resolve? reference definition = .ok t') : t'.WellFormed := by
  have hchildren := children_of_resolve? h
  refine ⟨?_, fun hx hlt => ?_, fun hp hq => ?_, fun p => ?_⟩
  · rw [size_of_resolve? h]; exact ht.root
  · rw [size_of_resolve? h] at hlt
    simpa only [hchildren] using ht.parent hx hlt
  · rw [hchildren] at hp hq
    exact ht.unique hp hq
  · rw [hchildren]
    exact ht.rising p

/-- **A call keeps a tree well-formed.** -/
theorem perform (ht : t.WellFormed) (call : Call) : (t.perform call).2.WellFormed := by
  have houtcome := outcome_perform t call
  generalize (t.perform call).1 = answer, (t.perform call).2 = t' at houtcome ⊢
  cases houtcome with
  | push h => exact ht.push? h
  | resolve h => exact ht.resolve? h
  | refused => exact ht

end WellFormed

/-! ### The targets -/

/-- Every target is a definition. -/
def Linked (t : Tree) : Prop := ∀ id d, t.target? id = some d → t.IsDefinition d

theorem IsDefinition.perform {d : NodeId} (h : t.IsDefinition d) (call : Call) :
    (t.perform call).2.IsDefinition d := by
  have houtcome := outcome_perform t call
  generalize (t.perform call).1 = answer, (t.perform call).2 = t' at houtcome ⊢
  cases houtcome with
  | push hpush => exact h.grows (extends_of_push? hpush).grows
  | resolve hlink => exact h.grows (grows_of_resolve? hlink)
  | refused => exact h

/-- **Where a target comes from**: a link has set it and leads to a definition, the reference had it
before the call, or it has come with the reference that the call adds. -/
theorem target_of_perform {d : NodeId} (h : (t.perform call).2.target? id = some d) :
    (t.perform call).2.IsDefinition d ∨ t.target? id = some d ∨
      (t.perform call).1 = .ok (some id) ∧ call.target? = some d := by
  have houtcome := outcome_perform t call
  generalize (t.perform call).1 = answer, (t.perform call).2 = t' at houtcome h ⊢
  cases houtcome with
  | push hpush =>
      rw [target?_of_push? hpush] at h
      split at h
      · next hid =>
        obtain ⟨-, hadded, -⟩ := push?_eq_ok.1 hpush
        exact Or.inr (Or.inr ⟨by rw [hid, hadded], h⟩)
      · exact Or.inr (Or.inl h)
  | resolve hlink =>
      rw [target?_of_resolve? hlink] at h
      split at h
      · cases h
        obtain ⟨⟨-, hd⟩, -⟩ := resolve?_eq_ok.1 hlink
        exact Or.inl (hd.grows (grows_of_resolve? hlink))
      · exact Or.inr (Or.inl h)
  | refused => exact Or.inr (Or.inl h)

/-! ### Calls one after the other -/

/-- What a tree has that calls keep, the tree has that they make of it. -/
theorem performAll_induction {P : Tree → Prop} (hP : ∀ {t call}, P t → P (t.perform call).2)
    (h : P t) : P (t.performAll calls).2 := by
  induction calls generalizing t with
  | nil => exact h
  | cons call calls ih => exact ih (hP h)

/-- Of the calls, made one after the other from tree `t` on, one adds node `id` as a reference that
has target `d` already. -/
def AddsWithTarget (t : Tree) (calls : List Call) (id d : NodeId) : Prop :=
  ∃ before call after, calls = before ++ call :: after ∧
    ((t.performAll before).2.perform call).1 = .ok (some id) ∧ call.target? = some d

/-- A reference that is added with a target comes from a call that names it. -/
theorem AddsWithTarget.exists_call {d : NodeId} (h : t.AddsWithTarget calls id d) :
    ∃ call ∈ calls, call.target? = some d := by
  obtain ⟨before, call, after, rfl, -, htarget⟩ := h
  exact ⟨call, List.mem_append_right _ List.mem_cons_self, htarget⟩

/-- Every target that there is after the calls is a definition, was there before, or has come with
its reference. -/
theorem target_of_performAll {d : NodeId} (h : (t.performAll calls).2.target? id = some d) :
    (t.performAll calls).2.IsDefinition d ∨ t.target? id = some d ∨
      t.AddsWithTarget calls id d := by
  induction calls generalizing t with
  | nil => exact Or.inr (Or.inl h)
  | cons call calls ih =>
      rcases ih h with hd | hbefore | ⟨before, added, after, rfl, hadds, htarget⟩
      · exact Or.inl hd
      · rcases target_of_perform hbefore with hd | hbefore | ⟨hadds, htarget⟩
        · -- a definition stays one in the calls that follow
          have hkept : ((t.perform call).2.performAll calls).2.IsDefinition d :=
            performAll_induction (P := fun t => t.IsDefinition d) (fun h => h.perform _) hd
          exact Or.inl hkept
        · exact Or.inr (Or.inl hbefore)
        · exact Or.inr (Or.inr ⟨[], call, calls, rfl, hadds, htarget⟩)
      · exact Or.inr (Or.inr ⟨call :: before, added, after, rfl, hadds, htarget⟩)

/-- **Calls make a tree.**  Whatever additions and links are tried, every node but the root is once a
child of one node, of smaller number; the numbers of a node's children rise; and the walk from the
root comes to each node once.  Every target is a definition, or the one with which its reference was
added.  A further call fails only for what is wrong with it, and then changes nothing; a link
changes the target of its reference and nothing else. -/
theorem calls_make_tree (spelling : String) (calls : List Call) :
    let t := ((empty spelling).performAll calls).2
    (∀ id, id ≠ rootId → id.index < t.size → ∃ p, p.index < id.index ∧
      (t.children p).count id = 1 ∧ ∀ q, id ∈ t.children q → q = p) ∧
    (∀ p, rootId ∉ t.children p ∧ (t.children p).Pairwise fun c c' => c.index < c'.index) ∧
    (∀ id, (t.preorder rootId).count id = if id.index < t.size then 1 else 0) ∧
    (∀ id d, t.target? id = some d →
      t.IsDefinition d ∨ (empty spelling).AddsWithTarget calls id d) ∧
    (∀ call, ((∃ fault, (t.perform call).1 = .error fault) ↔ call.IsRefused t) ∧
      (call.IsRefused t → (t.perform call).2 = t)) ∧
    ∀ reference definition, ¬ (Call.resolve reference definition).IsRefused t →
      let t' := (t.perform (.resolve reference definition)).2
      t'.spelling = t.spelling ∧ t'.size = t.size ∧ ∀ x, t'.node? x =
        if x = reference then
          (t.node? x).map fun n => { n with content := n.content.withTarget definition }
        else t.node? x := by
  intro t
  have ht : t.WellFormed := performAll_induction (fun h => h.perform _) (.empty spelling)
  refine ⟨fun id hid hlt => ?_, fun p => ⟨fun hp => ?_, ht.rising p⟩, ht.count_preorder,
    fun id d hd => ?_, fun call => ⟨error_iff_isRefused t call, perform_of_isRefused⟩,
    fun reference definition hno => ?_⟩
  · obtain ⟨p, hp⟩ := ht.parent hid hlt
    refine ⟨p, (lt_of_mem_children hp).1, ?_, fun q hq => ht.unique hq hp⟩
    rw [(ht.nodup_children p).count, if_pos hp]
  · exact Nat.not_lt_zero _ (lt_of_mem_children hp).1
  · -- the tree with the root alone has no targets
    have hnone : (empty spelling).target? id ≠ some d := by
      obtain ⟨_ | i⟩ := id <;> nofun
    exact (target_of_performAll hd).imp_right fun h => h.resolve_left hnone
  · have hok := mt (error_iff_isRefused t _).1 hno
    have houtcome := outcome_perform t (.resolve reference definition)
    generalize (t.perform (.resolve reference definition)).1 = answer,
      (t.perform (.resolve reference definition)).2 = t' at houtcome hok ⊢
    cases houtcome with
    | resolve h => exact ⟨(resolve?_eq_ok.1 h).2.1, size_of_resolve? h, node?_of_resolve? h⟩
    | refused fault => exact absurd ⟨fault, rfl⟩ hok

/-- A reference is added in front of the definition that it is linked to; an addition below a node
that is not there and a link to the reference are refused. -/
theorem calls_make_tree_link :
    let t := ((empty "a.c").performAll
      [.push rootId (.reference ⟨.typeName, "P", none⟩) ⟨1, 1⟩,
        .push ⟨7⟩ (.other "block") ⟨1, 1⟩,
        .push rootId (.definition ⟨.structTag, "P"⟩) ⟨2, 1⟩,
        .resolve ⟨1⟩ ⟨2⟩, .resolve ⟨1⟩ ⟨1⟩]).2
    (t.preorder rootId).count ⟨2⟩ = 1 ∧ (∃ p, (t.children p).count ⟨2⟩ = 1) ∧ t.IsDefinition ⟨2⟩ ∧
      (t.perform (.push ⟨3⟩ .translationUnit ⟨1, 1⟩)).2 = t := by
  intro t
  obtain ⟨hparents, -, hwalk, htargets, hfails, -⟩ := calls_make_tree "a.c"
    [.push rootId (.reference ⟨.typeName, "P", none⟩) ⟨1, 1⟩,
      .push ⟨7⟩ (.other "block") ⟨1, 1⟩,
      .push rootId (.definition ⟨.structTag, "P"⟩) ⟨2, 1⟩,
      .resolve ⟨1⟩ ⟨2⟩, .resolve ⟨1⟩ ⟨1⟩]
  have hsize : t.size = 3 := by decide
  obtain ⟨p, -, hcount, -⟩ := hparents ⟨2⟩ (by decide) (by decide)
  have hdefinition : t.IsDefinition ⟨2⟩ :=
    (htargets ⟨1⟩ ⟨2⟩ (by decide)).resolve_right fun h => absurd h.exists_call (by decide)
  exact ⟨(hwalk ⟨2⟩).trans (if_pos (by decide)), ⟨p, hcount⟩, hdefinition,
    (hfails _).2 (Or.inl (Nat.le_of_eq hsize))⟩

/-- A reference that is linked in one tree keeps its target when a copy of it is added to another,
where that number is the number of the reference. -/
theorem copied_reference_keeps_target :
    let other := ((empty "b.c").performAll
      [.push rootId (.definition ⟨.structTag, "P"⟩) ⟨1, 1⟩,
        .push rootId (.reference ⟨.typeName, "P", none⟩) ⟨2, 1⟩, .resolve ⟨2⟩ ⟨1⟩]).2
    ∃ copied, other.content? ⟨2⟩ = some copied ∧
      let t := ((empty "a.c").performAll [.push rootId copied ⟨1, 1⟩]).2
      t.target? ⟨1⟩ = some ⟨1⟩ ∧ ¬ t.IsDefinition ⟨1⟩ := by
  refine ⟨.reference ⟨.typeName, "P", some ⟨1⟩⟩, by decide, by decide, ?_⟩
  rintro ⟨e, he⟩
  cases he

end TypeUses.Tree
