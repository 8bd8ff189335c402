import TypeUses.Resolution.Descent
import TypeUses.Resolution.Walk

/-!
# Resolution — runs of the walk

`Runs` is the reflexive-transitive closure of the walk's step: from a state and a stack, step after
step, to another state and stack.  A walk that succeeds is a run to the empty stack
(`walk_eq_ok_iff`), and a run never touches what lies below the steps that it performs
(`Runs.append`).

* `Runs.preserves`: what every step preserves, every run preserves; with `Runs.along` it is enough
  that the steps of the run do.
* `walk_visit`, `walk_visitsIn`: visiting a node and all that comes of it is the descent into the
  node.  The walk over a parse is the descent into it (`walk_eq_descent`).
* `Respects.descend`: an invariant and a relation that every addition and every scope respect hold
  of the states before and after a descent.
-/

namespace TypeUses.Resolution

variable {language : Language} {source : ByteArray}

/-! ### The walk, step by step -/

theorem walk_nil (s : State) : walk language source s [] = .ok s := by rw [walk]

/-- A walk performs the first step, and goes on with the steps that it puts on the stack. -/
theorem walk_cons (s : State) (step : Step) (rest : List Step) :
    walk language source s (step :: rest) =
      (s.perform language source step).bind fun p => walk language source p.1 (p.2 ++ rest) := by
  rw [walk]
  split <;> rename_i h <;> rw [h] <;> rfl

/-- The walk over two stacks, one on the other, is the walk over the first and then the second. -/
theorem walk_append (s : State) (xs ys : List Step) :
    walk language source s (xs ++ ys) =
      (walk language source s xs).bind fun s => walk language source s ys := by
  fun_induction walk language source s xs with
  | case1 s => rfl
  | case2 s step rest s' steps h ih =>
      rw [List.cons_append, walk_cons, h, ← ih, List.append_assoc]
      rfl
  | case3 s step rest fault h =>
      rw [List.cons_append, walk_cons, h]
      rfl

/-- From a state and a stack, step after step, to a state and a stack. -/
inductive Runs (language : Language) (source : ByteArray) :
    State → List Step → State → List Step → Prop where
  | refl (s : State) (stack : List Step) : Runs language source s stack s stack
  | more {s s₁ s' : State} {step : Step} {steps rest stack' : List Step}
      (h : s.perform language source step = .ok (s₁, steps))
      (t : Runs language source s₁ (steps ++ rest) s' stack') :
      Runs language source s (step :: rest) s' stack'

namespace Runs

variable {s s₁ s' : State} {stack stack₁ stack' : List Step}

theorem trans (h : Runs language source s stack s₁ stack₁)
    (h' : Runs language source s₁ stack₁ s' stack') : Runs language source s stack s' stack' := by
  induction h with
  | refl => exact h'
  | more h _ ih => exact .more h (ih h')

theorem enter {entry : ScopeEntry} (h : Runs language source (s.enter entry) stack s' stack') :
    Runs language source s (.enter entry :: stack) s' stack' :=
  .more rfl h

/-- What every step preserves, every run preserves. -/
theorem preserves {P : State → List Step → Prop}
    (hP : ∀ {s : State} {step : Step} {rest : List Step} {s₁ : State} {steps : List Step},
      P s (step :: rest) → s.perform language source step = .ok (s₁, steps) → P s₁ (steps ++ rest))
    (h : Runs language source s stack s' stack') : P s stack → P s' stack' := by
  induction h with
  | refl => exact id
  | more h _ ih => exact fun hs => ih (hP hs h)

/-- What every step of the run preserves, the run preserves. -/
theorem along {P : State → List Step → Prop}
    (hP : ∀ {s₁ : State} {step : Step} {rest : List Step} {s₂ : State} {steps : List Step},
      Runs language source s stack s₁ (step :: rest) → P s₁ (step :: rest) →
        s₁.perform language source step = .ok (s₂, steps) → P s₂ (steps ++ rest))
    (h : Runs language source s stack s' stack') (hs : P s stack) : P s' stack' :=
  (h.preserves (P := fun s₁ stack₁ => Runs language source s stack s₁ stack₁ ∧ P s₁ stack₁)
    (fun ⟨hruns, hs₁⟩ hstep => ⟨hruns.trans (.more hstep (.refl _ _)), hP hruns hs₁ hstep⟩)
    ⟨.refl _ _, hs⟩).2

/-- A run does the same on any further steps, which it leaves where they are. -/
theorem append (h : Runs language source s stack s' stack') (rest : List Step) :
    Runs language source s (stack ++ rest) s' (stack' ++ rest) := by
  induction h with
  | refl => exact .refl _ _
  | more h _ ih =>
      rw [List.append_assoc] at ih
      exact .more h ih

/-- A run does not change how the walk ends. -/
theorem walk_eq (h : Runs language source s stack s' stack') :
    walk language source s stack = walk language source s' stack' := by
  induction h with
  | refl => rfl
  | more h _ ih => rw [walk_cons, h, ← ih]; rfl

end Runs

/-- A walk that succeeds is a run to the empty stack. -/
theorem walk_eq_ok_iff {s s' : State} {stack : List Step} :
    walk language source s stack = .ok s' ↔ Runs language source s stack s' [] := by
  refine ⟨fun h => ?_, fun h => by rw [h.walk_eq, walk_nil]⟩
  fun_induction walk language source s stack with
  | case1 s => cases h; exact .refl _ _
  | case2 s step rest s₁ steps hstep ih => exact .more hstep (ih h)
  | case3 => cases h

/-! ### Visits and descents -/

/-- The visits to the kept ones among a node's children, with the entry into the scope. -/
def visitsIn (node : Concrete.Node) (id : NodeId) (context : Context) (outline : Outline)
    (opening : Option Opening) (children : List Concrete.Node) : List Step :=
  visits (fun c => .visit ⟨c, node, id, childContext node context outline c⟩) opening
    (children.filter fun c => c.item.isKept)

theorem visitsIn_cons (node : Concrete.Node) (id : NodeId) (context : Context) (outline : Outline)
    (opening : Option Opening) (c : Concrete.Node) (cs : List Concrete.Node) :
    visitsIn node id context outline opening (c :: cs) =
      if c.item.isKept then
        ((opening.filter fun o => o.opensAt c).map fun o => Step.enter o.entry).toList ++
          .visit ⟨c, node, id, childContext node context outline c⟩ ::
            visitsIn node id context outline (openingAfter opening c) cs
      else visitsIn node id context outline opening cs := by
  simp only [visitsIn]
  by_cases hk : c.item.isKept
  · rw [if_pos hk]
    cases opening with
    | none => simp [hk, visits, openingAfter]
    | some o =>
        by_cases ho : o.opensAt c <;>
          simp [hk, visits, openingAfter, Option.filter, ho]
  · simp [hk]

theorem plan_eq (node : Concrete.Node) (id : NodeId) (context : Context) (outline : Outline) :
    plan node id context outline =
      visitsIn node id context outline outline.opening node.children ++
        leavingSteps outline.opening :=
  rfl

theorem walk_enter (s : State) (o : Option Opening) (rest : List Step) :
    walk language source s ((o.map fun o => Step.enter o.entry).toList ++ rest) =
      walk language source (s.enterOpening o) rest := by
  cases o with
  | none => rfl
  | some o => exact walk_cons s (.enter o.entry) rest

theorem walk_leave (s : State) (o : Option Opening) :
    walk language source s (leavingSteps o) = s.leaveOpening o := by
  cases o with
  | none => exact walk_nil s
  | some o =>
      rw [leavingSteps, walk_cons, State.perform, State.leaveOpening]
      cases s.leave o.entry with
      | error => rfl
      | ok s' => exact walk_nil s'

mutual

/-- Visiting a node, with all that comes of it, is the descent into the node. -/
theorem walk_visit (s : State) (outer : Concrete.Node) (parent : NodeId) (context : Context) :
    ∀ n : Concrete.Node, walk language source s [.visit ⟨n, outer, parent, context⟩] =
      descend language source s outer parent context n
  | .node item children => by
      rw [walk_cons, descend, State.perform]
      cases hadd : s.add language source ⟨.node item children, outer, parent, context⟩ with
      | error => rfl
      | ok p =>
          obtain ⟨s₁, id, outline⟩ := p
          have hvisits := walk_visitsIn s₁ (.node item children) id context outline
            outline.opening children
          show walk language source s₁ (plan (.node item children) id context outline ++ []) = _
          rw [List.append_nil, plan_eq, walk_append, Concrete.Node.children, hvisits]
          show _ = (descendAll language source s₁ (.node item children) id context outline
            outline.opening children).bind fun s => s.leaveOpening outline.opening
          exact congrArg _ (funext fun s => walk_leave s outline.opening)

/-- Walking through the steps for some children is the descent into them. -/
theorem walk_visitsIn (s : State) (node : Concrete.Node) (id : NodeId) (context : Context)
    (outline : Outline) (opening : Option Opening) : ∀ cs : List Concrete.Node,
      walk language source s (visitsIn node id context outline opening cs) =
        descendAll language source s node id context outline opening cs
  | [] => by
      cases opening with
      | none => exact walk_nil s
      | some o => exact (walk_cons s _ []).trans (walk_nil _)
  | c :: cs => by
      rw [visitsIn_cons, descendAll]
      split
      · rw [walk_enter, ← List.singleton_append, walk_append, walk_visit _ node id _ c]
        show _ = (descend language source (s.atChild opening c) node id
          (childContext node context outline c) c).bind fun s =>
            descendAll language source s node id context outline (openingAfter opening c) cs
        exact congrArg _ (funext fun s => walk_visitsIn s node id context outline _ cs)
      · exact walk_visitsIn s node id context outline opening cs

end

/-- The walk over a parse is the descent into it. -/
theorem walk_eq_descent (spelling : String) (parse : Concrete.Parse) :
    walk language source (.initial language spelling) (initialSteps parse) =
      descent language source spelling parse := by
  rw [initialSteps, plan_eq, descent, leavingSteps, List.append_nil]
  exact walk_visitsIn ..

/-! ### What a descent preserves -/

/-- Two things done in turn succeed just when the first does and then the second. -/
theorem bind_eq_ok {α β : Type} {x : Except TreeFault α} {f : α → Except TreeFault β} {b : β} :
    x.bind f = .ok b ↔ ∃ a, x = .ok a ∧ f a = .ok b := by
  cases x <;> simp [Except.bind]

/-- If something is known of a result, there is one. -/
theorem exists_ok_of_map {α β : Type} {x : Except TreeFault α} {f : α → β} {b : β}
    (h : x.toOption.map f = some b) : ∃ a, x = .ok a ∧ f a = b := by
  cases x with
  | error => cases h
  | ok a => exact ⟨a, rfl, Option.some.inj h⟩

/-- The descent into a node adds it, descends into its children, and leaves its scope. -/
theorem descend_eq_ok {s s' : State} {outer : Concrete.Node} {parent : NodeId} {context : Context}
    {item : Concrete.Item} {children : List Concrete.Node} :
    descend language source s outer parent context (.node item children) = .ok s' ↔
      ∃ s₁ id outline s₂,
        s.add language source ⟨.node item children, outer, parent, context⟩ =
          .ok (s₁, id, outline) ∧
        descendAll language source s₁ (.node item children) id context outline outline.opening
          children = .ok s₂ ∧
        s₂.leaveOpening outline.opening = .ok s' := by
  rw [descend]
  refine bind_eq_ok.trans ⟨fun ⟨⟨s₁, id, outline⟩, hadd, h⟩ => ?_,
    fun ⟨s₁, id, outline, s₂, hadd, hall, hleave⟩ => ?_⟩
  · obtain ⟨s₂, hall, hleave⟩ := bind_eq_ok.1 h
    exact ⟨s₁, id, outline, s₂, hadd, hall, hleave⟩
  · exact ⟨(s₁, id, outline), hadd, bind_eq_ok.2 ⟨s₂, hall, hleave⟩⟩

/-- The descent into children succeeds just when that into the first does, and that into the rest
behind it. -/
theorem descendAll_cons_eq_ok {s s' : State} {node : Concrete.Node} {id : NodeId}
    {context : Context} {outline : Outline} {opening : Option Opening} {c : Concrete.Node}
    {cs : List Concrete.Node} (hk : c.item.isKept) :
    descendAll language source s node id context outline opening (c :: cs) = .ok s' ↔
      ∃ s₁, descend language source (s.atChild opening c) node id
          (childContext node context outline c) c = .ok s₁ ∧
        descendAll language source s₁ node id context outline (openingAfter opening c) cs =
          .ok s' := by
  rw [descendAll, if_pos hk]
  exact bind_eq_ok

/-- An invariant `P` of states and a preorder `R` between them that additions and scopes respect:
every addition does, and so does every scope that is entered and left around states that do.  `Q` is
what is known of the entries into scopes. -/
structure Respects (language : Language) (source : ByteArray) (P : State → Prop)
    (R : State → State → Prop) (Q : State → ScopeEntry → Prop) : Prop where
  refl : ∀ s, R s s
  trans : ∀ {s s₁ s'}, R s s₁ → R s₁ s' → R s s'
  add : ∀ {s f s' id outline}, P s → s.add language source f = .ok (s', id, outline) →
    P s' ∧ R s s' ∧ ∀ o, outline.opening = some o → Q s' o.entry
  keep : ∀ {s s' entry}, R s s' → Q s entry → Q s' entry
  enter : ∀ {s entry}, P s → Q s entry → P (s.enter entry)
  leave : ∀ {s s₁ s' entry}, P s → Q s entry → P s₁ → R (s.enter entry) s₁ →
    s₁.leave entry = .ok s' → P s' ∧ R s s'

namespace Respects

variable {P : State → Prop} {R : State → State → Prop} {Q : State → ScopeEntry → Prop}

/-- What relates the states before and after the children of a node: if a scope is entered among
them, `R` holds up to the entry and from there on. -/
def Across (P : State → Prop) (R : State → State → Prop) (s s' : State) : Option Opening → Prop
  | none => R s s'
  | some o => ∃ s₁, P s₁ ∧ R s s₁ ∧ R (s₁.enter o.entry) s'

theorem across_trans (hR : Respects language source P R Q) {s s₁ s' : State} (h : R s s₁) :
    ∀ {opening : Option Opening}, Across P R s₁ s' opening → Across P R s s' opening
  | none, h' => hR.trans h h'
  | some _, ⟨s₂, h₀, h₁, h₂⟩ => ⟨s₂, h₀, hR.trans h h₁, h₂⟩

theorem across_atChild (hR : Respects language source P R Q) {s s₁ s' : State}
    {opening : Option Opening} {c : Concrete.Node} (hs : P s) (h : R (s.atChild opening c) s₁)
    (h' : Across P R s₁ s' (openingAfter opening c)) : Across P R s s' opening := by
  cases opening with
  | none => exact hR.trans h h'
  | some o =>
      by_cases ho : o.opensAt c
      · simp only [State.atChild, openingAfter, Option.filter, ho] at h h'
        exact ⟨s, hs, hR.refl s, hR.trans h h'⟩
      · simp only [State.atChild, openingAfter, Option.filter, ho] at h h'
        exact hR.across_trans h h'

theorem atChild (hR : Respects language source P R Q) {s : State} {opening : Option Opening}
    {c : Concrete.Node} (hs : P s) (ho : ∀ o, opening = some o → Q s o.entry) :
    P (s.atChild opening c) := by
  cases opening with
  | none => exact hs
  | some o =>
      by_cases hat : o.opensAt c
      · simp only [State.atChild, Option.filter, hat]
        exact hR.enter hs (ho o rfl)
      · simp only [State.atChild, Option.filter, hat]
        exact hs

/-- What is known of an opening at one child is known of it at the next. -/
theorem openingAfter (hR : Respects language source P R Q) {s s₁ : State}
    {opening : Option Opening} {c : Concrete.Node} (h : R (s.atChild opening c) s₁)
    (ho : ∀ o, opening = some o → Q s o.entry) :
    ∀ o, Resolution.openingAfter opening c = some o → Q s₁ o.entry := by
  intro o hafter
  obtain ⟨rfl, hnot⟩ := Option.filter_eq_some_iff.1 hafter
  have hno : o.opensAt c = false := by simpa using hnot
  simp only [State.atChild, Option.filter, hno] at h
  exact hR.keep h (ho o rfl)

mutual

/-- **What a descent preserves.**  Where additions and scopes respect an invariant and a relation,
the states before and after a descent do. -/
theorem descend (hR : Respects language source P R Q) {outer : Concrete.Node} {parent : NodeId}
    {context : Context} : ∀ (n : Concrete.Node) {s s' : State}, P s →
      Resolution.descend language source s outer parent context n = .ok s' → P s' ∧ R s s'
  | .node item children, s, s', hs, h => by
      obtain ⟨s₁, id, outline, s₂, hadd, hall, hleave⟩ := descend_eq_ok.1 h
      obtain ⟨hs₁, hadd, hQ⟩ := hR.add hs hadd
      obtain ⟨hs₂, hall⟩ := hR.descendAll children hs₁ hQ hall
      cases ho : outline.opening with
      | none =>
          rw [ho] at hall hleave
          cases hleave
          exact ⟨hs₂, hR.trans hadd hall⟩
      | some o =>
          -- `s₃` is where the scope is entered among the children
          rw [ho] at hall hleave
          obtain ⟨s₃, hs₃, h₁, h₂⟩ := hall
          obtain ⟨hs', h'⟩ := hR.leave hs₃ (hR.keep h₁ (hQ o ho)) hs₂ h₂ hleave
          exact ⟨hs', hR.trans hadd (hR.trans h₁ h')⟩

/-- The descent into children keeps what every addition and every scope keep. -/
theorem descendAll (hR : Respects language source P R Q) {node : Concrete.Node} {id : NodeId}
    {context : Context} {outline : Outline} : ∀ (cs : List Concrete.Node)
      {opening : Option Opening} {s s' : State}, P s →
      (∀ o, opening = some o → Q s o.entry) →
      Resolution.descendAll language source s node id context outline opening cs = .ok s' →
        P s' ∧ Across P R s s' opening
  | [], opening, s, s', hs, ho, h => by
      rw [Resolution.descendAll] at h
      cases h
      cases opening with
      | none => exact ⟨hs, hR.refl s⟩
      | some o => exact ⟨hR.enter hs (ho o rfl), s, hs, hR.refl s, hR.refl _⟩
  | c :: cs, opening, s, s', hs, ho, h => by
      by_cases hk : c.item.isKept
      · obtain ⟨s₁, hc, hcs⟩ := (descendAll_cons_eq_ok hk).1 h
        obtain ⟨hs₁, hc⟩ := hR.descend c (hR.atChild hs ho) hc
        obtain ⟨hs', hcs⟩ := hR.descendAll cs hs₁ (hR.openingAfter hc ho) hcs
        exact ⟨hs', hR.across_atChild hs hc hcs⟩
      · rw [Resolution.descendAll, if_neg hk] at h
        exact hR.descendAll cs hs ho h

end

/-- Across children among which no scope is entered the relation holds throughout. -/
theorem descendAll_none (hR : Respects language source P R Q) {node : Concrete.Node} {id : NodeId}
    {context : Context} {outline : Outline} (cs : List Concrete.Node) {s s' : State} (hs : P s)
    (h : Resolution.descendAll language source s node id context outline none cs = .ok s') :
    P s' ∧ R s s' := by
  have ho : ∀ o : Opening, none = some o → Q s o.entry := nofun
  exact hR.descendAll cs hs ho h

end Respects

end TypeUses.Resolution
