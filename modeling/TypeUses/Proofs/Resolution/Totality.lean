import TypeUses.Proofs.Resolution.Places
import TypeUses.Proofs.Resolution.Soundness

/-!
# Resolution — the tree of every parse

A stack of steps will add as many nodes as there are kept nodes in its visits (`stackCount`), and a
step keeps the sum of this number and the size of the tree (`size_perform`).  So a run from a sound
state goes on until no step is left, if the tree has room for what the stack will add.

* `progress`: in a sound state a sound step can be performed, if there is room.
* `exists_walk`: so a walk gets to its end.
* `resolveNames_succeeds`: a parse with fewer nodes than a tree can have gets its tree, and every
  state and every step of the walk on the way is sound.
-/

namespace TypeUses.Resolution

variable {language : Language} {source : ByteArray}

/-! ### How many nodes are still to come -/

/-- The number of nodes that come of a step. -/
def Step.count : Step → Nat
  | visit f => f.node.keptCount
  | enter _ | leave _ => 0

/-- The number of nodes that come of the steps on a stack. -/
def stackCount : List Step → Nat
  | [] => 0
  | step :: rest => step.count + stackCount rest

@[simp] theorem stackCount_nil : stackCount [] = 0 := rfl

@[simp] theorem stackCount_cons (step : Step) (rest : List Step) :
    stackCount (step :: rest) = step.count + stackCount rest := rfl

@[simp] theorem stackCount_append (xs ys : List Step) :
    stackCount (xs ++ ys) = stackCount xs + stackCount ys := by
  induction xs with
  | nil => simp
  | cons step xs ih => simp [ih, Nat.add_assoc]

theorem stackCount_visitsIn (node : Concrete.Node) (id : NodeId) (context : Context)
    (outline : Outline) (opening : Option Opening) (cs : List Concrete.Node) :
    stackCount (visitsIn node id context outline opening cs) =
      Concrete.Node.keptCounts cs := by
  have enters : ∀ o : Option Opening,
      stackCount ((o.map fun o => Step.enter o.entry).toList) = 0 := by
    intro o; cases o <;> rfl
  induction cs generalizing opening with
  | nil => cases opening <;> rfl
  | cons c cs ih =>
      rw [visitsIn_cons, Concrete.Node.keptCounts]
      split
      · rw [stackCount_append, stackCount_cons, ih, enters, Nat.zero_add]
        rfl
      · rw [ih, Nat.zero_add]

/-- The steps for the children of a node add one for every kept node below it. -/
theorem stackCount_plan (node : Concrete.Node) (id : NodeId) (context : Context)
    (outline : Outline) :
    stackCount (plan node id context outline) = Concrete.Node.keptCounts node.children := by
  rw [plan_eq, stackCount_append, stackCount_visitsIn]
  cases outline.opening <;> rfl

theorem size_add {s s' : State} {f : Frame} {id : NodeId} {outline : Outline}
    (h : s.add language source f = .ok (s', id, outline)) :
    id = ⟨s.tree.size⟩ ∧ s'.tree.size = s.tree.size + 1 := by
  obtain ⟨tree, htree, rfl, -⟩ := add_eq_ok.1 h
  exact ⟨(Tree.push?_eq_ok.1 htree).2.1, Tree.size_of_push? htree⟩

theorem size_leave {s s' : State} {entry : ScopeEntry} (h : s.leave entry = .ok s') :
    s'.tree.size = s.tree.size := by
  obtain ⟨-, -, ⟨ht, -⟩ | ⟨frame, -, -, hl⟩⟩ := leave_eq_ok h
  · rw [ht]
  · exact hl.size

/-- With every step as many nodes are added as are no longer to come. -/
theorem size_perform {s s' : State} {step : Step} {steps : List Step}
    (h : s.perform language source step = .ok (s', steps)) :
    s'.tree.size + stackCount steps = s.tree.size + step.count := by
  cases step with
  | visit f =>
      obtain ⟨id, outline, hadd, rfl⟩ := perform_visit_eq_ok.1 h
      obtain ⟨-, hsize⟩ := size_add hadd
      obtain ⟨⟨item, children⟩, outer, parent, context⟩ := f
      rw [hsize, stackCount_plan, Nat.add_assoc]
      rfl
  | enter entry => cases h; rw [tree_enter]; rfl
  | leave entry =>
      obtain ⟨hleave, rfl⟩ := perform_leave_eq_ok.1 h
      rw [size_leave hleave]
      rfl

/-- The size of the tree and what is still to come add up to the same all along a run. -/
theorem size_of_runs {s s' : State} {stack stack' : List Step}
    (h : Runs language source s stack s' stack') :
    s'.tree.size + stackCount stack' = s.tree.size + stackCount stack :=
  h.preserves (P := fun x steps => x.tree.size + stackCount steps = s.tree.size + stackCount stack)
    (fun hP hstep => by
      rw [stackCount_cons] at hP
      rw [stackCount_append, ← Nat.add_assoc, size_perform hstep, Nat.add_assoc, hP]) rfl

/-! ### Walks that get to their end -/

/-- **In a sound state a sound step can be performed**, if there is room in the tree. -/
theorem progress (language : Language) (source : ByteArray) {s : State} {step : Step}
    (hs : s.Sound) (hstep : step.Sound s) (hroom : s.tree.size + step.count ≤ Tree.capacity) :
    ∃ next, s.perform language source step = .ok next := by
  cases step with
  | visit f =>
      have hpos : 0 < f.node.keptCount := f.node.keptCount_pos
      obtain ⟨s', outline, hadd⟩ := exists_add language source
        (hstep.parent f rfl) (Nat.lt_of_lt_of_le (Nat.lt_add_of_pos_right hpos) hroom)
      exact ⟨_, perform_visit_eq_ok.2 ⟨_, _, hadd, rfl⟩⟩
  | enter entry => exact ⟨_, rfl⟩
  | leave entry =>
      obtain ⟨s', hleave⟩ := exists_leave s (fun frame rest hf l hl => by
        obtain ⟨r, hr, -, hd, -⟩ := hs.links_frame (hf ▸ List.mem_cons_self) hl
        exact ⟨⟨r, hr⟩, _, hd⟩) entry
      exact ⟨_, perform_leave_eq_ok.2 ⟨hleave, rfl⟩⟩

/-- A walk over sound steps gets to its end, if there is room for the nodes that come of them. -/
theorem exists_walk (language : Language) (source : ByteArray) {s : State} {stack : List Step}
    (hs : s.Sound) (hstack : ∀ step ∈ stack, step.Sound s)
    (hroom : s.tree.size + stackCount stack ≤ Tree.capacity) :
    ∃ s', walk language source s stack = .ok s' := by
  fun_induction walk language source s stack with
  | case1 s => exact ⟨s, rfl⟩
  | case2 s step rest s₁ steps hstep ih =>
      obtain ⟨hs₁, hstack₁⟩ := sound_perform ⟨hs, hstack⟩ hstep
      refine ih hs₁ hstack₁ ?_
      rw [stackCount_cons] at hroom
      rw [stackCount_append, ← Nat.add_assoc, size_perform hstep, Nat.add_assoc]
      exact hroom
  | case3 s step rest fault hstep =>
      rw [stackCount_cons] at hroom
      obtain ⟨next, hnext⟩ := progress language source hs
        (hstack step List.mem_cons_self) (by omega)
      rw [hnext] at hstep
      cases hstep

/-- A parse has more nodes than its tree will have. -/
theorem stackCount_initialSteps_lt (parse : Concrete.Parse) :
    stackCount (initialSteps parse) < parse.items.length := by
  obtain ⟨⟨item, children⟩, hasError⟩ := parse
  rw [initialSteps, stackCount_plan, Concrete.Parse.items, Concrete.itemsFrom, List.append_nil,
    List.length_cons]
  exact Nat.lt_succ_of_le (Concrete.keptCounts_le_length_itemsFrom children)

/-- The tree has room for all nodes that come of a parse with fewer nodes than it can have. -/
theorem room_of_parse (language : Language) (spelling : String) {parse : Concrete.Parse}
    (h : parse.items.length < Tree.capacity) :
    (State.initial language spelling).tree.size + stackCount (initialSteps parse) ≤
      Tree.capacity := by
  have hlt := stackCount_initialSteps_lt parse
  show 1 + stackCount (initialSteps parse) ≤ Tree.capacity
  omega

/-- A parse that a tree has room for has a tree. -/
theorem exists_resolveNames (language : Language) (source : ByteArray) (spelling : String)
    {parse : Concrete.Parse} (h : parse.items.length < Tree.capacity) :
    ∃ tree stats, resolveNames language source spelling parse = .ok (tree, stats) := by
  obtain ⟨s, hwalk⟩ := exists_walk language source (sound_initial language spelling)
    (sound_initialSteps language spelling parse) (room_of_parse language spelling h)
  obtain ⟨f, stats, -, htree⟩ := exists_tree_of_walk hwalk
  exact ⟨f.tree, stats, htree⟩

/-- **The tree of every parse.**  A parse with fewer nodes than a tree can have gets its tree,
whatever its nodes are.  On the way every state and every step to come is sound, so that no number
dangles, and no step fails. -/
theorem resolveNames_succeeds (language : Language) (source : ByteArray) (spelling : String)
    (parse : Concrete.Parse) (h : parse.items.length < Tree.capacity) :
    (∃ tree stats, resolveNames language source spelling parse = .ok (tree, stats)) ∧
      ∀ s stack,
        Runs language source (.initial language spelling) (initialSteps parse) s stack →
        s.Sound ∧ (∀ step ∈ stack, step.Sound s) ∧
          ∀ step rest, stack = step :: rest →
            ∃ next, s.perform language source step = .ok next := by
  have hroom := room_of_parse language spelling h
  refine ⟨exists_resolveNames language source spelling h, fun s stack hruns => ?_⟩
  obtain ⟨hsound, hstack⟩ := sound_of_parse hruns
  refine ⟨hsound, hstack, ?_⟩
  rintro step rest rfl
  refine progress language source hsound (hstack step List.mem_cons_self) ?_
  have hsize := size_of_runs hruns
  rw [stackCount_cons] at hsize
  omega

/-- An erroneous parse: a `goto` and a label outside of any function, a function without a
declarator, and a `struct` without a name. -/
def strayParse : Concrete.Parse where
  root := .node { kind := .error, isError := true }
    [.node { kind := .statementIdentifier, field := some .label } [],
      .node { kind := .labeledStatement, isMissing := true } [],
      .node { kind := .functionDefinition } [.node { kind := .compoundStatement } []],
      .node { kind := .structSpecifier } [.node { kind := .error, field := some .body } []]]
  hasError := true

/-- It gets its tree from any source. -/
theorem resolveNames_succeeds_stray :
    strayParse.items.length < Tree.capacity ∧
      ∀ source, ∃ tree stats, resolveNames .cpp source "stray.cc" strayParse = .ok (tree, stats) :=
  have h : strayParse.items.length < Tree.capacity := by decide +kernel
  ⟨h, fun source => (resolveNames_succeeds .cpp source "stray.cc" strayParse h).1⟩

end TypeUses.Resolution
