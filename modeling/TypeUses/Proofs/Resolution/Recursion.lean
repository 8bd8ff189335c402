import TypeUses.Proofs.Resolution.Following

/-!
# Resolution — the walk is a recursion on the parse

The walk keeps its steps on a stack, and visits, entries and ways out lie there side by side.  It is
the recursion all the same (`walk_is_recursion`): from the visit to a node to the end of what comes
of it the walk does what the descent into the node does, and it leaves the steps below on the stack
where they are.

* `descendAll_some`: where among the children of a node the scope of an opening is entered.
* `Runs.of_append`: a run over two stacks is a run over the first, on top of the second, or has
  come to its end.
* `Completes`: a run that performs the steps on top of a stack and then finds the scopes and the
  functions around it that it found at the beginning.
-/

namespace TypeUses.Resolution

variable {language : Language} {source : ByteArray}

/-! ### The entry into a scope -/

/-- The scope of an opening begins at the child. -/
def Opening.beginsAt (o : Opening) (child : Concrete.Node) : Bool :=
  child.item.isKept && o.opensAt child

/-- The children in front of the scope of an opening. -/
def Opening.front (o : Opening) (children : List Concrete.Node) : List Concrete.Node :=
  children.takeWhile fun c => !o.beginsAt c

/-- The children in the scope of an opening: the first at which it begins and those that follow. -/
def Opening.inside (o : Opening) (children : List Concrete.Node) : List Concrete.Node :=
  children.dropWhile fun c => !o.beginsAt c

section Children
variable (s : State) (node : Concrete.Node) (id : NodeId) (context : Context) (outline : Outline)

/-- The descent into children goes into one that is kept and then on. -/
theorem descendAll_of_kept {c : Concrete.Node} (hk : c.item.isKept = true)
    (opening : Option Opening) (cs : List Concrete.Node) :
    descendAll language source s node id context outline opening (c :: cs) =
      (descend language source (s.atChild opening c) node id
        (childContext node context outline c) c).bind fun s =>
          descendAll language source s node id context outline (openingAfter opening c) cs := by
  rw [descendAll, if_pos hk]
  rfl

theorem descendAll_of_not_kept {c : Concrete.Node} (hk : ¬ c.item.isKept = true)
    (opening : Option Opening) (cs : List Concrete.Node) :
    descendAll language source s node id context outline opening (c :: cs) =
      descendAll language source s node id context outline opening cs := by
  rw [descendAll, if_neg hk]

/-- **Where a scope is entered**: in front of the first child at which it begins, or behind the
last child if it begins at none. -/
theorem descendAll_some (o : Opening) (cs : List Concrete.Node) :
    descendAll language source s node id context outline (some o) cs =
      (descendAll language source s node id context outline none (o.front cs)).bind fun s =>
        descendAll language source (s.enter o.entry) node id context outline none
          (o.inside cs) := by
  induction cs generalizing s with
  | nil => rfl
  | cons c cs ih =>
      by_cases hk : c.item.isKept = true
      · by_cases hc : o.opensAt c = true
        · -- the scope begins here, so that no child is in front of it
          have hb : o.beginsAt c = true := by simp [Opening.beginsAt, hk, hc]
          have hfront : o.front (c :: cs) = [] := by simp [Opening.front, hb]
          have hinside : o.inside (c :: cs) = c :: cs := by simp [Opening.inside, hb]
          rw [hfront, hinside, descendAll_of_kept _ _ _ _ _ hk]
          show _ = descendAll language source (s.enter o.entry) node id context outline none
            (c :: cs)
          rw [descendAll_of_kept _ _ _ _ _ hk]
          simp [State.atChild, openingAfter, Option.filter, hc, State.enterOpening]
        · have hc : o.opensAt c = false := Bool.eq_false_iff.2 hc
          have hb : o.beginsAt c = false := by simp [Opening.beginsAt, hc]
          have hfront : o.front (c :: cs) = c :: o.front cs := by simp [Opening.front, hb]
          have hinside : o.inside (c :: cs) = o.inside cs := by simp [Opening.inside, hb]
          rw [hfront, hinside, descendAll_of_kept _ _ _ _ _ hk, descendAll_of_kept _ _ _ _ _ hk]
          have hat : s.atChild (some o) c = s.atChild none c := by
            simp [State.atChild, Option.filter, hc]
          have hafter : openingAfter (some o) c = some o := by
            simp [openingAfter, Option.filter, hc]
          rw [hat, hafter]
          cases descend language source (s.atChild none c) node id
              (childContext node context outline c) c with
          | error => rfl
          | ok s₁ => exact ih s₁
      · have hk' : c.item.isKept = false := Bool.eq_false_iff.2 hk
        have hb : o.beginsAt c = false := by simp [Opening.beginsAt, hk']
        have hfront : o.front (c :: cs) = c :: o.front cs := by simp [Opening.front, hb]
        have hinside : o.inside (c :: cs) = o.inside cs := by simp [Opening.inside, hb]
        rw [hfront, hinside, descendAll_of_not_kept _ _ _ _ _ hk,
          descendAll_of_not_kept _ _ _ _ _ hk]
        exact ih s

end Children

/-! ### Runs on top of other steps -/

/-- A run over two stacks is a run over the first that leaves the second where it is, or it has come
to the end of the first. -/
theorem Runs.of_append {s s' : State} {stack' : List Step} (xs ys : List Step)
    (h : Runs language source s (xs ++ ys) s' stack') :
    (∃ steps, stack' = steps ++ ys ∧ Runs language source s xs s' steps) ∨
      ∃ s₁, Runs language source s xs s₁ [] ∧ Runs language source s₁ ys s' stack' := by
  generalize hstack : xs ++ ys = stack at h
  induction h generalizing xs with
  | refl s stack => exact Or.inl ⟨xs, hstack.symm, .refl _ _⟩
  | @more s s₁ s' step steps rest stack' hstep hruns ih =>
      cases xs with
      | nil =>
          rw [List.nil_append] at hstack
          exact Or.inr ⟨s, .refl _ _, hstack ▸ .more hstep hruns⟩
      | cons x xs =>
          obtain ⟨rfl, rfl⟩ := List.cons.inj hstack
          rcases ih (steps ++ xs) (List.append_assoc ..) with ⟨above, he, hr⟩ | ⟨s₂, hr, hr'⟩
          · exact Or.inl ⟨above, he, .more hstep hr⟩
          · exact Or.inr ⟨s₂, .more hstep hr, hr'⟩

/-- The run from state `s` performs the steps `xs`, which lie on top of the steps `rest`, and all
that comes of them, and ends in state `s'`.  On the way it touches none of `rest`; then the same
scopes are active, and as many functions are around it. -/
structure Completes (language : Language) (source : ByteArray) (s : State) (xs rest : List Step)
    (s' : State) : Prop where
  reaches : Runs language source s (xs ++ rest) s' rest
  above : ∀ s₁ stack, Runs language source s (xs ++ rest) s₁ stack →
    (∃ steps, stack = steps ++ rest ∧ Runs language source s xs s₁ steps) ∨
      Runs language source s' rest s₁ stack
  active : s'.scopes.active = s.scopes.active
  functions : s'.functions.length = s.functions.length

theorem FunctionsFollow.length_eq {n : Nat} : ∀ {frames frames' : List LabelFrame},
    FunctionsFollow n frames frames' → frames'.length = frames.length
  | [], _, rfl => rfl
  | _ :: _, _, ⟨_, rfl, _⟩ => rfl

/-- A walk over steps that follow the state before it completes them on top of any others. -/
theorem completes_of_walk {s s' : State} {xs : List Step}
    (h : walk language source s xs = .ok s') (hf : Follows s s') (rest : List Step) :
    Completes language source s xs rest s' where
  reaches := (walk_eq_ok_iff.1 h).append rest
  above s₁ stack hruns := by
    rcases Runs.of_append xs rest hruns with hl | ⟨s₂, hend, hr⟩
    · exact Or.inl hl
    · -- a walk has one end only
      have hsame : s₂ = s' := Except.ok.inj ((walk_eq_ok_iff.2 hend).symm.trans h)
      exact Or.inr (hsame ▸ hr)
  active := hf.active
  functions := hf.functions.length_eq

/-! ### The walk and the recursion -/

/-- A visit walks through all that lies below its node before the rest of the stack. -/
theorem walk_visit_cons (s : State) (f : Frame) (rest : List Step) :
    walk language source s (.visit f :: rest) =
      (descend language source s f.outer f.parent f.context f.node).bind fun s' =>
        walk language source s' rest := by
  rw [← List.singleton_append, walk_append, walk_visit]

/-- A parse is left with the file scope alone, and outside of any function. -/
theorem follows_of_parse {spelling : String} {parse : Concrete.Parse} {s : State}
    (h : walk language source (.initial language spelling) (initialSteps parse) = .ok s) :
    Follows (.initial language spelling) s := by
  rw [walk_eq_descent] at h
  exact follows_descendAll h

/-- **The walk is a recursion on the parse.**

* A visit on top of other steps is the descent into the node, and then the other steps: the node is
  read, its kept children are descended into in order, and the scope that the node opens is left, in
  which the children from the first at which it begins on lie.
* From the visit to the end of the descent the walk touches none of the other steps, and then the
  same scopes are active and as many functions are around it.
* So the walk over a parse is the descent into it, and ends in the file scope and in no function. -/
theorem walk_is_recursion (language : Language) (source : ByteArray) :
    (∀ s f rest, walk language source s (.visit f :: rest) =
      (descend language source s f.outer f.parent f.context f.node).bind fun s' =>
        walk language source s' rest) ∧
    (∀ s node id context outline o cs,
      descendAll language source s node id context outline (some o) cs =
        (descendAll language source s node id context outline none (o.front cs)).bind fun s =>
          descendAll language source (s.enter o.entry) node id context outline none
            (o.inside cs)) ∧
    (∀ s f rest s', descend language source s f.outer f.parent f.context f.node = .ok s' →
      Completes language source s [.visit f] rest s') ∧
    ∀ spelling parse,
      walk language source (.initial language spelling) (initialSteps parse) =
        descent language source spelling parse ∧
      ∀ s, walk language source (.initial language spelling) (initialSteps parse) = .ok s →
        s.scopes.depth = 1 ∧ s.functions = [] := by
  refine ⟨walk_visit_cons, descendAll_some, fun s f rest s' h => ?_,
    fun spelling parse => ⟨walk_eq_descent spelling parse, fun s h => ?_⟩⟩
  · have hwalk : walk language source s [.visit f] = .ok s' :=
      (walk_visit s f.outer f.parent f.context f.node).trans h
    exact completes_of_walk hwalk (follows_descend h) rest
  · have hf := follows_of_parse h
    exact ⟨congrArg List.length hf.active, hf.functions⟩

/-- The source `void f() { a: goto a; }`. -/
def loopSource : ByteArray := "void f() { a: goto a; }".toUTF8

/-- Its parse. -/
def loopParse : Concrete.Parse where
  root := .node { kind := .translationUnit, stop := 23 }
    [.node { kind := .functionDefinition, stop := 23 }
      [.node { kind := .other "function_declarator", field := some .declarator, start := 5,
               stop := 8, column := 5 } [],
        .node { kind := .compoundStatement, field := some .body, start := 9, stop := 23,
                column := 9 }
          [.node { kind := .labeledStatement, start := 11, stop := 21, column := 11 }
            [.node { kind := .statementIdentifier, field := some .label, start := 11, stop := 12,
                     column := 11 } [],
              .node { kind := .other "goto_statement", start := 14, stop := 21, column := 14 }
                [.node { kind := .statementIdentifier, field := some .label, start := 19,
                         stop := 20, column := 19 } []]]]]]
  hasError := false

/-- The `goto` is linked when the function is left, and then no scope is left to leave. -/
theorem walk_is_recursion_loop : ∃ s,
    walk .c loopSource (.initial .c "f.c") (initialSteps loopParse) = .ok s ∧
      s.tree.target? ⟨7⟩ = some ⟨4⟩ ∧ s.scopes.depth = 1 ∧ s.functions = [] := by
  have htarget : (walk .c loopSource (.initial .c "f.c") (initialSteps loopParse)).toOption.bind
      (fun s => s.tree.target? ⟨7⟩) = some ⟨4⟩ := by decide +kernel
  cases h : walk .c loopSource (.initial .c "f.c") (initialSteps loopParse) with
  | error fault => rw [h] at htarget; cases htarget
  | ok s =>
      rw [h] at htarget
      obtain ⟨-, -, -, hparse⟩ := walk_is_recursion .c loopSource
      obtain ⟨-, hend⟩ := hparse "f.c" loopParse
      exact ⟨s, rfl, htarget, hend s h⟩

end TypeUses.Resolution
