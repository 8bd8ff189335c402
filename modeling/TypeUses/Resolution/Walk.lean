import TypeUses.Concrete.Cursor
import TypeUses.Resolution.State

/-!
# Resolution — the walk over a parse

The walk reads the kept nodes of a parse in pre-order and builds the tree.  What is still to be done
lies on a stack of steps, next step first: visiting a node, entering a scope, leaving one.  A
visited node adds one node to the tree and puts the steps for its children on the stack (`plan`).

* `resolveNames`: the tree of a parse, with its statistics.
* `walk`: the steps of a stack, one after the other, to the end.  It ends because a visit replaces a
  node by steps that weigh less (`stackWeight_plan_lt`).
-/

namespace TypeUses.Resolution

/-! ### Steps -/

/-- One thing that a walk does. -/
inductive Step
  | visit (f : Frame)
  | enter (entry : ScopeEntry)
  /-- leaves the scope that was entered in the given way -/
  | leave (entry : ScopeEntry)

/-- The visits to the children that are left, with the entry into a scope that is still to be
opened. -/
def visits (visit : Concrete.Node → Step) : Option Opening → List Concrete.Node → List Step
  | none, children => children.map visit
  | some o, [] => [.enter o.entry]
  | some o, c :: rest =>
    if o.opensAt c then .enter o.entry :: visit c :: rest.map visit
    else visit c :: visits visit (some o) rest

/-- The step that leaves the scope of an opening. -/
def leavingSteps : Option Opening → List Step
  | some o => [.leave o.entry]
  | none => []

/-- The steps for the children of a node that has become node `id` of the tree. -/
def plan (node : Concrete.Node) (id : NodeId) (context : Context) (outline : Outline) :
    List Step :=
  visits (fun c => .visit ⟨c, node, id, childContext node context outline c⟩) outline.opening
      node.keptChildren ++
    leavingSteps outline.opening

/-- One step: the state after it, and the steps that it puts on the stack. -/
def State.perform (language : Language) (source : ByteArray) (s : State) :
    Step → Except TreeFault (State × List Step)
  | .visit f => (s.add language source f).map fun (s, id, outline) =>
      (s, plan f.node id f.context outline)
  | .enter entry => .ok (s.enter entry, [])
  | .leave entry => (s.leave entry).map fun s => (s, [])

/-! ### The weight of a stack -/

/-- The weight of a visit is that of its node; entering and leaving weigh one. -/
def Step.weight : Step → Nat
  | visit f => f.node.weight
  | _ => 1

/-- The weights of the steps on a stack, added up. -/
def stackWeight : List Step → Nat
  | [] => 0
  | step :: rest => step.weight + stackWeight rest

theorem stackWeight_append (as bs : List Step) :
    stackWeight (as ++ bs) = stackWeight as + stackWeight bs := by
  induction as with
  | nil => exact (Nat.zero_add _).symm
  | cons step as ih => simp only [List.cons_append, stackWeight, ih, Nat.add_assoc]

theorem stackWeight_map_visit {visit : Concrete.Node → Step}
    (h : ∀ c, (visit c).weight = c.weight) (cs : List Concrete.Node) :
    stackWeight (cs.map visit) = Concrete.Node.weights cs := by
  induction cs with
  | nil => rfl
  | cons c cs ih => simp_all [stackWeight, Concrete.Node.weights]

/-- The visits to some children, with the entry into a scope, weigh at most one more than the
children. -/
theorem stackWeight_visits_le {visit : Concrete.Node → Step}
    (h : ∀ c, (visit c).weight = c.weight) (o : Option Opening) (cs : List Concrete.Node) :
    stackWeight (visits visit o cs) ≤ Concrete.Node.weights cs + 1 := by
  fun_induction visits visit o cs with
  | case1 cs => rw [stackWeight_map_visit h]; exact Nat.le_succ _
  | case2 o => simp [stackWeight, Step.weight, Concrete.Node.weights]
  | case3 o c cs _ =>
    have := stackWeight_map_visit h cs
    simp_all [stackWeight, Step.weight, Concrete.Node.weights]
    omega
  | case4 o c cs _ ih =>
    simp_all [stackWeight, Concrete.Node.weights]
    omega

theorem weights_filter_le (p : Concrete.Node → Bool) (cs : List Concrete.Node) :
    Concrete.Node.weights (cs.filter p) ≤ Concrete.Node.weights cs := by
  induction cs with
  | nil => simp
  | cons c cs ih =>
    rw [List.filter_cons]
    split <;> simp only [Concrete.Node.weights] <;> omega

theorem stackWeight_leavingSteps_le (o : Option Opening) : stackWeight (leavingSteps o) ≤ 1 := by
  cases o <;> simp [leavingSteps, stackWeight, Step.weight]

/-- The steps for a node's children weigh less than the node. -/
theorem stackWeight_plan_lt (node : Concrete.Node) (id : NodeId) (context : Context)
    (outline : Outline) : stackWeight (plan node id context outline) < node.weight := by
  obtain ⟨item, children⟩ := node
  have visits_le : ∀ visit : Concrete.Node → Step, (∀ c, (visit c).weight = c.weight) →
      stackWeight (visits visit outline.opening (Concrete.Node.node item children).keptChildren) ≤
        Concrete.Node.weights (Concrete.Node.node item children).keptChildren + 1 :=
    fun _ h => stackWeight_visits_le h _ _
  have visits_le := visits_le
    (fun c => .visit ⟨c, .node item children, id,
      childContext (.node item children) context outline c⟩) fun _ => rfl
  have kept_le := weights_filter_le (fun c => c.item.isKept) children
  have leaving_le := stackWeight_leavingSteps_le outline.opening
  simp only [plan, stackWeight_append, Concrete.Node.keptChildren, Concrete.Node.children,
    Concrete.Node.weight] at *
  omega

/-- A step puts less weight on the stack than it takes off it. -/
theorem stackWeight_perform_lt {language : Language} {source : ByteArray} {s s' : State}
    {step : Step} {steps : List Step}
    (h : s.perform language source step = .ok (s', steps)) : stackWeight steps < step.weight := by
  cases step with
  | visit f =>
    simp only [State.perform] at h
    cases hadd : s.add language source f with
    | error => rw [hadd] at h; cases h
    | ok => rw [hadd] at h; cases h; exact stackWeight_plan_lt ..
  | enter => cases h; simp [stackWeight, Step.weight]
  | leave entry =>
    simp only [State.perform] at h
    cases hleave : s.leave entry with
    | error => rw [hleave] at h; cases h
    | ok => rw [hleave] at h; cases h; simp [stackWeight, Step.weight]

/-! ### The walk -/

/-- Performs the steps on a stack and those that they put there, until none is left. -/
def walk (language : Language) (source : ByteArray) (s : State) (stack : List Step) :
    Except TreeFault State :=
  match stack with
  | [] => .ok s
  | step :: rest =>
    match _h : s.perform language source step with
    | .ok (s, steps) => walk language source s (steps ++ rest)
    | .error fault => .error fault
termination_by stackWeight stack
decreasing_by
  have := stackWeight_perform_lt ‹_›
  rw [stackWeight_append]
  simp only [stackWeight]
  omega

/-- The steps with which the walk over a parse begins. -/
def initialSteps (parse : Concrete.Parse) : List Step :=
  plan parse.root Tree.rootId .plain {}

/-! ### The tree of a parse -/

/-- Statistics of a finished walk. -/
structure Stats where
  nodes : Nat
  references : Nat
  resolved : Nat
  syntaxErrors : Nat
  firstError : Option Location
deriving DecidableEq, Repr

/-- The tree of a parse, its references linked to what they refer to. -/
def resolveNames (language : Language) (source : ByteArray) (spelling : String)
    (parse : Concrete.Parse) : Except TreeFault (Tree × Stats) := do
  let s ← walk language source (.initial language spelling) (initialSteps parse)
  let s ← s.finish
  return (s.tree,
    { nodes := s.tree.size
      references := s.references
      resolved := s.resolved
      syntaxErrors := parse.errorCount
      firstError := parse.firstError? })

end TypeUses.Resolution
