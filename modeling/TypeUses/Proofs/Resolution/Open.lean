import TypeUses.Proofs.Resolution.Upright

/-!
# Resolution — the scopes that are open at a step

At each step of a walk the active scopes are those that are open there: around the file scope's
own steps none but the file scope, and within a scope that has been entered and is still to be left
that scope in front of those around it.  What is still to be left can be read off the stack, so
`OpenAt` tells the open scopes from the stack alone, entry by entry.

* `openAt_perform`: a step that is performed keeps the table regular and the active scopes those
  that are open at the stack.
* `lookup_sees_open_scopes`: so an unqualified name is looked up in the open scopes at every step,
  templates left out, while no scope ever gets another parent.

A scope of members that is entered again lies where it lay at first.  That it lies among the open
scopes all the same is because its entity is bound by the innermost of them (`MayEnterFrom`), which
has to be known from the reading of the node on, through the steps up to the entry.
-/

namespace TypeUses.Resolution

variable {language : Language} {source : ByteArray} {spelling : String} {parse : Concrete.Parse}
variable {t t' : Table} {scopes : List ScopeId} {stack : List Step} {entry : ScopeEntry}

/-! ### Entries -/

/-- The scope is one that is entered in the given way. -/
def ScopeEntry.Enters (t : Table) (x : ScopeId) : ScopeEntry → Prop
  | .fresh kind => ∃ scope, t.scope? x = some scope ∧ scope.kind = kind
  | .members e _ => t.members? e = some x
  | .function => ∃ scope, t.scope? x = some scope ∧ scope.kind = .function

/-- A scope may be entered where these scopes are active: if it is that of members, then of a
defined entity that the innermost of them binds which is no template's. -/
def MayEnterFrom (t : Table) (scopes : List ScopeId) (entry : ScopeEntry) : Prop :=
  ∀ e kind, entry = .members e kind → kind ≠ .template ∧
    t.Holds ((t.plain scopes).head?.getD Table.fileScope) e ∧ ∃ d, t.definition? e = some d

theorem mayEnterFrom_active_iff : MayEnterFrom t t.active entry ↔ MayEnter t entry := by
  rw [MayEnterFrom, MayEnter, Table.bindingScope_eq]

theorem MayEnterFrom.grows {new : NodeId → Prop} (h : MayEnterFrom t scopes entry)
    (hg : t.Grows new t') (hscopes : ∀ x ∈ scopes, x.index < t.scopes.size) :
    MayEnterFrom t' scopes entry := by
  intro e kind he
  obtain ⟨hkind, hholds, d, hd⟩ := h e kind he
  rw [Table.plain_of_grows hg hscopes]
  exact ⟨hkind, hholds.grows hg, d, hg.definition hd⟩

namespace ScopeEntry.Enters

theorem lt {x : ScopeId} (h : entry.Enters t x) (ht : t.Standing) : x.index < t.scopes.size := by
  cases entry with
  | fresh | function =>
      obtain ⟨scope, ho, -⟩ := h
      exact Table.lt_of_scope? ho
  | members e kind => exact ht.members h

theorem grows {new : NodeId → Prop} {x : ScopeId} (h : entry.Enters t x) (hg : t.Grows new t') :
    entry.Enters t' x := by
  cases entry with
  | fresh | function =>
      obtain ⟨scope, ho, hkind⟩ := h
      obtain ⟨scope', ho', hkind', -⟩ := hg.scope ho
      exact ⟨scope', ho', hkind'.trans hkind⟩
  | members e kind => exact hg.members h

/-- The scope that an entry makes the innermost active one is one that is entered so. -/
theorem of_perform (h : MayEnter t entry) :
    ∃ x, (t.perform entry.operation).2.active = x :: t.active ∧
      entry.Enters (t.perform entry.operation).2 x := by
  have fresh : ∀ kind, ∃ scope,
      (t.perform (.enter kind)).2.scope? ⟨t.scopes.size⟩ = some scope ∧ scope.kind = kind := by
    intro kind
    refine ⟨⟨kind, t.chain t.current, [], []⟩, ?_, rfl⟩
    show (t.enter kind).2.scope? _ = _
    simp [Table.enter]
  cases entry with
  | fresh kind => exact ⟨_, rfl, fresh kind⟩
  | function => exact ⟨_, rfl, fresh .function⟩
  | members e kind =>
      obtain ⟨-, -, d, hd⟩ := h e kind rfl
      obtain ⟨info, he, -⟩ := Option.bind_eq_some_iff.1 hd
      obtain ⟨x, hx⟩ := t.active_enterMembers e kind
      refine ⟨x, hx, ?_⟩
      rw [← (List.cons.inj hx).1]
      exact Table.members?_of_enterMembers he kind

end ScopeEntry.Enters

/-! ### Open scopes -/

/-- These scopes are open at a stack, innermost first: around those that the stack has still to
leave there is the file scope, and what the stack enters it leaves again. -/
inductive OpenAt (t : Table) : List ScopeId → List Step → Prop
  | file : OpenAt t [Table.fileScope] []
  | visit {scopes : List ScopeId} {stack : List Step} (f : Frame) (h : OpenAt t scopes stack) :
      OpenAt t scopes (.visit f :: stack)
  | enter {scopes : List ScopeId} {entry : ScopeEntry} {stack : List Step} (inside : List Frame)
      (hentry : MayEnterFrom t scopes entry) (h : OpenAt t scopes stack) :
      OpenAt t scopes (.enter entry :: (inside.map .visit ++ .leave entry :: stack))
  | leave {x : ScopeId} {scopes : List ScopeId} {entry : ScopeEntry} {stack : List Step}
      (hentry : entry.Enters t x) (h : OpenAt t scopes stack) :
      OpenAt t (x :: scopes) (.leave entry :: stack)

namespace OpenAt

theorem of_visit {f : Frame} (h : OpenAt t scopes (.visit f :: stack)) : OpenAt t scopes stack := by
  cases h with
  | visit _ h => exact h

/-- Behind an entry stand visits, the step that leaves the scope, and a stack for the scopes around
it. -/
theorem of_enter (h : OpenAt t scopes (.enter entry :: stack)) :
    MayEnterFrom t scopes entry ∧ ∃ (inside : List Frame) (rest : List Step),
      stack = inside.map .visit ++ .leave entry :: rest ∧ OpenAt t scopes rest := by
  cases h with
  | enter inside hentry h => exact ⟨hentry, inside, _, rfl, h⟩

/-- Where a scope is about to be left, it is the innermost open one. -/
theorem of_leave (h : OpenAt t scopes (.leave entry :: stack)) :
    ∃ x outer, scopes = x :: outer ∧ OpenAt t outer stack := by
  cases h with
  | leave _ h => exact ⟨_, _, rfl, h⟩

theorem ne_nil (h : OpenAt t scopes stack) : scopes ≠ [] := by
  induction h with
  | file | leave => exact List.cons_ne_nil _ _
  | visit _ _ ih | enter _ _ _ ih => exact ih

theorem lt (h : OpenAt t scopes stack) (ht : t.Standing) :
    ∀ x ∈ scopes, x.index < t.scopes.size := by
  induction h with
  | file => exact fun x hx => List.mem_singleton.1 hx ▸ ht.file
  | visit _ _ ih | enter _ _ _ ih => exact ih
  | leave hentry _ ih =>
      intro x hx
      rcases List.mem_cons.1 hx with rfl | hx
      · exact hentry.lt ht
      · exact ih x hx

/-- What is open at a stack stays so when the table grows. -/
theorem grows {new : NodeId → Prop} (h : OpenAt t scopes stack) (ht : t.Standing)
    (hg : t.Grows new t') : OpenAt t' scopes stack := by
  induction h with
  | file => exact .file
  | visit f _ ih => exact .visit f ih
  | enter inside hentry h ih => exact .enter inside (hentry.grows hg (h.lt ht)) ih
  | leave hentry _ ih => exact .leave (hentry.grows hg) ih

/-- Visits open and leave nothing. -/
theorem visits (h : OpenAt t scopes stack) (fs : List Frame) :
    OpenAt t scopes (fs.map .visit ++ stack) := by
  induction fs with
  | nil => exact h
  | cons f fs ih => exact .visit f ih

/-- In front of the children of a node the same scopes are open as behind it. -/
theorem visits_leaving (h : OpenAt t scopes stack) (frame : Concrete.Node → Frame)
    (opening : Option Opening) (cs : List Concrete.Node)
    (ho : ∀ o, opening = some o → MayEnterFrom t scopes o.entry) :
    OpenAt t scopes
      (Resolution.visits (fun c => .visit (frame c)) opening cs ++ leavingSteps opening ++ stack) := by
  have frames : ∀ cs : List Concrete.Node,
      cs.map (fun c => Step.visit (frame c)) = (cs.map frame).map .visit := fun cs => by
    rw [List.map_map]
    rfl
  fun_induction Resolution.visits (fun c => .visit (frame c)) opening cs with
  | case1 cs =>
      rw [leavingSteps, List.append_nil, frames]
      exact h.visits _
  | case2 o => exact .enter [] (ho o rfl) h
  | case3 o c cs _ =>
      have h := OpenAt.enter (frame c :: cs.map frame) (ho o rfl) h
      rw [List.map_cons, ← frames] at h
      simpa [leavingSteps] using h
  | case4 o c cs _ ih => exact .visit _ (ih ho)

theorem plan (h : OpenAt t scopes stack) (node : Concrete.Node) (id : NodeId) (context : Context)
    (outline : Outline) (ho : ∀ o, outline.opening = some o → MayEnterFrom t scopes o.entry) :
    OpenAt t scopes (Resolution.plan node id context outline ++ stack) :=
  h.visits_leaving _ outline.opening _ ho

end OpenAt

/-! ### At every step -/

theorem openAt_initialSteps (language : Language) (spelling : String) (parse : Concrete.Parse) :
    OpenAt (State.initial language spelling).scopes (State.initial language spelling).scopes.active
      (initialSteps parse) := by
  have h := OpenAt.file (t := (State.initial language spelling).scopes)
  have hplan := h.plan parse.root Tree.rootId .plain {} nofun
  rwa [List.append_nil] at hplan

/-- **The active scopes are those that are open**, and stay so with each step. -/
theorem openAt_perform {s s' : State} {step : Step} {rest steps : List Step}
    (h : Regular s.scopes ∧ OpenAt s.scopes s.scopes.active (step :: rest))
    (hstep : s.perform language source step = .ok (s', steps)) :
    Regular s'.scopes ∧ OpenAt s'.scopes s'.scopes.active (steps ++ rest) := by
  obtain ⟨hregular, hopen⟩ := h
  have standing := hregular.standing
  have hg := (knows_perform hstep).scopes
  cases step with
  | visit f =>
      obtain ⟨id, outline, hadd, rfl⟩ := perform_visit_eq_ok.1 hstep
      have hactive := (follows_add hadd).active
      obtain ⟨tree, -, rfl, rfl⟩ := add_eq_ok.1 hadd
      refine ⟨hregular.readNode language source ⟨s.tree.size⟩ f, ?_⟩
      rw [hactive]
      refine (hopen.of_visit.grows standing hg).plan _ _ _ _ fun o ho => ?_
      rw [← hactive]
      exact mayEnterFrom_active_iff.2 (hregular.mayEnter ⟨s.tree.size⟩ f ho)
  | enter entry =>
      cases hstep
      -- what the stack enters here it leaves again
      obtain ⟨hentry, inside, outside, rfl, houtside⟩ := hopen.of_enter
      have hmay := mayEnterFrom_active_iff.1 hentry
      obtain ⟨x, hactive, hx⟩ := ScopeEntry.Enters.of_perform hmay
      rw [← scopes_enter] at hactive hx
      rw [hactive, List.nil_append]
      refine ⟨?_, ((houtside.grows standing hg).leave hx).visits inside⟩
      rw [scopes_enter]
      refine hregular.perform fun e kind he => hmay e kind ?_
      cases entry <;> cases he
      rfl
  | leave entry =>
      obtain ⟨hleave, rfl⟩ := perform_leave_eq_ok.1 hstep
      have hscopes := (leave_eq_ok hleave).1
      obtain ⟨x, outer, hactive, hopen⟩ := hopen.of_leave
      -- the file scope is open around every other, so there is one to go back to
      obtain ⟨y, outer, rfl⟩ := List.exists_cons_of_ne_nil hopen.ne_nil
      refine ⟨?_, ?_⟩
      · rw [hscopes]
        show Regular (s.scopes.perform .leave).2
        exact hregular.perform nofun
      · have hactive' : s'.scopes.active = y :: outer := by
          rw [hscopes, Table.active_leave hactive]
        rw [hactive']
        exact hopen.grows standing hg

/-- In every state of a walk the stack leaves the active scopes one after the other. -/
theorem openAt_of_runs {s : State}
    (h : Runs language source (.initial language spelling) (initialSteps parse) s stack) :
    Regular s.scopes ∧ OpenAt s.scopes s.scopes.active stack :=
  h.preserves (P := fun s stack => Regular s.scopes ∧ OpenAt s.scopes s.scopes.active stack)
    openAt_perform
    ⟨regular_initial language spelling, openAt_initialSteps language spelling parse⟩

/-- **An unqualified name is looked up in the open scopes**, at every step of the walk over a parse.
The active scopes are those that are open at what is still to be done.  The climb from the current
scope to its parent and on to the file scope, along which an unqualified name is looked up, visits
the active scopes from the innermost outwards, templates left out on both sides; and every scope
keeps its parent through the rest of the walk, also if its members are entered again. -/
theorem lookup_sees_open_scopes {s : State}
    (h : Runs language source (.initial language spelling) (initialSteps parse) s stack) :
    OpenAt s.scopes s.scopes.active stack ∧
      (∃ visited, s.scopes.Climbs (some s.scopes.current) visited ∧
        visited.getLast? = some Table.fileScope ∧
        s.scopes.plain visited = s.scopes.plain s.scopes.active ∧
        ∀ spaces name, s.scopes.lookup spaces name .lexical =
          visited.findSome? (s.scopes.search spaces name)) ∧
      ∀ s' stack', Runs language source s stack s' stack' →
        ∀ x : ScopeId, x.index < s.scopes.scopes.size → s'.scopes.parent? x = s.scopes.parent? x := by
  obtain ⟨hregular, hopen⟩ := openAt_of_runs h
  have hcurrent := hregular.standing.current
  refine ⟨hopen, ⟨s.scopes.chain s.scopes.current, ?_, ?_, ?_, fun _ _ => rfl⟩,
    fun s' stack' hruns x hx => ?_⟩
  · exact hregular.nested.climbs hcurrent
  · exact hregular.nested.getLast?_chain hcurrent
  · exact hregular.upright.plain_chain_current
  · exact (grows_of_runs hruns).1.parent? hx

/-- The source `namespace n{}template<class T>namespace n{T t;}`. -/
def enclosedSource : ByteArray := "namespace n{}template<class T>namespace n{T t;}".toUTF8

open Concrete.Node in
/-- Its parse. -/
def enclosedParse : Concrete.Parse where
  root := onLine .translationUnit none 0 47
    [onLine .namespaceDefinition none 0 13
      [token "namespace" 0, onLine .namespaceIdentifier (some .name) 10 11 [],
        onLine (.other "declaration_list") (some .body) 11 13 [token "\x7b" 11, token "\x7d" 12]],
      onLine .templateDeclaration none 13 47
        [token "template" 13,
          onLine (.other "template_parameter_list") (some (.other "parameters")) 21 30
            [token "<" 21,
              onLine .typeParameter none 22 29
                [token "class" 22, onLine .typeIdentifier none 28 29 []],
              token ">" 29],
          onLine .namespaceDefinition none 30 47
            [token "namespace" 30, onLine .namespaceIdentifier (some .name) 40 41 [],
              onLine (.other "declaration_list") (some .body) 41 47
                [token "\x7b" 41,
                  onLine .declaration none 42 46
                    [onLine .typeIdentifier (some .type) 42 43 [],
                      onLine .identifier (some .declarator) 44 45 [], token ";" 45],
                  token "\x7d" 46]]]]
  hasError := false

/-- A namespace that is opened again inside a template keeps the file scope for its parent: the
template's scope is open where `T` is read, but is not searched. -/
theorem lookup_sees_open_scopes_reopened : ∃ s stack,
    Runs .cpp enclosedSource (.initial .cpp "t.cpp") (initialSteps enclosedParse) s stack ∧
      s.tree.size = 12 ∧ OpenAt s.scopes [⟨1⟩, ⟨2⟩, ⟨0⟩] stack ∧
      ∃ visited, s.scopes.Climbs (some ⟨1⟩) visited ∧
        visited.getLast? = some Table.fileScope ∧ s.scopes.plain visited = [⟨1⟩, ⟨0⟩] ∧
        ∀ spaces name, s.scopes.lookup spaces name .lexical =
          visited.findSome? (s.scopes.search spaces name) := by
  have hvalue : (stateBefore .cpp enclosedSource ⟨12⟩ 40 (.initial .cpp "t.cpp")
      (initialSteps enclosedParse)).map (fun s => (s.scopes.active, s.scopes.plain s.scopes.active)) =
        some ([⟨1⟩, ⟨2⟩, ⟨0⟩], [⟨1⟩, ⟨0⟩]) := by
    decide +kernel
  obtain ⟨s, hs, hvalue⟩ := Option.map_eq_some_iff.1 hvalue
  obtain ⟨hactive, hplain⟩ := Prod.mk.inj hvalue
  obtain ⟨f, rest, hruns, hsize⟩ := runs_of_stateBefore hs
  obtain ⟨hopen, ⟨visited, hclimbs, hlast, hvisited, hlookup⟩, -⟩ := lookup_sees_open_scopes hruns
  have hcurrent : s.scopes.current = ⟨1⟩ := (List.cons.inj hactive).1
  rw [hcurrent] at hclimbs
  rw [hactive] at hopen
  exact ⟨s, _, hruns, hsize, hopen, visited, hclimbs, hlast, hvisited.trans hplain, hlookup⟩

end TypeUses.Resolution
