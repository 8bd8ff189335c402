import TypeUses.Proofs.Resolution.Contexts
import TypeUses.Proofs.Scope.Nesting

/-!
# Resolution — the table in the course of a walk

A step performs at most one operation on the table of scopes (`scopes_perform`).  The members that a
step enters are those of an entity that was defined when the step was put on the stack
(`opens_of_perform`), so the tables of a walk are `Placed` (`placed_of_runs`).  They are `Nested` as
well (`nested_of_runs`).

The states of a walk follow each other in one order (`Runs.linear`), and the sizes of their trees
tell which of two comes first (`runs_of_size_le`).  A reference becomes pending when its place is
read (`read_of_pending`).
-/

namespace TypeUses.Resolution

variable {language : Language} {source : ByteArray} {s s' : State} {step : Step}
  {stack stack' steps : List Step}

/-! ### What a step does to the table -/

theorem State.Sound.present (hs : s.Sound) : s.scopes.Closed s.scopes.present :=
  hs.scopes.enlarge (fun _ => id) (fun _ => id) (fun _ _ => trivial) (fun _ hx _ => hx)
    fun _ he _ => he

/-- The scopes in which a sound state stands are there. -/
theorem State.Sound.standing (hs : s.Sound) : s.scopes.Standing := hs.present.standing

/-- What defines an entity is a definition. -/
theorem State.Sound.definition (hs : s.Sound) {e : EntityId} {d : NodeId}
    (hd : s.scopes.definition? e = some d) : s.tree.IsDefinition d := by
  obtain ⟨info, hi, -⟩ := Table.definition?_eq_some_iff.1 hd
  exact hs.scopes.definition (Table.lt_of_entity? hi) hd

/-- **A step performs at most one operation.**  It enters the members of an entity if it is there to
do so, and makes them visible if it reads a name in a directive. -/
theorem scopes_perform (h : s.perform language source step = .ok (s', steps)) :
    s'.scopes = s.scopes ∨ ∃ op : Operation, s'.scopes = (s.scopes.perform op).2 ∧
      (∀ e kind, op = .enterMembers e kind → step = .enter (.members e kind)) ∧
      ∀ e, op = .useNamespace e → ∃ f, step = .visit f ∧ f.context.role = .usedNamespace ∧
        (readNode language source s.scopes ⟨s.tree.size⟩ f).entity = some e := by
  cases step with
  | visit f =>
      obtain ⟨id, outline, hadd, -⟩ := perform_visit_eq_ok.1 h
      obtain ⟨tree, -, rfl, -⟩ := add_eq_ok.1 hadd
      have hread := readAs_readNode language source s.scopes ⟨s.tree.size⟩ f
      show (readNode language source s.scopes ⟨s.tree.size⟩ f).scopes = _ ∨ _
      generalize hr : readNode language source s.scopes ⟨s.tree.size⟩ f = r at hread
      cases hread with
      | plain | defines | refers => exact Or.inl rfl
      | binds op hop =>
          exact Or.inr ⟨op, rfl, by rcases hop with ⟨space, rfl⟩ | rfl <;> nofun,
            by rcases hop with ⟨space, rfl⟩ | rfl <;> nofun⟩
      | declares | introduces => exact Or.inr ⟨_, rfl, nofun, nofun⟩
      | uses _ hrole =>
          exact Or.inr ⟨_, rfl, nofun, by rintro _ ⟨⟩; exact ⟨f, rfl, hrole, by rw [hr]; rfl⟩⟩
  | enter entry =>
      cases h
      exact Or.inr ⟨_, scopes_enter s entry, by cases entry <;> rintro _ _ ⟨⟩; rfl,
        by cases entry <;> nofun⟩
  | leave entry =>
      obtain ⟨hscopes, -⟩ := leave_eq_ok (perform_leave_eq_ok.1 h).1
      exact Or.inr ⟨.leave, hscopes, nofun, nofun⟩

/-- A step that is put on the stack to enter members enters those of the entity that the node
defines that is read. -/
theorem opens_of_perform (h : s.perform language source step = .ok (s', steps)) {e : EntityId}
    {kind : ScopeKind} (hmem : .enter (.members e kind) ∈ steps) :
    ∃ f, step = .visit f ∧ ∃ op : Operation, op.node? = some ⟨s.tree.size⟩ ∧
      (s.scopes.perform op).1 = .entity e ∧ s'.scopes = (s.scopes.perform op).2 ∧
      ∃ kind name, op.kind? = some kind ∧
        (readNode language source s.scopes ⟨s.tree.size⟩ f).content = .definition ⟨kind, name⟩ := by
  cases step with
  | visit f =>
      obtain ⟨id, outline, hadd, rfl⟩ := perform_visit_eq_ok.1 h
      obtain ⟨tree, -, rfl, rfl⟩ := add_eq_ok.1 hadd
      have hread := readAs_readNode language source s.scopes ⟨s.tree.size⟩ f
      rcases mem_plan hmem with ⟨c, -, he⟩ | ⟨o, ho, he | he⟩
      · cases he
      · have hentity : o.entry.entity? = some e := by rw [← Step.enter.inj he]; rfl
        obtain ⟨op, -, hnode, hanswer, hscopes, hcontent⟩ := hread.opening ho hentity
        exact ⟨f, rfl, op, hnode, hanswer, hscopes, hcontent⟩
      · cases he
  | enter => cases h; cases hmem
  | leave =>
      obtain ⟨-, rfl⟩ := perform_leave_eq_ok.1 h
      cases hmem

/-- A step takes nothing back from the table, and nodes that it makes definitions are new. -/
theorem grows_of_perform (h : s.perform language source step = .ok (s', steps)) :
    s.scopes.Grows (fun d => s.tree.size ≤ d.index) s'.scopes := by
  cases step with
  | visit f =>
      obtain ⟨id, outline, hadd, -⟩ := perform_visit_eq_ok.1 h
      exact (follows_add hadd).scopes
  | enter entry =>
      cases h
      rw [scopes_enter]
      exact Table.grows_perform (by cases entry <;> nofun)
  | leave entry =>
      obtain ⟨hscopes, -⟩ := leave_eq_ok (perform_leave_eq_ok.1 h).1
      rw [hscopes]
      exact Table.grows_leave _ _

/-! ### Runs -/

/-- A run takes nothing back. -/
theorem grows_of_runs (h : Runs language source s stack s' stack') :
    s.scopes.Grows (fun d => s.tree.size ≤ d.index) s'.scopes ∧ s.tree.Grows s'.tree :=
  h.preserves
    (P := fun s₁ _ => s.scopes.Grows (fun d => s.tree.size ≤ d.index) s₁.scopes ∧
      s.tree.Grows s₁.tree)
    (fun ⟨hscopes, htree⟩ hstep =>
      ⟨hscopes.trans ((grows_of_perform hstep).mono fun _ => Nat.le_trans htree.size_le),
        htree.trans (knows_perform hstep).tree⟩)
    ⟨.refl _ _, .refl _⟩

/-- What is pending stays so. -/
theorem pending_of_runs (h : Runs language source s stack s' stack') {p : NodeId × EntityId}
    (hp : p ∈ s.pending) : p ∈ s'.pending := by
  refine h.preserves (P := fun s₁ _ => p ∈ s₁.pending) (fun {s₁ step _ s₂ _} hp hstep => ?_) hp
  cases step with
  | visit f =>
      obtain ⟨id, outline, hadd, -⟩ := perform_visit_eq_ok.1 hstep
      exact (follows_add hadd).pending.of_mem hp
  | enter entry => cases hstep; rwa [pending_enter]
  | leave entry =>
      obtain ⟨-, hpending, -⟩ := leave_eq_ok (perform_leave_eq_ok.1 hstep).1
      rwa [hpending]

namespace Runs

variable {s₁ s₂ : State} {stack₁ stack₂ : List Step}

/-- **The states of a walk have one order.** -/
theorem linear (h₁ : Runs language source s stack s₁ stack₁)
    (h₂ : Runs language source s stack s₂ stack₂) :
    Runs language source s₁ stack₁ s₂ stack₂ ∨ Runs language source s₂ stack₂ s₁ stack₁ := by
  induction h₁ with
  | refl => exact Or.inl h₂
  | more hstep hruns ih =>
      cases h₂ with
      | refl => exact Or.inr (.more hstep hruns)
      | more hstep' hruns' =>
          cases hstep.symm.trans hstep'
          exact ih hruns'

end Runs

/-- A visit makes the tree larger. -/
theorem lt_of_visit {s₁ s₂ : State} {f : Frame} (hstep : s.perform language source (.visit f) =
      .ok (s₁, steps)) (h : Runs language source s₁ stack s₂ stack') :
    s.tree.size < s₂.tree.size := by
  obtain ⟨id, outline, hadd, -⟩ := perform_visit_eq_ok.1 hstep
  have hle := (grows_of_runs h).2.size_le
  rw [(size_add hadd).2] at hle
  omega

/-- Of two states of a walk the one whose tree is not larger comes first, if the other is about to
visit a node. -/
theorem runs_of_size_le {s₁ s₂ : State} {stack₁ rest : List Step} {f : Frame}
    (h₁ : Runs language source s stack s₁ stack₁)
    (h₂ : Runs language source s stack s₂ (.visit f :: rest))
    (hsize : s₁.tree.size ≤ s₂.tree.size) :
    Runs language source s₁ stack₁ s₂ (.visit f :: rest) := by
  rcases h₁.linear h₂ with h | h
  · exact h
  · cases h with
    | refl => exact .refl _ _
    | more hstep hruns => exact absurd hsize (Nat.not_le.2 (lt_of_visit hstep hruns))

/-- A visit is told by the size of the tree. -/
theorem visit_unique {s₁ s₂ : State} {f₁ f₂ : Frame} {rest₁ rest₂ : List Step}
    (h₁ : Runs language source s stack s₁ (.visit f₁ :: rest₁))
    (h₂ : Runs language source s stack s₂ (.visit f₂ :: rest₂))
    (hsize : s₁.tree.size = s₂.tree.size) : s₁ = s₂ ∧ f₁ = f₂ := by
  cases runs_of_size_le h₁ h₂ (Nat.le_of_eq hsize) with
  | refl => exact ⟨rfl, rfl⟩
  | more hstep hruns => exact absurd hsize (Nat.ne_of_lt (lt_of_visit hstep hruns))

/-- What is visited in a part of the walk has a number below the size of the tree at its end. -/
theorem lt_of_runs_visit {s₁ : State} {f : Frame} {rest : List Step}
    (h₁ : Runs language source s stack s₁ (.visit f :: rest))
    (h₂ : Runs language source s stack s' []) : s₁.tree.size < s'.tree.size := by
  rcases h₁.linear h₂ with h | h
  · cases h with
    | more hstep hruns => exact lt_of_visit hstep hruns
  · cases h

/-! ### The walk over a parse -/

section Parse
variable {spelling : String} {parse : Concrete.Parse}

/-- **The tables of a walk have each entity in its place**, and members that are still to be entered
are those of a defined entity. -/
theorem placed_of_runs
    (h : Runs language source (.initial language spelling) (initialSteps parse) s stack) :
    s.scopes.Placed ∧ ∀ e kind, .enter (.members e kind) ∈ stack →
      ∃ d, s.scopes.definition? e = some d := by
  refine h.along (P := fun s stack => s.scopes.Placed ∧ ∀ e kind, .enter (.members e kind) ∈ stack →
    ∃ d, s.scopes.definition? e = some d) (fun {s step _ s' steps} hruns hs hstep => ?_)
    ⟨.empty _, fun e kind hmem => ?_⟩
  · obtain ⟨hplaced, hstack⟩ := hs
    have standing := (sound_of_parse hruns).1.standing
    refine ⟨?_, fun e kind hmem => ?_⟩
    · rcases scopes_perform hstep with he | ⟨op, he, hop, -⟩ <;> rw [he]
      · exact hplaced
      · exact hplaced.perform standing fun e kind ho =>
          hstack e kind (hop e kind ho ▸ List.mem_cons_self)
    · rcases List.mem_append.1 hmem with hmem | hmem
      · obtain ⟨_, -, op, hnode, hanswer, he, -⟩ := opens_of_perform hstep hmem
        rw [he]
        exact (Table.defined_of_answer standing hanswer hnode).1
      · obtain ⟨d, hd⟩ := hstack e kind (List.mem_cons_of_mem _ hmem)
        exact ⟨d, (knows_perform hstep).scopes.definition hd⟩
  · rcases mem_plan hmem with ⟨c, -, he⟩ | ⟨o, ho, -⟩
    · cases he
    · cases ho

/-- **The scopes of a walk are nested**, and a definition is bound in the innermost active scope that
is not a template's. -/
theorem nested_of_runs
    (h : Runs language source (.initial language spelling) (initialSteps parse) s stack) :
    s.scopes.Nested ∧ s.scopes.InnermostPlain s.scopes.bindingScope := by
  have hnested : s.scopes.Nested := by
    refine h.along (P := fun s _ => s.scopes.Nested) (fun {s step _ s' steps} hruns hs hstep => ?_)
      (.empty _)
    rcases scopes_perform hstep with he | ⟨op, he, -⟩ <;> rw [he]
    · exact hs
    · exact hs.perform (sound_of_parse hruns).1.standing op
  have hinitial : (State.initial language spelling).scopes.scope? Table.fileScope =
    some ⟨.file, [], [], []⟩ := rfl
  obtain ⟨file, hfile, hkind, -⟩ := (grows_of_runs h).1.scope hinitial
  exact ⟨hnested, hnested.innermostPlain hfile (by rw [hkind]; nofun)⟩

/-- A defined entity keeps its kind. -/
theorem kind?_of_runs
    (hruns : Runs language source (.initial language spelling) (initialSteps parse) s stack)
    (h : Runs language source s stack s' stack') {e : EntityId} {d : NodeId}
    (hd : s.scopes.definition? e = some d) : s'.scopes.kind? e = s.scopes.kind? e := by
  refine h.along (P := fun s₁ _ => s₁.scopes.kind? e = s.scopes.kind? e)
    (fun {s₁ step rest s₂ steps} hr hk hstep => ?_) rfl
  rcases scopes_perform hstep with he | ⟨op, he, -⟩ <;> rw [he]
  · exact hk
  · rw [Table.kind?_of_defined (sound_of_parse (hruns.trans hr)).1.standing
      ((grows_of_runs hr).1.definition hd), hk]

/-- The walk over the parse reads the place in the context. -/
def ReadIn (language : Language) (source : ByteArray) (spelling : String) (parse : Concrete.Parse)
    (q : Place) (context : Context) : Prop :=
  ∃ s rest, Runs language source (.initial language spelling) (initialSteps parse) s
    (.visit ⟨q.node, q.outer, q.parent, context⟩ :: rest) ∧ s.tree.size = q.id.index

/-- **A reference is pending from its place on**: its entity is what the place is read as. -/
theorem read_of_pending (hroot : parse.root.kind = .translationUnit ∨ parse.root.kind = .error)
    (h : Runs language source (.initial language spelling) (initialSteps parse) s stack)
    {p : NodeId × EntityId} (hp : p ∈ s.pending) :
    ∃ q ∈ places parse, q.id = p.1 ∧ ∃ s₁ context rest,
      Runs language source (.initial language spelling) (initialSteps parse) s₁
        (.visit ⟨q.node, q.outer, q.parent, context⟩ :: rest) ∧
      s₁.tree.size = q.id.index ∧
      (readNode language source s₁.scopes ⟨s₁.tree.size⟩
        ⟨q.node, q.outer, q.parent, context⟩).entity = some p.2 := by
  refine h.along
    (P := fun s _ => ∀ p ∈ s.pending, ∃ q ∈ places parse, q.id = p.1 ∧ ∃ s₁ context rest,
      Runs language source (.initial language spelling) (initialSteps parse) s₁
        (.visit ⟨q.node, q.outer, q.parent, context⟩ :: rest) ∧
      s₁.tree.size = q.id.index ∧
      (readNode language source s₁.scopes ⟨s₁.tree.size⟩
        ⟨q.node, q.outer, q.parent, context⟩).entity = some p.2)
    (fun {s step _ s' steps} hruns hs hstep p hp => ?_) nofun p hp
  cases step with
  | visit f =>
      obtain ⟨⟨q, hq, hid, hnode, houter, hparent, -⟩, -⟩ := aligned_of_runs hroot hruns
      obtain ⟨id, outline, hadd, -⟩ := perform_visit_eq_ok.1 hstep
      obtain ⟨rfl, -⟩ := size_add hadd
      obtain ⟨tree, -, rfl, -⟩ := add_eq_ok.1 hadd
      rcases State.mem_pending_record hp with hp | ⟨e, he, rfl⟩
      · exact hs p hp
      · have hframe : f = ⟨q.node, q.outer, q.parent, f.context⟩ := by
          rw [← hnode, ← houter, ← hparent]
        rw [hframe] at hruns he
        exact ⟨q, hq, hid, s, f.context, _, hruns, by rw [hid], he⟩
  | enter entry => cases hstep; exact hs p (by rwa [pending_enter] at hp)
  | leave entry =>
      obtain ⟨-, hpending, -⟩ := leave_eq_ok (perform_leave_eq_ok.1 hstep).1
      exact hs p (hpending ▸ hp)

end Parse

end TypeUses.Resolution
