import TypeUses.Proofs.Resolution.Following

/-!
# Resolution — states without dangling numbers

A state is `Sound` if every number in it is the number of something: what the table says of scopes,
entities and definitions does not lead out of what there is (`State.known`), what is pending are
references without a target, each once, and entities, and the functions note labels and `goto`s.  A
step is `Sound` in a state if the node under which it adds and the entity that it is about
(`Step.In`) are there.

* `sound_perform`: a step that is performed keeps the state sound, and so are the steps that it puts
  on the stack; the steps that are left stay sound (`Step.Sound.mono`).
* `sound_of_runs`: so every run from a sound state and sound steps, and the walk over a parse with
  all its states (`sound_of_parse`).
* `Sound.exists_finish`: what a sound state has still to link can be linked.
-/

namespace TypeUses.Resolution

variable {language : Language} {source : ByteArray}

/-! ### Sound states and steps -/

/-- The scopes and entities that there are, and the nodes that define. -/
def State.known (s : State) : Realm where
  scope x := x.index < s.scopes.scopes.size
  entity e := e.index < s.scopes.entities.size
  node d := s.tree.IsDefinition d

/-- Every number in the state is that of something which is there. -/
structure State.Sound (s : State) : Prop where
  scopes : s.scopes.Closed s.known
  pending : ∀ p ∈ s.pending, p.2.index < s.scopes.entities.size ∧
    ∃ r, s.tree.content? p.1 = some (.reference r) ∧ r.kind ≠ .label ∧ r.target = none
  order : s.pending.Pairwise fun p q => q.1.index < p.1.index
  labels : ∀ frame ∈ s.functions, ∀ l ∈ frame.labels,
    s.tree.content? l.2 = some (.definition ⟨.label, l.1⟩)
  gotos : ∀ frame ∈ s.functions, ∀ g ∈ frame.gotos,
    ∃ r, s.tree.content? g.1 = some (.reference r) ∧ r.kind = .label ∧ r.spelling = g.2

/-- What a step is about lies in the realm. -/
def Step.In (A : Realm) : Step → Prop
  | .visit f => f.context.lookup.In A
  | .enter entry => ∀ e, entry.entity? = some e → A.entity e
  | .leave _ => True

/-- What the step is about, and the node under which it adds, are there. -/
structure Step.Sound (s : State) (step : Step) : Prop where
  known : step.In s.known
  parent : ∀ f, step = .visit f → f.parent.index < s.tree.size

/-- What there is stays when the table and the tree grow. -/
structure State.Knows (s s' : State) : Prop where
  scopes : s.scopes.Grows (fun _ => True) s'.scopes
  tree : s.tree.Grows s'.tree

theorem lookup_in_mono {A B : Realm} (h : ∀ e, A.entity e → B.entity e) {look : Lookup}
    (hl : look.In A) : look.In B := by
  simp only [Lookup.In] at hl ⊢
  split at hl
  · exact h _ hl
  all_goals trivial

theorem Step.In.mono {A B : Realm} (h : ∀ e, A.entity e → B.entity e) {step : Step}
    (hstep : step.In A) : step.In B := by
  cases step with
  | visit f => exact lookup_in_mono h hstep
  | enter entry => exact fun e he => h e (hstep e he)
  | leave => trivial

theorem Step.Sound.mono {s s' : State} (h : s.Knows s') {step : Step} (hstep : step.Sound s) :
    step.Sound s' where
  known := hstep.known.mono fun _ he => Nat.lt_of_lt_of_le he h.scopes.entities_le
  parent f hf := Nat.lt_of_lt_of_le (hstep.parent f hf) h.tree.size_le

/-- What is known in a state is known in a later one. -/
theorem State.Knows.closed {s s' : State} (h : s.Knows s') (hs : s.scopes.Closed s.known) :
    s.scopes.Closed s'.known :=
  hs.enlarge (fun _ hx => Nat.lt_of_lt_of_le hx h.scopes.scopes_le)
    (fun _ he => Nat.lt_of_lt_of_le he h.scopes.entities_le) (fun _ hd => hd.grows h.tree)
    (fun _ _ hlt => hlt) (fun _ _ hlt => hlt)

/-! ### Adding a node -/

/-- A step for the children of a node visits one of them, or enters or leaves the scope of the
node. -/
theorem mem_plan {node : Concrete.Node} {id : NodeId} {context : Context} {outline : Outline}
    {step : Step} (h : step ∈ plan node id context outline) :
    (∃ c ∈ node.keptChildren, step = .visit ⟨c, node, id, childContext node context outline c⟩) ∨
      ∃ o, outline.opening = some o ∧ (step = .enter o.entry ∨ step = .leave o.entry) := by
  have visits : ∀ (visit : Concrete.Node → Step) (o : Option Opening) (cs : List Concrete.Node),
      step ∈ visits visit o cs →
        (∃ c ∈ cs, step = visit c) ∨ ∃ o', o = some o' ∧ step = .enter o'.entry := by
    intro visit o cs hmem
    fun_induction Resolution.visits visit o cs with
    | case1 cs =>
        obtain ⟨c, hc, rfl⟩ := List.mem_map.1 hmem
        exact Or.inl ⟨c, hc, rfl⟩
    | case2 o => exact Or.inr ⟨o, rfl, List.mem_singleton.1 hmem⟩
    | case3 o c rest _ =>
        rcases List.mem_cons.1 hmem with rfl | hmem
        · exact Or.inr ⟨o, rfl, rfl⟩
        · have hmem : step ∈ (c :: rest).map visit := hmem
          obtain ⟨c', hc, rfl⟩ := List.mem_map.1 hmem
          exact Or.inl ⟨c', hc, rfl⟩
    | case4 o c rest _ ih =>
        rcases List.mem_cons.1 hmem with rfl | hmem
        · exact Or.inl ⟨c, List.mem_cons_self, rfl⟩
        · rcases ih hmem with ⟨c', hc, he⟩ | hr
          · exact Or.inl ⟨c', List.mem_cons_of_mem _ hc, he⟩
          · exact Or.inr hr
  rcases List.mem_append.1 h with h | h
  · rcases visits _ _ _ h with hl | ⟨o, ho, he⟩
    · exact Or.inl hl
    · exact Or.inr ⟨o, ho, Or.inl he⟩
  · simp only [leavingSteps] at h
    split at h
    · next o ho => exact Or.inr ⟨o, ho, Or.inr (List.mem_singleton.1 h)⟩
    · cases h

/-- The steps for a node's children lie in a realm if what its reading leaves for them does. -/
theorem in_plan {A : Realm} {node : Concrete.Node} {id : NodeId} {context : Context}
    {outline : Outline} (hlook : context.lookup.In A) (hqualifier : outline.qualifier.In A)
    (hopen : ∀ o e, outline.opening = some o → o.entry.entity? = some e → A.entity e) :
    ∀ step ∈ plan node id context outline, step.In A := by
  intro step hstep
  rcases mem_plan hstep with ⟨c, -, rfl⟩ | ⟨o, ho, rfl | rfl⟩
  · show Lookup.In A _
    rcases lookup_childContext node context outline c with he | he | he <;> rw [he]
    · trivial
    · exact hlook
    · exact hqualifier
  · exact fun e he => hopen o e ho he
  · trivial

theorem knows_add {s s' : State} {f : Frame} {id : NodeId} {outline : Outline}
    (h : s.add language source f = .ok (s', id, outline)) : s.Knows s' := by
  have hf := follows_add h
  exact ⟨hf.scopes.mono fun _ _ => trivial, hf.tree.grows⟩

/-- The labels and `goto`s of the functions after a node is noted are the old ones and the node. -/
theorem mem_noteLabel {frames : List LabelFrame} {id : NodeId} {c : Content} {frame : LabelFrame}
    (h : frame ∈ State.noteLabel frames id c) :
    ∃ old ∈ frames,
      (∀ l ∈ frame.labels, l ∈ old.labels ∨ l.2 = id ∧ c = .definition ⟨.label, l.1⟩) ∧
      ∀ g ∈ frame.gotos, g ∈ old.gotos ∨
        g.1 = id ∧ ∃ target, c = .reference ⟨.label, g.2, target⟩ := by
  cases frames with
  | nil => cases h
  | cons top rest =>
      rcases List.mem_cons.1 h with rfl | h
      · refine ⟨top, List.mem_cons_self, ?_⟩
        rcases top.note_cases id c with he | ⟨name, hc, he⟩ | ⟨spelling, target, hc, he⟩ <;> rw [he]
        · exact ⟨fun _ => Or.inl, fun _ => Or.inl⟩
        · refine ⟨fun l hl => ?_, fun _ => Or.inl⟩
          rcases List.mem_cons.1 hl with rfl | hl
          · exact Or.inr ⟨rfl, hc⟩
          · exact Or.inl hl
        · refine ⟨fun _ => Or.inl, fun g hg => ?_⟩
          rcases List.mem_cons.1 hg with rfl | hg
          · exact Or.inr ⟨rfl, target, hc⟩
          · exact Or.inl hg
      · exact ⟨frame, List.mem_cons_of_mem _ h, fun _ => Or.inl, fun _ => Or.inl⟩

/-- An addition keeps the state sound, and the steps for the node's children are sound. -/
theorem sound_add {s s' : State} {f : Frame} {id : NodeId} {outline : Outline} (hs : s.Sound)
    (hlook : f.context.lookup.In s.known)
    (h : s.add language source f = .ok (s', id, outline)) :
    s'.Sound ∧ ∀ step ∈ plan f.node id f.context outline, step.Sound s' := by
  have knows := knows_add h
  have follows := follows_add h
  obtain ⟨tree, htree, rfl, rfl⟩ := add_eq_ok.1 h
  obtain ⟨-, rfl, -⟩ := Tree.push?_eq_ok.1 htree
  have hread := readAs_readNode language source s.scopes ⟨s.tree.size⟩ f
  generalize readNode language source s.scopes ⟨s.tree.size⟩ f = r at hread htree knows follows
  have new : tree.content? ⟨s.tree.size⟩ = some r.content := by
    rw [Tree.content?_of_push? htree, if_pos rfl]
  have old : ∀ {x c}, s.tree.content? x = some c → tree.content? x = some c := fun hx =>
    (follows.tree.content _ (Tree.lt_size_of_content? hx)).trans hx
  have hlook' : f.context.lookup.In (s.record tree ⟨s.tree.size⟩ r).known :=
    lookup_in_mono (fun e he => Nat.lt_of_lt_of_le he knows.scopes.entities_le) hlook
  -- the reading stays in what is known once the node is added, which it may define
  obtain ⟨closed, entity, opens, qualifier⟩ := hread.closed (knows.closed hs.scopes) hlook'
    (fun hd => by
      cases hc : r.content with
      | definition e => exact ⟨e, new.trans (congrArg some hc)⟩
      | translationUnit | declaration | reference | other => rw [hc] at hd; cases hd)
    (fun hlt => hlt)
  refine ⟨⟨closed, fun p hp => ?_, ?_, fun frame hframe l hl => ?_, fun frame hframe g hg => ?_⟩,
    ?_⟩
  · rcases State.mem_pending_record hp with hp | ⟨e, he, rfl⟩
    · obtain ⟨he, ref, hr, hk⟩ := hs.pending p hp
      exact ⟨Nat.lt_of_lt_of_le he knows.scopes.entities_le, ref, old hr, hk⟩
    · obtain ⟨kind, hkind, hc⟩ := hread.entity he
      exact ⟨entity e he, _, new.trans (congrArg some hc), hkind, rfl⟩
  · rcases s.pending_record tree ⟨s.tree.size⟩ r with hr | ⟨e, -, hr⟩
    · rw [hr]
      exact hs.order
    · rw [hr]
      -- the node is behind all that were pending before
      refine List.pairwise_cons.2 ⟨fun p hp => ?_, hs.order⟩
      obtain ⟨-, ref, href, -⟩ := hs.pending p hp
      exact Tree.lt_size_of_content? href
  · obtain ⟨top, htop, hlabels, -⟩ := mem_noteLabel hframe
    rcases hlabels l hl with hl | ⟨he, hc⟩
    · exact old (hs.labels top htop l hl)
    · rw [he]; exact new.trans (congrArg some hc)
  · obtain ⟨top, htop, -, hgotos⟩ := mem_noteLabel hframe
    rcases hgotos g hg with hg | ⟨he, target, hc⟩
    · obtain ⟨ref, hr, hk⟩ := hs.gotos top htop g hg
      exact ⟨ref, old hr, hk⟩
    · rw [he]; exact ⟨_, new.trans (congrArg some hc), rfl, rfl⟩
  · intro step hstep
    refine ⟨in_plan hlook' qualifier opens step hstep, fun g hg => ?_⟩
    rcases mem_plan hstep with ⟨c, -, rfl⟩ | ⟨o, -, rfl | rfl⟩ <;> cases hg
    exact Tree.lt_size_of_content? new

/-! ### Entering and leaving a scope -/

theorem knows_enter (s : State) (entry : ScopeEntry) : s.Knows (s.enter entry) where
  scopes := by rw [scopes_enter]; exact Table.keeps_perform _ _
  tree := by rw [tree_enter]; exact .refl _

theorem sound_enter {s : State} {entry : ScopeEntry} (hs : s.Sound)
    (hentry : ∀ e, entry.entity? = some e → s.known.entity e) : (s.enter entry).Sound := by
  have knows := knows_enter s entry
  have functions : ∀ frame ∈ (s.enter entry).functions, frame = {} ∨ frame ∈ s.functions := by
    intro frame hframe
    rw [functions_enter] at hframe
    split at hframe
    · exact List.mem_cons.1 hframe
    · exact Or.inr hframe
  refine ⟨?_, fun p hp => ?_, by rw [pending_enter]; exact hs.order, fun frame hframe l hl => ?_,
    fun frame hframe g hg => ?_⟩
  · -- a new scope or entity is known afterwards, since it is in the table
    have closed := knows.closed hs.scopes
    generalize hA : (s.enter entry).known = A at closed ⊢
    rw [scopes_enter]
    refine closed.perform (fun e he => ?_) (by cases entry <;> nofun) (fun hlt => ?_) fun hlt => ?_
    · rw [← hA]
      refine Nat.lt_of_lt_of_le (hentry e ?_) knows.scopes.entities_le
      cases entry <;> cases he
      rfl
    · rw [← hA]; rwa [← scopes_enter] at hlt
    · rw [← hA]; rwa [← scopes_enter] at hlt
  · rw [pending_enter] at hp
    obtain ⟨he, hr⟩ := hs.pending p hp
    rw [tree_enter]
    exact ⟨Nat.lt_of_lt_of_le he knows.scopes.entities_le, hr⟩
  · rw [tree_enter]
    rcases functions frame hframe with rfl | hframe
    · cases hl
    · exact hs.labels frame hframe l hl
  · rw [tree_enter]
    rcases functions frame hframe with rfl | hframe
    · cases hg
    · exact hs.gotos frame hframe g hg

/-- The links of a function lead from `goto`s to labels of the same name. -/
theorem State.Sound.links_frame {s : State} (hs : s.Sound) {frame : LabelFrame}
    (hframe : frame ∈ s.functions) {goto label : NodeId} (hl : (goto, label) ∈ frame.links) :
    ∃ r, s.tree.content? goto = some (.reference r) ∧ r.kind = .label ∧
      s.tree.content? label = some (.definition ⟨.label, r.spelling⟩) ∧
      (r.spelling, label) ∈ frame.labels := by
  obtain ⟨name, hg, hlabel⟩ := LabelFrame.mem_links.1 hl
  obtain ⟨r, hr, hk, rfl⟩ := hs.gotos frame hframe _ hg
  obtain ⟨_, _, he, -⟩ := List.lookup_eq_some_iff.1 hlabel
  have hmem : (r.spelling, label) ∈ frame.labels :=
    he ▸ List.mem_append_right _ List.mem_cons_self
  exact ⟨r, hr, hk, hs.labels frame hframe _ hmem, hmem⟩

theorem knows_leave {s s' : State} {entry : ScopeEntry} (h : s.leave entry = .ok s') :
    s.Knows s' := by
  obtain ⟨hscopes, -, htree⟩ := leave_eq_ok h
  refine ⟨by rw [hscopes]; exact Table.grows_leave _ _, ?_⟩
  rcases htree with ⟨ht, -⟩ | ⟨frame, -, -, hl⟩
  · rw [ht]; exact .refl _
  · exact hl.grows

/-- Leaving a scope keeps the state sound. -/
theorem sound_leave {s s' : State} {entry : ScopeEntry} (hs : s.Sound)
    (h : s.leave entry = .ok s') : s'.Sound := by
  have knows := knows_leave h
  obtain ⟨hscopes, hpending, htree⟩ := leave_eq_ok h
  have functions : ∀ frame ∈ s'.functions, frame ∈ s.functions := by
    intro frame hframe
    rcases htree with ⟨-, hf, -⟩ | ⟨top, -, hf, -⟩
    · rwa [← hf]
    · rw [hf]; exact List.mem_cons_of_mem _ hframe
  refine ⟨?_, fun p hp => ?_, by rw [hpending]; exact hs.order, fun frame hframe l hl => ?_,
    fun frame hframe g hg => ?_⟩
  · have closed := knows.closed hs.scopes
    generalize s'.known = A at closed ⊢
    rw [hscopes]
    exact closed.leave
  · rw [hpending] at hp
    obtain ⟨he, r, hr, hk, ht⟩ := hs.pending p hp
    refine ⟨Nat.lt_of_lt_of_le he knows.scopes.entities_le, r, ?_, hk, ht⟩
    rcases htree with ⟨ht, -⟩ | ⟨frame, -, hf, hl⟩
    · rw [ht, hr]
    · -- only `goto`s are linked, which are references to labels
      refine (hl.content_eq fun d hd => ?_).trans hr
      obtain ⟨r', hr', hk', -⟩ := hs.links_frame (hf ▸ List.mem_cons_self) hd
      cases hr.symm.trans hr'
      exact hk hk'
  · exact knows.tree.definition (hs.labels frame (functions frame hframe) l hl)
  · obtain ⟨r, hr, hk, hn⟩ := hs.gotos frame (functions frame hframe) g hg
    obtain ⟨target, ht⟩ := knows.tree.reference hr
    exact ⟨_, ht, hk, hn⟩

/-! ### Steps and runs -/

/-- A visit adds the node and puts the steps for its children on the stack. -/
theorem perform_visit_eq_ok {s s' : State} {f : Frame} {steps : List Step} :
    s.perform language source (.visit f) = .ok (s', steps) ↔
      ∃ id outline, s.add language source f = .ok (s', id, outline) ∧
        steps = plan f.node id f.context outline := by
  rw [State.perform]
  cases s.add language source f with
  | error => simp [Except.map]
  | ok p =>
      obtain ⟨s₁, id, outline⟩ := p
      simp only [Except.map, Except.ok.injEq, Prod.mk.injEq]
      refine ⟨fun ⟨hs, hp⟩ => ⟨id, outline, ⟨hs, rfl, rfl⟩, hp.symm⟩, ?_⟩
      rintro ⟨_, _, ⟨hs, rfl, rfl⟩, hp⟩
      exact ⟨hs, hp.symm⟩

theorem perform_leave_eq_ok {s s' : State} {entry : ScopeEntry} {steps : List Step} :
    s.perform language source (.leave entry) = .ok (s', steps) ↔
      s.leave entry = .ok s' ∧ steps = [] := by
  rw [State.perform]
  cases s.leave entry with
  | error => simp [Except.map]
  | ok => simp [Except.map, eq_comm]

/-- A step takes nothing back. -/
theorem knows_perform {s s' : State} {step : Step} {steps : List Step}
    (h : s.perform language source step = .ok (s', steps)) : s.Knows s' := by
  cases step with
  | visit f =>
      obtain ⟨id, outline, hadd, -⟩ := perform_visit_eq_ok.1 h
      exact knows_add hadd
  | enter entry => cases h; exact knows_enter s entry
  | leave entry => exact knows_leave (perform_leave_eq_ok.1 h).1

/-- **A step keeps the state sound**, and so are the steps that it puts on the stack and those
that are left. -/
theorem sound_perform {s s' : State} {step : Step} {rest steps : List Step}
    (h : s.Sound ∧ ∀ x ∈ step :: rest, x.Sound s)
    (hstep : s.perform language source step = .ok (s', steps)) :
    s'.Sound ∧ ∀ x ∈ steps ++ rest, x.Sound s' := by
  obtain ⟨hs, hstack⟩ := h
  have here := hstack step List.mem_cons_self
  have left : ∀ x ∈ rest, x.Sound s' := fun x hx =>
    (hstack x (List.mem_cons_of_mem _ hx)).mono (knows_perform hstep)
  have split : ∀ {xs ys : List Step}, (∀ x ∈ xs, x.Sound s') → (∀ x ∈ ys, x.Sound s') →
      ∀ x ∈ xs ++ ys, x.Sound s' := fun hx hy x h => (List.mem_append.1 h).elim (hx x) (hy x)
  cases step with
  | visit f =>
      obtain ⟨id, outline, hadd, rfl⟩ := perform_visit_eq_ok.1 hstep
      obtain ⟨hs', hplan⟩ := sound_add hs here.known hadd
      exact ⟨hs', split hplan left⟩
  | enter entry =>
      cases hstep
      exact ⟨sound_enter hs here.known, left⟩
  | leave entry =>
      obtain ⟨hleave, rfl⟩ := perform_leave_eq_ok.1 hstep
      exact ⟨sound_leave hs hleave, left⟩

/-- Every run from a sound state, with sound steps on the stack, leads to such a state and stack. -/
theorem sound_of_runs {s s' : State} {stack stack' : List Step}
    (h : Runs language source s stack s' stack') (hs : s.Sound) (hstack : ∀ x ∈ stack, x.Sound s) :
    s'.Sound ∧ ∀ x ∈ stack', x.Sound s' :=
  h.preserves (P := fun s stack => s.Sound ∧ ∀ x ∈ stack, x.Sound s) sound_perform ⟨hs, hstack⟩

/-- The links that a sound state has still to make succeed. -/
theorem State.Sound.exists_finish {s : State} (h : s.Sound) : ∃ s', s.finish = .ok s' := by
  refine exists_link fun ⟨reference, definition⟩ hl => ?_
  obtain ⟨e, hp, hd⟩ := State.mem_links.1 hl
  obtain ⟨he, r, hr, -⟩ := h.pending _ hp
  exact ⟨⟨r, hr⟩, h.scopes.definition he hd⟩

/-! ### The beginning -/

theorem sound_initial (language : Language) (spelling : String) :
    (State.initial language spelling).Sound where
  scopes :=
    { file := Nat.zero_lt_one
      active := fun s hs => by rw [List.mem_singleton.1 hs]; exact Nat.zero_lt_one
      scope := fun {s scope} hs ho => by
        obtain ⟨i⟩ := s
        cases i with
        | zero => cases ho; exact ⟨nofun, nofun, nofun⟩
        | succ i => cases ho
      entity := nofun }
  pending := nofun
  order := .nil
  labels := nofun
  gotos := nofun

theorem sound_initialSteps (language : Language) (spelling : String) (parse : Concrete.Parse) :
    ∀ step ∈ initialSteps parse, step.Sound (.initial language spelling) := by
  have hin : ∀ step ∈ plan parse.root Tree.rootId .plain {},
      step.In (State.initial language spelling).known := in_plan trivial trivial nofun
  refine fun step hstep => ⟨hin step hstep, fun f hf => ?_⟩
  rcases mem_plan hstep with ⟨c, -, rfl⟩ | ⟨o, -, rfl | rfl⟩ <;> cases hf
  exact Nat.zero_lt_one

/-- Every state and every step of the walk over a parse is sound. -/
theorem sound_of_parse {spelling : String} {parse : Concrete.Parse} {s : State}
    {stack : List Step}
    (h : Runs language source (.initial language spelling) (initialSteps parse) s stack) :
    s.Sound ∧ ∀ x ∈ stack, x.Sound s :=
  sound_of_runs h (sound_initial language spelling) (sound_initialSteps language spelling parse)

/-- A walk over a parse that gets to its end gives a tree. -/
theorem exists_tree_of_walk {spelling : String} {parse : Concrete.Parse} {s : State}
    (h : walk language source (.initial language spelling) (initialSteps parse) = .ok s) :
    ∃ f stats, s.finish = .ok f ∧
      resolveNames language source spelling parse = .ok (f.tree, stats) := by
  obtain ⟨hsound, -⟩ := sound_of_parse (walk_eq_ok_iff.1 h)
  obtain ⟨f, hfinish⟩ := hsound.exists_finish
  exact ⟨f, _, hfinish, bind_eq_ok.2 ⟨s, h, bind_eq_ok.2 ⟨f, hfinish, rfl⟩⟩⟩

end TypeUses.Resolution
