import TypeUses.Proofs.Resolution.Naming
import TypeUses.Proofs.Resolution.Paths
import TypeUses.Proofs.Resolution.Visits
import TypeUses.Proofs.Scope.Apart

/-!
# Resolution — nothing leads into a block or a function from outside

A reference whose target lies in a block or a function lies there itself (`scopes_hygienic`).

While the walk is inside, what was there before stays as it was and new names are bound to new
entities in new scopes only (`respects_inside`).  So when the scope is left, nothing leads from
`outside` to what was made inside (`sealed_of_enclave`), and every later step keeps it so
(`sealed_perform`), the links at the end included.

* `Place.Walls`: a place at which such a scope opens; what lies in it is read inside
  (`exists_visit_inside`).
* `Enclave`: the part of a walk from the entry into a scope until it is left.
* `Sealed`: what is outside of an enclave and does not lead into it.
-/

namespace TypeUses.Resolution

variable {language : Language} {source : ByteArray}

/-! ### Inside a block or a function -/

/-- The entry is that of a block or of a function. -/
def ScopeEntry.IsWall : ScopeEntry → Prop
  | fresh kind => kind.IsWall
  | members .. => False
  | function => True

/-- What is inside a wall stays inside: additions bind there, and the members of what they bind are
entered there. -/
theorem respects_inside (t₀ : Table) :
    Respects language source (fun s => t₀.Inside s.scopes) Follows
      (fun _ entry => ∀ e, entry.entity? = some e → t₀.NewEntity e) := by
  refine respects_of_table (P := t₀.Inside) (Q := fun _ => t₀.NewEntity) (fun hin => hin.perform)
    (fun hin hop _ => hin.answer hop) (fun _ => id) (fun entry hin hnew => ?_)
    fun hin hin' hg hactive => ?_
  · cases entry with
    | fresh kind => exact hin.enter kind
    | members e kind => exact hin.enterMembers (hnew e rfl) kind
    | function => exact hin.enter .function
  · exact ⟨hin'.apart.of_eq (Table.scopes_leave _) (Table.entities_leave _),
      hin.walled.of_active hg hactive⟩

/-- The part of a walk from the entry into a scope in state `s` until it is left in state `s'`. -/
structure Enclave (entry : ScopeEntry) (s s' : State) : Prop where
  sound : s.Sound
  sound' : s'.Sound
  named : s.Named
  inside : ∃ s₁, Follows (s.enter entry) s₁ ∧ s.scopes.Inside s₁.scopes ∧ s₁.leave entry = .ok s'

namespace Enclave

variable {entry : ScopeEntry} {s s' : State}

theorem follows (h : Enclave entry s s') : Follows s s' := by
  obtain ⟨s₁, hf, -, hleave⟩ := h.inside
  exact follows_leave hf hleave

/-- What was there before the scope is behind it as it was. -/
theorem apart (h : Enclave entry s s') : s.scopes.Apart s'.scopes := by
  obtain ⟨s₁, -, hin, hleave⟩ := h.inside
  rw [(leave_eq_ok hleave).1]
  exact hin.apart.of_eq (Table.scopes_leave _) (Table.entities_leave _)

/-- When a function is left, the functions around it have the labels that they had. -/
theorem functions (h : Enclave .function s s') : s'.functions = s.functions := by
  obtain ⟨s₁, hf, -, hleave⟩ := h.inside
  exact functions_of_leave hf hleave

end Enclave

/-! ### Outside of it -/

/-- All but what is made between two states. -/
def outside (s s' : State) : Realm where
  scope x := ¬ (s.scopes.NewScope x ∧ x.index < s'.scopes.scopes.size)
  entity e := ¬ (s.scopes.NewEntity e ∧ e.index < s'.scopes.entities.size)
  node d := ¬ (s.tree.size ≤ d.index ∧ d.index < s'.tree.size)

/-- No reference of the realm has its target out of it.  Labels count if `labels` holds. -/
def LinksIn (A : Realm) (labels : Prop) (t : Tree) : Prop :=
  ∀ id r d, t.content? id = some (.reference r) → r.target = some d →
    (r.kind = .label → labels) → A.node id → A.node d

/-- Nothing that the state has in the realm leads out of it, and what is still to be made will be in
it. -/
structure Sealed (A : Realm) (labels : Prop) (s : State) : Prop where
  scopes : s.scopes.Closed A
  newScope : ∀ x, s.scopes.NewScope x → A.scope x
  newEntity : ∀ e, s.scopes.NewEntity e → A.entity e
  newNode : ∀ d : NodeId, s.tree.size ≤ d.index → A.node d
  pending : ∀ p ∈ s.pending, A.node p.1 → A.entity p.2
  frames : labels → ∀ frame ∈ s.functions, ∀ l ∈ frame.labels, A.node l.2
  links : LinksIn A labels s.tree

/-- When the scope has been left, the table leads from what is outside to nothing inside. -/
theorem closed_outside {entry : ScopeEntry} {s s' : State} (h : Enclave entry s s') :
    s'.scopes.Closed (outside s s') := by
  have hs := h.sound.scopes
  have apart := h.apart
  have scope : ∀ x, s.known.scope x → (outside s s').scope x :=
    fun x hx hn => absurd hx (Nat.not_lt.2 hn.1)
  have entity : ∀ e, s.known.entity e → (outside s s').entity e :=
    fun e he hn => absurd he (Nat.not_lt.2 hn.1)
  refine ⟨scope _ hs.file, fun x hx => ?_, fun {x o} hx ho => ?_, fun {e info} he hi => ?_⟩
  · rw [h.follows.active] at hx
    exact scope x (hs.active x hx)
  · -- outside is what was there before, and it is as it was
    have hold : ¬ s.scopes.NewScope x := fun hn => hx ⟨hn, Table.lt_of_scope? ho⟩
    rw [apart.scope x hold] at ho
    have hin := hs.scope (Nat.not_le.1 hold) ho
    exact ⟨fun y hy => scope y (hin.enclosing y hy), fun b hb => entity _ (hin.names b hb),
      fun y hy => scope y (hin.used y hy)⟩
  · have hold : ¬ s.scopes.NewEntity e := fun hn => he ⟨hn, Table.lt_of_entity? hi⟩
    rw [apart.entity e hold] at hi
    have hin := hs.entity (Nat.not_le.1 hold) hi
    exact ⟨fun d hd hn => absurd (hin.definition d hd).lt (Nat.not_lt.2 hn.1),
      fun x hx => scope x (hin.members x hx)⟩

/-- **When an enclave is left, nothing from outside leads into it.** -/
theorem sealed_of_enclave {entry : ScopeEntry} {s s' : State} (h : Enclave entry s s') :
    Sealed (outside s s') (entry = .function) s' where
  scopes := closed_outside h
  newScope _ hx hn := absurd hn.2 (Nat.not_lt.2 hx)
  newEntity _ he hn := absurd hn.2 (Nat.not_lt.2 he)
  newNode _ hd hn := absurd hn.2 (Nat.not_lt.2 hd)
  pending p hp hout := by
    rcases h.follows.pending.mem hp with hnew | hold
    · -- what became pending in the enclave is not outside
      obtain ⟨-, r, hr, -⟩ := h.sound'.pending p hp
      exact absurd ⟨hnew, Tree.lt_size_of_content? hr⟩ hout
    · exact fun hn => absurd (h.sound.pending p hold).1 (Nat.not_lt.2 hn.1)
  frames he frame hframe l hl hn := by
    subst he
    rw [h.functions] at hframe
    exact absurd (Tree.lt_size_of_content? (h.sound.labels frame hframe l hl)) (Nat.not_lt.2 hn.1)
  links id r d hr hd _ hout hn := by
    have hold : id.index < s.tree.size :=
      Nat.lt_of_not_le fun hle => hout ⟨hle, Tree.lt_size_of_content? hr⟩
    rw [h.follows.tree.content id hold] at hr
    obtain ⟨kind, hdef⟩ := h.named.links hr hd
    exact absurd (Tree.lt_size_of_content? hdef) (Nat.not_lt.2 hn.1)

/-! ### What every later step keeps -/

section Later
variable {A : Realm} {labels : Prop}

/-- What is still to be made in a later state is in the realm. -/
theorem Sealed.of_knows {s s' : State} (hs : Sealed A labels s) (knows : s.Knows s')
    (scopes : s'.scopes.Closed A) (pending : ∀ p ∈ s'.pending, A.node p.1 → A.entity p.2)
    (frames : labels → ∀ frame ∈ s'.functions, ∀ l ∈ frame.labels, A.node l.2)
    (links : LinksIn A labels s'.tree) : Sealed A labels s' where
  scopes := scopes
  newScope x hx := hs.newScope x (Nat.le_trans knows.scopes.scopes_le hx)
  newEntity e he := hs.newEntity e (Nat.le_trans knows.scopes.entities_le he)
  newNode d hd := hs.newNode d (Nat.le_trans knows.tree.size_le hd)
  pending := pending
  frames := frames
  links := links

/-- Adding a node whose lookup stays in the realm keeps the state sealed, and so do the steps that
follow from it. -/
theorem sealed_add {s s' : State} {f : Frame} {id : NodeId} {outline : Outline}
    (hs : Sealed A labels s) (hlook : f.context.lookup.In A)
    (h : s.add language source f = .ok (s', id, outline)) :
    Sealed A labels s' ∧ ∀ step ∈ plan f.node id f.context outline, step.In A := by
  have knows := knows_add h
  have linked := @reference_of_add _ _ _ _ _ _ _ h
  obtain ⟨tree, htree, rfl, rfl⟩ := add_eq_ok.1 h
  obtain ⟨-, rfl, -⟩ := Tree.push?_eq_ok.1 htree
  have hread := readAs_readNode language source s.scopes ⟨s.tree.size⟩ f
  generalize readNode language source s.scopes ⟨s.tree.size⟩ f = r at hread htree knows linked
  have here : A.node ⟨s.tree.size⟩ := hs.newNode _ (Nat.le_refl _)
  obtain ⟨closed, entity, opens, qualifier⟩ := hread.closed hs.scopes hlook (fun _ => here)
    (fun _ => hs.newEntity _ (Nat.le_refl _))
  refine ⟨hs.of_knows knows closed ?_ ?_ ?_, in_plan hlook qualifier opens⟩
  · intro p hp hA
    rcases State.mem_pending_record hp with hp | ⟨e, he, rfl⟩
    · exact hs.pending p hp hA
    · exact entity e he
  · intro hlabels frame hframe l hl
    obtain ⟨top, htop, hlabel, -⟩ := mem_noteLabel hframe
    rcases hlabel l hl with hl | ⟨he, -⟩
    · exact hs.frames hlabels top htop l hl
    · rw [he]; exact here
  · intro x ref d hr hd hk hA
    exact hs.links _ _ _ (linked hr hd) hd hk hA

theorem sealed_enter {s : State} {entry : ScopeEntry} (hs : Sealed A labels s)
    (hentry : ∀ e, entry.entity? = some e → A.entity e) : Sealed A labels (s.enter entry) := by
  refine hs.of_knows (knows_enter s entry) ?_ ?_ ?_ ?_
  · rw [scopes_enter]
    refine hs.scopes.perform (fun e he => hentry e ?_) (by cases entry <;> nofun)
      (fun _ => hs.newScope _ (Nat.le_refl _)) fun _ => hs.newEntity _ (Nat.le_refl _)
    cases entry <;> cases he
    rfl
  · rw [pending_enter]
    exact hs.pending
  · intro hlabels frame hframe l hl
    rw [functions_enter] at hframe
    split at hframe
    · rcases List.mem_cons.1 hframe with rfl | hframe
      · cases hl
      · exact hs.frames hlabels frame hframe l hl
    · exact hs.frames hlabels frame hframe l hl
  · rw [tree_enter]
    exact hs.links

/-- Links that do not lead out of the realm leave it sealed. -/
theorem links_of_linked {links : List (NodeId × NodeId)} {t t' : Tree} (h : Linked links t t')
    (ht : LinksIn A labels t)
    (hlinks : ∀ id r d, (id, d) ∈ links → t.content? id = some (.reference r) →
      (r.kind = .label → labels) → A.node id → A.node d) : LinksIn A labels t' := by
  intro id r d hr hd hk hA
  rcases h.of_target hr hd with hold | ⟨hlink, target, hold⟩
  · exact ht _ _ _ hold hd hk hA
  · exact hlinks _ _ _ hlink hold hk hA

/-- Leaving a scope keeps the state sealed. -/
theorem sealed_leave {s s' : State} {entry : ScopeEntry} (hsound : s.Sound)
    (hs : Sealed A labels s) (h : s.leave entry = .ok s') : Sealed A labels s' := by
  obtain ⟨hscopes, hpending, htree⟩ := leave_eq_ok h
  refine hs.of_knows (knows_leave h) ?_ ?_ ?_ ?_
  · rw [hscopes]
    exact hs.scopes.leave
  · rw [hpending]
    exact hs.pending
  · intro hlabels frame hframe l hl
    rcases htree with ⟨-, hf, -⟩ | ⟨top, -, hf, -⟩
    · exact hs.frames hlabels frame (hf ▸ hframe) l hl
    · exact hs.frames hlabels frame (hf ▸ List.mem_cons_of_mem _ hframe) l hl
  · rcases htree with ⟨ht, -⟩ | ⟨frame, -, hf, hl⟩
    · rw [ht]
      exact hs.links
    · have hframe : frame ∈ s.functions := hf ▸ List.mem_cons_self
      refine links_of_linked hl hs.links fun goto r label hlink hr hk _ => ?_
      obtain ⟨r', hr', hlabel, -, hmem⟩ := hsound.links_frame hframe hlink
      cases hr.symm.trans hr'
      exact hs.frames (hk hlabel) frame hframe _ hmem

/-- **Every later step leaves it sealed.** -/
theorem sealed_perform {s s' : State} {step : Step} {rest steps : List Step} (hsound : s.Sound)
    (h : Sealed A labels s ∧ ∀ x ∈ step :: rest, x.In A)
    (hstep : s.perform language source step = .ok (s', steps)) :
    Sealed A labels s' ∧ ∀ x ∈ steps ++ rest, x.In A := by
  obtain ⟨hs, hstack⟩ := h
  have here := hstack step List.mem_cons_self
  have left : ∀ x ∈ rest, x.In A := fun x hx => hstack x (List.mem_cons_of_mem _ hx)
  cases step with
  | visit f =>
      obtain ⟨id, outline, hadd, rfl⟩ := perform_visit_eq_ok.1 hstep
      obtain ⟨hs', hplan⟩ := sealed_add hs here hadd
      exact ⟨hs', fun x hx => (List.mem_append.1 hx).elim (hplan x) (left x)⟩
  | enter entry => cases hstep; exact ⟨sealed_enter hs here, left⟩
  | leave entry =>
      obtain ⟨hleave, rfl⟩ := perform_leave_eq_ok.1 hstep
      exact ⟨sealed_leave hsound hs hleave, left⟩

/-- In the end no reference of the realm has its target out of it. -/
theorem links_of_sealed {s s₁ s' : State} {stack : List Step}
    (hsound : s.Sound ∧ ∀ x ∈ stack, x.Sound s) (hs : Sealed A labels s)
    (hstack : ∀ x ∈ stack, x.In A) (hwalk : walk language source s stack = .ok s₁)
    (hfinish : s₁.finish = .ok s') : LinksIn A labels s'.tree := by
  have hall := (walk_eq_ok_iff.1 hwalk).preserves
    (P := fun s stack => (s.Sound ∧ ∀ x ∈ stack, x.Sound s) ∧
      Sealed A labels s ∧ ∀ x ∈ stack, x.In A)
    (fun ⟨hsound, hs⟩ hstep => ⟨sound_perform hsound hstep, sealed_perform hsound.1 hs hstep⟩)
    ⟨hsound, hs, hstack⟩
  obtain ⟨-, hs₁, -⟩ := hall
  refine links_of_linked (linked_of_link hfinish).1 hs₁.links fun id r d hlink _ _ hA => ?_
  obtain ⟨e, hp, hdef⟩ := State.mem_links.1 hlink
  exact hs₁.scopes.definition (hs₁.pending _ hp hA) hdef

end Later

/-! ### The enclave of a place -/

section Place
variable {spelling : String} {parse : Concrete.Parse}

theorem inside_enter (s : State) {entry : ScopeEntry} (h : entry.IsWall) :
    s.scopes.Inside (s.enter entry).scopes := by
  cases entry with
  | fresh kind => exact .of_enter s.scopes h
  | members e kind => exact h.elim
  | function => exact .of_enter s.scopes ⟨nofun, nofun⟩

/-- The place opens the scope of a block or a function, which begins at child `c`. -/
structure Place.Walls (language : Language) (source : ByteArray) (p : Place) (o : Opening)
    (front : List Concrete.Node) (c : Concrete.Node) (back : List Concrete.Node) : Prop where
  opens : ∀ t id context, (readNode language source t id
    ⟨p.node, p.outer, p.parent, context⟩).outline.opening = some o
  wall : o.entry.IsWall
  splits : o.Splits p.node.children front c back

namespace Place.Walls

variable {sf : State} {p q : Place} {o : Opening} {front back : List Concrete.Node}
  {c : Concrete.Node}

/-- The walk gets to the place and passes the scope. -/
theorem passage (hw : p.Walls language source o front c back)
    (hwalk : walk language source (.initial language spelling) (initialSteps parse) = .ok sf)
    (hp : p ∈ places parse) :
    ∃ context rest s₀ s₁ s s₂ s',
      Runs language source (.initial language spelling) (initialSteps parse) s₀
        (.visit ⟨p.node, p.outer, p.parent, context⟩ :: rest) ∧ s₀.tree.size = p.id.index ∧
      Passage language source ⟨p.node, p.outer, p.parent, context⟩ o front (c :: back) rest
        s₀ s₁ s s₂ s' := by
  obtain ⟨s₀, context, rest, hruns, hsize₀⟩ := visited_of_mem_places hwalk hp
  obtain ⟨s₁, s, s₂, s', hpassage⟩ :=
    exists_passage (hruns.walk_eq ▸ hwalk) (hw.opens _ _ _) hw.splits
  exact ⟨context, rest, s₀, s₁, s, s₂, s', hruns, hsize₀, hpassage⟩

/-- The walk makes an enclave there. -/
theorem enclave (hw : p.Walls language source o front c back)
    (hwalk : walk language source (.initial language spelling) (initialSteps parse) = .ok sf)
    (hp : p ∈ places parse) :
    ∃ s s' rest, Enclave o.entry s s' ∧ (∀ step ∈ rest, step.Sound s') ∧
      (∀ step ∈ rest, step.In (outside s s')) ∧ walk language source s' rest = .ok sf ∧
      s.tree.size = p.id.index + 1 + Concrete.Node.keptCounts front ∧
      s'.tree.size = p.id.index + p.node.keptCount := by
  obtain ⟨context, rest, s₀, s₁, s, s₂, s', hruns, hsize₀, hpassage⟩ := hw.passage hwalk hp
  have hreach := hruns.trans hpassage.enters
  have hreach' := hruns.trans hpassage.ends
  obtain ⟨hsound, hstack⟩ := sound_of_parse hreach
  obtain ⟨hsound', hstack'⟩ := sound_of_parse hreach'
  obtain ⟨hin', hfollows⟩ := (respects_inside s.scopes).descendAll_none (c :: back)
    (inside_enter s hw.wall) hpassage.within
  refine ⟨s, s', rest, ⟨hsound, hsound', (named_of_runs hreach).2, s₂, hfollows, hin',
    hpassage.leaves⟩, hstack', fun step hstep => ?_, hreach'.walk_eq ▸ hwalk,
    hsize₀ ▸ hpassage.size, hsize₀ ▸ hpassage.size'⟩
  -- what is still to be done was on the stack before the enclave
  have hknown := (hstack step (List.mem_cons_of_mem _ (List.mem_append_right _
    (List.mem_cons_of_mem _ hstep)))).known
  exact hknown.mono fun e he hn => absurd he (Nat.not_lt.2 hn.1)

/-- The walk reads what lies in the scope inside of it. -/
theorem visits (hw : p.Walls language source o front c back)
    (hwalk : walk language source (.initial language spelling) (initialSteps parse) = .ok sf)
    (hp : p ∈ places parse) (hq : q ∈ places parse)
    (hlow : p.id.index + 1 + Concrete.Node.keptCounts front ≤ q.id.index)
    (hhigh : q.id.index < p.id.index + p.node.keptCount) :
    ∃ s stack s₁ context rest₁,
      Runs language source (.initial language spelling) (initialSteps parse) s stack ∧
      p.id.index < s.tree.size ∧
      Runs language source (.initial language spelling) (initialSteps parse) s₁
        (.visit ⟨q.node, q.outer, q.parent, context⟩ :: rest₁) ∧
      s₁.tree.size = q.id.index ∧ s.scopes.Inside s₁.scopes := by
  obtain ⟨context, rest, s₀, s₁, s, s₂, s', hruns, hsize₀, hpassage⟩ := hw.passage hwalk hp
  have hid : (⟨s₀.tree.size⟩ : NodeId) = p.id := NodeId.ext hsize₀
  have hsize := hsize₀ ▸ hpassage.size
  have hmem := mem_placesIn_of_id_bounds hp hq hw.splits.children hlow hhigh
  rw [← hsize, ← tree_enter s o.entry, ← hid] at hmem
  obtain ⟨s₃, context₃, rest₃, hvisit, hsize₃, hin⟩ :=
    visits_placesIn (respects_inside s.scopes) p.path front.length (c :: back)
      (inside_enter s hw.wall) (by nofun)
      ((hpassage.entered rest).walk_eq.trans ((hruns.trans hpassage.ends).walk_eq ▸ hwalk)) q hmem
  exact ⟨s, _, s₃, context₃, rest₃, hruns.trans hpassage.enters, by omega,
    (hruns.trans hpassage.enters).trans hvisit.enter, hsize₃, hin⟩

/-- A reference whose target is made inside the scope is made there. -/
theorem id_bounds_of_target (hw : p.Walls language source o front c back) {tree : Tree}
    {stats : Stats} (h : resolveNames language source spelling parse = .ok (tree, stats))
    (hp : p ∈ places parse) {id d : NodeId} {r : Reference}
    (hr : tree.content? id = some (.reference r)) (hd : r.target = some d)
    (hlabel : r.kind = .label → o.entry = .function)
    (hlow : p.id.index + 1 + Concrete.Node.keptCounts front ≤ d.index)
    (hhigh : d.index < p.id.index + p.node.keptCount) :
    p.id.index + 1 + Concrete.Node.keptCounts front ≤ id.index ∧
      id.index < p.id.index + p.node.keptCount := by
  obtain ⟨sf, s'', hwalk, hfinish, rfl⟩ := resolveNames_eq_ok h
  obtain ⟨s, s', rest, enclave, hsound, hrest, hwalk', hsize, hsize'⟩ := hw.enclave hwalk hp
  have hlinks := links_of_sealed ⟨enclave.sound', hsound⟩ (sealed_of_enclave enclave) hrest hwalk'
    hfinish
  refine Decidable.byContradiction fun hout => ?_
  have hnode : (outside s s').node id := fun hn => hout (by rw [← hsize, ← hsize']; exact hn)
  exact hlinks id r d hr hd hlabel hnode ⟨by rw [hsize]; exact hlow, by rw [hsize']; exact hhigh⟩

end Place.Walls

/-! ### Blocks and functions -/

/-- A block opens a fresh scope with its first child. -/
theorem opening_of_block {t : Table} {id : NodeId} {f : Frame}
    (h : f.node.kind ∈ [.compoundStatement, .forStatement, .forRangeLoop]) :
    (readNode language source t id f).outline.opening = some ⟨.fresh .block, none⟩ := by
  simp only [readNode]
  simp only [List.mem_cons, List.not_mem_nil, or_false] at h
  rcases h with h | h | h <;> rw [h] <;> rfl

/-- A function opens its scope with its first declarator. -/
theorem opening_of_function {t : Table} {id : NodeId} {f : Frame}
    (h : f.node.kind = .functionDefinition) :
    (readNode language source t id f).outline.opening = some ⟨.function, some .declarator⟩ := by
  simp only [readNode]
  rw [h]
  rfl

/-- The child with which a function's scope begins. -/
def beginsScope (c : Concrete.Node) : Bool := c.item.isKept && c.field == some .declarator

/-- A block walls in everything below it. -/
theorem walls_of_block (language : Language) (source : ByteArray) {p q : Place}
    (hkind : p.node.kind ∈ [.compoundStatement, .forStatement, .forRangeLoop]) (hq : q ∈ p.below) :
    ∃ front c back, p.Walls language source ⟨.fresh .block, none⟩ front c back ∧
      Concrete.Node.keptCounts front = 0 := by
  obtain ⟨front, c, back, hsplit, -, hzero⟩ := splits_at_kept hq (.fresh .block)
  exact ⟨front, c, back, ⟨fun _ _ _ => opening_of_block hkind, ⟨nofun, nofun⟩, hsplit⟩, hzero⟩

/-- A function walls in its first declarator and what stands behind that. -/
theorem walls_of_function (language : Language) (source : ByteArray) {p : Place}
    (hkind : p.node.kind = .functionDefinition) {k : Nat}
    (hk : p.node.children.findIdx? beginsScope = some k) :
    ∃ c back, p.Walls language source ⟨.function, some .declarator⟩ (p.node.children.take k) c
      back := by
  obtain ⟨c, hsplit⟩ := splits_at_field hk .function
  exact ⟨c, _, fun _ _ _ => opening_of_function hkind, trivial, hsplit⟩

/-- The place lies in the scope of a block or a function, which opens at place `p`. -/
def Place.InScope (q p : Place) : Prop :=
  (p.node.kind ∈ [.compoundStatement, .forStatement, .forRangeLoop] ∧ q.LiesFrom p.path 0) ∨
    (p.node.kind = .functionDefinition ∧
      ∃ k, p.node.children.findIdx? beginsScope = some k ∧ q.LiesFrom p.path k)

/-- What lies in the scope of a block or a function is read inside of it. -/
theorem exists_visit_inside {sf : State}
    (hwalk : walk language source (.initial language spelling) (initialSteps parse) = .ok sf)
    {p q : Place} (hp : p ∈ places parse) (hq : q ∈ places parse) (h : q.InScope p) :
    ∃ s stack s₁ context rest₁,
      Runs language source (.initial language spelling) (initialSteps parse) s stack ∧
      p.id.index < s.tree.size ∧
      Runs language source (.initial language spelling) (initialSteps parse) s₁
        (.visit ⟨q.node, q.outer, q.parent, context⟩ :: rest₁) ∧
      s₁.tree.size = q.id.index ∧ s.scopes.Inside s₁.scopes := by
  rcases h with ⟨hkind, hlies⟩ | ⟨hkind, k, hk, hlies⟩
  · have hbelow := mem_below_of_liesFrom hp hq hlies
    obtain ⟨front, c, back, hw, hzero⟩ := walls_of_block language source hkind hbelow
    obtain ⟨hlow, hhigh⟩ := id_bounds_of_liesFrom hbelow hlies
    exact hw.visits hwalk hp hq (by rw [hzero]; exact hlow) hhigh
  · have hbelow := mem_below_of_liesFrom hp hq hlies
    obtain ⟨c, back, hw⟩ := walls_of_function language source hkind hk
    obtain ⟨hlow, hhigh⟩ := id_bounds_of_liesFrom hbelow hlies
    exact hw.visits hwalk hp hq hlow hhigh

/-- A reference of the given kind with place `q` does not lead to place `e` from outside of a block
or function: if `e` lies in a block and the reference is not to a label, `q` lies there, and if `e`
lies in the scope of a function, which begins at the first declarator, `q` lies there. -/
def Hygienic (parse : Concrete.Parse) (kind : ReferenceKind) (q e : Place) : Prop :=
  ∀ path b, path ≠ [] → parse.root.at? path = some b →
    (b.kind ∈ [.compoundStatement, .forStatement, .forRangeLoop] → kind ≠ .label →
      e.LiesFrom path 0 → q.LiesFrom path 0) ∧
    (b.kind = .functionDefinition → ∀ k, b.children.findIdx? beginsScope = some k →
      e.LiesFrom path k → q.LiesFrom path k)

/-- A reference to a target in a block lies in the block, if it is not to a label. -/
theorem liesFrom_of_block {tree : Tree} {stats : Stats}
    (h : resolveNames language source spelling parse = .ok (tree, stats)) {r : Reference}
    {p q e : Place} (hp : p ∈ places parse) (hq : q ∈ places parse)
    (hr : tree.content? q.id = some (.reference r)) (hd : r.target = some e.id)
    (hkind : p.node.kind ∈ [.compoundStatement, .forStatement, .forRangeLoop])
    (hlabel : r.kind ≠ .label) (he : e ∈ p.below) (hlies : e.LiesFrom p.path 0) :
    q.LiesFrom p.path 0 := by
  obtain ⟨front, c, back, hw, hzero⟩ := walls_of_block language source hkind he
  obtain ⟨hlow, hhigh⟩ := id_bounds_of_liesFrom he hlies
  obtain ⟨hlow', hhigh'⟩ := hw.id_bounds_of_target h hp hr hd (fun hl => absurd hl hlabel)
    (by rw [hzero]; exact hlow) hhigh
  rw [hzero] at hlow'
  exact liesFrom_of_id_bounds hp hq hlow' hhigh'

/-- A reference to a target in the scope of a function lies there, labels included. -/
theorem liesFrom_of_function {tree : Tree} {stats : Stats}
    (h : resolveNames language source spelling parse = .ok (tree, stats)) {r : Reference}
    {p q e : Place} (hp : p ∈ places parse) (hq : q ∈ places parse)
    (hr : tree.content? q.id = some (.reference r)) (hd : r.target = some e.id)
    (hkind : p.node.kind = .functionDefinition) {k : Nat}
    (hk : p.node.children.findIdx? beginsScope = some k) (he : e ∈ p.below)
    (hlies : e.LiesFrom p.path k) : q.LiesFrom p.path k := by
  obtain ⟨c, back, hw⟩ := walls_of_function language source hkind hk
  obtain ⟨hlow, hhigh⟩ := id_bounds_of_liesFrom he hlies
  obtain ⟨hlow', hhigh'⟩ := hw.id_bounds_of_target h hp hr hd (fun _ => rfl) hlow hhigh
  exact liesFrom_of_id_bounds hp hq hlow' hhigh'

/-- **Nothing leads into a block or a function from outside.**  A reference that has a target lies
in every block and, labels included, in the scope of every function in which its target lies. -/
theorem scopes_hygienic {tree : Tree} {stats : Stats}
    (h : resolveNames language source spelling parse = .ok (tree, stats)) {id d : NodeId}
    {r : Reference} (hr : tree.content? id = some (.reference r)) (hd : r.target = some d) :
    ∃ q ∈ places parse, ∃ e ∈ places parse, q.id = id ∧ e.id = d ∧ Hygienic parse r.kind q e := by
  have grown := grown_resolveNames h
  obtain ⟨kind, hdef⟩ := linksNamed_resolveNames h hr hd
  obtain ⟨q, hq, rfl⟩ := exists_place_of_content? grown hr nofun
  obtain ⟨e, he, rfl⟩ := exists_place_of_content? grown hdef nofun
  refine ⟨q, hq, e, he, rfl, rfl, ?_⟩
  intro path b hpath hb
  refine ⟨fun hkind hlabel hlies => ?_, fun hkind k hk hlies => ?_⟩
  · obtain ⟨p, hp, rfl, rfl, hbelow⟩ := exists_place_above he hpath hb hlies
    exact liesFrom_of_block h hp hq hr hd hkind hlabel hbelow hlies
  · obtain ⟨p, hp, rfl, rfl, hbelow⟩ := exists_place_above he hpath hb hlies
    exact liesFrom_of_function h hp hq hr hd hkind hk hbelow hlies

/-- The source `void f() { typedef int T; T x; }`. -/
def localSource : ByteArray := "void f() { typedef int T; T x; }".toUTF8

/-- Its parse. -/
def localParse : Concrete.Parse where
  root := .node { kind := .translationUnit, stop := 32 }
    [.node { kind := .functionDefinition, stop := 32 }
      [.node { kind := .other "function_declarator", field := some .declarator, start := 5,
               stop := 8 } [],
        .node { kind := .compoundStatement, field := some .body, start := 9, stop := 32 }
          [.node { kind := .typeDefinition, start := 11, stop := 25 }
            [.node { kind := .typeIdentifier, field := some .declarator, start := 23, stop := 24 }
              []],
            .node { kind := .declaration, start := 26, stop := 30 }
              [.node { kind := .typeIdentifier, field := some .type, start := 26, stop := 27 }
                []]]]]
  hasError := false

/-- The use of `T` in the body leads to the `typedef` in the body. -/
theorem scopes_hygienic_local : ∃ tree stats,
    resolveNames .c localSource "f.c" localParse = .ok (tree, stats) ∧
      tree.content? ⟨7⟩ = some (.reference ⟨.typeName, "T", some ⟨5⟩⟩) ∧
      ∃ q ∈ places localParse, ∃ e ∈ places localParse, q.id = ⟨7⟩ ∧ e.id = ⟨5⟩ ∧
        Hygienic localParse .typeName q e := by
  have hcontent : (resolveNames .c localSource "f.c" localParse).toOption.bind
      (fun r => r.1.content? ⟨7⟩) = some (.reference ⟨.typeName, "T", some ⟨5⟩⟩) := by
    decide +kernel
  cases h : resolveNames .c localSource "f.c" localParse with
  | error fault => rw [h] at hcontent; cases hcontent
  | ok r =>
      obtain ⟨tree, stats⟩ := r
      rw [h] at hcontent
      exact ⟨tree, stats, rfl, hcontent, scopes_hygienic h hcontent rfl⟩

end Place

end TypeUses.Resolution
