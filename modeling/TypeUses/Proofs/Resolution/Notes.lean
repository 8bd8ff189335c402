import TypeUses.Proofs.Resolution.Functions
import TypeUses.Proofs.Resolution.Reads
import TypeUses.Proofs.Resolution.Recursion

/-!
# Resolution — what a function notes of its labels

While the walk is in a function, the function's frame notes the labels and the `goto`s that are read
(`LabelFrame.noteAll`).

* `LabelFrame.lookup_noteAll`: a frame knows the first label of a name that it has noted.
* `readNode_eq_label_iff`: labels are made of labeled statements, and `AsRead` carries this over to
  the nodes of the tree.
* `Noted`: what the loose places of a descent leave in the innermost function around it; functions
  inside note nothing there (`noted_descend`).
-/

namespace TypeUses.Resolution

variable {language : Language} {source : ByteArray}

/-! ### Notes -/

/-- The name of a label. -/
def labelName (source : ByteArray) (n : Concrete.Node) : String :=
  match n.child? .label with
  | some c => textOf source c.item
  | none => ""

namespace LabelFrame

/-- The frame after nodes with their contents are noted, in order. -/
def noteAll (frame : LabelFrame) (notes : List (NodeId × Content)) : LabelFrame :=
  notes.foldl (fun frame n => frame.note n.1 n.2) frame

/-- The node of a note, if it is a label of the name. -/
def labelOf? (name : String) (n : NodeId × Content) : Option NodeId :=
  if n.2 = .definition ⟨.label, name⟩ then some n.1 else none

/-- Noting a node adds its label, unless the name has one already. -/
theorem lookup_note (frame : LabelFrame) (id : NodeId) (c : Content) (name : String) :
    (frame.note id c).labels.lookup name =
      (frame.labels.lookup name).or (labelOf? name (id, c)) := by
  unfold note
  split
  · next name' =>
    unfold addLabel labelOf?
    by_cases hname : name = name'
    · subst hname
      cases hl : frame.labels.lookup name <;> simp [hl]
    · have hne : ¬name' = name := fun he => hname he.symm
      split <;> simp [hne, List.lookup_cons, beq_eq_false_iff_ne.2 hname]
  · simp [addGoto, labelOf?]
  · next hlabel _ =>
    rw [labelOf?, if_neg fun he => hlabel name he, Option.or_none]

/-- A name is looked up among the labels of a frame, and then among the notes, first to last. -/
theorem lookup_noteAll (frame : LabelFrame) (notes : List (NodeId × Content)) (name : String) :
    (frame.noteAll notes).labels.lookup name =
      (frame.labels.lookup name).or (notes.findSome? (labelOf? name)) := by
  induction notes generalizing frame with
  | nil => exact (Option.or_none ..).symm
  | cons n notes ih =>
      rw [noteAll, List.foldl_cons, ← noteAll, ih, lookup_note, Option.or_assoc, List.findSome?_cons]
      cases labelOf? name n <;> rfl

theorem gotos_note (frame : LabelFrame) (id : NodeId) (c : Content) (goto : NodeId × String) :
    goto ∈ (frame.note id c).gotos ↔
      goto ∈ frame.gotos ∨ ∃ target, (goto.1, .reference ⟨.label, goto.2, target⟩) = (id, c) := by
  obtain ⟨g, name⟩ := goto
  unfold note
  split
  · unfold addLabel
    split <;> simp
  · next spelling target =>
    simp only [addGoto, List.mem_cons, Prod.mk.injEq, Content.reference.injEq, Reference.mk.injEq]
    constructor
    · rintro (⟨rfl, rfl⟩ | h)
      · exact .inr ⟨target, by simp⟩
      · exact .inl h
    · rintro (h | ⟨_, rfl, -, rfl, -⟩)
      · exact .inr h
      · exact .inl ⟨rfl, rfl⟩
  · next hgoto =>
    refine ⟨.inl, ?_⟩
    rintro (h | ⟨target, he⟩)
    · exact h
    · exact absurd (Prod.mk.inj he).2.symm (hgoto name target)

/-- The `goto`s of a frame after some notes are the old ones and those among the notes. -/
theorem gotos_noteAll (frame : LabelFrame) (notes : List (NodeId × Content))
    (goto : NodeId × String) :
    goto ∈ (frame.noteAll notes).gotos ↔
      goto ∈ frame.gotos ∨ ∃ target, (goto.1, .reference ⟨.label, goto.2, target⟩) ∈ notes := by
  induction notes generalizing frame with
  | nil => simp [noteAll]
  | cons n notes ih =>
      rw [noteAll, List.foldl_cons, ← noteAll, ih, gotos_note, or_assoc, ← exists_or]
      simp only [List.mem_cons]

end LabelFrame

/-- The functions after nodes with their contents are noted in the innermost, in order. -/
def State.noteLabels : List LabelFrame → List (NodeId × Content) → List LabelFrame
  | [], _ => []
  | frame :: rest, notes => frame.noteAll notes :: rest

theorem noteLabels_append (functions : List LabelFrame) (xs ys : List (NodeId × Content)) :
    State.noteLabels functions (xs ++ ys) =
      State.noteLabels (State.noteLabels functions xs) ys := by
  cases functions with
  | nil => rfl
  | cons frame rest => simp [State.noteLabels, LabelFrame.noteAll]

theorem noteLabels_nil (functions : List LabelFrame) :
    State.noteLabels functions [] = functions := by
  cases functions <;> rfl

/-! ### How labels are read -/

/-- What is read as a type or an alias is no label. -/
def Context.DeclaresNoLabel (context : Context) : Prop := context.role ≠ .declaredType .label

/-- No node hands a context down in which a label is declared. -/
theorem declaresNoLabel_childContext {context : Context} (h : context.DeclaresNoLabel)
    (n : Concrete.Node) (outline : Outline) (c : Concrete.Node) :
    (childContext n context outline c).DeclaresNoLabel := by
  unfold Context.DeclaresNoLabel at h ⊢
  rcases role_childContext n context outline c with ⟨hn, hf⟩ | he | hown
  · obtain ⟨kind, -, he⟩ := role_specifierName context outline hn hf
    rw [he]
    simp only [specifierNameContext, Context.ofRole]
    split <;> simp
  · rw [he]
    exact h
  · intro he
    rw [he] at hown
    rcases hown with hown | hown <;> cases hown

/-- Only what is read in such contexts is still to be visited. -/
theorem declaresNoLabel_of_runs {spelling : String} {parse : Concrete.Parse} {s : State}
    {stack : List Step}
    (h : Runs language source (.initial language spelling) (initialSteps parse) s stack) :
    ∀ f, .visit f ∈ stack → f.context.DeclaresNoLabel := by
  have plain : Context.DeclaresNoLabel .plain := nofun
  have of_plan : ∀ {node id context outline f}, Context.DeclaresNoLabel context →
      .visit f ∈ plan node id context outline → f.context.DeclaresNoLabel := by
    intro node id context outline f hcontext hmem
    rcases mem_plan hmem with ⟨c, -, he⟩ | ⟨o, -, he | he⟩
    · cases he
      exact declaresNoLabel_childContext hcontext node outline c
    · cases he
    · cases he
  refine h.preserves (P := fun _ stack => ∀ f, .visit f ∈ stack → f.context.DeclaresNoLabel)
    (fun {s step rest s₁ steps} hstack hstep f hf => ?_)
    fun f hf => of_plan plain hf
  rcases List.mem_append.1 hf with hf | hf
  · cases step with
    | visit f' =>
        obtain ⟨id, outline, -, rfl⟩ := perform_visit_eq_ok.1 hstep
        exact of_plan (hstack f' List.mem_cons_self) hf
    | enter => cases hstep; cases hf
    | leave =>
        obtain ⟨-, rfl⟩ := perform_leave_eq_ok.1 hstep
        cases hf
  · exact hstack f (List.mem_cons_of_mem _ hf)

theorem definition_readSpecifier {t : Table} {id : NodeId} {f : Frame} {kind : EntityKind}
    {e : Entity} (h : (readSpecifier language source t id f kind).content = .definition e) :
    e.kind = kind := by
  simp only [readSpecifier, readDefinedTag] at h
  split at h
  · split at h <;> cases h <;> rfl
  · split at h
    · split at h <;> cases h
    · cases h

theorem definition_readNamespace {t : Table} {id : NodeId} {f : Frame} {e : Entity}
    (h : (readNamespace source t id f).content = .definition e) : e.kind = .namespaceName := by
  unfold readNamespace at h
  split at h
  · dsimp only at h
    split at h <;> cases h <;> rfl
  · cases h
    rfl

theorem readNamespaceIdentifier_ne_definition {t : Table} {f : Frame} (e : Entity) :
    (readNamespaceIdentifier source t f).content ≠ .definition e := by
  unfold readNamespaceIdentifier
  split
  · nofun
  · dsimp only
    split <;> nofun

/-- **Labels are made of labeled statements.** -/
theorem readNode_eq_label_iff {t : Table} {id : NodeId} {f : Frame}
    (hcontext : f.context.DeclaresNoLabel) {name : String} :
    (readNode language source t id f).content = .definition ⟨.label, name⟩ ↔
      f.node.kind = .labeledStatement ∧ labelName source f.node = name := by
  constructor
  · intro h
    simp only [readNode] at h
    split at h
    iterate 4 cases definition_readSpecifier h
    · cases definition_readNamespace h
    · next hkind =>
      cases h
      exact ⟨hkind, rfl⟩
    · obtain ⟨hrole, -⟩ := definition_readTypeIdentifier.1 h
      cases hlabel : f.context.role with
      | declaredType kind =>
          rw [hlabel] at hrole
          cases hrole
          exact absurd hlabel hcontext
      | use | ownName | templateParameter | templateName | tag | usedNamespace =>
          rw [hlabel] at hrole
          cases hrole
    · exact absurd h (readNamespaceIdentifier_ne_definition _)
    · split at h
      · exact absurd h (readNamespaceIdentifier_ne_definition _)
      · cases h
    · unfold readStatementIdentifier at h
      split at h <;> cases h
    all_goals cases h
  · rintro ⟨hkind, rfl⟩
    simp only [readNode, hkind]
    rfl

/-- The node at a place says what the place is read as. -/
def AsRead (language : Language) (source : ByteArray) (t : Tree) (q : Place) : Prop :=
  ∃ table context, Context.DeclaresNoLabel context ∧
    t.content? q.id =
      some (readNode language source table q.id ⟨q.node, q.outer, q.parent, context⟩).content

namespace AsRead

variable {t t' : Tree} {q : Place}

theorem mono (h : AsRead language source t q) (ht : t.Extends t') :
    AsRead language source t' q := by
  obtain ⟨table, context, hcontext, hc⟩ := h
  exact ⟨table, context, hcontext, (ht.content q.id (Tree.lt_size_of_content? hc)).trans hc⟩

/-- A place defines a label just where it is a labeled statement, under the name of its label. -/
theorem label_iff (h : AsRead language source t q) {name : String} :
    t.content? q.id = some (.definition ⟨.label, name⟩) ↔
      q.node.kind = .labeledStatement ∧ labelName source q.node = name := by
  obtain ⟨table, context, hcontext, hc⟩ := h
  rw [hc, Option.some.injEq]
  exact readNode_eq_label_iff hcontext

/-- A reference to a label stands at a statement identifier and spells its text. -/
theorem reference (h : AsRead language source t q) {r : Reference}
    (hr : t.content? q.id = some (.reference r)) (hlabel : r.kind = .label) :
    q.node.kind = .statementIdentifier ∧ r.spelling = textOf source q.node.item := by
  obtain ⟨table, context, -, hc⟩ := h
  have hread := readAs_readNode language source table q.id ⟨q.node, q.outer, q.parent, context⟩
  have hr := Option.some.inj (hc.symm.trans hr)
  have hfits := hread.content
  rw [hr] at hfits
  exact ⟨hread.label hr hlabel, hfits⟩

theorem unlinked (h : AsRead language source t q) {r : Reference}
    (hr : t.content? q.id = some (.reference r)) : r.target = none := by
  obtain ⟨table, context, -, hc⟩ := h
  exact (readAs_readNode language source table q.id _).unlinked (Option.some.inj (hc.symm.trans hr))

end AsRead

/-! ### What a descent notes -/

/-- The notes of places: what their nodes say. -/
def notesOf (t : Tree) (ps : List Place) : List (NodeId × Content) :=
  ps.filterMap fun q => (t.content? q.id).map fun c => (q.id, c)

theorem mem_notesOf {t : Tree} {ps : List Place} {id : NodeId} {c : Content} :
    (id, c) ∈ notesOf t ps ↔ ∃ q ∈ ps, q.id = id ∧ t.content? id = some c := by
  simp only [notesOf, List.mem_filterMap, Option.map_eq_some_iff, Prod.mk.injEq]
  constructor
  · rintro ⟨q, hq, c, hc, rfl, rfl⟩
    exact ⟨q, hq, rfl, hc⟩
  · rintro ⟨q, hq, rfl, hc⟩
    exact ⟨q, hq, c, hc, rfl, rfl⟩

/-- Between the states the places `ps` are read, and nothing else is noted in the innermost
function. -/
structure Noted (language : Language) (source : ByteArray) (s s' : State) (ps : List Place) :
    Prop where
  functions : s'.functions = State.noteLabels s.functions (notesOf s'.tree ps)
  read : ∀ q ∈ ps, AsRead language source s'.tree q

namespace Noted

variable {s s₁ s' : State} {ps qs : List Place}

theorem refl (s : State) : Noted language source s s [] :=
  ⟨(noteLabels_nil _).symm, nofun⟩

/-- A tree that is only added to says the same of places that it has. -/
theorem notesOf_extends (h : Noted language source s s₁ ps) (ht : s₁.tree.Extends s'.tree) :
    notesOf s'.tree ps = notesOf s₁.tree ps := by
  refine List.filterMap_congr fun q hq => ?_
  obtain ⟨table, context, -, hc⟩ := h.read q hq
  rw [ht.content q.id (Tree.lt_size_of_content? hc)]

theorem trans (h : Noted language source s s₁ ps) (h' : Noted language source s₁ s' qs)
    (ht : s₁.tree.Extends s'.tree) : Noted language source s s' (ps ++ qs) where
  functions := by
    rw [h'.functions, h.functions, ← noteLabels_append, ← h.notesOf_extends ht, notesOf, notesOf,
      notesOf, List.filterMap_append]
  read q hq := (List.mem_append.1 hq).elim (fun hq => (h.read q hq).mono ht) (h'.read q)

/-- What follows without a trace in the functions around it notes nothing. -/
theorem keep (h : Noted language source s s₁ ps) (ht : s₁.tree.Extends s'.tree)
    (hf : s'.functions = s₁.functions) : Noted language source s s' ps where
  functions := by rw [hf, h.functions, h.notesOf_extends ht]
  read q hq := (h.read q hq).mono ht

end Noted

theorem noted_add {s s' : State} {f : Frame} {id : NodeId} {outline : Outline} (path : List Nat)
    (hcontext : f.context.DeclaresNoLabel)
    (h : s.add language source f = .ok (s', id, outline)) :
    Noted language source s s' [⟨f.node, f.outer, f.parent, id, path⟩] := by
  obtain ⟨tree, htree, rfl, -⟩ := add_eq_ok.1 h
  obtain ⟨-, rfl, -⟩ := Tree.push?_eq_ok.1 htree
  have hc : tree.content? ⟨s.tree.size⟩ =
      some (readNode language source s.scopes ⟨s.tree.size⟩ f).content := by
    rw [Tree.content?_of_push? htree, if_pos rfl]
  constructor
  · rw [State.tree_record, notesOf, List.filterMap_cons, hc]
    cases hf : s.functions <;> simp [State.record, State.noteLabel, State.noteLabels, hf,
      LabelFrame.noteAll]
  · intro q hq
    cases List.mem_singleton.1 hq
    exact ⟨s.scopes, f.context, hcontext, hc⟩

/-- What holds of a descent into a node: it notes the loose places. -/
def NotesLoose (language : Language) (source : ByteArray) (n : Concrete.Node) : Prop :=
  ∀ path {outer parent context s s'}, Context.DeclaresNoLabel context →
    descend language source s outer parent context n = .ok s' →
      Noted language source s s' (looseAt path outer parent s.tree.size n)

/-- The children among which no scope is entered note what is loose at and below them. -/
theorem noted_descendAll (path : List Nat) (k : Nat) {node : Concrete.Node} {id : NodeId}
    {context : Context} {outline : Outline} (hcontext : context.DeclaresNoLabel)
    {cs : List Concrete.Node} (hcs : ∀ c ∈ cs, NotesLoose language source c) {s s' : State}
    (h : descendAll language source s node id context outline none cs = .ok s') :
    Noted language source s s' (looseIn false path node id s.tree.size k cs) := by
  induction cs generalizing s k with
  | nil =>
      rw [descendAll] at h
      cases h
      exact .refl s
  | cons c cs ih =>
      have ih := fun k {s} => ih (s := s) k fun x hx => hcs x (List.mem_cons_of_mem _ hx)
      rw [looseIn, Bool.false_and, if_neg Bool.false_ne_true]
      by_cases hk : c.item.isKept
      · obtain ⟨s₁, hc, hrest⟩ := (descendAll_cons_eq_ok hk).1 h
        have hhere := hcs c List.mem_cons_self (path ++ [k])
          (declaresNoLabel_childContext hcontext node outline c) hc
        have hsize := (grown_descend (path ++ [k]) c hc).size
        rw [length_placesAt] at hsize
        have hlater := ih (k + 1) hrest
        rw [hsize] at hlater
        rw [if_pos hk]
        exact hhere.trans hlater (follows_descendAll hrest).tree
      · rw [descendAll_of_not_kept _ _ _ _ _ hk] at h
        rw [if_neg hk]
        exact ih (k + 1) h

/-- Only a function opens the scope of a function. -/
theorem entry_ne_function {t : Table} {id : NodeId} {f : Frame}
    (hkind : f.node.kind ≠ .functionDefinition) {o : Opening}
    (ho : (readNode language source t id f).outline.opening = some o) : o.entry ≠ .function := by
  have specifier : ∀ kind, (readSpecifier language source t id f kind).outline.opening = some o →
      o.entry ≠ .function := by
    intro kind ho
    simp only [readSpecifier, readDefinedTag] at ho
    split at ho
    · split at ho
      · dsimp only at ho
        split at ho
        · cases ho
          simp
        · cases ho
      · cases ho
    · split at ho
      · split at ho <;> cases ho
      · cases ho
  have plain : ∀ {r : Reading}, r.outline = {} → r.outline.opening ≠ some o := fun hr => by
    simp [hr]
  simp only [readNode] at ho
  split at ho
  iterate 4 exact specifier _ ho
  · unfold readNamespace at ho
    split at ho
    · dsimp only at ho
      split at ho <;> cases ho <;> simp
    · cases ho
  · cases ho
  · exact absurd ho (plain (outline_readTypeIdentifier ..))
  · exact absurd ho (plain (outline_readNamespaceIdentifier ..))
  · split at ho
    · exact absurd ho (plain (outline_readNamespaceIdentifier ..))
    · cases ho
  · simp only [readStatementIdentifier] at ho
    split at ho <;> cases ho
  · cases ho
  · next hfunction => exact absurd hfunction hkind
  iterate 4
    cases ho
    simp
  · cases ho

/-- A scope that is no function's leaves the notes as they are. -/
theorem noted_scope (path : List Nat) {node : Concrete.Node} {id : NodeId} {context : Context}
    {outline : Outline} (hcontext : context.DeclaresNoLabel) {cs : List Concrete.Node}
    (hcs : ∀ c ∈ cs, NotesLoose language source c) {o : Opening} (ho : o.entry ≠ .function)
    {s s₁ s' : State}
    (h : descendAll language source s node id context outline (some o) cs = .ok s₁)
    (hleave : s₁.leave o.entry = .ok s') :
    Noted language source s s' (looseIn false path node id s.tree.size 0 cs) := by
  rw [descendAll_some] at h
  obtain ⟨s₂, hfront, hinside⟩ := bind_eq_ok.1 h
  have hcs' : o.front cs ++ o.inside cs = cs := List.takeWhile_append_dropWhile
  have mem_front : ∀ c ∈ o.front cs, c ∈ cs := fun c hc => hcs' ▸ List.mem_append_left _ hc
  have mem_inside : ∀ c ∈ o.inside cs, c ∈ cs := fun c hc => hcs' ▸ List.mem_append_right _ hc
  have hbefore := noted_descendAll path 0 hcontext (fun c hc => hcs c (mem_front c hc)) hfront
  have hwithin := noted_descendAll path (o.front cs).length hcontext
    (fun c hc => hcs c (mem_inside c hc)) hinside
  have hsize := (grown_descendAll path 0 _ hfront).size
  rw [length_placesIn] at hsize
  have hfollows := follows_descendAll hinside
  have htree := hfollows.tree
  rw [tree_enter] at hwithin htree
  rw [hsize] at hwithin
  have hwithin : Noted language source s₂ s₁ _ :=
    ⟨by rw [hwithin.functions, functions_enter, if_neg ho], hwithin.read⟩
  have hnoted := hbefore.trans hwithin htree
  rw [← Nat.zero_add (o.front cs).length, ← looseIn_append, hcs'] at hnoted
  rcases leave_cases hleave with ⟨rfl, -⟩ | ⟨frame, rest, he, -⟩
  · exact hnoted.keep (.refl _) rfl
  · exact absurd he ho

/-- A function notes only what is in front of its scope. -/
theorem noted_function (path : List Nat) {node : Concrete.Node} {id : NodeId} {context : Context}
    {outline : Outline} (hcontext : context.DeclaresNoLabel) {cs : List Concrete.Node}
    (hcs : ∀ c ∈ cs, NotesLoose language source c) {s s₁ s' : State}
    (h : descendAll language source s node id context outline
      (some ⟨.function, some .declarator⟩) cs = .ok s₁)
    (hleave : s₁.leave .function = .ok s') :
    Noted language source s s' (looseIn true path node id s.tree.size 0 cs) := by
  rw [descendAll_some] at h
  obtain ⟨s₂, hfront, hinside⟩ := bind_eq_ok.1 h
  have front_eq : (⟨.function, some .declarator⟩ : Opening).front cs =
      cs.takeWhile fun c => !beginsScope c := by
    refine congrArg (List.takeWhile · cs) (funext fun c => ?_)
    simp [Opening.beginsAt, Opening.opensAt, beginsScope, BEq.comm]
  rw [front_eq] at hfront
  have hmem : ∀ c ∈ cs.takeWhile fun c => !beginsScope c, c ∈ cs :=
    fun c hc => (List.takeWhile_sublist _).subset hc
  have hbefore := noted_descendAll path 0 hcontext (fun c hc => hcs c (hmem c hc)) hfront
  have hinner := follows_descendAll hinside
  rw [looseIn_function]
  exact hbefore.keep (follows_leave hinner hleave).tree (functions_of_leave hinner hleave)

/-- What is below a node leaves the nodes in front of it as they are. -/
theorem extends_of_descendAll {node : Concrete.Node} {id : NodeId} {context : Context}
    {outline : Outline} {opening : Option Opening} {cs : List Concrete.Node} {s s₁ s' : State}
    (h : descendAll language source s node id context outline opening cs = .ok s₁)
    (hleave : s₁.leaveOpening opening = .ok s') : s.tree.Extends s'.tree := by
  cases opening with
  | none =>
      cases hleave
      exact (follows_descendAll h).tree
  | some o =>
      rw [descendAll_some] at h
      obtain ⟨s₂, hfront, hinside⟩ := bind_eq_ok.1 h
      exact (follows_descendAll hfront).tree.trans
        (follows_leave (follows_descendAll hinside) hleave).tree

/-- **A descent notes the loose places**, and nothing of the functions inside. -/
theorem noted_descend (n : Concrete.Node) : NotesLoose language source n := by
  obtain ⟨item, children⟩ := n
  intro path outer parent context s s' hcontext h
  have hcs : ∀ c ∈ children, NotesLoose language source c := fun c hc => noted_descend c
  obtain ⟨s₁, id, outline, s₂, hadd, hall, hleave⟩ := descend_eq_ok.1 h
  obtain ⟨rfl, hsize⟩ := size_add hadd
  obtain ⟨tree, -, -, houtline⟩ := add_eq_ok.1 hadd
  have hbelow : Noted language source s₁ s' (looseIn (item.kind == .functionDefinition) path
      (.node item children) ⟨s.tree.size⟩ s₁.tree.size 0 children) := by
    by_cases hkind : item.kind = .functionDefinition
    · have ho : outline.opening = some ⟨.function, some .declarator⟩ :=
        houtline ▸ opening_of_function hkind
      rw [ho] at hall hleave
      rw [beq_iff_eq.2 hkind]
      exact noted_function path hcontext hcs hall hleave
    · rw [beq_eq_false_iff_ne.2 hkind]
      cases ho : outline.opening with
      | none =>
          rw [ho] at hall hleave
          cases hleave
          exact noted_descendAll path 0 hcontext hcs hall
      | some o =>
          have hentry : o.entry ≠ .function := by
            rw [houtline] at ho
            exact entry_ne_function
              (f := ⟨.node item children, outer, parent, context⟩) hkind ho
          rw [ho] at hall hleave
          exact noted_scope path hcontext hcs hentry hall hleave
  rw [hsize] at hbelow
  exact (noted_add path hcontext hadd).trans hbelow (extends_of_descendAll hall hleave)
termination_by sizeOf n
decreasing_by
  have := List.sizeOf_lt_of_mem hc
  simp only [Concrete.Node.node.sizeOf_spec]
  omega

end TypeUses.Resolution
