import TypeUses.Proofs.Resolution.Extension
import TypeUses.Proofs.Resolution.Kinds

/-!
# Resolution — names are visible from their declaration on

A reference that leads to a definition behind it leads to a label or to a tag, and the tag was
introduced at or before the reference (`visible_from_declaration`): by a declaration of the name, or
by a use of it as a tag.  No other name can be used before it is defined.

An entity is made when some place is read (`Introduces`).  It is defined there at once, or it is
that of a tag (`Origin`), and a definition stays once it is there.  `State.Dated` is what every step
keeps: each entity has its place, and one that a reference means has it no later than the reference.
-/

namespace TypeUses.Resolution

variable {language : Language} {source : ByteArray}

/-! ### Where entities are made -/

/-- In the walk over the parse, the entity is made when the place is read. -/
def Introduces (language : Language) (source : ByteArray) (spelling : String)
    (parse : Concrete.Parse) (q : Place) (e : EntityId) : Prop :=
  ∃ s s' context outline rest,
    Runs language source (.initial language spelling) (initialSteps parse) s
      (.visit ⟨q.node, q.outer, q.parent, context⟩ :: rest) ∧
    s.add language source ⟨q.node, q.outer, q.parent, context⟩ = .ok (s', q.id, outline) ∧
    s.scopes.entities.size ≤ e.index ∧ e.index < s'.scopes.entities.size

/-- How the entity came to be that is made at a place: the place defines it, declares a tag, or uses
one. -/
inductive Origin (root : Concrete.Node) (s : State) (q : Place) (e : EntityId) : Prop
  | defined (hd : s.scopes.definition? e = some q.id)
  | declared {kind : EntityKind} {name : String} (hkind : kind.isTag = true)
      (hc : s.tree.content? q.id = some (.declaration ⟨kind, name⟩))
      (hb : s.scopes.BoundIn .tag name e)
  | used {r : Reference} (hnode : q.node.kind = .typeIdentifier)
      (hunder : UnderTagName root q.path) (hc : s.tree.content? q.id = some (.reference r))
      (hb : s.scopes.BoundIn .tag r.spelling e)

theorem Origin.knows {root : Concrete.Node} {s s' : State} {q : Place} {e : EntityId}
    (h : Origin root s q e) (hk : s.Knows s') : Origin root s' q e := by
  cases h with
  | defined hd => exact .defined (hk.scopes.definition hd)
  | declared hkind hc hb => exact .declared hkind (hk.tree.keeps hc rfl) (hb.grows hk.scopes)
  | used hnode hunder hc hb =>
      obtain ⟨target, hc⟩ := hk.tree.reference hc
      exact .used hnode hunder hc (hb.grows hk.scopes)

/-- What a reading says of an entity that it makes. -/
theorem ReadAs.origin {t : Table} {id : NodeId} {f : Frame} {r : Reading}
    (h : ReadAs source t id f r) (hfile : Table.fileScope.index < t.scopes.size)
    (hactive : ∀ x ∈ t.active, x.index < t.scopes.size) {e : EntityId}
    (hnew : t.entities.size ≤ e.index) (he : e.index < r.scopes.entities.size) :
    r.scopes.definition? e = some id ∨
      (∃ kind name, kind.isTag = true ∧ r.content = .declaration ⟨kind, name⟩ ∧
        r.scopes.BoundIn .tag name e) ∨
      (∃ kind, f.context.role = .tag kind) ∧ f.node.kind = .typeIdentifier ∧
        r.content = .reference { kind := .typeName, spelling := textOf source f.node.item } ∧
        r.scopes.BoundIn .tag (textOf source f.node.item) e := by
  cases h with
  | plain | defines | refers => exact absurd he (Nat.not_lt.2 hnew)
  | binds op hop =>
      obtain ⟨-, hd⟩ := Table.answer_of_new hnew he
      refine Or.inl (hd.trans ?_)
      rcases hop with ⟨space, rfl⟩ | rfl <;> rfl
  | declares hkind =>
      obtain ⟨hanswer, -⟩ := Table.answer_of_new hnew he
      exact Or.inr (Or.inl ⟨_, _, hkind, rfl,
        Table.boundIn_of_answer hfile hactive rfl rfl hanswer⟩)
  | introduces hnode hrole =>
      obtain ⟨hanswer, -⟩ := Table.answer_of_new hnew he
      exact Or.inr (Or.inr ⟨⟨_, hrole⟩, hnode, rfl,
        Table.boundIn_of_answer hfile hactive rfl rfl hanswer⟩)
  | uses =>
      obtain ⟨hanswer, -⟩ := Table.answer_of_new hnew he
      cases hanswer

/-! ### What every step keeps -/

/-- Each entity was made at a place, and one that a reference means at or before the reference. -/
structure State.Dated (language : Language) (source : ByteArray) (spelling : String)
    (parse : Concrete.Parse) (s : State) : Prop where
  made : ∀ e : EntityId, e.index < s.scopes.entities.size → ∃ q ∈ places parse,
    q.id.index < s.tree.size ∧ Introduces language source spelling parse q e ∧
      Origin parse.root s q e
  pending : ∀ p ∈ s.pending, ∃ q ∈ places parse,
    q.id.index ≤ p.1.index ∧ Introduces language source spelling parse q p.2 ∧
      Origin parse.root s q p.2

section Steps
variable {spelling : String} {parse : Concrete.Parse} {s s' : State}

/-- A step that adds no node and makes no entity keeps the dates. -/
theorem State.Dated.of_knows (hs : s.Dated language source spelling parse) (hk : s.Knows s')
    (hentities : ∀ e : EntityId, e.index < s'.scopes.entities.size →
      e.index < s.scopes.entities.size) (hpending : s'.pending = s.pending) :
    s'.Dated language source spelling parse where
  made e he := by
    obtain ⟨q, hq, hlt, hintro, horigin⟩ := hs.made e (hentities e he)
    exact ⟨q, hq, Nat.lt_of_lt_of_le hlt hk.tree.size_le, hintro, horigin.knows hk⟩
  pending p hp := by
    rw [hpending] at hp
    obtain ⟨q, hq, hle, hintro, horigin⟩ := hs.pending p hp
    exact ⟨q, hq, hle, hintro, horigin.knows hk⟩

theorem dated_add {f : Frame} {rest : List Step} {id : NodeId} {outline : Outline}
    (hruns : Runs language source (.initial language spelling) (initialSteps parse) s
      (.visit f :: rest))
    (hsound : s.Sound ∧ s'.Sound) (hat : f.At parse s.tree.size)
    (hs : s.Dated language source spelling parse)
    (h : s.add language source f = .ok (s', id, outline)) :
    s'.Dated language source spelling parse := by
  have knows := knows_add h
  obtain ⟨hid, hsize⟩ := size_add h
  obtain ⟨p, hp, hpid, hnode, houter, hparent, hfits⟩ := hat
  have made : ∀ e : EntityId, e.index < s'.scopes.entities.size → ∃ q ∈ places parse,
      q.id.index < s'.tree.size ∧ Introduces language source spelling parse q e ∧
        Origin parse.root s' q e := by
    intro e he
    by_cases hold : e.index < s.scopes.entities.size
    · obtain ⟨q, hq, hlt, hintro, horigin⟩ := hs.made e hold
      exact ⟨q, hq, Nat.lt_of_lt_of_le hlt knows.tree.size_le, hintro, horigin.knows knows⟩
    · -- the entity is new, and the place is the one that is read
      have hnew : s.scopes.entities.size ≤ e.index := Nat.le_of_not_lt hold
      have hframe : f = ⟨p.node, p.outer, p.parent, f.context⟩ := by
        rw [← hnode, ← houter, ← hparent]
      refine ⟨p, hp, by rw [hpid, hsize]; exact Nat.lt_succ_self _, ?_, ?_⟩
      · rw [hframe] at hruns h
        exact ⟨s, s', f.context, outline, rest, hruns, by rwa [hpid, ← hid], hnew, he⟩
      · obtain ⟨tree, htree, rfl, -⟩ := add_eq_ok.1 h
        obtain ⟨-, rfl, -⟩ := Tree.push?_eq_ok.1 htree
        have hread := readAs_readNode language source s.scopes ⟨s.tree.size⟩ f
        generalize readNode language source s.scopes ⟨s.tree.size⟩ f = r at hread htree he
        have new : tree.content? p.id = some r.content := by
          rw [hpid, Tree.content?_of_push? htree, if_pos rfl]
        rcases hread.origin hsound.1.scopes.file hsound.1.scopes.active hnew he with
          hd | ⟨kind, name, hkind, hc, hb⟩ | ⟨⟨kind, hrole⟩, htype, hc, hb⟩
        · exact .defined (hpid ▸ hd)
        · exact .declared hkind (new.trans (congrArg some hc)) hb
        · exact .used (hnode ▸ htype) (hfits.tag kind hrole).2 (new.trans (congrArg some hc)) hb
  refine ⟨made, fun q hq => ?_⟩
  have hlt := (hsound.2.pending q hq).1
  obtain ⟨tree, -, rfl, -⟩ := add_eq_ok.1 h
  rcases State.mem_pending_record hq with hq | ⟨e, -, rfl⟩
  · obtain ⟨q', hq', hle, hintro, horigin⟩ := hs.pending q hq
    exact ⟨q', hq', hle, hintro, horigin.knows knows⟩
  · -- what is made by now is made no later than the node that is added
    obtain ⟨q', hq', hle, hintro, horigin⟩ := made e hlt
    rw [hsize] at hle
    exact ⟨q', hq', hid ▸ Nat.le_of_lt_succ hle, hintro, horigin⟩

/-- Every step keeps the origins of what is pending. -/
theorem dated_perform {step : Step} {rest steps : List Step}
    (hroot : parse.root.kind = .translationUnit ∨ parse.root.kind = .error)
    (hruns : Runs language source (.initial language spelling) (initialSteps parse) s
      (step :: rest))
    (hs : s.Dated language source spelling parse)
    (h : s.perform language source step = .ok (s', steps)) :
    s'.Dated language source spelling parse := by
  have hsound := sound_of_parse hruns
  have knows := knows_perform h
  cases step with
  | visit f =>
      obtain ⟨id, outline, hadd, -⟩ := perform_visit_eq_ok.1 h
      exact dated_add hruns ⟨hsound.1, (sound_perform hsound h).1⟩ (aligned_of_runs hroot hruns).1
        hs hadd
  | enter entry =>
      cases h
      refine hs.of_knows knows (fun e he => Nat.lt_of_not_le fun hnew => ?_) (pending_enter s entry)
      rw [scopes_enter] at he
      obtain ⟨hanswer, -⟩ := Table.answer_of_new hnew he
      cases entry <;> cases hanswer
  | leave entry =>
      obtain ⟨hscopes, hpending, -⟩ := leave_eq_ok (perform_leave_eq_ok.1 h).1
      refine hs.of_knows knows (fun e he => ?_) hpending
      rwa [hscopes, Table.entities_leave] at he

/-- Every state of the walk over a parse is dated, if the root is that of a unit or an error. -/
theorem dated_of_runs (hroot : parse.root.kind = .translationUnit ∨ parse.root.kind = .error)
    {stack : List Step}
    (h : Runs language source (.initial language spelling) (initialSteps parse) s stack) :
    s.Dated language source spelling parse :=
  h.along (P := fun s _ => s.Dated language source spelling parse)
    (fun hruns hs hstep => dated_perform hroot hruns hs hstep) ⟨nofun, nofun⟩

end Steps

/-! ### Definitions behind their references -/

/-- The place introduces a tag of the name: it declares one, or it is a reference to one that stands
in the name of a specifier without a body. -/
def IntroducesTag (root : Concrete.Node) (tree : Tree) (q : Place) (name : String) : Prop :=
  (∃ kind, kind.isTag = true ∧ tree.content? q.id = some (.declaration ⟨kind, name⟩)) ∨
    (q.node.kind = .typeIdentifier ∧ UnderTagName root q.path ∧
      ∃ r, tree.content? q.id = some (.reference r) ∧ r.spelling = name)

/-- An entity that is not defined where it is made is a tag, and its place introduces it. -/
theorem Origin.introducesTag {root : Concrete.Node} {s : State} {tree : Tree} {q : Place}
    {e : EntityId} (h : Origin root s q e) (hd : s.scopes.definition? e ≠ some q.id)
    (hn : s.Named) {name : String} (hb : s.scopes.Bound name e) (grows : s.tree.Grows tree) :
    IntroducesTag root tree q name ∧ s.scopes.BoundIn .tag name e := by
  cases h with
  | defined hdef => exact absurd hdef hd
  | declared hkind hc hb' =>
      obtain rfl := hn.scopes.unique hb hb'.bound
      exact ⟨Or.inl ⟨_, hkind, grows.keeps hc rfl⟩, hb'⟩
  | used hnode hunder hc hb' =>
      obtain rfl := hn.scopes.unique hb hb'.bound
      obtain ⟨target, hc⟩ := grows.reference hc
      exact ⟨Or.inr ⟨hnode, hunder, _, hc, rfl⟩, hb'⟩

/-- **Names are visible from their declaration on.**  A reference whose target stands behind it
refers to a label, or to a tag that some place at or before the reference has introduced under the
same name: the entity that the reference means, and which the target defines, was made when that
place was read. -/
theorem visible_from_declaration {spelling : String} {parse : Concrete.Parse}
    (hroot : parse.root.kind = .translationUnit ∨ parse.root.kind = .error) {tree : Tree}
    {stats : Stats} (h : resolveNames language source spelling parse = .ok (tree, stats))
    {id d : NodeId} {r : Reference} (hr : tree.content? id = some (.reference r))
    (hd : r.target = some d) (hlt : id.index < d.index) :
    (r.kind = .label ∧ tree.content? d = some (.definition ⟨.label, r.spelling⟩)) ∨
    ∃ kind, kind.isTag = true ∧ tree.content? d = some (.definition ⟨kind, r.spelling⟩) ∧
      ∃ q ∈ places parse, q.id.index ≤ id.index ∧ IntroducesTag parse.root tree q r.spelling ∧
        ∃ s e, walk language source (.initial language spelling) (initialSteps parse) = .ok s ∧
          (id, e) ∈ s.pending ∧ s.scopes.definition? e = some d ∧
          Introduces language source spelling parse q e := by
  obtain ⟨s, hwalk, grows, hsize, hlink⟩ := link_cases hroot h hr hd
  refine hlink.imp_right fun ⟨e, hp, hdef⟩ => ?_
  have hruns := walk_eq_ok_iff.1 hwalk
  have hk := kinded_of_runs hroot hruns
  obtain ⟨-, hn⟩ := named_of_runs hruns
  obtain ⟨q, hq, hle, hintro, horigin⟩ := (dated_of_runs hroot hruns).pending _ hp
  obtain ⟨target, hr₀⟩ := grows.of_reference hsize hr
  obtain ⟨r', hr', hb⟩ := hn.pending _ hp
  cases hr₀.symm.trans hr'
  -- the target is not the place, which does not stand behind the reference
  have hne : s.scopes.definition? e ≠ some q.id := by
    rw [hdef]
    rintro ⟨⟩
    exact Nat.not_lt.2 hle hlt
  obtain ⟨htag, hb⟩ := horigin.introducesTag hne hn hb grows
  obtain ⟨kind, hkind, ha⟩ := hk.scopes.bound hb
  obtain ⟨name, hdefines⟩ := hk.scopes.definition hkind hdef
  obtain ⟨kind', hnamed⟩ := linksNamed_resolveNames h hr hd
  cases hnamed.symm.trans (grows.definition hdefines)
  exact ⟨kind, ha, hnamed, q, hq, hle, htag, s, e, hwalk, hp, hdef, hintro⟩

/-- The parse of the source `struct P *a; struct P {};`. -/
def forwardParse : Concrete.Parse :=
  ⟨.node { kind := .translationUnit } (useItems ++ definitionItems), false⟩

/-- The tag that is used first leads to the definition behind it. -/
theorem visible_from_declaration_forward : ∃ tree stats,
    resolveNames .c "struct P *a; struct P {};".toUTF8 "a.c" forwardParse = .ok (tree, stats) ∧
      tree.content? ⟨3⟩ = some (.reference ⟨.typeName, "P", some ⟨5⟩⟩) ∧
      ∃ q ∈ places forwardParse, q.id.index ≤ 3 ∧
        IntroducesTag forwardParse.root tree q "P" := by
  have hcontent :
      (resolveNames .c "struct P *a; struct P {};".toUTF8 "a.c" forwardParse).toOption.bind
        (fun r => r.1.content? ⟨3⟩) = some (.reference ⟨.typeName, "P", some ⟨5⟩⟩) := by
    decide +kernel
  cases h : resolveNames .c "struct P *a; struct P {};".toUTF8 "a.c" forwardParse with
  | error fault => rw [h] at hcontent; cases hcontent
  | ok result =>
      obtain ⟨tree, stats⟩ := result
      rw [h] at hcontent
      have hlt : (3 : Nat) < 5 := by decide
      rcases visible_from_declaration (Or.inl rfl) h hcontent rfl hlt with
        ⟨hlabel, -⟩ | ⟨kind, -, -, q, hq, hle, htag, -⟩
      · cases hlabel
      · exact ⟨tree, stats, rfl, hcontent, q, hq, hle, htag⟩

end TypeUses.Resolution
