import TypeUses.Proofs.Resolution.Extension
import TypeUses.Proofs.Resolution.Kinds
import TypeUses.Proofs.Resolution.Reads
import TypeUses.Proofs.Resolution.Shut
import TypeUses.Proofs.Scope.Body

/-!
# Resolution — nothing leads into the body of a class by an unqualified name

Where class bodies are scopes, a class with a simple name is an entity, and its body is the scope of
the entity's members (`read_class`).  What is defined in the body is bound there (`respects_inBody`),
and no scope outside uses it until a directive names the class.  So when the walk has left the body,
an unqualified name means nothing that lies in it (`exists_passesBody`), and a reference that is
looked up unqualified and leads into the body lies in it (`class_bodies_hygienic`).

A class without a name, or whose name is qualified or that of a template, is no entity, and its body
opens no scope: what is defined there is bound around the class and found behind it
(`class_bodies_escape`).
-/

namespace TypeUses.Resolution

variable {language : Language} {source : ByteArray}

/-! ### Reading a class -/

/-- A class with a simple name and a body defines a tag, and its body opens the tag's members. -/
theorem read_class (t : Table) (id : NodeId) (f : Frame) {name : String}
    (hn : f.node.IsSpecifier) (hbody : (f.node.child? .body).isSome = true)
    (hname : simpleName? source f.node = some name) :
    ∃ (kind : EntityKind) (c : EntityId), kind ≠ .namespaceName ∧
      (t.perform (.define .tag name kind id)).1 = .entity c ∧
      (readNode .cpp source t id f).scopes = (t.perform (.define .tag name kind id)).2 ∧
      (readNode .cpp source t id f).outline.opening =
        some ⟨.members c .classBody, some .body⟩ := by
  have defined : ∀ kind : EntityKind, kind ≠ .namespaceName →
      ∃ (kind' : EntityKind) (c : EntityId), kind' ≠ .namespaceName ∧
        (t.perform (.define .tag name kind' id)).1 = .entity c ∧
        (readSpecifier .cpp source t id f kind).scopes =
          (t.perform (.define .tag name kind' id)).2 ∧
        (readSpecifier .cpp source t id f kind).outline.opening =
          some ⟨.members c .classBody, some .body⟩ := by
    intro kind hkind
    refine ⟨kind, (t.define .tag name kind id).1, hkind, rfl, ?_⟩
    rw [readSpecifier, if_pos hbody, readDefinedTag, hname]
    exact ⟨rfl, rfl⟩
  simp only [readNode]
  rcases hn with hn | hn | hn | hn <;> rw [hn] <;> exact defined _ (by decide)

/-- Until its members are entered a class stays unentered, whatever is read. -/
theorem respects_unentered (c : EntityId) :
    Respects .cpp source (fun s => Table.Unentered c s.scopes) Follows
      (fun _ entry => ∀ e, entry.entity? = some e → e ≠ c) := by
  refine respects_of_table (P := Table.Unentered c) (Q := fun _ e => e ≠ c) (fun h hop => ?_)
    (fun h _ hnode hanswer => h.ne_of_answer hanswer hnode) (fun _ => id) (fun entry h hne => ?_)
    fun _ h _ _ => h.leave
  · refine h.perform ?_
    rintro kind rfl
    exact hop
  · refine h.perform fun kind he => ?_
    cases entry <;> cases he
    exact hne c rfl rfl

/-- What is read in the body of a class is bound there. -/
theorem respects_inBody (c : EntityId) (n : Nat) (t₀ : Table) :
    Respects .cpp source (fun s => t₀.InBody c n s.scopes) Follows
      (fun s entry => ∀ e, entry.entity? = some e → t₀.NewlyHeld s.scopes e) := by
  refine respects_of_table (P := t₀.InBody c n) (Q := fun t => t₀.NewlyHeld t) (fun h => h.perform)
    (fun h _ hnode hanswer => h.newlyHeld_of_answer hanswer hnode) (fun hg he => he.grows hg)
    (fun entry h he => ?_) fun h h' hg hactive => ⟨h'.held.leave, h.walled.of_active hg hactive⟩
  cases entry with
  | fresh kind => exact h.enter kind
  | members e kind => exact h.enterMembers (he e rfl) kind
  | function => exact h.enter .function

/-! ### Leaving the body of a class -/

/-- The child with which a class's scope begins. -/
def beginsBody (c : Concrete.Node) : Bool := c.item.isKept && c.field == some .body

section Parse
variable {spelling : String} {parse : Concrete.Parse}

/-- In state `s` the walk is about to enter the body of the class at a place, which begins at child
`k`, and in state `s'` it has left it. -/
structure PassesBody (source : ByteArray) (spelling : String) (parse : Concrete.Parse) (p : Place)
    (k : Nat) (c : EntityId) (s s' : State) (stack rest : List Step) : Prop extends
    Passes .cpp source spelling parse s s' stack rest where
  held : s.scopes.HeldIn c s.tree.size s'.scopes
  defined : s'.scopes.definition? c = some p.id
  size : s.tree.size = p.id.index + 1 + Concrete.Node.keptCounts (p.node.children.take k)
  size' : s'.tree.size = p.id.index + p.node.keptCount

/-- The walk gets to the body of a class, whose members nothing has entered until then. -/
theorem exists_passage_of_class {sf : State}
    (hwalk : walk .cpp source (.initial .cpp spelling) (initialSteps parse) = .ok sf) {p : Place}
    (hp : p ∈ places parse) (hn : p.node.IsSpecifier)
    (hname : (simpleName? source p.node).isSome = true) {k : Nat}
    (hk : p.node.children.findIdx? beginsBody = some k) :
    ∃ c context rest inside s₀ s₁ s s₂ s',
      Runs .cpp source (.initial .cpp spelling) (initialSteps parse) s₀
        (.visit ⟨p.node, p.outer, p.parent, context⟩ :: rest) ∧ s₀.tree.size = p.id.index ∧
      Passage .cpp source ⟨p.node, p.outer, p.parent, context⟩ ⟨.members c .classBody, some .body⟩
        (p.node.children.take k) inside rest s₀ s₁ s s₂ s' ∧
      Table.Unentered c s.scopes ∧ s.scopes.definition? c = some p.id := by
  have hsplit := splits_at_field hk
  have hbody : (p.node.child? .body).isSome = true := by
    obtain ⟨child, hsplit⟩ := hsplit (.fresh .classBody)
    have hfield : some .body = child.field := by simpa [Opening.opensAt] using hsplit.begins
    refine List.find?_isSome.2 ⟨child, ?_, decide_eq_true hfield.symm⟩
    rw [hsplit.children]
    exact List.mem_append_right _ List.mem_cons_self
  obtain ⟨s₀, context, rest, hruns, hsize₀⟩ := visited_of_mem_places hwalk hp
  obtain ⟨name, hname⟩ := Option.isSome_iff_exists.1 hname
  obtain ⟨kind, c, hkind, hanswer, hscopes, hopening⟩ :=
    read_class s₀.scopes ⟨s₀.tree.size⟩ ⟨p.node, p.outer, p.parent, context⟩ hn hbody hname
  obtain ⟨child, hsplit⟩ := hsplit (.members c .classBody)
  obtain ⟨s₁, s, s₂, s', passage⟩ := exists_passage (hruns.walk_eq ▸ hwalk) hopening hsplit
  -- the node defines the class, which nothing in front of the body enters
  obtain ⟨hun, hdef⟩ := Table.unentered_of_answer (placed_of_runs hruns).1
    (sound_of_parse hruns).1.standing hanswer rfl rfl hkind
  rw [← hscopes, ← passage.read] at hun hdef
  obtain ⟨hun, hfront⟩ := (respects_unentered c).descendAll_none _ hun passage.before
  refine ⟨c, context, rest, _, s₀, s₁, s, s₂, s', hruns, hsize₀, passage, hun, ?_⟩
  rw [hfront.scopes.definition hdef, hsize₀]

/-- **The walk gets into the body of a class and out of it.** -/
theorem exists_passesBody {sf : State}
    (hwalk : walk .cpp source (.initial .cpp spelling) (initialSteps parse) = .ok sf) {p : Place}
    (hp : p ∈ places parse) (hn : p.node.IsSpecifier)
    (hname : (simpleName? source p.node).isSome = true) {k : Nat}
    (hk : p.node.children.findIdx? beginsBody = some k) :
    ∃ c s s' stack rest, PassesBody source spelling parse p k c s s' stack rest := by
  obtain ⟨c, context, rest, inside, s₀, s₁, s, s₂, s', hruns, hsize₀, passage, hun, hdef⟩ :=
    exists_passage_of_class hwalk hp hn hname hk
  have hreach := hruns.trans passage.enters
  have hsound := (sound_of_parse hreach).1
  -- what is defined in the body is bound there
  obtain ⟨hin, hinside⟩ := (respects_inBody c s.tree.size s.scopes).descendAll_none _
    (Table.InBody.of_enterMembers hsound.present hun.members fun hd => (hsound.definition hd).lt)
    passage.within
  have hfollows := follows_leave hinside passage.leaves
  have hdef' := hfollows.scopes.definition hdef
  have held : s.scopes.HeldIn c s.tree.size s'.scopes := by
    rw [(leave_eq_ok passage.leaves).1]
    exact hin.held.leave
  have hplaced' := (placed_of_runs (hruns.trans passage.ends)).1
  obtain ⟨stack, hpasses⟩ := passes_of_passage hruns passage hfollows.active fun e x hm hx => by
    rcases held.members hm hx with rfl | hnew
    · refine ⟨Or.inr ⟨⟨_, hdef'⟩, ?_⟩, _, hdef', Nat.le_of_eq hsize₀⟩
      rw [kind?_of_runs hreach passage.crosses hdef]
      exact hun.kind
    · obtain ⟨d, hd⟩ := hplaced'.members hm
      exact hnew.barredFrom (placed_of_runs hreach).1 hplaced'
        (hfollows.scopes.mono fun _ => Nat.le_trans (passage.size ▸ by omega)) hd
  exact ⟨c, s, s', stack, rest, hpasses, held, hdef', hsize₀ ▸ passage.size,
    hsize₀ ▸ passage.size'⟩

namespace PassesBody

variable {p : Place} {k : Nat} {c : EntityId} {s s' : State} {stack rest : List Step}

/-- The members that lie in the body are those of the class, or of what is defined in the body. -/
theorem defined_of_members (h : PassesBody source spelling parse p k c s s' stack rest)
    {e : EntityId} (he : s.MembersBetween s' e) :
    ∃ d, s'.scopes.definition? e = some d ∧ (d = p.id ∨ s.tree.size ≤ d.index) := by
  obtain ⟨x, hx, hm⟩ := he
  rcases h.held.members hm hx.1 with rfl | ⟨y, hy, hholds⟩
  · exact ⟨p.id, h.defined, Or.inl rfl⟩
  · have hplaced' := (placed_of_runs (h.enters.trans h.crosses)).1
    obtain ⟨d, hd⟩ := hplaced'.members hm
    exact ⟨d, hd, Or.inr ((placed_of_runs h.enters).1.defined_of_holds hplaced'
      (grows_of_runs h.crosses).1 hy hholds hd)⟩

/-- No scope outside of the body uses one that is made in it. -/
theorem unused (h : PassesBody source spelling parse p k c s s' stack rest) :
    s'.scopes.Unused (s.Between s') := by
  intro y hy x hx hnew
  by_cases hlt : y.index < s.scopes.scopes.size
  · exact h.held.used (Nat.not_le.2 hlt) x hx hnew.1
  · exact hy ⟨Nat.le_of_not_lt hlt, Table.lt_of_mem_usedBy hx⟩

end PassesBody

/-! ### Directives -/

/-- Some directive outside of a node's children from number `k` on names the node at the path, or
something in these children. -/
def NamedByDirective (source : ByteArray) (spelling : String) (parse : Concrete.Parse) (tree : Tree)
    (path : List Nat) (k : Nat) : Prop :=
  ∃ u ∈ places parse, ¬ u.LiesFrom path k ∧
    (∃ context, ReadIn .cpp source spelling parse u context ∧ context.role = .usedNamespace) ∧
    ∃ d ∈ places parse, tree.target? u.id = some d.id ∧ (d.path = path ∨ d.LiesFrom path k)

/-- A directive behind a class that makes visible what lies in the body names the class, or what is
in it. -/
theorem namedByDirective_of_read
    (hroot : parse.root.kind = .translationUnit ∨ parse.root.kind = .error) {tree : Tree}
    {stats : Stats} (h : resolveNames .cpp source spelling parse = .ok (tree, stats)) {p : Place}
    (hp : p ∈ places parse) {k : Nat} {c : EntityId} {s s' : State} {stack rest : List Step}
    (hpass : PassesBody source spelling parse p k c s s' stack rest) {s₂ : State} {f : Frame}
    {rest₂ : List Step} (hr : Runs .cpp source s' rest s₂ (.visit f :: rest₂))
    (hrole : f.context.role = .usedNamespace) {e : EntityId}
    (hentity : (readNode .cpp source s₂.scopes ⟨s₂.tree.size⟩ f).entity = some e)
    (he : s.MembersBetween s' e) : NamedByDirective source spelling parse tree p.path k := by
  obtain ⟨sf, sl, hwalk, hfinish, rfl⟩ := resolveNames_eq_ok h
  have hend := walk_eq_ok_iff.1 hwalk
  have hread := hpass.exits.trans hr
  obtain ⟨u, hu, huid, hnode, houter, hparent, -⟩ := (aligned_of_runs hroot hread).1
  have hframe : f = ⟨u.node, u.outer, u.parent, f.context⟩ := by rw [← hnode, ← houter, ← hparent]
  have hindex : u.id.index = s₂.tree.size := by rw [huid]
  have hbehind : p.id.index + p.node.keptCount ≤ u.id.index := by
    rw [hindex, ← hpass.size']
    exact (grows_of_runs hr).2.size_le
  -- in the end the directive has the definition of the entity as its target
  obtain ⟨d, hd, hplace⟩ := hpass.defined_of_members he
  obtain ⟨s₃, id, outline, hadd, hvisit, hwalk₃⟩ := walk_visit_cons_eq_ok (hread.walk_eq ▸ hwalk)
  obtain ⟨rfl, -⟩ := size_add hadd
  obtain ⟨t, -, rfl, -⟩ := add_eq_ok.1 hadd
  have hpending := pending_of_runs (walk_eq_ok_iff.1 hwalk₃) (State.mem_pending_record_self hentity)
  have hdf := (grows_of_runs (walk_eq_ok_iff.1 (hpass.exits.walk_eq ▸ hwalk))).1.definition hd
  have htarget : sl.tree.target? u.id = some d := by
    rw [huid, target?_of_pending (sound_of_parse hend).1 hfinish hpending, hdf]
  -- which is the class or lies in its body
  have hlt : d.index < p.id.index + p.node.keptCount := by
    rw [← hpass.size']
    exact ((sound_of_parse hpass.exits).1.definition hd).lt
  obtain ⟨entity, hc⟩ := (sound_of_parse hend).1.definition hdf
  obtain ⟨d, hdp, rfl⟩ := exists_place_of_content? (grown_resolveNames h)
    ((linked_of_link hfinish).1.grows.definition hc) nofun
  refine ⟨u, hu, fun hlies => ?_, ⟨f.context, ⟨s₂, rest₂, hframe ▸ hread, hindex.symm⟩, hrole⟩,
    d, hdp, htarget, ?_⟩
  · exact absurd (id_bounds_of_liesFrom (mem_below_of_liesFrom hp hu hlies) hlies).2
      (Nat.not_lt.2 hbehind)
  · rcases hplace with hid | hle
    · exact Or.inl (congrArg Place.path (eq_of_id_eq hdp hp hid))
    · rw [hpass.size] at hle
      exact Or.inr (liesFrom_of_id_bounds hp hdp hle hlt)

/-! ### References -/

/-- If place `e` lies in the body of a class with a simple name that no directive outside of the body
names, place `q` lies there. -/
def BodiesHygienic (source : ByteArray) (spelling : String) (parse : Concrete.Parse) (tree : Tree)
    (q e : Place) : Prop :=
  ∀ path b k, path ≠ [] → parse.root.at? path = some b → b.IsSpecifier →
    (simpleName? source b).isSome = true → b.children.findIdx? beginsBody = some k →
    ¬ NamedByDirective source spelling parse tree path k →
    e.LiesFrom path k → q.LiesFrom path k

/-- An unqualified reference to a target in the body of a class is read in the body. -/
theorem liesFrom_of_body
    (hroot : parse.root.kind = .translationUnit ∨ parse.root.kind = .error) {tree : Tree}
    {stats : Stats} (h : resolveNames .cpp source spelling parse = .ok (tree, stats)) {sf : State}
    (hwalk : walk .cpp source (.initial .cpp spelling) (initialSteps parse) = .ok sf)
    {p q e : Place} (hp : p ∈ places parse) (hq : q ∈ places parse) (hn : p.node.IsSpecifier)
    (hname : (simpleName? source p.node).isSome = true) {k : Nat}
    (hk : p.node.children.findIdx? beginsBody = some k)
    (hno : ¬ NamedByDirective source spelling parse tree p.path k) (he : e ∈ p.below)
    (hlies : e.LiesFrom p.path k) {x : EntityId} (hdef : sf.scopes.definition? x = some e.id)
    {s₁ : State} {context : Context} {rest₁ : List Step}
    (hread : Runs .cpp source (.initial .cpp spelling) (initialSteps parse) s₁
      (.visit ⟨q.node, q.outer, q.parent, context⟩ :: rest₁))
    (hsize : s₁.tree.size = q.id.index)
    (hentity : (readNode .cpp source s₁.scopes ⟨s₁.tree.size⟩
      ⟨q.node, q.outer, q.parent, context⟩).entity = some x)
    (hlexical : context.lookup = .lexical) : q.LiesFrom p.path k := by
  obtain ⟨c, s, s', stack, rest, hpass⟩ := exists_passesBody hwalk hp hn hname hk
  obtain ⟨hlow, hhigh⟩ := id_bounds_of_liesFrom he hlies
  have hend := grows_of_runs (walk_eq_ok_iff.1 (hpass.exits.walk_eq ▸ hwalk))
  -- the target is bound in the body
  have hdef' : s'.scopes.definition? x = some e.id := by
    rcases hend.1.defined hdef with hd | hle
    · exact hd
    · rw [hpass.size'] at hle
      omega
  obtain ⟨z, hz, hholds⟩ := hpass.held.defined hdef' (by rw [hpass.size]; exact hlow)
  have hbounds := hpass.id_bounds_of_read hwalk hread hentity hz (hholds.grows hend.1)
    fun hlater => ?_
  · rw [hsize, hpass.size, hpass.size'] at hbounds
    exact liesFrom_of_id_bounds hp hq hbounds.1 hbounds.2
  · -- an unqualified name that is read later means nothing in the body
    have hshut := hpass.later hlater
    have hunused := unused_of_runs hpass.exits hlater hpass.unused fun hr hrole hentity y hm hy =>
      hno (namedByDirective_of_read hroot h hp hpass hr hrole hentity
        ((hpass.later hr).members hm hy))
    obtain ⟨y, hy, hbound⟩ := (readAs_readNode ..).holds (P := fun y => ¬ s.Between s' y)
      (sound_of_parse hread).1.standing hentity
      (fun spaces name hl => hshut.holds_of_lexical hunused (hlexical ▸ hl)) hshut.innermost
    exact ⟨y, fun hyz => hy (hyz ▸ ⟨hz, hholds.lt⟩), hbound⟩

/-- **Nothing leads into the body of a class by an unqualified name.**  A reference that is looked up
unqualified lies in the body of every class in whose body its target lies, if the class has a simple
name and no directive outside of its body names it. -/
theorem class_bodies_hygienic
    (hroot : parse.root.kind = .translationUnit ∨ parse.root.kind = .error) {tree : Tree}
    {stats : Stats} (h : resolveNames .cpp source spelling parse = .ok (tree, stats))
    {id d : NodeId} {r : Reference} (hr : tree.content? id = some (.reference r))
    (hd : r.target = some d) (hlabel : r.kind ≠ .label) :
    ∃ q ∈ places parse, ∃ e ∈ places parse, q.id = id ∧ e.id = d ∧
      ∃ context, ReadIn .cpp source spelling parse q context ∧
        (context.lookup = .lexical → BodiesHygienic source spelling parse tree q e) := by
  obtain ⟨sf, hwalk, -, -, hlink⟩ := link_cases hroot h hr hd
  obtain ⟨x, hpending, hdef⟩ := hlink.resolve_left fun hl => hlabel hl.1
  obtain ⟨kind, hc⟩ := linksNamed_resolveNames h hr hd
  obtain ⟨e, he, rfl⟩ := exists_place_of_content? (grown_resolveNames h) hc nofun
  obtain ⟨q, hq, rfl, s₁, context, rest₁, hread, hsize, hentity⟩ :=
    read_of_pending hroot (walk_eq_ok_iff.1 hwalk) hpending
  refine ⟨q, hq, e, he, rfl, rfl, context, ⟨s₁, rest₁, hread, hsize⟩, fun hlexical => ?_⟩
  intro path b k hpath hb hn hname hk hno hlies
  obtain ⟨p, hp, rfl, rfl, hbelow⟩ := exists_place_above he hpath hb hlies
  exact liesFrom_of_body hroot h hwalk hp hq hn hname hk hno hbelow hlies hdef hread hsize hentity
    hlexical

/-- The source `struct S { typedef int T; T x; };`. -/
def memberSource : ByteArray := "struct S { typedef int T; T x; };\n".toUTF8

open Concrete.Node in
/-- Its parse. -/
def memberParse : Concrete.Parse where
  root := onLine .translationUnit none 0 34
    [onLine .structSpecifier none 0 32
      [token "struct" 0, onLine .typeIdentifier (some .name) 7 8 [],
        onLine (.other "field_declaration_list") (some .body) 9 32
          [token "\x7b" 9,
            onLine .typeDefinition none 11 25
              [token "typedef" 11, onLine (.other "primitive_type") (some .type) 19 22 [],
                onLine .typeIdentifier (some .declarator) 23 24 [], token ";" 24],
            onLine .fieldDeclaration none 26 30
              [onLine .typeIdentifier (some .type) 26 27 [],
                onLine (.other "field_identifier") (some .declarator) 28 29 [], token ";" 29],
            token "\x7d" 31]],
      token ";" 32]
  hasError := false

/-- The use of `T` in the body leads to the `typedef` in the body. -/
theorem class_bodies_hygienic_member : ∃ tree stats,
    resolveNames .cpp memberSource "t.cpp" memberParse = .ok (tree, stats) ∧
      tree.content? ⟨8⟩ = some (.reference ⟨.typeName, "T", some ⟨6⟩⟩) ∧
      ∃ q ∈ places memberParse, ∃ e ∈ places memberParse, q.id = ⟨8⟩ ∧ e.id = ⟨6⟩ ∧
        ∃ context, ReadIn .cpp memberSource "t.cpp" memberParse q context ∧
          (context.lookup = .lexical →
            BodiesHygienic memberSource "t.cpp" memberParse tree q e) := by
  have hcontent : (resolveNames .cpp memberSource "t.cpp" memberParse).toOption.bind
      (fun r => r.1.content? ⟨8⟩) = some (.reference ⟨.typeName, "T", some ⟨6⟩⟩) := by
    decide +kernel
  cases h : resolveNames .cpp memberSource "t.cpp" memberParse with
  | error fault => rw [h] at hcontent; cases hcontent
  | ok r =>
      obtain ⟨tree, stats⟩ := r
      rw [h] at hcontent
      exact ⟨tree, stats, rfl, hcontent, class_bodies_hygienic (Or.inl rfl) h hcontent rfl nofun⟩

/-! ### A body that is no scope -/

/-- The source `struct A { struct B; }; struct A::B { typedef int T; }; T t;`. -/
def qualifiedSource : ByteArray :=
  "struct A { struct B; }; struct A::B { typedef int T; }; T t;\n".toUTF8

open Concrete.Node in
/-- Its parse. -/
def qualifiedParse : Concrete.Parse where
  root := onLine .translationUnit none 0 61
    [onLine .structSpecifier none 0 22
      [token "struct" 0, onLine .typeIdentifier (some .name) 7 8 [],
        onLine (.other "field_declaration_list") (some .body) 9 22
          [token "\x7b" 9,
            onLine .fieldDeclaration none 11 20
              [onLine .structSpecifier (some .type) 11 19
                [token "struct" 11, onLine .typeIdentifier (some .name) 18 19 []],
                token ";" 19],
            token "\x7d" 21]],
      token ";" 22,
      onLine .structSpecifier none 24 54
        [token "struct" 24,
          onLine .qualifiedIdentifier (some .name) 31 35
            [onLine .namespaceIdentifier (some .scope) 31 32 [], token "::" 32,
              onLine .typeIdentifier (some .name) 34 35 []],
          onLine (.other "field_declaration_list") (some .body) 36 54
            [token "\x7b" 36,
              onLine .typeDefinition none 38 52
                [token "typedef" 38, onLine (.other "primitive_type") (some .type) 46 49 [],
                  onLine .typeIdentifier (some .declarator) 50 51 [], token ";" 51],
              token "\x7d" 53]],
      token ";" 54,
      onLine .declaration none 56 60
        [onLine .typeIdentifier (some .type) 56 57 [],
          onLine .identifier (some .declarator) 58 59 [], token ";" 59]]
  hasError := false

/-- The body of `A::B` is no scope: the `T` behind it leads into it. -/
theorem class_bodies_escape : ∃ tree stats,
    resolveNames .cpp qualifiedSource "t.cpp" qualifiedParse = .ok (tree, stats) ∧
      (∀ p ∈ places qualifiedParse, p.node.kind ≠ .usingDeclaration) ∧
      ∃ q ∈ places qualifiedParse, ∃ e ∈ places qualifiedParse,
        tree.content? q.id = some (.reference ⟨.typeName, "T", some e.id⟩) ∧
        (∃ context, ReadIn .cpp qualifiedSource "t.cpp" qualifiedParse q context ∧
          context.lookup = .lexical) ∧
        ∃ path b k, path ≠ [] ∧ qualifiedParse.root.at? path = some b ∧ b.IsSpecifier ∧
          b.children.findIdx? beginsBody = some k ∧ e.LiesFrom path k ∧ ¬ q.LiesFrom path 0 := by
  have hcontent : (resolveNames .cpp qualifiedSource "t.cpp" qualifiedParse).toOption.bind
      (fun r => r.1.content? ⟨16⟩) = some (.reference ⟨.typeName, "T", some ⟨14⟩⟩) := by
    decide +kernel
  cases h : resolveNames .cpp qualifiedSource "t.cpp" qualifiedParse with
  | error fault => rw [h] at hcontent; cases hcontent
  | ok r =>
      obtain ⟨tree, stats⟩ := r
      rw [h] at hcontent
      obtain ⟨sf, sl, hwalk, -⟩ := resolveNames_eq_ok h
      refine ⟨tree, stats, rfl, by decide, (places qualifiedParse)[15],
        List.getElem_mem _, (places qualifiedParse)[13], List.getElem_mem _, hcontent, ?_, ?_⟩
      · obtain ⟨s, context, outline, hread⟩ := exists_readAt_child (k := 0) hwalk
          (p := (places qualifiedParse)[14]) (q := (places qualifiedParse)[15])
          (mem_allPlaces (List.getElem_mem _)) ⟨rfl, rfl, rfl, rfl, rfl, rfl⟩
        exact ⟨_, ⟨s, hread⟩, rfl⟩
      · refine ⟨[2], _, 2, List.cons_ne_nil _ _, rfl, Or.inl rfl, by decide,
          ⟨2, [1, 2], by decide, rfl⟩, ?_⟩
        rintro ⟨j, rest, -, hpath⟩
        cases hpath

end Parse

end TypeUses.Resolution
