import TypeUses.Proofs.Resolution.Hygiene
import TypeUses.Proofs.Resolution.Kinds
import TypeUses.Proofs.Resolution.Reads
import TypeUses.Proofs.Resolution.Shut

/-!
# Resolution — nothing leads to a template's parameter from outside of the template

A parameter is bound in the scope that is current when it is read (`holds_of_parameter`).  If no node
between a template and the parameter opens a scope, that is the template's scope
(`exists_visit_plain`), which is no entity's and is shut when the template ends
(`exists_passesTemplate`).  So a reference to the parameter lies in the template
(`parameters_hygienic`).

A namespace is not bound in the scope of a template.  One that is defined directly in a template can
be opened again behind it, inside of which its members lie; so there must be none, but in the blocks
and functions of the template, where it is bound (`newlyHeld_of_namespace`).

Only a template declaration has a scope of its own.  The parameters of a lambda expression, or of a
template that is itself a parameter, are bound in the scope around it, where they are found behind it
(`lambda_parameter_escapes`).
-/

namespace TypeUses.Resolution

variable {language : Language} {source : ByteArray}

/-! ### Templates -/

theorem opening_of_template {t : Table} {id : NodeId} {f : Frame}
    (h : f.node.kind = .templateDeclaration) :
    (readNode language source t id f).outline.opening = some ⟨.fresh .template, none⟩ := by
  simp only [readNode]
  rw [h]
  rfl

section Parse
variable {spelling : String} {parse : Concrete.Parse} {tree : Tree}

/-! ### Where a parameter is bound -/

/-- **What a node defines as a parameter is bound in the scope that is current there.** -/
theorem holds_of_parameter
    (hroot : parse.root.kind = .translationUnit ∨ parse.root.kind = .error) {s sf : State}
    {f : Frame} {rest : List Step}
    (hruns : Runs language source (.initial language spelling) (initialSteps parse) s
      (.visit f :: rest))
    (hwalk : walk language source s (.visit f :: rest) = .ok sf) (hgrows : sf.tree.Grows tree)
    {name : String} (hc : tree.content? ⟨s.tree.size⟩ = some (.definition ⟨.templateParameter, name⟩))
    {x : EntityId} (hdef : sf.scopes.definition? x = some ⟨s.tree.size⟩) :
    sf.scopes.Holds s.scopes.current x := by
  obtain ⟨⟨p, -, -, -, -, -, hfits⟩, -⟩ := aligned_of_runs hroot hruns
  obtain ⟨hsound, -⟩ := sound_of_parse hruns
  obtain ⟨s₁, id, outline, hadd, -, hwalk₁⟩ := walk_visit_cons_eq_ok hwalk
  obtain ⟨-, hsize⟩ := size_add hadd
  obtain ⟨tree₁, -, rfl, -⟩ := add_eq_ok.1 hadd
  obtain ⟨hscopes, -⟩ := grows_of_runs (walk_eq_ok_iff.1 hwalk₁)
  have hold : s.scopes.definition? x ≠ some ⟨s.tree.size⟩ := fun hd =>
    absurd (hsound.definition hd).lt (Nat.lt_irrefl _)
  -- it is the node's reading that defines the entity
  have hdef₁ : (readNode language source s.scopes ⟨s.tree.size⟩ f).scopes.definition? x =
      some ⟨s.tree.size⟩ :=
    (hscopes.defined hdef).resolve_right fun hle =>
      absurd hle (Nat.not_le.2 (hsize ▸ Nat.lt_succ_self _))
  rcases (readAs_readNode language source s.scopes ⟨s.tree.size⟩ f).scopes with
    he | ⟨op, -, hbinds, he, hnode⟩
  · rw [he] at hdef₁
    exact absurd hdef₁ hold
  · rw [he] at hdef₁
    rcases Table.defined_of_perform hsound.standing hdef₁ with hd | ⟨-, hanswer, hd⟩
    · exact absurd hd hold
    · obtain ⟨-, kind, name', hkind, -, hcontent⟩ := hnode _ hd
      cases hc.symm.trans ((content_of_read hwalk hgrows).2 hcontent)
      -- a parameter is bound where it stands
      have hparameter : ∃ name id, op = .defineParameter name .templateParameter id := by
        cases op with
        | enter | enterMembers | leave | useNamespace | declare | declareImplicit => cases hd
        | defineParameter => cases hkind; exact ⟨_, _, rfl⟩
        | define space =>
            cases hkind
            cases space with
            | tag | namespaces => cases hbinds
            | ordinary => rcases hfits.declaredType _ hbinds with h | h <;> cases h
      obtain ⟨name₁, id₁, rfl⟩ := hparameter
      obtain ⟨b, hb, hholds⟩ := Table.holds_of_answer hsound.standing hanswer
      cases hb
      rw [Table.innermost_true (hsound.standing.active _ List.mem_cons_self), ← he] at hholds
      exact hholds.grows hscopes

/-- No node between the path and the place opens a scope. -/
def PlainBelow (parse : Concrete.Parse) (path : List Nat) (q : Place) : Prop :=
  ∀ m ∈ places parse, m.LiesFrom path 0 → q.LiesFrom m.path 0 → ¬ m.node.OpensScope

/-- A child lies below a path if its parent is there, or lies below it. -/
theorem eq_or_liesFrom_of_isChild {p q : Place} {k : Nat} {path : List Nat} (h : p.IsChild k q)
    (hq : q.LiesFrom path 0) : p.path = path ∨ p.LiesFrom path 0 := by
  obtain ⟨j, rest, hj, hpath⟩ := hq
  rw [h.path] at hpath
  rcases List.eq_nil_or_concat rest with rfl | ⟨front, last, rfl⟩
  · exact Or.inl (List.append_inj_left' hpath rfl)
  · refine Or.inr ⟨j, front, hj, ?_⟩
    rw [List.concat_eq_append, ← List.cons_append, ← List.append_assoc] at hpath
    exact List.append_inj_left' hpath rfl

theorem PlainBelow.of_isChild {p q : Place} {k : Nat} {path : List Nat}
    (h : PlainBelow parse path q) (hpq : p.IsChild k q) : PlainBelow parse path p := by
  intro m hm hlies hp
  obtain ⟨j, rest, hj, hpath⟩ := hp
  refine h m hm hlies ⟨j, rest ++ [k], hj, ?_⟩
  rw [hpq.path, hpath, List.append_assoc, List.cons_append]

/-- A place is read with the active scopes of a scope around it, if no node in between opens
another. -/
theorem exists_visit_plain {p : Place} (hp : p ∈ places parse) {o : Opening}
    {front inside : List Concrete.Node} (hcs : p.node.children = front ++ inside)
    (hfront : ∀ c ∈ front, ¬ c.item.isKept = true) {context : Context} {s₀ s₁ s s₂ s' sf : State}
    {rest : List Step}
    (hruns : Runs language source (.initial language spelling) (initialSteps parse) s₀
      (.visit ⟨p.node, p.outer, p.parent, context⟩ :: rest))
    (hsize : s₀.tree.size = p.id.index)
    (passage : Passage language source ⟨p.node, p.outer, p.parent, context⟩ o front inside rest
      s₀ s₁ s s₂ s')
    (hwalk : walk language source s' rest = .ok sf) :
    ∀ q ∈ places parse, q.LiesFrom p.path 0 → PlainBelow parse p.path q →
      ∃ s₃ context₃ rest₃,
        Runs language source (.initial language spelling) (initialSteps parse) s₃
          (.visit ⟨q.node, q.outer, q.parent, context₃⟩ :: rest₃) ∧
        s₃.scopes.active = (s.enter o.entry).scopes.active ∧ s₃.tree.size = q.id.index := by
  have hpid : (⟨s₀.tree.size⟩ : NodeId) = p.id := NodeId.ext hsize
  refine places_induction ?_ fun m hm k q hq hmq ih hlies hplain => ?_
  · rintro ⟨j, path, -, hpath⟩ -
    exact absurd hpath.symm (by simp [rootPlace])
  rcases eq_or_liesFrom_of_isChild hmq hlies with hpath | hlies'
  · -- a child of the node that opens the scope
    obtain rfl : m = p :=
      List.inj_on_of_nodup_map (nodup_path_allPlaces parse) hm (mem_allPlaces hp) hpath
    have hchild := hmq.node
    rw [hcs] at hchild
    have hk : front.length ≤ k := Nat.le_of_not_lt fun hlt =>
      hfront _ (List.mem_of_getElem? ((List.getElem?_append_left hlt).symm.trans hchild)) hmq.kept
    rw [List.getElem?_append_right hk] at hchild
    obtain ⟨s₃, rest₃, hread, hactive, hsize₃⟩ :=
      exists_visit_in ((passage.entered rest).walk_eq.trans hwalk) hchild hmq.kept
    refine ⟨s₃, _, rest₃, hmq.frame hpid _ ▸ (hruns.trans passage.enters).trans hread.enter,
      hactive, ?_⟩
    · rw [hsize₃, tree_enter, passage.size, hsize, hmq.id, hcs, List.take_append,
        List.take_of_length_le hk, Concrete.Node.keptCounts_append]
      omega
  · -- further below, in a node that opens no scope
    have hm' : m ∈ places parse := by
      rcases List.mem_cons.1 hm with rfl | hm
      · obtain ⟨j, path, -, hpath⟩ := hlies'
        exact absurd hpath.symm (by simp [rootPlace])
      · exact hm
    obtain ⟨s₃, context₃, rest₃, hread, hactive, hsize₃⟩ := ih hlies' (hplain.of_isChild hmq)
    have hopens := hplain m hm' hlies' ⟨k, [], Nat.zero_le _, hmq.path⟩
    have hend := (hruns.trans passage.ends).walk_eq.trans hwalk
    obtain ⟨s₄, rest₄, hvisit, hactive₄, hsize₄⟩ :=
      exists_visit_child (hread.walk_eq ▸ hend) hopens hmq.node hmq.kept
    have hmid : (⟨s₃.tree.size⟩ : NodeId) = m.id := NodeId.ext hsize₃
    exact ⟨s₄, _, rest₄, hmq.frame hmid _ ▸ hread.trans hvisit, hactive₄.trans hactive,
      by rw [hsize₄, hsize₃, hmq.id]⟩

/-! ### Namespaces in a template -/

/-- A node below the path defines a namespace, and lies in no block or function below the path. -/
def DefinesNamespace (parse : Concrete.Parse) (tree : Tree) (path : List Nat) : Prop :=
  ∃ m ∈ places parse, m.LiesFrom path 0 ∧ tree.DefinesKind m.id .namespaceName ∧
    ∀ p ∈ places parse, p.LiesFrom path 0 → ¬ m.InScope p

/-- A namespace in a block or a function is bound in a new scope. -/
theorem newlyHeld_of_namespace
    (hroot : parse.root.kind = .translationUnit ∨ parse.root.kind = .error) {sf : State}
    (hwalk : walk language source (.initial language spelling) (initialSteps parse) = .ok sf)
    (hgrows : sf.tree.Grows tree) {p : Place} (hp : p ∈ places parse)
    (hno : ¬ DefinesNamespace parse tree p.path) {s s₁ : State} {stack rest₁ : List Step}
    {f : Frame}
    (hreach : Runs language source (.initial language spelling) (initialSteps parse) s stack)
    (hsize : s.tree.size = p.id.index + 1)
    (hread : Runs language source (.initial language spelling) (initialSteps parse) s₁
      (.visit f :: rest₁))
    (hlow : s.tree.size ≤ s₁.tree.size) (hhigh : s₁.tree.size < p.id.index + p.node.keptCount)
    {op : Operation} {e : EntityId} (hanswer : (s₁.scopes.perform op).1 = .entity e)
    (hnode : op.node? = some ⟨s₁.tree.size⟩) {name : String}
    (hc : (readNode language source s₁.scopes ⟨s₁.tree.size⟩ f).content =
      .definition ⟨.namespaceName, name⟩) : s.scopes.NewlyHeld (s₁.scopes.perform op).2 e := by
  obtain ⟨m, hm, hid, -⟩ := (aligned_of_runs hroot hread).1
  have hindex : m.id.index = s₁.tree.size := congrArg NodeId.index hid
  have hdefines : tree.DefinesKind m.id .namespaceName :=
    ⟨name, hid ▸ (content_of_read (hread.walk_eq ▸ hwalk) hgrows).2 hc⟩
  have hlies : m.LiesFrom p.path 0 :=
    liesFrom_of_id_bounds hp hm (hindex ▸ hsize ▸ hlow) (hindex ▸ hhigh)
  -- it lies in a scope beyond which it is not bound
  obtain ⟨q, hq, hqlies, hin⟩ : ∃ q ∈ places parse, q.LiesFrom p.path 0 ∧ m.InScope q := by
    by_contra hout
    refine hno ⟨m, hm, hlies, hdefines, fun q hq hqlies hin => ?_⟩
    exact hout ⟨q, hq, hqlies, hin⟩
  obtain ⟨s₂, stack₂, s₃, context₃, rest₃, hscope, hsize₂, hvisit, hsize₃, hinside⟩ :=
    exists_visit_inside hwalk hq hm hin
  obtain ⟨rfl, rfl⟩ := visit_unique hread hvisit (hindex.symm.trans hsize₃.symm)
  have hheld : s₂.scopes.NewlyHeld (s₁.scopes.perform op).2 e :=
    hinside.walled.newlyHeld_of_answer (fun _ hk => hk.2) (sound_of_parse hread).1.standing hanswer
      hnode
  -- which is entered behind the template's
  have hbehind := (id_bounds_of_liesFrom (mem_below_of_liesFrom hp hq hqlies) hqlies).1
  refine hheld.of_le ?_
  rcases hreach.linear hscope with hr | hr
  · exact (grows_of_runs hr).1.scopes_le
  · have hle := (grows_of_runs hr).2.size_le
    omega

/-! ### Leaving a template -/

/-- In state `s` the walk is about to enter the scope `x` of the template at a place, and in state
`s'` it has left it. -/
structure PassesTemplate (language : Language) (source : ByteArray) (spelling : String)
    (parse : Concrete.Parse) (p : Place) (x : ScopeId) (s s' : State) (stack rest : List Step) :
    Prop extends Passes language source spelling parse s s' stack rest where
  between : s.Between s' x
  visit : ∀ q ∈ places parse, q.LiesFrom p.path 0 → PlainBelow parse p.path q →
    ∃ s₁ context rest₁,
      Runs language source (.initial language spelling) (initialSteps parse) s₁
        (.visit ⟨q.node, q.outer, q.parent, context⟩ :: rest₁) ∧
      s₁.scopes.current = x ∧ s₁.tree.size = q.id.index
  memberless : s'.scopes.Memberless x
  size : s.tree.size = p.id.index + 1
  size' : s'.tree.size = p.id.index + p.node.keptCount

/-- A scope that has just been entered afresh is that of no entity's members. -/
theorem memberless_enter {t : Table} (ht : t.Standing) (kind : ScopeKind) :
    (t.enter kind).2.Memberless ⟨t.scopes.size⟩ where
  there := Table.lt_size_newScope t kind
  members _ hm := Nat.lt_irrefl _ (ht.members hm)

/-- **The walk gets into a template and out of it**, if there is something in it. -/
theorem exists_passesTemplate
    (hroot : parse.root.kind = .translationUnit ∨ parse.root.kind = .error) {sf : State}
    (hwalk : walk language source (.initial language spelling) (initialSteps parse) = .ok sf)
    (hgrows : sf.tree.Grows tree) {p e : Place} (hp : p ∈ places parse)
    (hkind : p.node.kind = .templateDeclaration) (he : e ∈ p.below)
    (hno : ¬ DefinesNamespace parse tree p.path) :
    ∃ x s s' stack rest, PassesTemplate language source spelling parse p x s s' stack rest := by
  obtain ⟨front, c, back, hsplit, hnone, hzero⟩ := splits_at_kept he (.fresh .template)
  obtain ⟨s₀, context, rest, hruns, hsize₀⟩ := visited_of_mem_places hwalk hp
  obtain ⟨s₁, s, s₂, s', passage⟩ :=
    exists_passage (hruns.walk_eq ▸ hwalk) (opening_of_template hkind) hsplit
  have hreach := hruns.trans passage.enters
  have hexit := hruns.trans passage.ends
  have standing := (sound_of_parse hreach).1.standing
  have hsize : s.tree.size = p.id.index + 1 := by
    rw [passage.size, hzero, hsize₀]
  have hsize' : s'.tree.size = p.id.index + p.node.keptCount := hsize₀ ▸ passage.size'
  have hend := hexit.walk_eq ▸ hwalk
  have hactive : s'.scopes.active = s.scopes.active :=
    (follows_leave (follows_descendAll passage.within) passage.leaves).active
  obtain ⟨stack, hpasses⟩ := passes_of_passage hruns passage hactive fun e x =>
    barredFrom_of_passage hruns passage rfl fun hread hlow hhigh hanswer hnode hc =>
      newlyHeld_of_namespace hroot hwalk hgrows hp hno hreach hsize hread hlow (hsize' ▸ hhigh)
        hanswer hnode hc
  have hfree : s'.scopes.Memberless ⟨s.scopes.scopes.size⟩ :=
    memberless_of_runs (hreach.trans (.more rfl (.refl _ _))) (passage.entered rest)
      (memberless_enter standing .template)
  refine ⟨⟨s.scopes.scopes.size⟩, s, s', stack, rest, hpasses, ⟨Nat.le_refl _, hfree.there⟩,
    fun q hq hlies hplain => ?_, hfree, hsize, hsize'⟩
  obtain ⟨s₃, context₃, rest₃, hread, hactive, hsize₃⟩ :=
    exists_visit_plain hp hsplit.children hnone hruns hsize₀ passage hend q hq hlies hplain
  exact ⟨s₃, context₃, rest₃, hread, (List.cons.inj hactive).1, hsize₃⟩

/-! ### References -/

/-- If place `e` lies in a template in which no namespace is defined but in blocks and functions, and
no node between the template and `e` opens a scope, place `q` lies in the template. -/
def ParametersHygienic (parse : Concrete.Parse) (tree : Tree) (q e : Place) : Prop :=
  ∀ path b, path ≠ [] → parse.root.at? path = some b → b.kind = .templateDeclaration →
    ¬ DefinesNamespace parse tree path → PlainBelow parse path e →
    e.LiesFrom path 0 → q.LiesFrom path 0

/-- A reference to a parameter of a template is read in the template. -/
theorem liesFrom_of_parameter
    (hroot : parse.root.kind = .translationUnit ∨ parse.root.kind = .error) {sf : State}
    (hwalk : walk language source (.initial language spelling) (initialSteps parse) = .ok sf)
    (hgrows : sf.tree.Grows tree) {p q e : Place} (hp : p ∈ places parse) (hq : q ∈ places parse)
    (he : e ∈ places parse) (hkind : p.node.kind = .templateDeclaration)
    (hno : ¬ DefinesNamespace parse tree p.path) (hplain : PlainBelow parse p.path e)
    (hbelow : e ∈ p.below) (hlies : e.LiesFrom p.path 0) {name : String}
    (hc : tree.content? e.id = some (.definition ⟨.templateParameter, name⟩)) {x : EntityId}
    (hdef : sf.scopes.definition? x = some e.id) {s₁ : State} {context : Context}
    {rest₁ : List Step}
    (hread : Runs language source (.initial language spelling) (initialSteps parse) s₁
      (.visit ⟨q.node, q.outer, q.parent, context⟩ :: rest₁))
    (hsize : s₁.tree.size = q.id.index)
    (hentity : (readNode language source s₁.scopes ⟨s₁.tree.size⟩
      ⟨q.node, q.outer, q.parent, context⟩).entity = some x) : q.LiesFrom p.path 0 := by
  obtain ⟨z, s, s', stack, rest, hpass⟩ :=
    exists_passesTemplate hroot hwalk hgrows hp hkind hbelow hno
  -- the parameter is bound in the scope of the template
  obtain ⟨s₂, context₂, rest₂, hvisit, hcurrent, hsize₂⟩ := hpass.visit e he hlies hplain
  have hid : (⟨s₂.tree.size⟩ : NodeId) = e.id := NodeId.ext hsize₂
  have hholds : sf.scopes.Holds z x := hcurrent ▸
    holds_of_parameter hroot hvisit (hvisit.walk_eq ▸ hwalk) hgrows (hid ▸ hc) (hid ▸ hdef)
  have hbounds := hpass.id_bounds_of_read hwalk hread hentity hpass.between.1 hholds
    fun hlater => ?_
  · rw [hsize, hpass.size, hpass.size'] at hbounds
    exact liesFrom_of_id_bounds hp hq hbounds.1 hbounds.2
  · -- a name that is read later does not mean it
    have hshut := hpass.later hlater
    have hfree := memberless_of_runs hpass.exits hlater hpass.memberless
    refine (readAs_readNode ..).holds (P := fun y => y ≠ z) (sound_of_parse hread).1.standing
      hentity (fun spaces name hl =>
        hshut.holds_of_lookup (placed_of_runs hread).1 hpass.between hfree hl) fun accept hy => ?_
    exact hshut.innermost accept (hy ▸ hpass.between)

/-- **Nothing leads to a template's parameter from outside of the template.**  A reference to a
parameter lies in every template around the parameter, if no node between the two opens a scope and
no namespace is defined in the template but in blocks and functions. -/
theorem parameters_hygienic
    (hroot : parse.root.kind = .translationUnit ∨ parse.root.kind = .error) {stats : Stats}
    (h : resolveNames language source spelling parse = .ok (tree, stats)) {id d : NodeId}
    {r : Reference} (hr : tree.content? id = some (.reference r)) (hd : r.target = some d)
    {name : String} (hparameter : tree.content? d = some (.definition ⟨.templateParameter, name⟩)) :
    ∃ q ∈ places parse, ∃ e ∈ places parse, q.id = id ∧ e.id = d ∧
      ParametersHygienic parse tree q e := by
  obtain ⟨sf, hwalk, hgrows, -, hlink⟩ := link_cases hroot h hr hd
  obtain ⟨x, hpending, hdef⟩ := hlink.resolve_left fun ⟨_, hlabel⟩ => by
    cases hparameter.symm.trans hlabel
  obtain ⟨e, he, rfl⟩ := exists_place_of_content? (grown_resolveNames h) hparameter nofun
  obtain ⟨q, hq, rfl, s₁, context, rest₁, hread, hsize, hentity⟩ :=
    read_of_pending hroot (walk_eq_ok_iff.1 hwalk) hpending
  refine ⟨q, hq, e, he, rfl, rfl, fun path b hpath hb hkind hno hplain hlies => ?_⟩
  obtain ⟨p, hp, rfl, rfl, hbelow⟩ := exists_place_above he hpath hb hlies
  exact liesFrom_of_parameter hroot hwalk hgrows hp hq he hkind hno hplain hbelow hlies hparameter
    hdef hread hsize hentity

/-- The source `template <typename T> T f(T x);`. -/
def templateSource : ByteArray := "template <typename T> T f(T x);\n".toUTF8

open Concrete.Node in
/-- Its parse. -/
def templateParse : Concrete.Parse where
  root := onLine .translationUnit none 0 32
    [onLine .templateDeclaration none 0 31
      [token "template" 0,
        onLine (.other "template_parameter_list") (some (.other "parameters")) 9 21
          [token "<" 9,
            onLine .typeParameter none 10 20
              [token "typename" 10, onLine .typeIdentifier none 19 20 []],
            token ">" 20],
        onLine .declaration none 22 31
          [onLine .typeIdentifier (some .type) 22 23 [],
            onLine (.other "function_declarator") (some .declarator) 24 30
              [onLine .identifier (some .declarator) 24 25 [],
                onLine (.other "parameter_list") (some (.other "parameters")) 25 30
                  [token "(" 25,
                    onLine (.other "parameter_declaration") none 26 29
                      [onLine .typeIdentifier (some .type) 26 27 [],
                        onLine .identifier (some .declarator) 28 29 []],
                    token ")" 29]],
            token ";" 30]]]
  hasError := false

/-- The second `T` leads to the parameter. -/
theorem parameters_hygienic_template : ∃ tree stats,
    resolveNames .cpp templateSource "t.cpp" templateParse = .ok (tree, stats) ∧
      tree.content? ⟨6⟩ = some (.reference ⟨.typeName, "T", some ⟨4⟩⟩) ∧
      tree.content? ⟨4⟩ = some (.definition ⟨.templateParameter, "T"⟩) ∧
      ∃ q ∈ places templateParse, ∃ e ∈ places templateParse, q.id = ⟨6⟩ ∧ e.id = ⟨4⟩ ∧
        ParametersHygienic templateParse tree q e := by
  have hcontent : (resolveNames .cpp templateSource "t.cpp" templateParse).toOption.map
      (fun r => (r.1.content? ⟨6⟩, r.1.content? ⟨4⟩)) =
        some (some (.reference ⟨.typeName, "T", some ⟨4⟩⟩),
          some (.definition ⟨.templateParameter, "T"⟩)) := by
    decide +kernel
  cases h : resolveNames .cpp templateSource "t.cpp" templateParse with
  | error fault => rw [h] at hcontent; cases hcontent
  | ok r =>
      obtain ⟨tree, stats⟩ := r
      rw [h] at hcontent
      obtain ⟨hr, hp⟩ := Prod.ext_iff.1 (Option.some.inj hcontent)
      exact ⟨tree, stats, rfl, hr, hp, parameters_hygienic (Or.inl rfl) h hr rfl hp⟩

/-! ### A parameter that is not a template's -/

/-- The source `void f() { auto l = []<typename T>(T t) { T u; }; T v; }`. -/
def lambdaSource : ByteArray :=
  "void f() { auto l = []<typename T>(T t) { T u; }; T v; }\n".toUTF8

open Concrete.Node in
/-- Its parse. -/
def lambdaParse : Concrete.Parse where
  root := onLine .translationUnit none 0 57
    [onLine .functionDefinition none 0 56
      [onLine (.other "primitive_type") (some .type) 0 4 [],
        onLine (.other "function_declarator") (some .declarator) 5 8
          [onLine .identifier (some .declarator) 5 6 [],
            onLine (.other "parameter_list") (some (.other "parameters")) 6 8
              [token "(" 6, token ")" 7]],
        onLine .compoundStatement (some .body) 9 56
          [token "\x7b" 9,
            onLine .declaration none 11 49
              [onLine (.other "placeholder_type_specifier") (some .type) 11 15
                [onLine (.other "auto") none 11 15 []],
                onLine (.other "init_declarator") (some .declarator) 16 48
                  [onLine .identifier (some .declarator) 16 17 [], token "=" 18,
                    onLine (.other "lambda_expression") (some (.other "value")) 20 48
                      [onLine (.other "lambda_capture_specifier") (some (.other "captures")) 20 22
                        [token "[" 20, token "]" 21],
                        onLine (.other "template_parameter_list")
                            (some (.other "template_parameters")) 22 34
                          [token "<" 22,
                            onLine .typeParameter none 23 33
                              [token "typename" 23, onLine .typeIdentifier none 32 33 []],
                            token ">" 33],
                        onLine (.other "abstract_function_declarator") (some .declarator) 34 39
                          [onLine (.other "parameter_list") (some (.other "parameters")) 34 39
                            [token "(" 34,
                              onLine (.other "parameter_declaration") none 35 38
                                [onLine .typeIdentifier (some .type) 35 36 [],
                                  onLine .identifier (some .declarator) 37 38 []],
                              token ")" 38]],
                        onLine .compoundStatement (some .body) 40 48
                          [token "\x7b" 40,
                            onLine .declaration none 42 46
                              [onLine .typeIdentifier (some .type) 42 43 [],
                                onLine .identifier (some .declarator) 44 45 [], token ";" 45],
                            token "\x7d" 47]]],
                token ";" 48],
            onLine .declaration none 50 54
              [onLine .typeIdentifier (some .type) 50 51 [],
                onLine .identifier (some .declarator) 52 53 [], token ";" 53],
            token "\x7d" 55]]]
  hasError := false

/-- The parameter of the lambda expression is not found in it alone: the last `T` leads to it. -/
theorem lambda_parameter_escapes : ∃ tree stats,
    resolveNames .cpp lambdaSource "t.cpp" lambdaParse = .ok (tree, stats) ∧
      ∃ q ∈ places lambdaParse, ∃ e ∈ places lambdaParse,
        tree.content? q.id = some (.reference ⟨.typeName, "T", some e.id⟩) ∧
        tree.content? e.id = some (.definition ⟨.templateParameter, "T"⟩) ∧
        ∃ path k owner parameters, lambdaParse.root.at? path = some owner ∧
          owner.kind = .other "lambda_expression" ∧ owner.children[k]? = some parameters ∧
          parameters.kind = .other "template_parameter_list" ∧
          e.LiesFrom (path ++ [k]) 0 ∧ ¬ q.LiesFrom path 0 := by
  have hcontent : (resolveNames .cpp lambdaSource "t.cpp" lambdaParse).toOption.map
      (fun r => (r.1.content? ⟨27⟩, r.1.content? ⟨16⟩)) =
        some (some (.reference ⟨.typeName, "T", some ⟨16⟩⟩),
          some (.definition ⟨.templateParameter, "T"⟩)) := by
    decide +kernel
  cases h : resolveNames .cpp lambdaSource "t.cpp" lambdaParse with
  | error fault => rw [h] at hcontent; cases hcontent
  | ok r =>
      obtain ⟨tree, stats⟩ := r
      rw [h] at hcontent
      obtain ⟨hr, hp⟩ := Prod.ext_iff.1 (Option.some.inj hcontent)
      refine ⟨tree, stats, rfl, (places lambdaParse)[26], List.getElem_mem _,
        (places lambdaParse)[15], List.getElem_mem _, hr, hp, [0, 2, 1, 1, 2], 1, _, _, rfl, rfl,
        rfl, rfl, ⟨1, [1], by decide, rfl⟩, ?_⟩
      rintro ⟨j, rest, -, hpath⟩
      cases hpath

end Parse

end TypeUses.Resolution
