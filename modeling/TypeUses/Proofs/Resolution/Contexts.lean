import TypeUses.Proofs.Resolution.Parents
import TypeUses.Proofs.Resolution.Totality

/-!
# Resolution — contexts of places

The role in which a node is read depends on where it stands: the name of a `struct` that has no body
is read as a tag, and nothing outside of such names is (`Role.Fits`).  Roles are handed down from
node to node (`fits_childContext`), and the walk visits the places in their order, so that every node
is read in a role that fits its place (`aligned_of_runs`).

* `UnderTagName`, `IsTagName`: a place lies inside the name of a specifier without a body, or is
  that name or the last segment of it.
* `Aligned`: the visits on a stack are those of the places that are still to come.
-/

namespace TypeUses

/-! ### Names of tags -/

namespace Concrete.Node

/-- The node is a `struct`, `union`, `enum` or `class`, defined or used. -/
def IsSpecifier (n : Node) : Prop :=
  n.kind = .structSpecifier ∨ n.kind = .unionSpecifier ∨ n.kind = .enumSpecifier ∨
    n.kind = .classSpecifier

instance (n : Node) : Decidable n.IsSpecifier :=
  inferInstanceAs (Decidable (_ ∨ _))

/-- The node is a `struct`, `union`, `enum` or `class` without a body. -/
def IsBodyless (n : Node) : Prop := n.IsSpecifier ∧ n.child? .body = none

end Concrete.Node

namespace Resolution
open Concrete.Node (keptCount keptCounts)

variable {language : Language} {source : ByteArray}

/-- The node at the path lies inside the name of a specifier without a body. -/
def UnderTagName (root : Concrete.Node) (path : List Nat) : Prop :=
  ∃ front k rest n c, path = front ++ k :: rest ∧ root.at? front = some n ∧ n.IsBodyless ∧
    n.children[k]? = some c ∧ c.field = some .name

/-- The node at the path is the name of a specifier without a body, or the last segment of the
name. -/
inductive IsTagName (root : Concrete.Node) : List Nat → Prop
  | name {path : List Nat} {k : Nat} {n c : Concrete.Node} (hn : root.at? path = some n)
      (hbody : n.IsBodyless) (hc : n.children[k]? = some c) (hf : c.field = some .name) :
      IsTagName root (path ++ [k])
  | segment {path : List Nat} {k : Nat} {n c : Concrete.Node} (h : IsTagName root path)
      (hn : root.at? path = some n) (hk : n.kind = .qualifiedIdentifier)
      (hc : n.children[k]? = some c) (hf : c.field = some .name) : IsTagName root (path ++ [k])

/-- A role fits the path of the node that is read in it. -/
structure Role.Fits (root : Concrete.Node) (path : List Nat) (role : Role) : Prop where
  tag : ∀ kind, role = .tag kind → kind.isTag = true ∧ UnderTagName root path
  tagName : IsTagName root path → role = .ownName ∨ ∃ kind, role = .tag kind
  declaredType : ∀ kind, role = .declaredType kind → kind = .typedefName ∨ kind = .typeAlias

/-! ### Roles are handed down -/

section Roles
variable {n c : Concrete.Node}

/-- A role that a node may give to a child of its own accord: no tag, and a type if it declares. -/
def Role.IsOwn : Role → Prop
  | .tag _ => False
  | .declaredType kind => kind = .typedefName ∨ kind = .typeAlias
  | .use | .ownName | .templateParameter | .templateName | .usedNamespace => True

/-- A declarator hands down its role or gives one of its own accord. -/
theorem role_declaratorContext (n : Concrete.Node) (context : Context) (c : Concrete.Node) :
    (declaratorContext n context c).role = context.role ∨
      (declaratorContext n context c).role.IsOwn := by
  simp only [declaratorContext]
  split
  · exact Or.inl rfl
  · exact Or.inr trivial

/-- The name of a specifier is read as its own name or as a tag. -/
theorem role_specifierName (context : Context) (outline : Outline) (hn : n.IsSpecifier)
    (hf : c.field = some .name) :
    ∃ kind : EntityKind, kind.isTag = true ∧
      childContext n context outline c = specifierNameContext kind outline := by
  rcases hn with hn | hn | hn | hn <;> simp only [childContext, hn, hf]
  · exact ⟨.structTag, rfl, rfl⟩
  · exact ⟨.unionTag, rfl, rfl⟩
  · exact ⟨.enumTag, rfl, rfl⟩
  · exact ⟨.classTag, rfl, rfl⟩

/-- The rest of a qualified name keeps the role and is looked up in the qualifier. -/
theorem childContext_name {context : Context} {outline : Outline}
    (hn : n.kind = .qualifiedIdentifier) (hf : c.field = some .name) :
    childContext n context outline c = ⟨context.role, outline.qualifier⟩ := by
  simp only [childContext, hn, hf]

/-- **Where a role comes from.**  It is that of a specifier's name, or handed on, or one that the
node gives, which is not that of a tag. -/
theorem role_childContext (n : Concrete.Node) (context : Context) (outline : Outline)
    (c : Concrete.Node) :
    (n.IsSpecifier ∧ c.field = some .name) ∨
      (childContext n context outline c).role = context.role ∨
      (childContext n context outline c).role.IsOwn := by
  have parameter : (parameterContext n context c).role = context.role ∨
      (parameterContext n context c).role.IsOwn := by
    unfold parameterContext
    split
    · exact Or.inr trivial
    · exact role_declaratorContext n context c
  have usingDeclaration : (usingContext n context c).role = context.role ∨
      (usingContext n context c).role.IsOwn := by
    unfold usingContext
    split
    · exact Or.inr trivial
    · exact role_declaratorContext n context c
  unfold childContext
  split
  · next hn hf => exact Or.inl ⟨Or.inl hn, hf⟩
  · next hn hf => exact Or.inl ⟨Or.inr (Or.inl hn), hf⟩
  · next hn hf => exact Or.inl ⟨Or.inr (Or.inr (Or.inl hn)), hf⟩
  · next hn hf => exact Or.inl ⟨Or.inr (Or.inr (Or.inr hn)), hf⟩
  · exact Or.inr (Or.inr (Or.inl rfl))
  · exact Or.inr (Or.inr (Or.inr rfl))
  iterate 3 exact Or.inr (Or.inr trivial)
  · exact Or.inr (Or.inl rfl)
  iterate 3 exact Or.inr parameter
  · exact Or.inr (Or.inr trivial)
  · exact Or.inr (Or.inl rfl)
  · refine Or.inr (Or.inr ?_)
    dsimp only
    split <;> trivial
  · exact Or.inr usingDeclaration
  · exact Or.inr (role_declaratorContext n context c)

end Roles

/-- The role of a child fits its place if that of the node does and the node, if it is a specifier
with a body, names an entity. -/
theorem fits_childContext {parse : Concrete.Parse} {p q : Place} {k : Nat} {context : Context}
    {outline : Outline} (hp : p ∈ allPlaces parse) (hchild : p.IsChild k q)
    (hfits : context.role.Fits parse.root p.path)
    (hbody : p.node.IsSpecifier → p.node.child? .body ≠ none → outline.namesEntity = true) :
    (childContext p.node context outline q.node).role.Fits parse.root q.path := by
  have hat := at?_of_mem_allPlaces hp
  have hpath := hchild.path
  -- what lies inside a name lies deeper inside it
  have deeper : UnderTagName parse.root p.path → UnderTagName parse.root q.path := by
    rintro ⟨front, j, rest, n, c, he, hn⟩
    exact ⟨front, j, rest ++ [k], n, c, by rw [hpath, he, List.append_assoc]; rfl, hn⟩
  have segment : IsTagName parse.root q.path →
      (p.node.IsBodyless ∧ q.node.field = some .name) ∨
        IsTagName parse.root p.path ∧ p.node.kind = .qualifiedIdentifier ∧
          q.node.field = some .name := by
    intro h
    rw [hpath] at h
    generalize hlong : p.path ++ [k] = path at h
    cases h with
    | name hn hb hc hf =>
        obtain ⟨rfl, hk⟩ := List.append_inj' hlong rfl
        cases hk
        cases hat.symm.trans hn
        cases hchild.node.symm.trans hc
        exact Or.inl ⟨hb, hf⟩
    | segment h hn hkind hc hf =>
        obtain ⟨rfl, hk⟩ := List.append_inj' hlong rfl
        cases hk
        cases hat.symm.trans hn
        cases hchild.node.symm.trans hc
        exact Or.inr ⟨h, hkind, hf⟩
  refine ⟨fun kind hrole => ?_, fun hname => ?_, fun kind hrole => ?_⟩
  · rcases role_childContext p.node context outline q.node with ⟨hn, hf⟩ | he | hown
    · obtain ⟨kind', htag, he⟩ := role_specifierName context outline hn hf
      rw [he] at hrole
      simp only [specifierNameContext, Context.ofRole] at hrole
      split at hrole
      · cases hrole
      · next hnames =>
        cases hrole
        have hnone : p.node.child? .body = none := by
          by_contra hsome
          exact hnames (hbody hn hsome)
        exact ⟨htag, p.path, k, [], p.node, q.node, hpath, hat, ⟨hn, hnone⟩, hchild.node, hf⟩
    · obtain ⟨htag, hunder⟩ := hfits.tag kind (he ▸ hrole)
      exact ⟨htag, deeper hunder⟩
    · rw [hrole] at hown
      exact hown.elim
  · rcases segment hname with ⟨⟨hn, -⟩, hf⟩ | ⟨hname, hkind, hf⟩
    · obtain ⟨kind, -, he⟩ := role_specifierName context outline hn hf
      rw [he]
      simp only [specifierNameContext, Context.ofRole]
      split
      · exact Or.inl rfl
      · exact Or.inr ⟨kind, rfl⟩
    · rw [childContext_name hkind hf]
      exact hfits.tagName hname
  · rcases role_childContext p.node context outline q.node with ⟨hn, hf⟩ | he | hown
    · obtain ⟨kind', -, he⟩ := role_specifierName context outline hn hf
      rw [he] at hrole
      simp only [specifierNameContext, Context.ofRole] at hrole
      split at hrole <;> cases hrole
    · exact hfits.declaredType kind (he ▸ hrole)
    · rw [hrole] at hown
      exact hown

/-- A specifier with a body names an entity. -/
theorem namesEntity_readNode (language : Language) (source : ByteArray) (t : Table) (id : NodeId)
    (f : Frame) (hn : f.node.IsSpecifier) (hbody : f.node.child? .body ≠ none) :
    (readNode language source t id f).outline.namesEntity = true := by
  have defined : ∀ kind, (readSpecifier language source t id f kind).outline.namesEntity = true := by
    intro kind
    rw [readSpecifier, if_pos (Option.isSome_iff_ne_none.2 hbody)]
    simp only [readDefinedTag]
    split <;> rfl
  simp only [readNode]
  rcases hn with hn | hn | hn | hn <;> rw [hn] <;> exact defined _

/-! ### The visits to come -/

/-- The frame is that of the place with number `n`, in a context that fits the place. -/
def Frame.At (parse : Concrete.Parse) (n : Nat) (f : Frame) : Prop :=
  ∃ p ∈ places parse, p.id = ⟨n⟩ ∧ f.node = p.node ∧ f.outer = p.outer ∧ f.parent = p.parent ∧
    f.context.role.Fits parse.root p.path

/-- The visits on a stack are those of places in their order, the first of which has number `n`. -/
def Aligned (parse : Concrete.Parse) : Nat → List Step → Prop
  | _, [] => True
  | n, .visit f :: rest => f.At parse n ∧ Aligned parse (n + f.node.keptCount) rest
  | n, .enter _ :: rest | n, .leave _ :: rest => Aligned parse n rest

/-- Stacks one behind the other are in line if the second begins where the first ends. -/
theorem aligned_append {parse : Concrete.Parse} {n : Nat} {xs ys : List Step} :
    Aligned parse n (xs ++ ys) ↔
      Aligned parse n xs ∧ Aligned parse (n + stackCount xs) ys := by
  induction xs generalizing n with
  | nil => simp [Aligned]
  | cons step xs ih =>
      cases step with
      | visit f =>
          simp only [List.cons_append, Aligned, ih, stackCount_cons, Step.count, Nat.add_assoc,
            and_assoc]
      | enter | leave =>
          simp only [List.cons_append, Aligned, ih, stackCount_cons, Step.count, Nat.zero_add]

/-- The visits to the children of a place, from one on, are those of the places of the children. -/
theorem aligned_visitsIn {parse : Concrete.Parse} {p : Place} {context : Context}
    {outline : Outline} (hp : p ∈ allPlaces parse) (hfits : context.role.Fits parse.root p.path)
    (hbody : p.node.IsSpecifier → p.node.child? .body ≠ none → outline.namesEntity = true)
    {cs : List Concrete.Node} : ∀ {pre : List Concrete.Node} (opening : Option Opening),
      p.node.children = pre ++ cs →
        Aligned parse (p.id.index + 1 + keptCounts pre)
          (visitsIn p.node p.id context outline opening cs) := by
  induction cs with
  | nil =>
      intro pre opening _
      cases opening <;> trivial
  | cons c cs ih =>
      intro pre opening hcs
      have hrest : p.node.children = (pre ++ [c]) ++ cs := by rw [hcs, List.append_assoc]; rfl
      rw [visitsIn_cons]
      split
      · next hk =>
        have hget : p.node.children[pre.length]? = some c := by rw [hcs]; simp
        obtain ⟨q, hq, rfl, hchild⟩ := exists_child hp hget hk
        have hid : q.id = ⟨p.id.index + 1 + keptCounts pre⟩ := by
          refine NodeId.ext (hchild.id.trans ?_)
          rw [hcs, List.take_left]
        have hvisits := ih (openingAfter opening q.node) hrest
        rw [Concrete.Node.keptCounts_append, keptCounts, if_pos hk, keptCounts, Nat.add_zero,
          ← Nat.add_assoc] at hvisits
        have hcount : stackCount
            ((opening.filter fun o => o.opensAt q.node).map fun o => Step.enter o.entry).toList =
              0 := by
          cases opening.filter fun o => o.opensAt q.node <;> rfl
        refine aligned_append.2 ⟨?_, ?_⟩
        · cases opening.filter fun o => o.opensAt q.node <;> trivial
        · rw [hcount, Nat.add_zero]
          exact ⟨⟨q, hq, hid, rfl, hchild.outer.symm, hchild.parent.symm,
            fits_childContext hp hchild hfits hbody⟩, hvisits⟩
      · next hk =>
        have hvisits := ih opening hrest
        rwa [Concrete.Node.keptCounts_append, keptCounts, if_neg hk, keptCounts, Nat.add_zero,
          Nat.add_zero] at hvisits

/-- The steps for the children of a place are in line with their places. -/
theorem aligned_plan {parse : Concrete.Parse} {p : Place} {context : Context}
    {outline : Outline} (hp : p ∈ allPlaces parse) (hfits : context.role.Fits parse.root p.path)
    (hbody : p.node.IsSpecifier → p.node.child? .body ≠ none → outline.namesEntity = true) :
    Aligned parse (p.id.index + 1) (plan p.node p.id context outline) := by
  rw [plan_eq]
  refine aligned_append.2 ⟨aligned_visitsIn hp hfits hbody _ (List.nil_append _).symm, ?_⟩
  cases outline.opening <;> trivial

/-- A step keeps the visits on the stack in line with the places. -/
theorem aligned_perform {parse : Concrete.Parse} {s s' : State} {step : Step}
    {rest steps : List Step} (h : Aligned parse s.tree.size (step :: rest))
    (hstep : s.perform language source step = .ok (s', steps)) :
    Aligned parse s'.tree.size (steps ++ rest) := by
  cases step with
  | visit f =>
      obtain ⟨id, outline, hadd, rfl⟩ := perform_visit_eq_ok.1 hstep
      obtain ⟨⟨p, hp, hid, hnode, -, -, hfits⟩, hrest⟩ := h
      obtain ⟨rfl, hsize⟩ := size_add hadd
      obtain ⟨tree, -, -, rfl⟩ := add_eq_ok.1 hadd
      refine aligned_append.2 ⟨?_, ?_⟩
      · have hplan := aligned_plan (mem_allPlaces hp) hfits fun hn hbody => by
          rw [← hnode] at hn hbody
          exact namesEntity_readNode language source s.scopes ⟨s.tree.size⟩ f hn hbody
        rwa [hid, ← hnode, ← hsize] at hplan
      · rwa [stackCount_plan, hsize, Nat.add_assoc, ← f.node.keptCount_eq]
  | enter entry =>
      cases hstep
      rw [tree_enter]
      exact h
  | leave entry =>
      obtain ⟨hleave, rfl⟩ := perform_leave_eq_ok.1 hstep
      rw [size_leave hleave]
      exact h

/-- The walk begins in line with the places, if the root is that of a unit or an error. -/
theorem aligned_initialSteps {parse : Concrete.Parse}
    (hroot : parse.root.kind = .translationUnit ∨ parse.root.kind = .error) :
    Aligned parse 1 (initialSteps parse) := by
  have hfits : Context.plain.role.Fits parse.root (rootPlace parse).path := by
    refine ⟨nofun, fun hname => ?_, nofun⟩
    -- no name has the path of the root
    have hne : ∀ path, IsTagName parse.root path → path ≠ [] := by
      intro path h
      cases h <;> simp
    exact absurd rfl (hne _ hname)
  refine aligned_plan (p := rootPlace parse) List.mem_cons_self hfits fun hn => ?_
  rcases hroot with hr | hr <;> rcases hn with hn | hn | hn | hn <;>
    exact absurd (hr.symm.trans hn) (by decide)

/-- **Every node is read at its place**, in a role that fits the place. -/
theorem aligned_of_runs {spelling : String} {parse : Concrete.Parse}
    (hroot : parse.root.kind = .translationUnit ∨ parse.root.kind = .error) {s : State}
    {stack : List Step}
    (h : Runs language source (.initial language spelling) (initialSteps parse) s stack) :
    Aligned parse s.tree.size stack :=
  h.preserves (P := fun s stack => Aligned parse s.tree.size stack) aligned_perform
    (aligned_initialSteps hroot)

end Resolution

end TypeUses
