import TypeUses.Proofs.Concrete.Cursor
import TypeUses.Proofs.Resolution.Places
import TypeUses.Proofs.Resolution.Recursion
import TypeUses.Proofs.Resolution.Texts
import TypeUses.Tree.Uses

/-!
# Resolution — comments do not matter

A comment is a named extra that is no particular part of the node around it and has no fault at or
below it (`Node.IsComment`).  The tree of a parse and its statistics stay what they are if any of
its comments are taken out (`resolveNames_without`), wherever they stand.

* `Parse.without`: a parse without the nodes at some paths and all that is below these.
* `DropsComments`: a list of nodes and the list without some comments, among the nodes and below
  them.  All that is asked of a list of nodes is answered alike by the two: which is the first with
  a field (`find?`), whether there is a token (`any`), which is the last segment of a name and which
  faults there are.  So a node is read alike (`readsAlike_of_dropsComments`), and a descent into the
  lists is the same (`descendAll_dropsComments`), since comments are not kept.
-/

namespace TypeUses

namespace Concrete

/-! ### Taking out comments -/

/-- The node may stand anywhere and says nothing: a named extra without a field or a fault. -/
structure Node.IsComment (n : Node) : Prop where
  isNamed : n.item.isNamed = true
  isExtra : n.item.isExtra = true
  field : n.field = none
  sound : ∀ i ∈ itemsFrom [n], i.isFault = false

mutual

/-- The node at `path` without the nodes below it whose paths are to be removed. -/
def Node.without (remove : List Nat → Bool) (path : List Nat) : Node → Node
  | .node i cs => .node i (Node.allWithout remove path 0 cs)

/-- The children of the node at `path`, from child number `k` on, without those to be removed. -/
def Node.allWithout (remove : List Nat → Bool) (path : List Nat) (k : Nat) : List Node → List Node
  | [] => []
  | c :: cs =>
    if remove (path ++ [k]) then Node.allWithout remove path (k + 1) cs
    else c.without remove (path ++ [k]) :: Node.allWithout remove path (k + 1) cs

end

/-- The parse without the nodes below its root whose paths are to be removed. -/
def Parse.without (remove : List Nat → Bool) (parse : Parse) : Parse :=
  { parse with root := parse.root.without remove [] }

/-- The second list is the first without some comments, at any depth. -/
inductive DropsComments : List Node → List Node → Prop
  | nil : DropsComments [] []
  | drop {c : Node} {cs cs' : List Node} :
      c.IsComment → DropsComments cs cs' → DropsComments (c :: cs) cs'
  | keep (i : Item) {ds ds' cs cs' : List Node} :
      DropsComments ds ds' → DropsComments cs cs' →
        DropsComments (.node i ds :: cs) (.node i ds' :: cs')

/-- The second node is the first without some comments below it. -/
structure Node.DropsComments (n n' : Node) : Prop where
  item : n'.item = n.item
  children : Concrete.DropsComments n.children n'.children

mutual

/-- Removing nodes drops comments if every node that is removed is one. -/
theorem dropsComments_without {remove : List Nat → Bool} :
    ∀ (n : Node) (path : List Nat),
      (∀ rest m, rest ≠ [] → remove (path ++ rest) = true → n.at? rest = some m → m.IsComment) →
        n.DropsComments (n.without remove path)
  | .node i cs, path, h => by
      rw [Node.without]
      refine ⟨rfl, dropsComments_allWithout cs path 0 fun j rest c m hc hm hremove => ?_⟩
      rw [Nat.zero_add] at hremove
      exact h (j :: rest) m (List.cons_ne_nil _ _) hremove (Option.bind_eq_some_iff.2 ⟨c, hc, hm⟩)

/-- Where only comments are removed, the lists are one and the same but for comments. -/
theorem dropsComments_allWithout {remove : List Nat → Bool} :
    ∀ (cs : List Node) (path : List Nat) (k : Nat),
      (∀ j rest c m, cs[j]? = some c → c.at? rest = some m →
        remove (path ++ (k + j) :: rest) = true → m.IsComment) →
        DropsComments cs (Node.allWithout remove path k cs)
  | [], path, k, _ => by
      rw [Node.allWithout]
      exact .nil
  | .node i ds :: cs, path, k, h => by
      have hrest : DropsComments cs (Node.allWithout remove path (k + 1) cs) :=
        dropsComments_allWithout cs path (k + 1) fun j rest c m hc hm hremove =>
          h (j + 1) rest c m hc hm (by rwa [Nat.add_comm j 1, ← Nat.add_assoc])
      rw [Node.allWithout]
      by_cases hremove : remove (path ++ [k])
      · rw [if_pos hremove]
        exact .drop (h 0 [] _ _ rfl rfl hremove) hrest
      · rw [if_neg hremove]
        have hnode := dropsComments_without (.node i ds) (path ++ [k]) fun rest m _ hr hm =>
          h 0 rest _ m rfl hm (by simpa using hr)
        rw [Node.without] at hnode ⊢
        exact .keep i hnode.children hrest

end

/-! ### What is asked of a list of nodes -/

theorem Node.IsComment.not_isKept {n : Node} (h : n.IsComment) : ¬ n.item.isKept = true := by
  obtain ⟨i, cs⟩ := n
  have hfault : i.isFault = false := h.sound i (by rw [itemsFrom]; exact List.mem_cons_self)
  have hextra : i.isExtra = true := h.isExtra
  simp only [Item.isFault, Bool.or_eq_false_iff] at hfault
  simp [Item.isKept, Node.item, hextra, hfault.1]

namespace DropsComments

variable {cs cs' : List Node} {p : Node → Bool}

/-- The first node with a property is the same one, if nodes have it by their items and no comment
has it. -/
theorem find? (h : DropsComments cs cs') (hp : ∀ n n' : Node, n'.item = n.item → p n' = p n)
    (hcomment : ∀ n : Node, n.IsComment → p n = false) :
    cs.find? p = none ∧ cs'.find? p = none ∨
      ∃ c c', cs.find? p = some c ∧ cs'.find? p = some c' ∧ c.DropsComments c' := by
  induction h with
  | nil => exact Or.inl ⟨rfl, rfl⟩
  | drop hc _ ih => rwa [List.find?_cons_of_neg (by simp [hcomment _ hc])]
  | @keep i ds ds' cs cs' hds _ _ ih =>
    have hsame : p (.node i ds') = p (.node i ds) := hp _ _ rfl
    by_cases hhas : p (.node i ds)
    · rw [List.find?_cons_of_pos hhas, List.find?_cons_of_pos (hsame.trans hhas)]
      exact Or.inr ⟨_, _, rfl, rfl, rfl, hds⟩
    · rwa [List.find?_cons_of_neg hhas, List.find?_cons_of_neg (hsame ▸ hhas)]

/-- Whether something has a property that no comment has does not depend on the comments. -/
theorem any (h : DropsComments cs cs') (hp : ∀ n n' : Node, n'.item = n.item → p n' = p n)
    (hcomment : ∀ n : Node, n.IsComment → p n = false) : cs'.any p = cs.any p := by
  induction h with
  | nil => rfl
  | drop hc _ ih => rw [List.any_cons, hcomment _ hc, Bool.false_or, ih]
  | @keep i ds ds' cs cs' _ _ _ ih =>
    rw [List.any_cons, List.any_cons, hp (.node i ds) (.node i ds') rfl, ih]

/-- No fault is lost. -/
theorem faults (h : DropsComments cs cs') :
    (itemsFrom cs').filter Item.isFault = (itemsFrom cs).filter Item.isFault := by
  induction h with
  | nil => rfl
  | @drop c cs cs' hc _ ih =>
    have hnone : (itemsFrom [c]).filter Item.isFault = [] := by
      simpa using hc.sound
    rw [Resolution.itemsFrom_cons, List.filter_append, hnone, List.nil_append, ih]
  | keep i _ _ ihds ihcs =>
    simp only [itemsFrom, Resolution.itemsFrom_append, List.filter_cons, List.filter_append, ihds,
      ihcs]

end DropsComments

namespace Node.DropsComments

variable {n n' : Node}

theorem kind (h : n.DropsComments n') : n'.kind = n.kind := congrArg Item.kind h.item

theorem field (h : n.DropsComments n') : n'.field = n.field := congrArg Item.field h.item

/-- The child with a field loses no more than comments. -/
theorem child? (h : n.DropsComments n') (field : Field) :
    n.child? field = none ∧ n'.child? field = none ∨
      ∃ c c', n.child? field = some c ∧ n'.child? field = some c' ∧ c.DropsComments c' := by
  refine h.children.find? (fun c c' hitem => ?_) fun c hc => ?_
  · show decide (c'.item.field = some field) = decide (c.item.field = some field)
    rw [hitem]
  · simp [hc.field]

theorem hasToken (h : n.DropsComments n') (kind : Kind) : n'.hasToken kind = n.hasToken kind := by
  refine h.children.any (fun c c' hitem => ?_) fun c hc => ?_
  · show (!c'.item.isNamed && decide (c'.item.kind = kind)) =
      (!c.item.isNamed && decide (c.item.kind = kind))
    rw [hitem]
  · simp [hc.isNamed]

end Node.DropsComments

end Concrete

namespace Resolution
open Concrete (DropsComments)

variable {language : Language} {source : ByteArray}

/-! ### Readings -/

/-- The last segment of a name keeps its item. -/
theorem item_lastSegmentOfName {cs cs' : List Concrete.Node} (h : DropsComments cs cs')
    {default default' : Concrete.Node} (hitem : default'.item = default.item) :
    (lastSegmentOfName cs' default').item = (lastSegmentOfName cs default).item := by
  induction h generalizing default default' with
  | nil => rw [lastSegmentOfName, lastSegmentOfName, hitem]
  | @drop c cs cs' hc _ ih =>
    obtain ⟨i, ds⟩ := c
    have hname : ¬ i.field = some .name := by
      have : i.field = none := hc.field
      simp [this]
    rw [lastSegmentOfName, if_neg hname]
    exact ih hitem
  | keep i hds _ ihds ihcs =>
    rw [lastSegmentOfName, lastSegmentOfName, lastSegment, lastSegment]
    split
    · split
      · exact ihds rfl
      · rfl
    · exact ihcs hitem

section Reads
variable {n n' : Concrete.Node}

/-- The last segment of a name is the same without comments. -/
theorem item_lastSegment (h : n.DropsComments n') :
    (lastSegment n').item = (lastSegment n).item := by
  obtain ⟨i, cs⟩ := n
  obtain ⟨i', cs'⟩ := n'
  obtain rfl : i' = i := h.item
  rw [lastSegment, lastSegment]
  split
  · exact item_lastSegmentOfName h.children rfl
  · rfl

theorem specifierName_dropsComments (h : n.DropsComments n') :
    specifierName source n' = specifierName source n := by
  unfold specifierName
  rcases h.child? .name with ⟨hn, hn'⟩ | ⟨c, c', hn, hn', hc⟩
  · rw [hn, hn']
  · rw [hn, hn']
    exact congrArg (textOf source) (item_lastSegment hc)

theorem qualifierOf_dropsComments (h : n.DropsComments n') (t : Table) (look : Lookup) :
    qualifierOf source t n' look = qualifierOf source t n look := by
  unfold qualifierOf
  rcases h.child? .scope with ⟨hs, hs'⟩ | ⟨segment, segment', hs, hs', hsegment⟩
  · rw [hs, hs']
  · have hname : ((segment'.child? .name).bind fun c =>
          t.lookup [.ordinary] (textOf source c.item) look) =
        (segment.child? .name).bind fun c =>
          t.lookup [.ordinary] (textOf source c.item) look := by
      rcases hsegment.child? .name with ⟨hn, hn'⟩ | ⟨c, c', hn, hn', hc⟩
      · rw [hn, hn']
      · rw [hn, hn', Option.bind_some, Option.bind_some, hc.item]
    simp only [hs, hs', hsegment.kind, hsegment.item, hname]

theorem standsAlone_dropsComments {outer outer' : Concrete.Node} (h : n.DropsComments n')
    (ho : outer.DropsComments outer') (parent : NodeId) (context : Context) :
    standsAlone ⟨n', outer', parent, context⟩ = standsAlone ⟨n, outer, parent, context⟩ := by
  have hdeclarator : (outer'.child? .declarator).isNone = (outer.child? .declarator).isNone := by
    rcases ho.child? .declarator with ⟨hd, hd'⟩ | ⟨c, c', hd, hd', -⟩
    · rw [hd, hd']
    · simp only [hd, hd', Option.isNone_some]
  simp only [standsAlone, ho.kind, h.field, hdeclarator]

/-- A node is read alike without some comments below it and around it. -/
theorem readsAlike_of_dropsComments {outer outer' : Concrete.Node} (h : n.DropsComments n')
    (ho : outer.DropsComments outer') (parent : NodeId) (context : Context) :
    ReadsAlike source source ⟨n, outer, parent, context⟩ ⟨n', outer', parent, context⟩ where
  context := rfl
  kind := h.kind
  text := congrArg (textOf source) h.item
  child field := by
    rcases h.child? field with hnone | ⟨c, c', hn, hn', hc⟩
    · exact Or.inl hnone
    · exact Or.inr ⟨c, c', hn, hn', hc.kind, congrArg (textOf source) hc.item⟩
  specifierName := specifierName_dropsComments h
  standsAlone := standsAlone_dropsComments h ho parent context
  qualifierOf := qualifierOf_dropsComments h

/-- A child is read in the same context without comments. -/
theorem childContext_dropsComments {c c' : Concrete.Node} (h : n.DropsComments n')
    (hc : c.DropsComments c') (context : Context) (outline : Outline) :
    childContext n' context outline c' = childContext n context outline c := by
  simp only [childContext, parameterContext, usingContext, declaratorContext, h.kind, h.hasToken,
    hc.kind, hc.field]

/-- A node is read and added in the same way without comments. -/
theorem add_dropsComments {outer outer' : Concrete.Node} (h : n.DropsComments n')
    (ho : outer.DropsComments outer') (s : State) (parent : NodeId) (context : Context) :
    s.add language source ⟨n', outer', parent, context⟩ =
      s.add language source ⟨n, outer, parent, context⟩ := by
  simp only [State.add, (readsAlike_of_dropsComments h ho parent context).readNode, h.item]

end Reads

/-! ### Descents -/

/-- **A descent is the same** without some comments among the children and below them. -/
theorem descendAll_dropsComments {cs cs' : List Concrete.Node} (h : DropsComments cs cs')
    {node node' : Concrete.Node} (hnode : node.DropsComments node') (id : NodeId)
    (context : Context) (outline : Outline) (opening : Option Opening) (s : State) :
    descendAll language source s node' id context outline opening cs' =
      descendAll language source s node id context outline opening cs := by
  induction h generalizing node node' id context outline opening s with
  | nil => rw [descendAll, descendAll]
  | drop hc _ ih =>
    rw [descendAll_of_not_kept s node id context outline hc.not_isKept]
    exact ih hnode id context outline opening s
  | @keep i ds ds' cs cs' hds _ ihds ihcs =>
    have hchild : Concrete.Node.DropsComments (.node i ds) (.node i ds') := ⟨rfl, hds⟩
    have hcontext := childContext_dropsComments hnode hchild context outline
    have hdescend : ∀ s : State,
        descend language source s node' id (childContext node context outline (.node i ds))
            (.node i ds') =
          descend language source s node id (childContext node context outline (.node i ds))
            (.node i ds) := by
      intro s
      rw [descend, descend]
      simp only [add_dropsComments hchild hnode, ihds hchild]
    by_cases hkept : (Concrete.Node.node i ds).item.isKept = true
    · have hkept' : (Concrete.Node.node i ds').item.isKept = true := hkept
      have hat : s.atChild opening (.node i ds') = s.atChild opening (.node i ds) := rfl
      have hafter : openingAfter opening (.node i ds') = openingAfter opening (.node i ds) := rfl
      rw [descendAll_of_kept s node id context outline hkept,
        descendAll_of_kept s node' id context outline hkept', hcontext, hat, hafter, hdescend]
      simp only [ihcs hnode]
    · have hkept' : ¬ (Concrete.Node.node i ds').item.isKept = true := hkept
      rw [descendAll_of_not_kept s node id context outline hkept,
        descendAll_of_not_kept s node' id context outline hkept']
      exact ihcs hnode id context outline opening s

/-! ### Parses -/

/-- A parse without some comments has the same faults. -/
theorem faults_dropsComments {parse parse' : Concrete.Parse}
    (h : parse.root.DropsComments parse'.root) (herror : parse'.hasError = parse.hasError) :
    parse'.faults = parse.faults := by
  obtain ⟨⟨i, cs⟩, hasError⟩ := parse
  obtain ⟨⟨i', cs'⟩, hasError'⟩ := parse'
  obtain rfl : i' = i := h.item
  obtain rfl : hasError' = hasError := herror
  have hbelow : (Concrete.itemsFrom cs').filter Concrete.Item.isFault =
      (Concrete.itemsFrom cs).filter Concrete.Item.isFault := h.children.faults
  have hitems : (Concrete.itemsFrom [.node i' cs']).filter Concrete.Item.isFault =
      (Concrete.itemsFrom [.node i' cs]).filter Concrete.Item.isFault := by
    rw [itemsFrom_node, itemsFrom_node, List.filter_cons, List.filter_cons, hbelow]
  simp only [Concrete.Parse.faults, Concrete.Parse.items, hitems]

/-- **Comments do not matter.**  If only comments are taken out of a parse, from wherever below its
root, then what is made of it stays the same: the tree with the numbers, places and targets of its
nodes, and the statistics. -/
theorem resolveNames_without (language : Language) (source : ByteArray) (spelling : String)
    {parse : Concrete.Parse} {remove : List Nat → Bool}
    (hcomments : ∀ path n, path ≠ [] → remove path = true → parse.root.at? path = some n →
      n.IsComment) :
    resolveNames language source spelling (parse.without remove) =
      resolveNames language source spelling parse := by
  have hroot : parse.root.DropsComments (parse.without remove).root :=
    Concrete.dropsComments_without parse.root [] fun path n hne hremove hn =>
      hcomments path n hne hremove hn
  have hwalk : walk language source (.initial language spelling)
        (initialSteps (parse.without remove)) =
      walk language source (.initial language spelling) (initialSteps parse) := by
    rw [walk_eq_descent, walk_eq_descent]
    exact descendAll_dropsComments hroot.children hroot Tree.rootId .plain {} none _
  have hfaults := faults_dropsComments hroot rfl
  simp only [resolveNames, hwalk, Concrete.Parse.errorCount_eq_length,
    Concrete.Parse.firstError?_eq_head?, hfaults, hroot.item]
  rfl

/-- The source `struct/**/P{};struct P/**/*a;`. -/
def remarkSource : ByteArray := "struct/**/P{};struct P/**/*a;".toUTF8

/-- Its parse, with a comment in front of a name and one in front of a declarator. -/
def remarkParse : Concrete.Parse where
  root := .node { kind := .translationUnit, stop := 29 }
    [.node { kind := .structSpecifier, stop := 13 }
      [.node { kind := .other "comment", isExtra := true, start := 6, stop := 10, column := 6 } [],
        .onLine .typeIdentifier (some .name) 10 11 [],
        .onLine (.other "field_declaration_list") (some .body) 11 13 []],
      .onLine .declaration none 14 29
        [.onLine .structSpecifier (some .type) 14 22
          [.onLine .typeIdentifier (some .name) 21 22 []],
          .node { kind := .other "comment", isExtra := true, start := 22, stop := 26,
                  column := 22 } [],
          .onLine (.other "pointer_declarator") (some .declarator) 26 28 []]]
  hasError := false

/-- Without its two comments the parse has eight nodes, and the same use of `P` is found. -/
theorem resolveNames_without_remarks : ∃ tree stats,
    (remarkParse.without fun path => path = [0, 0] || path = [1, 1]).items.length = 8 ∧
      resolveNames .c remarkSource "a.c"
        (remarkParse.without fun path => path = [0, 0] || path = [1, 1]) = .ok (tree, stats) ∧
      resolveNames .c remarkSource "a.c" remarkParse = .ok (tree, stats) ∧
      tree.findUses "P" Tree.rootId = [⟨"P", ⟨1, 22⟩⟩] := by
  have hcomments : ∀ path n, path ≠ [] → (decide (path = [0, 0]) || decide (path = [1, 1])) = true →
      remarkParse.root.at? path = some n → n.IsComment := by
    intro path n _ hremove hn
    rcases Bool.or_eq_true_iff.1 hremove with hpath | hpath
    · obtain rfl := of_decide_eq_true hpath
      obtain rfl := Option.some.inj hn
      exact ⟨rfl, rfl, rfl, by decide +kernel⟩
    · obtain rfl := of_decide_eq_true hpath
      obtain rfl := Option.some.inj hn
      exact ⟨rfl, rfl, rfl, by decide +kernel⟩
  have hsame := resolveNames_without .c remarkSource "a.c" hcomments
  have huses : (resolveNames .c remarkSource "a.c" remarkParse).toOption.map
      (fun r => r.1.findUses "P" Tree.rootId) = some [⟨"P", ⟨1, 22⟩⟩] := by decide +kernel
  obtain ⟨⟨tree, stats⟩, h, huses⟩ := exists_ok_of_map huses
  exact ⟨tree, stats, by decide +kernel, hsame.trans h, h, huses⟩

end Resolution

end TypeUses
