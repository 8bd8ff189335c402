import TypeUses.Proofs.Resolution.Runs

/-!
# Resolution — what a descent reads of the source

A descent into a node reads of the source the texts of the items at and below the node, and of the
node around it only whether it declares something.  So it is the same for two sources in which these
items have the same texts (`SameText`), and below either of two roots (`descendAll_congr`).

All that the reading of one node asks for is listed in `ReadsAlike`: where it is the same in two
frames, the nodes are read alike (`ReadsAlike.readNode`).
-/

namespace TypeUses.Resolution

variable {language : Language} {source source' : ByteArray}

/-! ### Texts of a node -/

/-- Every item at and below the node has the same text in both sources. -/
def SameText (source source' : ByteArray) (n : Concrete.Node) : Prop :=
  ∀ i ∈ Concrete.itemsFrom [n], textOf source' i = textOf source i

theorem itemsFrom_append (xs ys : List Concrete.Node) :
    Concrete.itemsFrom (xs ++ ys) = Concrete.itemsFrom xs ++ Concrete.itemsFrom ys := by
  fun_induction Concrete.itemsFrom xs with
  | case1 => rfl
  | case2 i cs rest ih =>
      rw [List.cons_append, Concrete.itemsFrom, ← List.append_assoc, ih]
      rfl

theorem itemsFrom_cons (c : Concrete.Node) (cs : List Concrete.Node) :
    Concrete.itemsFrom (c :: cs) = Concrete.itemsFrom [c] ++ Concrete.itemsFrom cs := by
  rw [← List.singleton_append, itemsFrom_append]

theorem itemsFrom_node (i : Concrete.Item) (cs : List Concrete.Node) :
    Concrete.itemsFrom [.node i cs] = i :: Concrete.itemsFrom cs := by
  rw [Concrete.itemsFrom, List.append_nil]

/-- The items of a node of a list are items of the list. -/
theorem mem_itemsFrom_of_mem {i : Concrete.Item} {n : Concrete.Node} {ns : List Concrete.Node}
    (hn : n ∈ ns) (hi : i ∈ Concrete.itemsFrom [n]) : i ∈ Concrete.itemsFrom ns := by
  obtain ⟨xs, ys, rfl⟩ := List.append_of_mem hn
  rw [itemsFrom_append, ← List.singleton_append, itemsFrom_append]
  exact List.mem_append_right _ (List.mem_append_left _ hi)

/-- The nodes of a list have the same texts if all items from the list do. -/
theorem sameText_of_mem {ns : List Concrete.Node}
    (h : ∀ i ∈ Concrete.itemsFrom ns, textOf source' i = textOf source i) {n : Concrete.Node}
    (hn : n ∈ ns) : SameText source source' n :=
  fun i hi => h i (mem_itemsFrom_of_mem hn hi)

namespace SameText

variable {n c : Concrete.Node}

theorem textOf (h : SameText source source' n) :
    Resolution.textOf source' n.item = Resolution.textOf source n.item := by
  obtain ⟨i, cs⟩ := n
  refine h i ?_
  rw [Concrete.itemsFrom]
  exact List.mem_cons_self

theorem child (h : SameText source source' n) (hc : c ∈ n.children) :
    SameText source source' c := by
  obtain ⟨i, cs⟩ := n
  refine sameText_of_mem (fun j hj => h j ?_) hc
  rw [Concrete.itemsFrom, List.append_nil]
  exact List.mem_cons_of_mem _ hj

theorem child? (h : SameText source source' n) {field : Concrete.Field}
    (hc : n.child? field = some c) : SameText source source' c :=
  h.child (List.mem_of_find?_eq_some hc)

mutual

theorem lastSegment : ∀ n : Concrete.Node, SameText source source' n →
    SameText source source' (Resolution.lastSegment n)
  | .node i cs, h => by
      rw [Resolution.lastSegment]
      split
      · exact lastSegmentOfName cs (.node i cs) (fun c hc => h.child hc) h
      · exact h

theorem lastSegmentOfName : ∀ (cs : List Concrete.Node) (default : Concrete.Node),
    (∀ c ∈ cs, SameText source source' c) → SameText source source' default →
      SameText source source' (Resolution.lastSegmentOfName cs default)
  | [], default, _, h => by rw [Resolution.lastSegmentOfName]; exact h
  | .node i ds :: cs, default, hcs, h => by
      rw [Resolution.lastSegmentOfName]
      split
      · exact lastSegment (.node i ds) (hcs _ List.mem_cons_self)
      · exact lastSegmentOfName cs default (fun c hc => hcs c (List.mem_cons_of_mem _ hc)) h

end

theorem specifierName (h : SameText source source' n) :
    Resolution.specifierName source' n = Resolution.specifierName source n := by
  simp only [Resolution.specifierName]
  cases hn : n.child? .name with
  | none => rfl
  | some c => exact (lastSegment c (h.child? hn)).textOf

theorem qualifierOf (h : SameText source source' n) (t : Table) (look : Lookup) :
    Resolution.qualifierOf source' t n look = Resolution.qualifierOf source t n look := by
  simp only [Resolution.qualifierOf]
  cases hs : n.child? .scope with
  | none => rfl
  | some segment =>
      have hsegment := h.child? hs
      have hname : ((segment.child? .name).bind fun c =>
          t.lookup [.ordinary] (Resolution.textOf source' c.item) look) =
          (segment.child? .name).bind fun c =>
            t.lookup [.ordinary] (Resolution.textOf source c.item) look := by
        cases hn : segment.child? .name with
        | none => rw [Option.bind_none, Option.bind_none]
        | some c => simp only [Option.bind_some, (hsegment.child? hn).textOf]
      simp only [hsegment.textOf, hname]

end SameText

/-! ### Readings -/

/-- A reading asks for the same in two frames, each in its source: the context, the kind and text of
the node, its names, and of the node around it whether it declares something. -/
structure ReadsAlike (source source' : ByteArray) (f f' : Frame) : Prop where
  context : f'.context = f.context
  kind : f'.node.kind = f.node.kind
  text : textOf source' f'.node.item = textOf source f.node.item
  child : ∀ field, f.node.child? field = none ∧ f'.node.child? field = none ∨
    ∃ c c', f.node.child? field = some c ∧ f'.node.child? field = some c' ∧ c'.kind = c.kind ∧
      textOf source' c'.item = textOf source c.item
  specifierName : specifierName source' f'.node = specifierName source f.node
  standsAlone : standsAlone f' = standsAlone f
  qualifierOf : ∀ t look, qualifierOf source' t f'.node look = qualifierOf source t f.node look

namespace ReadsAlike

variable {f f' : Frame}

theorem simpleName? (h : ReadsAlike source source' f f') :
    Resolution.simpleName? source' f'.node = Resolution.simpleName? source f.node := by
  unfold Resolution.simpleName?
  rcases h.child .name with ⟨hn, hn'⟩ | ⟨c, c', hn, hn', hkind, htext⟩
  · rw [hn, hn']
  · simp only [hn, hn', hkind, htext]

theorem specifier (h : ReadsAlike source source' f f') (t : Table) (id : NodeId)
    (kind : EntityKind) :
    readSpecifier language source' t id f' kind = readSpecifier language source t id f kind := by
  have hbody : (f'.node.child? .body).isSome = (f.node.child? .body).isSome := by
    rcases h.child .body with ⟨hn, hn'⟩ | ⟨c, c', hn, hn', -⟩
    · rw [hn, hn']
    · simp only [hn, hn', Option.isSome_some]
  simp only [readSpecifier, readDefinedTag, Reading.plain, hbody, h.standsAlone, h.specifierName,
    h.simpleName?, h.kind]

theorem namespaceNode (h : ReadsAlike source source' f f') (t : Table) (id : NodeId) :
    readNamespace source' t id f' = readNamespace source t id f := by
  unfold readNamespace
  rcases h.child .name with ⟨hn, hn'⟩ | ⟨c, c', hn, hn', hkind, htext⟩
  · rw [hn, hn']
  · simp only [hn, hn', hkind, htext]

theorem label (h : ReadsAlike source source' f f') (t : Table) :
    readLabel source' t f' = readLabel source t f := by
  unfold readLabel
  rcases h.child .label with ⟨hn, hn'⟩ | ⟨c, c', hn, hn', -, htext⟩
  · rw [hn, hn']
  · simp only [hn, hn', htext]

/-- **A node is read alike** where a reading asks for the same. -/
theorem readNode (h : ReadsAlike source source' f f') (t : Table) (id : NodeId) :
    readNode language source' t id f' = readNode language source t id f := by
  unfold Resolution.readNode
  simp only [h.specifier, h.namespaceNode, h.label, readTypeIdentifier, readNamespaceIdentifier,
    readStatementIdentifier, Reading.plain, h.context, h.kind, h.text, h.qualifierOf]

end ReadsAlike

/-- The nodes are the same, or both are whole translation units. -/
def Alike (n n' : Concrete.Node) : Prop :=
  n' = n ∨ n.kind = .translationUnit ∧ n'.kind = .translationUnit

section Reads
variable {f : Frame} {outer' : Concrete.Node}

theorem standsAlone_congr (h : Alike f.outer outer') :
    standsAlone { f with outer := outer' } = standsAlone f := by
  rcases h with rfl | ⟨h, h'⟩
  · rfl
  · simp only [standsAlone]
    rw [h, h']
    cases f.node.field with
    | none => rfl
    | some field => cases field <;> rfl

/-- A node is read alike where its texts are the same and the nodes around it are alike. -/
theorem readsAlike_of_sameText (h : SameText source source' f.node) (ho : Alike f.outer outer') :
    ReadsAlike source source' f { f with outer := outer' } where
  context := rfl
  kind := rfl
  text := h.textOf
  child field := by
    cases hc : f.node.child? field with
    | none => exact Or.inl ⟨rfl, rfl⟩
    | some c => exact Or.inr ⟨c, c, rfl, rfl, rfl, (h.child? hc).textOf⟩
  specifierName := h.specifierName
  standsAlone := standsAlone_congr ho
  qualifierOf := h.qualifierOf

end Reads

theorem childContext_congr {n n' : Concrete.Node} (h : Alike n n') (context : Context)
    (outline : Outline) (child : Concrete.Node) :
    childContext n' context outline child = childContext n context outline child := by
  rcases h with rfl | ⟨h, h'⟩
  · rfl
  · unfold childContext declaratorContext
    rw [h, h']

/-! ### Descents -/

/-- A node is read and added alike where its texts are the same and the nodes around it are
alike. -/
theorem add_congr (s : State) (f : Frame) {outer' : Concrete.Node}
    (h : SameText source source' f.node) (ho : Alike f.outer outer') :
    s.add language source' { f with outer := outer' } = s.add language source f := by
  unfold State.add
  rw [(readsAlike_of_sameText h ho).readNode]

mutual

theorem descend_congr {outer outer' : Concrete.Node} (ho : Alike outer outer') {parent : NodeId}
    {context : Context} : ∀ (n : Concrete.Node) (s : State), SameText source source' n →
      descend language source' s outer' parent context n =
        descend language source s outer parent context n
  | .node item children, s, h => by
      rw [descend, descend]
      have hadd : s.add language source' ⟨.node item children, outer', parent, context⟩ =
          s.add language source ⟨.node item children, outer, parent, context⟩ :=
        add_congr s ⟨.node item children, outer, parent, context⟩ h ho
      have hall : ∀ s₁ id outline,
          descendAll language source' s₁ (.node item children) id context outline outline.opening
              children =
            descendAll language source s₁ (.node item children) id context outline outline.opening
              children := fun s₁ _ _ =>
        descendAll_congr (Or.inl rfl) children s₁ fun c hc => h.child hc
      simp only [hadd, hall]

/-- **A descent is the same** where the texts are the same, below alike nodes. -/
theorem descendAll_congr {node node' : Concrete.Node} (hn : Alike node node') {id : NodeId}
    {context : Context} {outline : Outline} : ∀ (cs : List Concrete.Node)
      {opening : Option Opening} (s : State), (∀ c ∈ cs, SameText source source' c) →
      descendAll language source' s node' id context outline opening cs =
        descendAll language source s node id context outline opening cs
  | [], opening, s, _ => by rw [descendAll, descendAll]
  | c :: cs, opening, s, h => by
      have hc : ∀ s, descend language source' s node' id (childContext node context outline c) c =
          descend language source s node id (childContext node context outline c) c := fun s =>
        descend_congr hn c s (h c List.mem_cons_self)
      have hcs : ∀ opening s, descendAll language source' s node' id context outline opening cs =
          descendAll language source s node id context outline opening cs := fun _ s =>
        descendAll_congr hn cs s fun x hx => h x (List.mem_cons_of_mem _ hx)
      rw [descendAll, descendAll, childContext_congr hn, hc, hcs]
      simp only [hcs]

end

/-- The children of a node are descended into one after the other. -/
theorem descendAll_append {node : Concrete.Node} {id : NodeId} {context : Context}
    {outline : Outline} (cs ds : List Concrete.Node) (s : State) :
    descendAll language source s node id context outline none (cs ++ ds) =
      (descendAll language source s node id context outline none cs).bind fun s =>
        descendAll language source s node id context outline none ds := by
  induction cs generalizing s with
  | nil => rw [descendAll]; rfl
  | cons c cs ih =>
      rw [List.cons_append, descendAll, descendAll]
      split
      · show (descend language source (s.atChild none c) node id _ c).bind _ = _
        cases descend language source (s.atChild none c) node id
            (childContext node context outline c) c with
        | error => rfl
        | ok s₁ => exact ih s₁
      · exact ih s

end TypeUses.Resolution
