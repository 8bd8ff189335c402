import TypeUses.Tree.Basic

/-!
# Trees — what an addition and a link change

A node of a tree is seen through four views: what it says (`content?`), where it stands
(`location?`), what lies directly below it (`children`) and, if it is a reference, its target
(`target?`).

* `push?_eq_ok`, `resolve?_eq_ok`: when an addition or a link succeeds, and its result.  The views
  after an addition and after a link follow them.
* `Grows`: a tree that comes from another by additions and links.  A node keeps its location and
  what it says, the targets of references apart (`Content.unlinked`).
* `Extends`: a tree that has the nodes of another just as they are, but for further children.
-/

namespace TypeUses

/-- The content with the target of a reference left out. -/
def Content.unlinked : Content → Content
  | .reference r => .reference { r with target := none }
  | content => content

@[simp] theorem Content.unlinked_withTarget (d : NodeId) (c : Content) :
    (c.withTarget d).unlinked = c.unlinked := by
  cases c <;> rfl

/-- Only references are told apart by their targets. -/
theorem Content.eq_of_unlinked_eq {c c' : Content} (hno : c.isReference = false)
    (h : c'.unlinked = c.unlinked) : c' = c := by
  cases c <;> cases c' <;> simp_all [unlinked, isReference]

namespace Tree

/-! ### Views of a node -/

/-- What a node says. -/
def content? (t : Tree) (id : NodeId) : Option Content := (t.node? id).map Node.content

/-- Where a node stands. -/
def location? (t : Tree) (id : NodeId) : Option Location := (t.node? id).map Node.location

/-- The reference that a node is. -/
def reference? (t : Tree) (id : NodeId) : Option Reference :=
  (t.content? id).bind Content.reference?

/-- The target of the reference that a node is. -/
def target? (t : Tree) (id : NodeId) : Option NodeId := (t.reference? id).bind Reference.target

theorem children_eq (t : Tree) (id : NodeId) :
    t.children id = ((t.node? id).map fun n => n.children.toList).getD [] := by
  simp only [children]
  cases t.node? id <;> rfl

theorem node?_eq_none_iff {t : Tree} {id : NodeId} : t.node? id = none ↔ t.size ≤ id.index :=
  Array.getElem?_eq_none_iff

theorem lt_size_of_node? {t : Tree} {id : NodeId} {n : Node} (h : t.node? id = some n) :
    id.index < t.size :=
  (Array.getElem?_eq_some_iff.1 h).1

theorem exists_node? {t : Tree} {id : NodeId} (h : id.index < t.size) : ∃ n, t.node? id = some n :=
  ⟨_, Array.getElem?_eq_some_iff.2 ⟨h, rfl⟩⟩

theorem lt_size_of_content? {t : Tree} {id : NodeId} {c : Content} (h : t.content? id = some c) :
    id.index < t.size := by
  obtain ⟨n, hn, -⟩ := Option.map_eq_some_iff.1 h
  exact lt_size_of_node? hn

theorem reference?_eq_some_iff {t : Tree} {id : NodeId} {r : Reference} :
    t.reference? id = some r ↔ t.content? id = some (.reference r) := by
  simp only [reference?]
  cases t.content? id with
  | none => simp
  | some c => cases c <;> simp [Content.reference?]

theorem target?_eq_some_iff {t : Tree} {id d : NodeId} :
    t.target? id = some d ↔ ∃ r, t.content? id = some (.reference r) ∧ r.target = some d := by
  simp only [target?, Option.bind_eq_some_iff, reference?_eq_some_iff]

/-- The node defines an entity. -/
def IsDefinition (t : Tree) (id : NodeId) : Prop := ∃ e, t.content? id = some (.definition e)

/-- The node refers to an entity. -/
def IsReference (t : Tree) (id : NodeId) : Prop := ∃ r, t.content? id = some (.reference r)

theorem IsDefinition.lt {t : Tree} {id : NodeId} (h : t.IsDefinition id) : id.index < t.size :=
  lt_size_of_content? h.choose_spec

theorem IsReference.lt {t : Tree} {id : NodeId} (h : t.IsReference id) : id.index < t.size :=
  lt_size_of_content? h.choose_spec

/-! ### An addition -/

section Push
variable {t t' : Tree} {parent id : NodeId} {content : Content} {location : Location}

/-- Adding succeeds just where the parent exists and there is room; the node gets the next
number. -/
theorem push?_eq_ok : t.push? parent content location = .ok (id, t') ↔
    (parent.index < t.size ∧ t.size < capacity) ∧ id = ⟨t.size⟩ ∧ t'.spelling = t.spelling ∧
      t'.nodes = pushNode t.nodes parent content location := by
  simp only [push?]
  by_cases hp : parent.index < t.nodes.size
  · by_cases hc : t.size < capacity
    · rw [dif_pos hp, if_pos hc, Except.ok.injEq, Prod.mk.injEq]
      refine ⟨fun ⟨hid, ht⟩ => ⟨⟨hp, hc⟩, hid.symm, ht ▸ rfl, ht ▸ rfl⟩, fun ⟨_, hid, hs, hn⟩ => ?_⟩
      exact ⟨hid.symm, Tree.ext hs.symm hn.symm⟩
    · simp [hp, hc]
  · simp [hp, size]

/-- An addition succeeds if the parent exists and there is room. -/
theorem exists_push? (hp : parent.index < t.size) (hc : t.size < capacity) (content : Content)
    (location : Location) : ∃ t', t.push? parent content location = .ok (⟨t.size⟩, t') := by
  have hp' : parent.index < t.nodes.size := hp
  simp only [push?]
  rw [dif_pos hp', if_pos hc]
  exact ⟨_, rfl⟩

theorem node?_of_push? (h : t.push? parent content location = .ok (id, t')) (x : NodeId) :
    t'.node? x =
      if x = ⟨t.size⟩ then some ⟨content, location, #[]⟩
      else if x = parent then
        (t.node? x).map fun n => { n with children := n.children.push ⟨t.size⟩ }
      else t.node? x := by
  obtain ⟨-, -, -, hn⟩ := push?_eq_ok.1 h
  simp only [node?, hn, pushNode, Array.getElem?_push, Array.size_modify, Array.getElem?_modify,
    size, NodeId.ext_iff, eq_comm (a := parent.index)]

theorem size_of_push? (h : t.push? parent content location = .ok (id, t')) :
    t'.size = t.size + 1 := by
  obtain ⟨-, -, -, hn⟩ := push?_eq_ok.1 h
  simp only [size, hn, pushNode, Array.size_push, Array.size_modify]

theorem content?_of_push? (h : t.push? parent content location = .ok (id, t')) (x : NodeId) :
    t'.content? x = if x = ⟨t.size⟩ then some content else t.content? x := by
  rw [content?, node?_of_push? h]
  split
  · rfl
  · split
    · rw [content?, Option.map_map]; rfl
    · rfl

theorem location?_of_push? (h : t.push? parent content location = .ok (id, t')) (x : NodeId) :
    t'.location? x = if x = ⟨t.size⟩ then some location else t.location? x := by
  rw [location?, node?_of_push? h]
  split
  · rfl
  · split
    · rw [location?, Option.map_map]; rfl
    · rfl

/-- The node that is added is the last child of its parent. -/
theorem children_of_push? (h : t.push? parent content location = .ok (id, t')) (x : NodeId) :
    t'.children x = t.children x ++ if parent = x then [⟨t.size⟩] else [] := by
  obtain ⟨⟨hp, -⟩, -⟩ := push?_eq_ok.1 h
  have hlt : ¬ parent = ⟨t.size⟩ := fun e => by subst e; exact Nat.lt_irrefl _ hp
  rw [children_eq, children_eq, node?_of_push? h]
  by_cases hx : x = ⟨t.size⟩
  · subst hx
    have hnew : t.node? ⟨t.size⟩ = none := node?_eq_none_iff.2 (Nat.le_refl _)
    rw [if_pos rfl, if_neg hlt, hnew]
    rfl
  · rw [if_neg hx]
    by_cases he : parent = x
    · subst he
      obtain ⟨n, hn⟩ := exists_node? hp
      simp [hn]
    · rw [if_neg he, if_neg fun e => he e.symm, List.append_nil]

theorem mem_children_of_push? {c p : NodeId} (h : t.push? parent content location = .ok (id, t')) :
    c ∈ t'.children p ↔ c ∈ t.children p ∨ p = parent ∧ c = ⟨t.size⟩ := by
  rw [children_of_push? h, List.mem_append]
  by_cases hp : parent = p <;> simp [hp, eq_comm]

theorem target?_of_push? (h : t.push? parent content location = .ok (id, t')) (x : NodeId) :
    t'.target? x =
      if x = ⟨t.size⟩ then content.reference?.bind Reference.target else t.target? x := by
  rw [target?, reference?, content?_of_push? h]
  split <;> rfl

end Push

/-! ### A link -/

section Resolve
variable {t t' : Tree} {reference definition : NodeId}

/-- A link succeeds just where it leads from a reference to a definition. -/
theorem resolve?_eq_ok : t.resolve? reference definition = .ok t' ↔
    (t.IsReference reference ∧ t.IsDefinition definition) ∧ t'.spelling = t.spelling ∧
      t'.nodes = linkNode t.nodes reference definition := by
  simp only [resolve?, IsReference, IsDefinition, content?]
  cases hr : t.node? reference with
  | none => simp
  | some r =>
      cases hd : t.node? definition with
      | none => simp
      | some d =>
          cases hdc : d.content <;> cases hrc : r.content <;>
            simp [hdc, hrc, Content.isDefinition, Content.isReference]
          refine ⟨fun h => ?_, fun ⟨hs, hn⟩ => Tree.ext hs.symm hn.symm⟩
          subst h
          exact ⟨rfl, rfl⟩

/-- A link from a reference to a definition succeeds. -/
theorem exists_resolve? (hr : t.IsReference reference) (hd : t.IsDefinition definition) :
    ∃ t', t.resolve? reference definition = .ok t' :=
  ⟨⟨t.spelling, linkNode t.nodes reference definition, child_lt_linkNode t.child_lt⟩,
    resolve?_eq_ok.2 ⟨⟨hr, hd⟩, rfl, rfl⟩⟩

theorem node?_of_resolve? (h : t.resolve? reference definition = .ok t') (x : NodeId) :
    t'.node? x =
      if x = reference then
        (t.node? x).map fun n => { n with content := n.content.withTarget definition }
      else t.node? x := by
  obtain ⟨-, -, hn⟩ := resolve?_eq_ok.1 h
  simp only [node?, hn, linkNode, Array.getElem?_modify, NodeId.ext_iff,
    eq_comm (a := reference.index)]

theorem size_of_resolve? (h : t.resolve? reference definition = .ok t') : t'.size = t.size := by
  obtain ⟨-, -, hn⟩ := resolve?_eq_ok.1 h
  simp only [size, hn, linkNode, Array.size_modify]

theorem content?_of_resolve? (h : t.resolve? reference definition = .ok t') (x : NodeId) :
    t'.content? x =
      if x = reference then (t.content? x).map (Content.withTarget definition)
      else t.content? x := by
  rw [content?, node?_of_resolve? h, content?]
  split
  · rw [Option.map_map, Option.map_map]; rfl
  · rfl

theorem location?_of_resolve? (h : t.resolve? reference definition = .ok t') (x : NodeId) :
    t'.location? x = t.location? x := by
  rw [location?, node?_of_resolve? h, location?]
  split
  · rw [Option.map_map]; rfl
  · rfl

theorem children_of_resolve? (h : t.resolve? reference definition = .ok t') (x : NodeId) :
    t'.children x = t.children x := by
  rw [children_eq, children_eq, node?_of_resolve? h]
  split
  · rw [Option.map_map]; rfl
  · rfl

/-- A link changes the target of its reference. -/
theorem target?_of_resolve? (h : t.resolve? reference definition = .ok t') (x : NodeId) :
    t'.target? x = if x = reference then some definition else t.target? x := by
  obtain ⟨⟨⟨r, hr⟩, -⟩, -⟩ := resolve?_eq_ok.1 h
  rw [target?, reference?, content?_of_resolve? h]
  split
  · next hx => rw [hx, hr]; rfl
  · rfl

end Resolve

/-! ### Trees that grow -/

/-- `t'` has the nodes of `t`, which stand where they stood and say what they said, but that
references may have got targets; it may have more nodes. -/
structure Grows (t t' : Tree) : Prop where
  size_le : t.size ≤ t'.size
  content : ∀ id : NodeId, id.index < t.size →
    (t'.content? id).map Content.unlinked = (t.content? id).map Content.unlinked
  location : ∀ id : NodeId, id.index < t.size → t'.location? id = t.location? id

theorem Grows.refl (t : Tree) : t.Grows t := ⟨Nat.le_refl _, fun _ _ => rfl, fun _ _ => rfl⟩

theorem Grows.trans {t t' t'' : Tree} (h : t.Grows t') (h' : t'.Grows t'') : t.Grows t'' where
  size_le := Nat.le_trans h.size_le h'.size_le
  content id hid :=
    (h'.content id (Nat.lt_of_lt_of_le hid h.size_le)).trans (h.content id hid)
  location id hid :=
    (h'.location id (Nat.lt_of_lt_of_le hid h.size_le)).trans (h.location id hid)

theorem grows_of_resolve? {t t' : Tree} {reference definition : NodeId}
    (h : t.resolve? reference definition = .ok t') : t.Grows t' := by
  refine ⟨Nat.le_of_eq (size_of_resolve? h).symm, fun x _ => ?_,
    fun x _ => location?_of_resolve? h x⟩
  rw [content?_of_resolve? h]
  split
  · rw [Option.map_map]
    exact congrArg (Option.map · (t.content? x)) (funext (Content.unlinked_withTarget definition))
  · rfl

/-- A node that is no reference says what it said. -/
theorem Grows.keeps {t t' : Tree} (h : t.Grows t') {id : NodeId} {c : Content}
    (hc : t.content? id = some c) (hno : c.isReference = false) : t'.content? id = some c := by
  have hu := h.content id (lt_size_of_content? hc)
  rw [hc] at hu
  obtain ⟨c', hc', hu⟩ := Option.map_eq_some_iff.1 hu
  rw [hc', Content.eq_of_unlinked_eq hno hu]

/-- A definition keeps its entity. -/
theorem Grows.definition {t t' : Tree} (h : t.Grows t') {id : NodeId} {e : Entity}
    (he : t.content? id = some (.definition e)) : t'.content? id = some (.definition e) :=
  h.keeps he rfl

/-- A reference keeps its kind and its spelling. -/
theorem Grows.reference {t t' : Tree} (h : t.Grows t') {id : NodeId} {r : Reference}
    (hr : t.content? id = some (.reference r)) :
    ∃ target, t'.content? id = some (.reference { r with target := target }) := by
  have hc := h.content id (lt_size_of_content? hr)
  rw [hr] at hc
  obtain ⟨c, hc', hu⟩ := Option.map_eq_some_iff.1 hc
  cases c with
  | reference r' =>
      obtain ⟨kind, spelling, target⟩ := r'
      simp only [Content.unlinked, Content.reference.injEq, Reference.mk.injEq] at hu
      exact ⟨target, by rw [hc', hu.1, hu.2.1]⟩
  | _ => simp [Content.unlinked] at hu

/-- A node that is a reference in the larger tree was one, of the same kind and spelling. -/
theorem Grows.of_reference {t t' : Tree} (h : t.Grows t') {id : NodeId} {r : Reference}
    (hid : id.index < t.size) (hr : t'.content? id = some (.reference r)) :
    ∃ target, t.content? id = some (.reference { r with target := target }) := by
  have hc := h.content id hid
  rw [hr] at hc
  obtain ⟨c, hc', hu⟩ := Option.map_eq_some_iff.1 hc.symm
  cases c with
  | reference r' =>
      obtain ⟨kind, spelling, target⟩ := r'
      simp only [Content.unlinked, Content.reference.injEq, Reference.mk.injEq] at hu
      exact ⟨target, by rw [hc', hu.1, hu.2.1]⟩
  | _ => simp [Content.unlinked] at hu

theorem IsDefinition.grows {t t' : Tree} {id : NodeId} (hd : t.IsDefinition id)
    (h : t.Grows t') : t'.IsDefinition id := by
  obtain ⟨e, he⟩ := hd
  exact ⟨e, h.definition he⟩

theorem IsReference.grows {t t' : Tree} {id : NodeId} (hr : t.IsReference id) (h : t.Grows t') :
    t'.IsReference id := by
  obtain ⟨r, hr⟩ := hr
  obtain ⟨target, ht⟩ := h.reference hr
  exact ⟨_, ht⟩

/-! ### Trees that only get further nodes -/

/-- `t'` has the nodes of `t`, which stand where they stood and say what they said, targets
included; their further children are further nodes. -/
structure Extends (t t' : Tree) : Prop where
  size_le : t.size ≤ t'.size
  content : ∀ id : NodeId, id.index < t.size → t'.content? id = t.content? id
  location : ∀ id : NodeId, id.index < t.size → t'.location? id = t.location? id
  children : ∀ id, ∃ more, t'.children id = t.children id ++ more ∧ ∀ c ∈ more, t.size ≤ c.index

theorem Extends.refl (t : Tree) : t.Extends t :=
  ⟨Nat.le_refl _, fun _ _ => rfl, fun _ _ => rfl, fun _ => ⟨[], (List.append_nil _).symm, nofun⟩⟩

theorem Extends.trans {t t' t'' : Tree} (h : t.Extends t') (h' : t'.Extends t'') :
    t.Extends t'' where
  size_le := Nat.le_trans h.size_le h'.size_le
  content id hid := (h'.content id (Nat.lt_of_lt_of_le hid h.size_le)).trans (h.content id hid)
  location id hid :=
    (h'.location id (Nat.lt_of_lt_of_le hid h.size_le)).trans (h.location id hid)
  children id := by
    obtain ⟨more, hc, hm⟩ := h.children id
    obtain ⟨more', hc', hm'⟩ := h'.children id
    refine ⟨more ++ more', by rw [hc', hc, List.append_assoc], fun c hmem => ?_⟩
    rcases List.mem_append.1 hmem with hmem | hmem
    · exact hm c hmem
    · exact Nat.le_trans h.size_le (hm' c hmem)

theorem Extends.grows {t t' : Tree} (h : t.Extends t') : t.Grows t' :=
  ⟨h.size_le, fun id hid => by rw [h.content id hid], h.location⟩

theorem extends_of_push? {t t' : Tree} {parent id : NodeId} {content : Content}
    {location : Location} (h : t.push? parent content location = .ok (id, t')) : t.Extends t' := by
  have old : ∀ x : NodeId, x.index < t.size → x ≠ ⟨t.size⟩ :=
    fun x hx e => by subst e; exact Nat.lt_irrefl _ hx
  refine ⟨by rw [size_of_push? h]; exact Nat.le_succ _, fun x hx => ?_, fun x hx => ?_,
    fun x => ⟨_, children_of_push? h x, fun c hc => ?_⟩⟩
  · rw [content?_of_push? h, if_neg (old x hx)]
  · rw [location?_of_push? h, if_neg (old x hx)]
  · split at hc
    · exact Nat.le_of_eq (congrArg NodeId.index (List.mem_singleton.1 hc)).symm
    · cases hc

end Tree

end TypeUses
