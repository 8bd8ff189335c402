import TypeUses.Proofs.Resolution.Hygiene

/-!
# Resolution — which function a place belongs to

A place lies in the scope of a function from the function's first declarator on (`InFunction`), and
it belongs to the innermost such function (`BelongsTo`).  So some of the places below a node belong to
functions below it, and the others, which are loose there (`looseAt`, `looseIn`), belong to the
function around the node, if there is one.

* `mem_looseIn_iff`: a place is loose if it lies in no function below.
* `mem_loose_iff_belongsTo`: what is loose in the scope of a function belongs to the function.
* `looseIn_sublist`: the loose places come in the order of all places.
-/

namespace TypeUses.Resolution
open Concrete.Node (keptCount keptCounts)

/-! ### Functions around a place -/

/-- The place lies in the scope of the function at place `p`, which begins at the first declarator
among the function's kept children. -/
def Place.InFunction (q p : Place) : Prop :=
  p.node.kind = .functionDefinition ∧
    ∃ k, p.node.children.findIdx? beginsScope = some k ∧ q.LiesFrom p.path k

/-- The function at place `p` is the innermost in whose scope the place lies. -/
structure Place.BelongsTo (parse : Concrete.Parse) (q p : Place) : Prop where
  mem : p ∈ places parse
  inside : q.InFunction p
  innermost : ∀ p' ∈ places parse, q.InFunction p' → p'.path <+: p.path

theorem Place.InFunction.path {q p : Place} (h : q.InFunction p) :
    ∃ j rest, q.path = p.path ++ j :: rest := by
  obtain ⟨-, k, -, j, rest, -, hpath⟩ := h
  exact ⟨j, rest, hpath⟩

/-- Of two functions around a place one lies in the other, or they are the same. -/
theorem Place.InFunction.nested {p p' q : Place} (h : q.InFunction p) (h' : q.InFunction p') :
    p.path <+: p'.path ∨ p'.path <+: p.path := by
  obtain ⟨j, rest, hpath⟩ := h.path
  obtain ⟨j', rest', hpath'⟩ := h'.path
  exact List.prefix_or_prefix_of_prefix ⟨_, hpath.symm⟩ ⟨_, hpath'.symm⟩

/-- A place in the scope of a function belongs to a function. -/
theorem exists_belongsTo {parse : Concrete.Parse} {p q : Place} (hp : p ∈ places parse)
    (h : q.InFunction p) : ∃ p', q.BelongsTo parse p' := by
  by_cases hin : ∀ p' ∈ places parse, q.InFunction p' → p'.path <+: p.path
  · exact ⟨p, hp, h, hin⟩
  · push Not at hin
    obtain ⟨p', hp', h', hnot⟩ := hin
    have hlonger : p.path.length < p'.path.length := by
      have hbegins := (h.nested h').resolve_right hnot
      exact Nat.lt_of_le_of_ne hbegins.length_le fun he =>
        hnot (hbegins.eq_of_length he ▸ List.prefix_rfl)
    have hbound : p'.path.length < q.path.length := by
      obtain ⟨j, rest, hpath⟩ := h'.path
      rw [hpath, List.length_append, List.length_cons]
      omega
    exact exists_belongsTo hp' h'
termination_by q.path.length - p.path.length

/-! ### Loose places -/

mutual

/-- The places at and below a node that lie in no function at or below it. -/
def looseAt (path : List Nat) (outer : Concrete.Node) (parent : NodeId) (next : Nat) :
    Concrete.Node → List Place
  | .node i cs =>
    ⟨.node i cs, outer, parent, ⟨next⟩, path⟩ ::
      looseIn (i.kind == .functionDefinition) path (.node i cs) ⟨next⟩ (next + 1) 0 cs

/-- The places at and below children of a node that lie in no function below the node, and if the
node is itself a function, not in its scope. -/
def looseIn (isFunction : Bool) (path : List Nat) (node : Concrete.Node) (id : NodeId)
    (next k : Nat) : List Concrete.Node → List Place
  | [] => []
  | c :: cs =>
    if isFunction && beginsScope c then []
    else if c.item.isKept then
      looseAt (path ++ [k]) node id next c ++
        looseIn isFunction path node id (next + c.keptCount) (k + 1) cs
    else looseIn isFunction path node id next (k + 1) cs

end

theorem looseIn_append {path : List Nat} {node : Concrete.Node} {id : NodeId} {next k : Nat}
    (cs ds : List Concrete.Node) :
    looseIn false path node id next k (cs ++ ds) = looseIn false path node id next k cs ++
      looseIn false path node id (next + keptCounts cs) (k + cs.length) ds := by
  induction cs generalizing next k with
  | nil => simp [looseIn, keptCounts]
  | cons c cs ih =>
      rw [List.cons_append, looseIn, looseIn, keptCounts, List.length_cons]
      simp only [Bool.false_and, if_neg Bool.false_ne_true]
      split
      · rw [ih, List.append_assoc, Nat.add_assoc next, Nat.add_assoc k, Nat.add_comm 1]
      · rw [ih, Nat.zero_add, Nat.add_assoc k, Nat.add_comm 1]

/-- What is loose in a function lies in front of its scope. -/
theorem looseIn_function {path : List Nat} {node : Concrete.Node} {id : NodeId} {next k : Nat}
    (cs : List Concrete.Node) :
    looseIn true path node id next k cs =
      looseIn false path node id next k (cs.takeWhile fun c => !beginsScope c) := by
  induction cs generalizing next k with
  | nil => rfl
  | cons c cs ih =>
      rw [looseIn]
      by_cases hb : beginsScope c = true
      · simp [hb, looseIn]
      · have hb : beginsScope c = false := Bool.eq_false_iff.2 hb
        simp [hb, looseIn, ih]

mutual

theorem looseAt_sublist {path : List Nat} {outer : Concrete.Node} {parent : NodeId} {next : Nat} :
    ∀ n : Concrete.Node,
      (looseAt path outer parent next n).Sublist (placesAt path outer parent next n)
  | .node i cs => by
      rw [looseAt, placesAt]
      exact (looseIn_sublist _ cs).cons_cons _

/-- The loose places are some of all places, in the same order. -/
theorem looseIn_sublist (isFunction : Bool) {path : List Nat} {node : Concrete.Node} {id : NodeId}
    {next k : Nat} : ∀ cs : List Concrete.Node,
      (looseIn isFunction path node id next k cs).Sublist (placesIn path node id next k cs)
  | [] => List.nil_sublist _
  | c :: cs => by
      rw [looseIn, placesIn]
      split
      · exact List.nil_sublist _
      · split
        · exact (looseAt_sublist c).append (looseIn_sublist isFunction cs)
        · exact looseIn_sublist isFunction cs

end

/-! ### Loose places lie in no function -/

/-- The place lies below child number `k` of the node at the path, or is that child. -/
theorem path_of_mem_placesAt {path : List Nat} {outer : Concrete.Node} {parent : NodeId}
    {next k : Nat} {n : Concrete.Node} {q : Place}
    (h : q ∈ placesAt (path ++ [k]) outer parent next n) : ∃ rest, q.path = path ++ k :: rest := by
  obtain ⟨rest, hpath, -⟩ := at?_of_mem_placesAt n h
  exact ⟨rest, by rw [hpath, List.append_assoc]; rfl⟩

/-- The places of some children lie at or behind the first of them. -/
theorem liesFrom_of_mem_placesIn {path : List Nat} {node : Concrete.Node} {id : NodeId}
    {next k : Nat} {cs : List Concrete.Node} {q : Place}
    (h : q ∈ placesIn path node id next k cs) : q.LiesFrom path k := by
  obtain ⟨j, rest, -, -, hpath, -⟩ := at?_of_mem_placesIn cs h
  exact ⟨k + j, rest, Nat.le_add_right k j, hpath⟩

/-- A place lies in functions below the same child only. -/
theorem child_eq_of_inFunction {p q : Place} {path rest rest' : List Nat} {i j : Nat}
    (h : q.InFunction p) (hp : p.path = path ++ i :: rest) (hq : q.path = path ++ j :: rest') :
    i = j := by
  obtain ⟨k, below, hpath⟩ := h.path
  rw [hp, hq, List.append_assoc, List.append_cancel_left_eq] at hpath
  exact (List.cons.inj hpath).1.symm

/-- Where the children are those of a function, its scope begins at the first declarator. -/
def InScopeFrom (isFunction : Bool) (q : Place) (path : List Nat) (k : Nat)
    (cs : List Concrete.Node) : Prop :=
  isFunction = true ∧ ∃ j, cs.findIdx? beginsScope = some j ∧ q.LiesFrom path (k + j)

theorem inScopeFrom_cons {isFunction : Bool} {q : Place} {path : List Nat} {k : Nat}
    {c : Concrete.Node} {cs : List Concrete.Node} (hc : ¬(isFunction && beginsScope c) = true) :
    InScopeFrom isFunction q path k (c :: cs) ↔ InScopeFrom isFunction q path (k + 1) cs := by
  cases isFunction with
  | false => simp [InScopeFrom]
  | true =>
      have hb : beginsScope c = false := by simpa using hc
      simp only [InScopeFrom, List.findIdx?_cons, hb, true_and, Bool.false_eq_true, if_false,
        Option.map_eq_some_iff]
      constructor
      · rintro ⟨_, ⟨j, hj, rfl⟩, hlies⟩
        exact ⟨j, hj, by rwa [Nat.add_assoc, Nat.add_comm 1]⟩
      · rintro ⟨j, hj, hlies⟩
        exact ⟨j + 1, ⟨j, hj, rfl⟩, by rwa [Nat.add_assoc, Nat.add_comm 1] at hlies⟩

mutual

/-- A place is loose at and below a node if it lies in no function there. -/
theorem mem_looseAt_iff {path : List Nat} {outer : Concrete.Node} {parent : NodeId} {next : Nat}
    {q : Place} : ∀ n : Concrete.Node,
      q ∈ looseAt path outer parent next n ↔ q ∈ placesAt path outer parent next n ∧
        ∀ p ∈ placesAt path outer parent next n, ¬q.InFunction p
  | .node i cs => by
      have here : q.InFunction ⟨.node i cs, outer, parent, ⟨next⟩, path⟩ ↔
          InScopeFrom (i.kind == .functionDefinition) q path 0 cs := by
        simp only [Place.InFunction, InScopeFrom, beq_iff_eq, Nat.zero_add]
        rfl
      have hbelow : q ∈ looseIn (i.kind == .functionDefinition) path (.node i cs) ⟨next⟩ (next + 1)
          0 cs ↔ _ := mem_looseIn_iff _ cs
      rw [looseAt, placesAt, List.mem_cons, List.mem_cons, List.forall_mem_cons, hbelow, here]
      constructor
      · rintro (rfl | ⟨hmem, hno, hscope⟩)
        · -- the node itself lies in no function below it
          have hself : ∀ p ∈ placesIn path (.node i cs) ⟨next⟩ (next + 1) 0 cs,
              ¬(⟨.node i cs, outer, parent, ⟨next⟩, path⟩ : Place).InFunction p := by
            intro p hp hin
            obtain ⟨j, rest, -, hpath⟩ := liesFrom_of_mem_placesIn hp
            obtain ⟨j', rest', hpath'⟩ := hin.path
            have hlen := congrArg List.length hpath'
            rw [hpath] at hlen
            simp at hlen
          refine ⟨.inl rfl, ?_, hself⟩
          rintro ⟨-, j, -, hlies⟩
          obtain ⟨j', rest, -, hpath⟩ := hlies
          have hlen := congrArg List.length hpath
          simp at hlen
        · exact ⟨.inr hmem, hscope, hno⟩
      · rintro ⟨rfl | hmem, hscope, hno⟩
        · exact .inl rfl
        · exact .inr ⟨hmem, hno, hscope⟩

/-- **A place is loose if it lies in no function below.** -/
theorem mem_looseIn_iff {q : Place} {path : List Nat} {node : Concrete.Node} {id : NodeId}
    {next k : Nat} (isFunction : Bool) : ∀ cs : List Concrete.Node,
      q ∈ looseIn isFunction path node id next k cs ↔ q ∈ placesIn path node id next k cs ∧
        (∀ p ∈ placesIn path node id next k cs, ¬q.InFunction p) ∧
          ¬InScopeFrom isFunction q path k cs
  | [] => by simp [looseIn, placesIn]
  | c :: cs => by
      rw [looseIn]
      by_cases hb : (isFunction && beginsScope c) = true
      · -- the scope begins here, and all that follows lies in it
        obtain ⟨hfun, hbegins⟩ := Bool.and_eq_true_iff.1 hb
        rw [if_pos hb]
        refine ⟨fun h => (List.not_mem_nil h).elim, fun ⟨hmem, _, hscope⟩ => ?_⟩
        refine absurd ⟨hfun, 0, ?_, liesFrom_of_mem_placesIn hmem⟩ hscope
        rw [List.findIdx?_cons, hbegins]
        rfl
      · rw [if_neg hb, placesIn, inScopeFrom_cons hb]
        split
        · have later : q ∈ looseIn isFunction path node id (next + c.keptCount) (k + 1) cs ↔ _ :=
            mem_looseIn_iff isFunction cs
          rw [List.mem_append, List.mem_append, List.forall_mem_append, mem_looseAt_iff c, later]
          constructor
          · rintro (⟨hmem, hno⟩ | ⟨hmem, hno, hscope⟩)
            · obtain ⟨rest, hq⟩ := path_of_mem_placesAt hmem
              refine ⟨.inl hmem, ⟨hno, fun p hp hin => ?_⟩, ?_⟩
              · obtain ⟨j, rest', hle, hpath⟩ := liesFrom_of_mem_placesIn hp
                have := child_eq_of_inFunction hin hpath hq
                omega
              · rintro ⟨-, j, -, i, rest', hle, hpath⟩
                rw [hq, List.append_cancel_left_eq] at hpath
                have := (List.cons.inj hpath).1
                omega
            · refine ⟨.inr hmem, ⟨fun p hp hin => ?_, hno⟩, hscope⟩
              obtain ⟨rest, hpath⟩ := path_of_mem_placesAt hp
              obtain ⟨j, rest', hle, hq⟩ := liesFrom_of_mem_placesIn hmem
              have := child_eq_of_inFunction hin hpath hq
              omega
          · rintro ⟨hmem | hmem, ⟨hno, hno'⟩, hscope⟩
            · exact .inl ⟨hmem, hno⟩
            · exact .inr ⟨hmem, hno', hscope⟩
        · exact mem_looseIn_iff isFunction cs

end

/-! ### Loose places of a function -/

section Function
variable {parse : Concrete.Parse} {p q : Place} {k : Nat}

/-- The loose places in the scope of a function, which begins at child number `k`. -/
def Place.loose (p : Place) (k : Nat) : List Place :=
  looseIn false p.path p.node p.id (p.id.index + 1 + keptCounts (p.node.children.take k)) k
    (p.node.children.drop k)

/-- What lies in a place from one of its children on is made from these children. -/
theorem mem_placesIn_of_liesFrom (hp : p ∈ places parse) (hq : q ∈ places parse)
    (hk : k ≤ p.node.children.length) (h : q.LiesFrom p.path k) :
    q ∈ placesIn p.path p.node p.id (p.id.index + 1 + keptCounts (p.node.children.take k)) k
      (p.node.children.drop k) := by
  obtain ⟨hlow, hhigh⟩ := id_bounds_of_liesFrom (mem_below_of_liesFrom hp hq h) h
  have hmem := mem_placesIn_of_id_bounds hp hq (List.take_append_drop k _).symm hlow hhigh
  rwa [List.length_take, Nat.min_eq_left hk] at hmem

/-- **What is loose in the scope of a function belongs to the function.** -/
theorem mem_loose_iff_belongsTo (hp : p ∈ places parse)
    (hkind : p.node.kind = .functionDefinition)
    (hk : p.node.children.findIdx? beginsScope = some k) :
    q ∈ p.loose k ↔ q ∈ places parse ∧ q.BelongsTo parse p := by
  obtain ⟨hlt, -⟩ := List.findIdx?_eq_some_iff_getElem.1 hk
  have of_placesIn : ∀ {x}, x ∈ placesIn p.path p.node p.id
      (p.id.index + 1 + keptCounts (p.node.children.take k)) k (p.node.children.drop k) →
        x ∈ places parse := by
    intro x hx
    have hbelow : x ∈ p.below := by
      rw [Place.below, ← List.take_append_drop k p.node.children, placesIn_append, Nat.zero_add,
        List.length_take, Nat.min_eq_left (Nat.le_of_lt hlt)]
      exact List.mem_append_right _ hx
    exact below_placesIn hbelow parse.root.children hp
  have hnot : ¬InScopeFrom false q p.path k (p.node.children.drop k) := fun h => Bool.false_ne_true h.1
  rw [Place.loose, mem_looseIn_iff, and_iff_left hnot]
  constructor
  · rintro ⟨hmem, hno⟩
    have hlies := liesFrom_of_mem_placesIn hmem
    refine ⟨of_placesIn hmem, hp, ⟨hkind, k, hk, hlies⟩, fun p' hp' hin => ?_⟩
    obtain ⟨j, rest, hle, hq⟩ := hlies
    rcases hin.nested ⟨hkind, k, hk, j, rest, hle, hq⟩ with h | ⟨below, hbelow⟩
    · exact h
    · cases below with
      | nil => exact ⟨[], by rw [← hbelow, List.append_nil, List.append_nil]⟩
      | cons i below =>
          -- the other function lies in the scope of this one
          have hi : j = i := by
            obtain ⟨j', rest', hq'⟩ := hin.path
            rw [hq, ← hbelow, List.append_assoc, List.append_cancel_left_eq] at hq'
            exact (List.cons.inj hq').1
          exact absurd hin (hno p' (mem_placesIn_of_liesFrom hp hp' (Nat.le_of_lt hlt)
            ⟨i, below, hi ▸ hle, hbelow.symm⟩))
  · rintro ⟨hq, hbelongs⟩
    obtain ⟨-, k', hk', hlies⟩ := hbelongs.inside
    obtain rfl := Option.some.inj (hk.symm.trans hk')
    refine ⟨mem_placesIn_of_liesFrom hp hq (Nat.le_of_lt hlt) hlies, fun p' hp' hin => ?_⟩
    obtain ⟨j, rest, -, hpath⟩ := liesFrom_of_mem_placesIn hp'
    have hlen := (hbelongs.innermost p' (of_placesIn hp') hin).length_le
    rw [hpath, List.length_append, List.length_cons] at hlen
    omega

/-- The loose places of a parse belong to no function. -/
theorem mem_loose_root_iff : q ∈ looseIn false [] parse.root Tree.rootId 1 0 parse.root.children ↔
    q ∈ places parse ∧ ∀ p, ¬q.BelongsTo parse p := by
  have hnot : ¬InScopeFrom false q [] 0 parse.root.children := fun h => Bool.false_ne_true h.1
  rw [mem_looseIn_iff, and_iff_left hnot]
  refine and_congr_right fun _ => ⟨fun hno p h => hno p h.mem h.inside, fun hno p hp h => ?_⟩
  obtain ⟨p', h'⟩ := exists_belongsTo hp h
  exact hno p' h'

end Function

end TypeUses.Resolution
