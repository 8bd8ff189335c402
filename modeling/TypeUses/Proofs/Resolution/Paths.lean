import Mathlib.Data.List.Nodup
import TypeUses.Proofs.Resolution.Places

/-!
# Resolution — the places below a node of a parse

The path of a place leads from the root to its node (`at?_of_mem_places`), and a place lies below
another node if the node's path is the beginning of its own.  The places below a place are made
from its children (`below`); each node around a place is a place, the root apart
(`exists_place_above`).

Numbers tell the same as paths: the places below a place, in its children from some child on, are
those whose numbers lie in an interval (`id_bounds_of_liesFrom`, `liesFrom_of_id_bounds`).
-/

namespace TypeUses.Resolution
open Concrete.Node (keptCount keptCounts)

/-- The place lies below the node at a path, in one of its children from child number `k` on. -/
def Place.LiesFrom (q : Place) (path : List Nat) (k : Nat) : Prop :=
  ∃ j rest, k ≤ j ∧ q.path = path ++ j :: rest

/-- The places that are made from a place's children. -/
def Place.below (p : Place) : List Place :=
  placesIn p.path p.node p.id (p.id.index + 1) 0 p.node.children

/-! ### Paths lead to nodes -/

mutual

/-- The path of a place at or below a node leads to the node of the place. -/
theorem at?_of_mem_placesAt {path : List Nat} {outer : Concrete.Node} {parent : NodeId}
    {next : Nat} {q : Place} : ∀ n : Concrete.Node, q ∈ placesAt path outer parent next n →
      ∃ rest, q.path = path ++ rest ∧ n.at? rest = some q.node
  | .node i cs, h => by
      rw [placesAt] at h
      rcases List.mem_cons.1 h with rfl | h
      · exact ⟨[], (List.append_nil _).symm, rfl⟩
      · obtain ⟨j, rest, c, hc, hp, ha⟩ := at?_of_mem_placesIn cs h
        rw [Nat.zero_add] at hp
        exact ⟨j :: rest, hp, Option.bind_eq_some_iff.2 ⟨c, hc, ha⟩⟩

theorem at?_of_mem_placesIn {path : List Nat} {node : Concrete.Node} {id : NodeId} {next k : Nat}
    {q : Place} : ∀ cs : List Concrete.Node, q ∈ placesIn path node id next k cs →
      ∃ (j : Nat) (rest : List Nat) (c : Concrete.Node), cs[j]? = some c ∧
        q.path = path ++ (k + j) :: rest ∧ c.at? rest = some q.node
  | [], h => by simp [placesIn] at h
  | c :: cs, h => by
      have later : ∀ {next'}, q ∈ placesIn path node id next' (k + 1) cs →
          ∃ (j : Nat) (rest : List Nat) (d : Concrete.Node), (c :: cs)[j]? = some d ∧
            q.path = path ++ (k + j) :: rest ∧ d.at? rest = some q.node := by
        intro next' h
        obtain ⟨j, rest, d, hd, hp, ha⟩ := at?_of_mem_placesIn cs h
        exact ⟨j + 1, rest, d, hd, by rw [hp, Nat.add_assoc, Nat.add_comm 1], ha⟩
      rw [placesIn] at h
      split at h
      · rcases List.mem_append.1 h with h | h
        · obtain ⟨rest, hp, ha⟩ := at?_of_mem_placesAt c h
          exact ⟨0, rest, c, rfl, by rw [hp, List.append_assoc]; rfl, ha⟩
        · exact later h
      · exact later h

end

/-- The path of a place leads to its node, which is not the root. -/
theorem at?_of_mem_places {parse : Concrete.Parse} {q : Place} (h : q ∈ places parse) :
    q.path ≠ [] ∧ parse.root.at? q.path = some q.node := by
  obtain ⟨⟨i, cs⟩, hasError⟩ := parse
  obtain ⟨j, rest, c, hc, hp, ha⟩ := at?_of_mem_placesIn cs h
  rw [List.nil_append, Nat.zero_add] at hp
  rw [hp]
  exact ⟨List.cons_ne_nil _ _, Option.bind_eq_some_iff.2 ⟨c, hc, ha⟩⟩

/-! ### The places of one child -/

/-- A place below a node is a place of one of the node's kept children. -/
theorem child_of_mem_placesIn {path : List Nat} {node : Concrete.Node} {id : NodeId} {next k : Nat}
    {q : Place} {cs : List Concrete.Node} (h : q ∈ placesIn path node id next k cs) :
    ∃ pre c post, cs = pre ++ c :: post ∧ c.item.isKept = true ∧
      q ∈ placesAt (path ++ [k + pre.length]) node id (next + keptCounts pre) c := by
  induction cs generalizing next k with
  | nil => simp [placesIn] at h
  | cons c cs ih =>
      rw [placesIn] at h
      split at h <;> rename_i hk
      · rcases List.mem_append.1 h with h | h
        · exact ⟨[], c, cs, rfl, hk, h⟩
        · obtain ⟨pre, d, post, rfl, hd, hq⟩ := ih h
          refine ⟨c :: pre, d, post, rfl, hd, ?_⟩
          rwa [keptCounts, if_pos hk, List.length_cons, ← Nat.add_assoc next, ← Nat.add_assoc k,
            Nat.add_right_comm k]
      · obtain ⟨pre, d, post, rfl, hd, hq⟩ := ih h
        refine ⟨c :: pre, d, post, rfl, hd, ?_⟩
        rwa [keptCounts, if_neg hk, List.length_cons, Nat.zero_add, ← Nat.add_assoc k,
          Nat.add_right_comm k]

/-- The places below some children and then others have their numbers one behind the other. -/
theorem placesIn_append {path : List Nat} {node : Concrete.Node} {id : NodeId} {next k : Nat}
    (cs ds : List Concrete.Node) :
    placesIn path node id next k (cs ++ ds) = placesIn path node id next k cs ++
      placesIn path node id (next + keptCounts cs) (k + cs.length) ds := by
  induction cs generalizing next k with
  | nil => rfl
  | cons c cs ih =>
      rw [List.cons_append, placesIn, placesIn, keptCounts, List.length_cons]
      split
      · rw [ih, List.append_assoc, Nat.add_assoc next, Nat.add_assoc k, Nat.add_comm 1]
      · rw [ih, Nat.zero_add, Nat.add_assoc k, Nat.add_comm 1]

/-! ### Places above and below -/

mutual

/-- On the way to a place at or below a node there is a place at every step. -/
theorem exists_above_placesAt {path : List Nat} {outer : Concrete.Node} {parent : NodeId}
    {next : Nat} {q : Place} {mid rest : List Nat} {j : Nat}
    (hpath : q.path = path ++ (mid ++ j :: rest)) : ∀ n : Concrete.Node,
      q ∈ placesAt path outer parent next n →
        ∃ p ∈ placesAt path outer parent next n, p.path = path ++ mid ∧ q ∈ p.below
  | .node i cs, h => by
      rw [placesAt] at h ⊢
      have hne : q ≠ ⟨.node i cs, outer, parent, ⟨next⟩, path⟩ := by
        intro e
        rw [e] at hpath
        have hlen := congrArg List.length hpath
        simp at hlen
      have h := (List.mem_cons.1 h).resolve_left hne
      cases mid with
      | nil => exact ⟨_, List.mem_cons_self, (List.append_nil _).symm, h⟩
      | cons m mid =>
          obtain ⟨p, hp, he, hq⟩ := exists_above_placesIn hpath cs h
          exact ⟨p, List.mem_cons_of_mem _ hp, he, hq⟩

theorem exists_above_placesIn {path : List Nat} {node : Concrete.Node} {id : NodeId}
    {next k : Nat} {q : Place} {mid rest : List Nat} {m j : Nat}
    (hpath : q.path = path ++ (m :: mid ++ j :: rest)) : ∀ cs : List Concrete.Node,
      q ∈ placesIn path node id next k cs →
        ∃ p ∈ placesIn path node id next k cs, p.path = path ++ m :: mid ∧ q ∈ p.below
  | [], h => by simp [placesIn] at h
  | c :: cs, h => by
      rw [placesIn] at h ⊢
      split at h <;> rename_i hk
      · rw [if_pos hk]
        rcases List.mem_append.1 h with h | h
        · obtain ⟨rest', hp, -⟩ := at?_of_mem_placesAt c h
          rw [hpath, List.append_assoc, List.append_cancel_left_eq] at hp
          obtain ⟨rfl, hp⟩ := List.cons.inj hp
          have hpath' : q.path = (path ++ [m]) ++ (mid ++ j :: rest) := by
            rw [hpath, List.append_assoc]
            rfl
          obtain ⟨p, hp, he, hq⟩ := exists_above_placesAt hpath' c h
          exact ⟨p, List.mem_append_left _ hp, by rw [he, List.append_assoc]; rfl, hq⟩
        · obtain ⟨p, hp, he, hq⟩ := exists_above_placesIn hpath cs h
          exact ⟨p, List.mem_append_right _ hp, he, hq⟩
      · rw [if_neg hk]
        exact exists_above_placesIn hpath cs h

end

/-- A node around a place is the root or a place itself. -/
theorem exists_place_above {parse : Concrete.Parse} {q : Place} (hq : q ∈ places parse)
    {path : List Nat} {b : Concrete.Node} (hne : path ≠ []) (hb : parse.root.at? path = some b)
    {k : Nat} (h : q.LiesFrom path k) :
    ∃ p ∈ places parse, p.path = path ∧ p.node = b ∧ q ∈ p.below := by
  obtain ⟨j, rest, -, hpath⟩ := h
  cases path with
  | nil => exact absurd rfl hne
  | cons m mid =>
      have hpath : q.path = [] ++ (m :: mid ++ j :: rest) := hpath
      obtain ⟨p, hp, he, hbelow⟩ := exists_above_placesIn hpath parse.root.children hq
      have hnode := (at?_of_mem_places hp).2
      rw [he, List.nil_append] at hnode
      exact ⟨p, hp, he, Option.some.inj (hnode.symm.trans hb), hbelow⟩

mutual

/-- What lies below a place at or below a node does so too. -/
theorem below_placesAt {path : List Nat} {outer : Concrete.Node} {parent : NodeId} {next : Nat}
    {p q : Place} (hq : q ∈ p.below) : ∀ n : Concrete.Node,
      p ∈ placesAt path outer parent next n → q ∈ placesAt path outer parent next n
  | .node i cs, h => by
      rw [placesAt] at h ⊢
      rcases List.mem_cons.1 h with rfl | h
      · exact List.mem_cons_of_mem _ hq
      · exact List.mem_cons_of_mem _ (below_placesIn hq cs h)

theorem below_placesIn {path : List Nat} {node : Concrete.Node} {id : NodeId} {next k : Nat}
    {p q : Place} (hq : q ∈ p.below) : ∀ cs : List Concrete.Node,
      p ∈ placesIn path node id next k cs → q ∈ placesIn path node id next k cs
  | [], h => by simp [placesIn] at h
  | c :: cs, h => by
      rw [placesIn] at h ⊢
      split at h <;> rename_i hk
      · rw [if_pos hk]
        rcases List.mem_append.1 h with h | h
        · exact List.mem_append_left _ (below_placesAt hq c h)
        · exact List.mem_append_right _ (below_placesIn hq cs h)
      · rw [if_neg hk]
        exact below_placesIn hq cs h

end

/-! ### Numbers -/

/-- Places with the same number are the same. -/
theorem eq_of_id_eq {parse : Concrete.Parse} {p q : Place} (hp : p ∈ places parse)
    (hq : q ∈ places parse) (h : p.id = q.id) : p = q := by
  have hnodup : ((places parse).map (·.id.index)).Nodup := by
    rw [map_id_places]
    exact List.nodup_range'
  exact List.inj_on_of_nodup_map hnodup hp hq (congrArg NodeId.index h)

theorem keptCounts_take_le (cs : List Concrete.Node) {k k' : Nat} (h : k ≤ k') :
    keptCounts (cs.take k) ≤ keptCounts (cs.take k') := by
  obtain ⟨i, rfl⟩ := Nat.exists_eq_add_of_le h
  rw [List.take_add, Concrete.Node.keptCounts_append]
  exact Nat.le_add_right _ _

/-- The numbers of the places below a place, from one of its children on. -/
theorem id_bounds_of_liesFrom {p q : Place} (hq : q ∈ p.below) {k : Nat}
    (h : q.LiesFrom p.path k) :
    p.id.index + 1 + keptCounts (p.node.children.take k) ≤ q.id.index ∧
      q.id.index < p.id.index + p.node.keptCount := by
  obtain ⟨pre, c, post, hcs, -, hin⟩ := child_of_mem_placesIn hq
  obtain ⟨j, rest, hkj, hpath⟩ := h
  obtain ⟨rest', hpath', -⟩ := at?_of_mem_placesAt c hin
  rw [hpath, List.append_assoc, List.append_cancel_left_eq] at hpath'
  have hj : j = pre.length := by
    rw [(List.cons.inj hpath').1, Nat.zero_add]
  have htake : p.node.children.take pre.length = pre := by rw [hcs]; exact List.take_left
  have hle := keptCounts_take_le p.node.children (hj ▸ hkj)
  rw [htake] at hle
  have hlow := (id_bounds_of_mem_placesAt hin).1
  have hhigh := (id_bounds_of_mem_placesIn hq).2
  have hcount := p.node.keptCount_eq
  omega

/-- A place with such a number lies below the place, from the child on. -/
theorem liesFrom_of_id_bounds {parse : Concrete.Parse} {p q : Place} (hp : p ∈ places parse)
    (hq : q ∈ places parse) {k : Nat}
    (hlow : p.id.index + 1 + keptCounts (p.node.children.take k) ≤ q.id.index)
    (hhigh : q.id.index < p.id.index + p.node.keptCount) : q.LiesFrom p.path k := by
  have hcount := p.node.keptCount_eq
  have hmem : q.id.index ∈ p.below.map (·.id.index) := by
    rw [Place.below, map_id_placesIn, List.mem_range'_1]
    omega
  obtain ⟨q', hq', hid⟩ := List.mem_map.1 hmem
  obtain rfl := eq_of_id_eq (below_placesIn hq' parse.root.children hp) hq (NodeId.ext hid)
  obtain ⟨pre, c, post, hcs, hkept, hin⟩ := child_of_mem_placesIn hq'
  obtain ⟨rest, hpath, -⟩ := at?_of_mem_placesAt c hin
  refine ⟨pre.length, rest, Nat.le_of_not_lt fun hlt => ?_, ?_⟩
  · have hbound := (id_bounds_of_mem_placesAt hin).2
    have htake : p.node.children.take (pre.length + 1) = pre ++ [c] := by
      rw [hcs, List.take_append, List.take_of_length_le (Nat.le_succ _)]
      simp
    have hle := keptCounts_take_le p.node.children hlt
    rw [htake, Concrete.Node.keptCounts_append, keptCounts, if_pos hkept, keptCounts] at hle
    omega
  · rw [hpath, List.append_assoc, Nat.zero_add]
    rfl

/-- A place with such a number is one of those of the children behind some in front. -/
theorem mem_placesIn_of_id_bounds {parse : Concrete.Parse} {p q : Place} (hp : p ∈ places parse)
    (hq : q ∈ places parse) {front inside : List Concrete.Node}
    (hcs : p.node.children = front ++ inside)
    (hlow : p.id.index + 1 + keptCounts front ≤ q.id.index)
    (hhigh : q.id.index < p.id.index + p.node.keptCount) :
    q ∈ placesIn p.path p.node p.id (p.id.index + 1 + keptCounts front) front.length inside := by
  have hcount := p.node.keptCount_eq
  rw [hcs, Concrete.Node.keptCounts_append] at hcount
  have hmem : q.id.index ∈ (placesIn p.path p.node p.id (p.id.index + 1 + keptCounts front)
      front.length inside).map (·.id.index) := by
    rw [map_id_placesIn, List.mem_range'_1]
    omega
  obtain ⟨q', hq', hid⟩ := List.mem_map.1 hmem
  have hbelow : q' ∈ p.below := by
    rw [Place.below, hcs, placesIn_append, Nat.zero_add]
    exact List.mem_append_right _ hq'
  rwa [← eq_of_id_eq (below_placesIn hbelow parse.root.children hp) hq (NodeId.ext hid)]

end TypeUses.Resolution
