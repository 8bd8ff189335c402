import Mathlib.Data.List.Lex
import TypeUses.Proofs.Resolution.Paths

/-!
# Resolution — parents among the places of a parse

The places of a parse and its root as one more place form a tree: a place `q` is child number `k` of
a place `p` if its node is that child of the node of `p`, and then the rest of it is what `p` tells
(`Place.IsChild`).

* `exists_parent`, `exists_child`: every place is a child of a place, and every kept child of the
  node of a place is a place; so what holds of the root and is handed down to children holds of
  every place (`places_induction`).
* `pairwise_path_allPlaces`: the paths of the places are in lexicographic order, in which a node
  comes before what is below it and that before the node's later siblings.
-/

namespace TypeUses.Resolution
open Concrete.Node (keptCount keptCounts)

/-! ### The root as a place -/

/-- The root, taken as a place; it stands below no node but is given itself as one. -/
def rootPlace (parse : Concrete.Parse) : Place :=
  ⟨parse.root, parse.root, Tree.rootId, Tree.rootId, []⟩

/-- The places of a parse, and the root in front of them. -/
def allPlaces (parse : Concrete.Parse) : List Place := rootPlace parse :: places parse

theorem allPlaces_eq (parse : Concrete.Parse) :
    allPlaces parse = placesAt [] parse.root Tree.rootId 0 parse.root := by
  obtain ⟨⟨i, cs⟩, hasError⟩ := parse
  rw [placesAt]
  rfl

theorem mem_allPlaces {parse : Concrete.Parse} {p : Place} (h : p ∈ places parse) :
    p ∈ allPlaces parse :=
  List.mem_cons_of_mem _ h

theorem map_id_allPlaces (parse : Concrete.Parse) :
    (allPlaces parse).map (·.id.index) = List.range' 0 (allPlaces parse).length := by
  rw [allPlaces_eq, map_id_placesAt, length_placesAt]

/-! ### Parents and children -/

/-- Place `q` is that of child number `k` of the node of place `p`. -/
structure Place.IsChild (p : Place) (k : Nat) (q : Place) : Prop where
  node : p.node.children[k]? = some q.node
  kept : q.node.item.isKept = true
  outer : q.outer = p.node
  parent : q.parent = p.id
  id : q.id.index = p.id.index + 1 + keptCounts (p.node.children.take k)
  path : q.path = p.path ++ [k]

/-- The place of a kept child is among the places below. -/
theorem child_mem_placesIn {path : List Nat} {node : Concrete.Node} {id : NodeId} {next k j : Nat}
    {c : Concrete.Node} {cs : List Concrete.Node} (hc : cs[j]? = some c)
    (hk : c.item.isKept = true) :
    ⟨c, node, id, ⟨next + keptCounts (cs.take j)⟩, path ++ [k + j]⟩ ∈
      placesIn path node id next k cs := by
  induction cs generalizing next k j with
  | nil => simp at hc
  | cons d cs ih =>
      rw [placesIn]
      cases j with
      | zero =>
          cases Option.some.inj hc
          rw [if_pos hk]
          obtain ⟨i, ds⟩ := c
          rw [placesAt]
          exact List.mem_append_left _ List.mem_cons_self
      | succ j =>
          have hc : cs[j]? = some c := hc
          rw [List.take_succ_cons, keptCounts, Nat.add_comm j 1, ← Nat.add_assoc k]
          split
          · rw [← Nat.add_assoc next]
            exact List.mem_append_right _ (ih hc)
          · rw [Nat.zero_add]
            exact ih hc

/-- A place below a node whose path is longer by one is the place of a kept child. -/
theorem eq_child_of_mem_placesIn {path : List Nat} {node : Concrete.Node} {id : NodeId}
    {next m : Nat} {q : Place} {cs : List Concrete.Node} (h : q ∈ placesIn path node id next 0 cs)
    (hpath : q.path = path ++ [m]) :
    ∃ c, cs[m]? = some c ∧ c.item.isKept = true ∧
      q = ⟨c, node, id, ⟨next + keptCounts (cs.take m)⟩, path ++ [m]⟩ := by
  obtain ⟨pre, c, post, rfl, hk, hq⟩ := child_of_mem_placesIn h
  rw [Nat.zero_add] at hq
  obtain ⟨i, ds⟩ := c
  rw [placesAt] at hq
  rcases List.mem_cons.1 hq with rfl | hq
  · obtain rfl : pre.length = m := by simpa using hpath
    exact ⟨_, by simp, hk, by rw [List.take_left]⟩
  · -- what is below the child has a longer path
    obtain ⟨j, rest, -, -, hlong, -⟩ := at?_of_mem_placesIn ds hq
    have hlen := congrArg List.length (hpath.symm.trans hlong)
    simp at hlen

/-- A place below another is its child if its path is one step longer. -/
theorem isChild_of_mem_below {p q : Place} {k : Nat} (h : q ∈ p.below)
    (hpath : q.path = p.path ++ [k]) : p.IsChild k q := by
  obtain ⟨c, hc, hk, rfl⟩ := eq_child_of_mem_placesIn h hpath
  exact ⟨hc, hk, rfl, rfl, rfl, rfl⟩

/-- **Every place is a child of a place.** -/
theorem exists_parent {parse : Concrete.Parse} {q : Place} (hq : q ∈ places parse) :
    ∃ p ∈ allPlaces parse, ∃ k, p.IsChild k q := by
  obtain ⟨hne, hat⟩ := at?_of_mem_places hq
  obtain ⟨front, k, hpath⟩ : ∃ front k, q.path = front ++ [k] :=
    ⟨_, _, (List.dropLast_append_getLast hne).symm⟩
  cases front with
  | nil => exact ⟨rootPlace parse, List.mem_cons_self, k, isChild_of_mem_below hq hpath⟩
  | cons m mid =>
      have hlong : q.path = [] ++ (m :: mid ++ k :: []) := hpath
      obtain ⟨p, hp, he, hbelow⟩ := exists_above_placesIn hlong parse.root.children hq
      refine ⟨p, mem_allPlaces hp, k, isChild_of_mem_below hbelow ?_⟩
      rw [hpath, he]
      rfl

/-- **Every kept child is a place.** -/
theorem exists_child {parse : Concrete.Parse} {p : Place} (hp : p ∈ allPlaces parse) {k : Nat}
    {c : Concrete.Node} (hc : p.node.children[k]? = some c) (hk : c.item.isKept = true) :
    ∃ q ∈ places parse, q.node = c ∧ p.IsChild k q := by
  have hmem : _ ∈ p.below := child_mem_placesIn hc hk
  refine ⟨⟨c, p.node, p.id, ⟨p.id.index + 1 + keptCounts (p.node.children.take k)⟩,
    p.path ++ [0 + k]⟩, ?_, rfl, ⟨hc, hk, rfl, rfl, rfl, by rw [Nat.zero_add]⟩⟩
  rcases List.mem_cons.1 hp with rfl | hp
  · exact hmem
  · exact below_placesIn hmem parse.root.children hp

/-- What holds of the root and is handed down to children holds of every place. -/
theorem places_induction {parse : Concrete.Parse} {P : Place → Prop}
    (hroot : P (rootPlace parse))
    (hchild : ∀ p ∈ allPlaces parse, ∀ k, ∀ q ∈ places parse, p.IsChild k q → P p → P q) :
    ∀ q ∈ places parse, P q := by
  intro q
  -- the induction is on the length of the path
  generalize hn : q.path.length = n
  induction n generalizing q with
  | zero =>
      intro hq
      exact absurd (List.eq_nil_of_length_eq_zero hn) (at?_of_mem_places hq).1
  | succ n ih =>
      intro hq
      obtain ⟨p, hp, k, hpq⟩ := exists_parent hq
      refine hchild p hp k q hq hpq ?_
      rcases List.mem_cons.1 hp with rfl | hp
      · exact hroot
      · refine ih p ?_ hp
        rw [hpq.path, List.length_append] at hn
        exact Nat.succ.inj hn

/-- The path of a place leads to its node. -/
theorem at?_of_mem_allPlaces {parse : Concrete.Parse} {p : Place} (h : p ∈ allPlaces parse) :
    parse.root.at? p.path = some p.node := by
  rcases List.mem_cons.1 h with rfl | h
  · rfl
  · exact (at?_of_mem_places h).2

/-! ### The order of paths -/

mutual

/-- At and below a node, places stand in the lexicographic order of their paths. -/
theorem pairwise_path_placesAt (path : List Nat) (outer : Concrete.Node) (parent : NodeId)
    (next : Nat) : ∀ n : Concrete.Node,
      ((placesAt path outer parent next n).map Place.path).Pairwise (List.Lex (· < ·))
  | .node i cs => by
      rw [placesAt, List.map_cons, List.pairwise_cons]
      refine ⟨fun longer hlonger => ?_, pairwise_path_placesIn path (.node i cs) ⟨next⟩ _ 0 cs⟩
      obtain ⟨q, hq, rfl⟩ := List.mem_map.1 hlonger
      obtain ⟨j, rest, -, -, hpath, -⟩ := at?_of_mem_placesIn cs hq
      have hnil : List.Lex (· < ·) [] ((0 + j) :: rest) := .nil
      have h := hnil.append_left _ path
      rwa [List.append_nil, ← hpath] at h

theorem pairwise_path_placesIn (path : List Nat) (node : Concrete.Node) (id : NodeId)
    (next k : Nat) : ∀ cs : List Concrete.Node,
      ((placesIn path node id next k cs).map Place.path).Pairwise (List.Lex (· < ·))
  | [] => .nil
  | c :: cs => by
      rw [placesIn]
      split
      · rw [List.map_append, List.pairwise_append]
        refine ⟨pairwise_path_placesAt (path ++ [k]) node id next c,
          pairwise_path_placesIn path node id _ (k + 1) cs, fun a ha b hb => ?_⟩
        obtain ⟨p, hp, rfl⟩ := List.mem_map.1 ha
        obtain ⟨q, hq, rfl⟩ := List.mem_map.1 hb
        obtain ⟨rest, hpp, -⟩ := at?_of_mem_placesAt c hp
        obtain ⟨j, rest', -, -, hpq, -⟩ := at?_of_mem_placesIn cs hq
        rw [hpp, hpq, List.append_assoc]
        exact List.Lex.append_left _ (.rel (by omega)) path
      · exact pairwise_path_placesIn path node id next (k + 1) cs

end

/-- **The paths of the places are in lexicographic order.** -/
theorem pairwise_path_allPlaces (parse : Concrete.Parse) :
    ((allPlaces parse).map Place.path).Pairwise (List.Lex (· < ·)) := by
  rw [allPlaces_eq]
  exact pairwise_path_placesAt ..

/-- No two places of a parse have the same path. -/
theorem nodup_path_allPlaces (parse : Concrete.Parse) :
    ((allPlaces parse).map Place.path).Nodup := by
  refine (pairwise_path_allPlaces parse).imp fun {a b} h e => ?_
  subst e
  exact List.lex_irrefl (fun k => Nat.lt_irrefl k) _ h

/-- What lies below the path of a place lies below the place. -/
theorem mem_below_of_liesFrom {parse : Concrete.Parse} {p q : Place} (hp : p ∈ places parse)
    (hq : q ∈ places parse) {k : Nat} (h : q.LiesFrom p.path k) : q ∈ p.below := by
  obtain ⟨hne, hat⟩ := at?_of_mem_places hp
  obtain ⟨p', hp', hpath, -, hbelow⟩ := exists_place_above hq hne hat h
  rwa [List.inj_on_of_nodup_map (nodup_path_allPlaces parse) (mem_allPlaces hp)
    (mem_allPlaces hp') hpath.symm]

end TypeUses.Resolution
