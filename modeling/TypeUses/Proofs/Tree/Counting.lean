import Mathlib.Algebra.BigOperators.Group.Finset.Basic
import TypeUses.Proofs.Tree.Building

/-!
# Trees — counting nodes

`Tree.contents` lists what the nodes of a tree say, by number.  An addition puts one more content
behind the others (`contents_of_push?`), and a link replaces that of its reference
(`contents_of_resolve?`); so there is one more reference with a target afterwards if the reference
had none (`countP_of_resolve?`).

Where every target is a definition and the walk from the root comes to each node once, each
reference with a target is found once, under the name that its target defines.  So the references
with targets are as many as the uses of all these names together (`countP_isLinked_eq_sum`).
-/

namespace TypeUses

/-- A reference that has a target. -/
def Content.isLinked : Content → Bool
  | .reference r => r.target.isSome
  | _ => false

/-- The name of what is defined. -/
def Content.definedName? : Content → Option String
  | .definition entity => some entity.name
  | _ => none

namespace Tree

variable {t t' : Tree}

/-- The numbers of the nodes. -/
def ids (t : Tree) : List NodeId := (List.range t.size).map NodeId.mk

/-- What the nodes say, by number. -/
def contents (t : Tree) : List Content := t.nodes.toList.map Node.content

/-- The names of the entities that are defined. -/
def definedNames (t : Tree) : Finset String := (t.contents.filterMap Content.definedName?).toFinset

/-- The node is a reference without a target. -/
def IsUnlinked (t : Tree) (id : NodeId) : Prop :=
  ∃ r, t.content? id = some (.reference r) ∧ r.target = none

namespace IsUnlinked

variable {id : NodeId}

theorem lt (h : t.IsUnlinked id) : id.index < t.size :=
  let ⟨_, hr, _⟩ := h
  lt_size_of_content? hr

theorem mono (h : t.IsUnlinked id) (ht : t.Extends t') : t'.IsUnlinked id := by
  obtain ⟨r, hr, hnone⟩ := h
  exact ⟨r, (ht.content id (lt_size_of_content? hr)).trans hr, hnone⟩

/-- A link leaves other references without a target. -/
theorem resolve? (h : t.IsUnlinked id) {reference definition : NodeId}
    (ht : t.resolve? reference definition = .ok t') (hne : id ≠ reference) : t'.IsUnlinked id := by
  obtain ⟨r, hr, hnone⟩ := h
  exact ⟨r, by rw [content?_of_resolve? ht, if_neg hne, hr], hnone⟩

end IsUnlinked

theorem getElem?_contents (t : Tree) (i : Nat) : t.contents[i]? = t.content? ⟨i⟩ := by
  simp [contents, content?, node?]

theorem length_contents (t : Tree) : t.contents.length = t.size := by
  simp [contents, size]

/-- The contents of a tree are those of its nodes. -/
theorem mem_contents {c : Content} : c ∈ t.contents ↔ ∃ id, t.content? id = some c := by
  rw [List.mem_iff_getElem?]
  constructor
  · rintro ⟨i, hi⟩
    exact ⟨⟨i⟩, (t.getElem?_contents i).symm.trans hi⟩
  · rintro ⟨⟨i⟩, hi⟩
    exact ⟨i, (t.getElem?_contents i).trans hi⟩

/-! ### Additions and links -/

theorem contents_of_push? {parent id : NodeId} {content : Content} {location : Location}
    (h : t.push? parent content location = .ok (id, t')) :
    t'.contents = t.contents ++ [content] := by
  refine List.ext_getElem? fun i => ?_
  rw [getElem?_contents, content?_of_push? h]
  by_cases hi : i = t.size
  · subst hi
    rw [if_pos rfl, List.getElem?_append_right (Nat.le_of_eq t.length_contents), length_contents,
      Nat.sub_self]
    rfl
  · have hne : (⟨i⟩ : NodeId) ≠ ⟨t.size⟩ := fun he => hi (congrArg NodeId.index he)
    rw [if_neg hne, ← getElem?_contents]
    by_cases hlt : i < t.contents.length
    · rw [List.getElem?_append_left hlt]
    · rw [List.getElem?_eq_none_iff.2 (Nat.not_lt.1 hlt), eq_comm, List.getElem?_eq_none_iff]
      rw [length_contents] at hlt
      simp only [List.length_append, length_contents, List.length_singleton]
      omega

section Resolve
variable {reference definition : NodeId} {r : Reference}

theorem contents_of_resolve? (h : t.resolve? reference definition = .ok t')
    (hr : t.content? reference = some (.reference r)) :
    t'.contents =
      t.contents.set reference.index (.reference { r with target := some definition }) := by
  refine List.ext_getElem? fun i => ?_
  rw [getElem?_contents, content?_of_resolve? h, List.getElem?_set, length_contents,
    getElem?_contents]
  by_cases heq : reference.index = i
  · obtain rfl : reference = ⟨i⟩ := NodeId.ext heq
    rw [if_pos rfl, if_pos rfl, if_pos (lt_size_of_content? hr), hr]
    rfl
  · rw [if_neg heq, if_neg fun he => heq (congrArg NodeId.index he).symm]

/-- A link to a reference without a target gives it one, and no node becomes a reference. -/
theorem countP_of_resolve? (h : t.resolve? reference definition = .ok t')
    (hr : t.IsUnlinked reference) :
    t'.contents.countP Content.isReference = t.contents.countP Content.isReference ∧
      t'.contents.countP Content.isLinked = t.contents.countP Content.isLinked + 1 := by
  obtain ⟨r, hr, hnone⟩ := hr
  have hlt : reference.index < t.contents.length := by
    rw [length_contents]
    exact lt_size_of_content? hr
  have hat : t.contents[reference.index] = .reference r :=
    Option.some.inj ((List.getElem?_eq_getElem hlt).symm.trans ((t.getElem?_contents _).trans hr))
  have hpos : 0 < t.contents.countP Content.isReference :=
    List.countP_pos_iff.2 ⟨_, mem_contents.2 ⟨reference, hr⟩, rfl⟩
  rw [contents_of_resolve? h hr, List.countP_set hlt, List.countP_set hlt, hat]
  simp only [Content.isReference, Content.isLinked, hnone, Option.isSome_some, Option.isSome_none,
    if_true, Bool.false_eq_true, if_false]
  omega

end Resolve

/-! ### Uses of all names -/

/-- Nodes are counted by what they say. -/
theorem countP_contents (t : Tree) (p : Content → Bool) :
    t.contents.countP p = t.ids.countP fun id => (t.content? id).any p := by
  have hmap : t.contents.map some = t.ids.map t.content? := by
    refine List.ext_getElem? fun i => ?_
    rw [List.getElem?_map, getElem?_contents, ids, List.getElem?_map, List.getElem?_map]
    by_cases hi : i < t.size
    · obtain ⟨n, hn⟩ : ∃ n, t.node? ⟨i⟩ = some n := exists_node? hi
      rw [List.getElem?_range hi]
      simp [content?, hn]
    · have hnone : t.node? ⟨i⟩ = none := node?_eq_none_iff.2 (Nat.not_lt.1 hi)
      rw [List.getElem?_eq_none_iff.2 (by simpa using hi)]
      simp [content?, hnone]
  have hsome : t.contents.countP p = (t.contents.map some).countP (Option.any p) := by
    rw [List.countP_map]
    rfl
  rw [hsome, hmap, List.countP_map]
  rfl

/-- A node refers to a name by the definition that is its target. -/
theorem referredName?_eq_some_iff (ht : t.Linked) {id : NodeId} {name : String} :
    t.referredName? id = some name ↔
      ∃ d kind, t.target? id = some d ∧ t.content? d = some (.definition ⟨kind, name⟩) := by
  simp only [referredName?_eq, Option.bind_eq_some_iff, Option.map_eq_some_iff]
  constructor
  · rintro ⟨d, hd, c, hc, e, he, rfl⟩
    obtain ⟨e', hdef⟩ := ht id d hd
    cases hc.symm.trans hdef
    cases he
    exact ⟨d, e.kind, hd, hdef⟩
  · rintro ⟨d, kind, hd, hc⟩
    exact ⟨d, hd, _, hc, _, rfl, rfl⟩

/-- A search for a name finds the nodes below that refer to it. -/
theorem length_findUses (ht : t.Linked) (name : String) (id : NodeId) :
    (t.findUses name id).length = ((t.preorder id).filterMap t.referredName?).count name := by
  rw [findUses_eq, uses_eq_filterMap, List.length_filterMap_eq_countP, List.count_filterMap]
  refine List.countP_congr fun x _ => ?_
  rw [beq_iff_eq, useAt?]
  by_cases h : t.referredName? x = some name
  · obtain ⟨d, kind, hd, -⟩ := (referredName?_eq_some_iff ht).1 h
    obtain ⟨r, hr, -⟩ := target?_eq_some_iff.1 hd
    obtain ⟨n, hn, -⟩ := Option.map_eq_some_iff.1 hr
    simp [h, hn]
  · simp [h]

/-- The references with a target are the nodes that refer to a name. -/
theorem isSome_referredName? (ht : t.Linked) (id : NodeId) :
    (t.referredName? id).isSome = (t.content? id).any Content.isLinked := by
  rw [Bool.eq_iff_iff, Option.isSome_iff_exists, Option.any_eq_true]
  constructor
  · rintro ⟨name, h⟩
    obtain ⟨d, kind, hd, -⟩ := (referredName?_eq_some_iff ht).1 h
    obtain ⟨r, hr, htarget⟩ := target?_eq_some_iff.1 hd
    exact ⟨_, hr, by simp [Content.isLinked, htarget]⟩
  · rintro ⟨c, hc, hlinked⟩
    cases c with
    | reference r =>
      obtain ⟨d, hd⟩ := Option.isSome_iff_exists.1 hlinked
      have htarget := target?_eq_some_iff.2 ⟨r, hc, hd⟩
      obtain ⟨⟨kind, name⟩, hdef⟩ := ht id d htarget
      exact ⟨name, (referredName?_eq_some_iff ht).2 ⟨d, kind, htarget, hdef⟩⟩
    | _ => cases hlinked

/-- The name to which a reference leads is one that is defined. -/
theorem mem_definedNames (ht : t.Linked) {id : NodeId} {name : String}
    (h : t.referredName? id = some name) : name ∈ t.definedNames := by
  obtain ⟨d, kind, -, hdef⟩ := (referredName?_eq_some_iff ht).1 h
  rw [definedNames, List.mem_toFinset, List.mem_filterMap]
  exact ⟨_, mem_contents.2 ⟨d, hdef⟩, rfl⟩

/-- **The uses of all names are the references with targets.** -/
theorem countP_isLinked_eq_sum (ht : t.Linked) (hwalk : (t.preorder rootId).Perm t.ids) :
    t.contents.countP Content.isLinked =
      ∑ name ∈ t.definedNames, (t.findUses name rootId).length := by
  -- the names referred to, once for each reference
  have hnames : ∀ name ∈ ((t.preorder rootId).filterMap t.referredName? : Multiset String),
      name ∈ t.definedNames := by
    intro name hname
    obtain ⟨id, -, hid⟩ := List.mem_filterMap.1 (Multiset.mem_coe.1 hname)
    exact mem_definedNames ht hid
  calc t.contents.countP Content.isLinked
      = t.ids.countP fun id => (t.content? id).any Content.isLinked := t.countP_contents _
    _ = (t.preorder rootId).countP fun id => (t.content? id).any Content.isLinked :=
        (hwalk.countP_eq _).symm
    _ = ((t.preorder rootId).filterMap t.referredName?).length := by
        simp only [List.length_filterMap_eq_countP, isSome_referredName? ht]
    _ = ∑ name ∈ t.definedNames, ((t.preorder rootId).filterMap t.referredName?).count name := by
        rw [← Multiset.coe_card, ← Multiset.sum_count_eq_card hnames]
        simp only [Multiset.coe_count]
    _ = ∑ name ∈ t.definedNames, (t.findUses name rootId).length := by
        simp only [length_findUses ht]

end Tree

end TypeUses
