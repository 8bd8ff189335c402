import Mathlib.Data.List.Flatten
import TypeUses.Proofs.Tree.Uses

/-!
# Trees — what a larger tree keeps

`Enlarges t t'` relates a tree to a larger one whose further nodes come behind those of the first.
A node of `t` is in `t'` with the same number, parent, place and content, and a target stays what it
is; a reference without a target may get one among the further nodes.  Then a search in `t` finds a
part of what it finds in `t'`, in the same order (`findUses_sublist`).
-/

namespace TypeUses.Tree

/-- The nodes of `t` are in `t'` where they were, with further children and links only. -/
structure Enlarges (t t' : Tree) : Prop where
  grows : t.Grows t'
  children : ∀ id, ∃ more, t'.children id = t.children id ++ more ∧ ∀ c ∈ more, t.size ≤ c.index
  target : ∀ id d, t.target? id = some d → t'.target? id = some d
  further : ∀ id d : NodeId, id.index < t.size → t'.target? id = some d →
    t.target? id = some d ∨ t.target? id = none ∧ t.size ≤ d.index ∧ t'.IsDefinition d

variable {t t' : Tree}

theorem entity?_unlinked (c : Content) : c.unlinked.entity? = c.entity? := by
  cases c <;> rfl

namespace Enlarges

/-- A use in the smaller tree is one in the larger. -/
theorem useAt? (h : t.Enlarges t') {name : String} {id : NodeId} {u : Use}
    (hu : t.useAt? name id = some u) : t'.useAt? name id = some u := by
  obtain ⟨⟨d, c, e, ht, hc, he, hname⟩, l, hl, rfl⟩ := useAt?_eq_some_iff.1 hu
  have hd := h.grows.content d (lt_size_of_content? hc)
  rw [hc] at hd
  obtain ⟨c', hc', hunlinked⟩ := Option.map_eq_some_iff.1 hd
  obtain ⟨r, hr, -⟩ := target?_eq_some_iff.1 ht
  refine useAt?_eq_some_iff.2 ⟨⟨d, c', e, h.target id d ht, hc', ?_, hname⟩, l, ?_, rfl⟩
  · rw [← entity?_unlinked, hunlinked, entity?_unlinked, he]
  · rw [h.grows.location id (lt_size_of_content? hr), hl]

/-- The uses at and below a node of the smaller tree are among those in the larger, in order. -/
theorem uses_sublist (h : t.Enlarges t') (name : String) (id : NodeId) :
    (t.uses name id).Sublist (t'.uses name id) := by
  induction id using t.children_induction with
  | h id ih =>
      obtain ⟨more, hmore, -⟩ := h.children id
      have here : (t.useAt? name id).toList.Sublist (t'.useAt? name id).toList := by
        cases hu : t.useAt? name id with
        | none => exact List.nil_sublist _
        | some u =>
            have hu' := h.useAt? hu
            exact hu' ▸ .refl _
      have below : ((t.children id).flatMap (t.uses name)).Sublist
          ((t.children id).flatMap (t'.uses name)) := .flatMap_right _ ih
      rw [uses_eq, uses_eq, hmore, List.flatMap_append]
      exact here.append (below.trans (List.sublist_append_left _ _))

/-- **A search in the smaller tree finds a part of what it finds in the larger.** -/
theorem findUses_sublist (h : t.Enlarges t') (name : String) (id : NodeId) :
    (t.findUses name id).Sublist (t'.findUses name id) := by
  rw [findUses_eq, findUses_eq]
  exact h.uses_sublist name id

end Enlarges

end TypeUses.Tree
