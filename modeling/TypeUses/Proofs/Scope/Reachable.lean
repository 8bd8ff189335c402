import TypeUses.Proofs.Scope.Binding
import TypeUses.Proofs.Scope.Closed

/-!
# Scopes — the tables that operations make

A table allows a list of operations if each of them is about an entity that is there when its turn
comes (`Allows`).  A table is `Reachable` if it is made by operations that the table with the file
scope alone allows.

* `Reachable.induction`: what holds of the first table and is kept by every operation holds of every
  reachable table.
* `Reachable.closed`: a reachable table leads to no scope or entity that is not there.
* `lt_iff_answered`: the entities that are there are those with which an operation has answered.
-/

namespace TypeUses.Table

/-- Each of the operations is about an entity that is there when its turn comes. -/
def Allows : Table → List Operation → Prop
  | _, [] => True
  | t, op :: ops => (∀ e ∈ op.subject?, e.index < t.entities.size) ∧ (t.perform op).2.Allows ops

/-- The table is made by operations on the table with the file scope alone. -/
def Reachable (t : Table) : Prop :=
  ∃ tagsAreTypes ops, (empty tagsAreTypes).Allows ops ∧
    ((empty tagsAreTypes).performAll ops).2 = t

/-- The scopes and entities that are there, and all nodes. -/
def present (t : Table) : Realm where
  scope s := s.index < t.scopes.size
  entity e := e.index < t.entities.size
  node _ := True

instance Allows.decidable : (t : Table) → (ops : List Operation) → Decidable (t.Allows ops)
  | _, [] => isTrue trivial
  | t, op :: ops =>
    have := Allows.decidable (t.perform op).2 ops
    inferInstanceAs (Decidable (_ ∧ _))

variable {t : Table}

/-! ### Lists of operations -/

theorem performAll_cons (t : Table) (op : Operation) (ops : List Operation) :
    t.performAll (op :: ops) =
      ((t.perform op).1 :: ((t.perform op).2.performAll ops).1,
        ((t.perform op).2.performAll ops).2) :=
  rfl

theorem performAll_append (t : Table) (ops ops' : List Operation) :
    t.performAll (ops ++ ops') =
      ((t.performAll ops).1 ++ ((t.performAll ops).2.performAll ops').1,
        ((t.performAll ops).2.performAll ops').2) := by
  induction ops generalizing t with
  | nil => rfl
  | cons op ops ih => rw [List.cons_append, performAll_cons, ih, performAll_cons]; rfl

theorem allows_append {ops ops' : List Operation} :
    t.Allows (ops ++ ops') ↔ t.Allows ops ∧ (t.performAll ops).2.Allows ops' := by
  induction ops generalizing t with
  | nil => simp [Allows, performAll]
  | cons op ops ih => simp only [List.cons_append, Allows, ih, performAll_cons, and_assoc]

theorem keeps_performAll (t : Table) (ops : List Operation) :
    Grows (fun _ => True) t (t.performAll ops).2 := by
  induction ops generalizing t with
  | nil => exact .refl _ t
  | cons op ops ih => exact (keeps_perform t op).trans (ih _)

/-! ### Reachable tables -/

theorem reachable_empty (tagsAreTypes : Bool) : (empty tagsAreTypes).Reachable :=
  ⟨tagsAreTypes, [], trivial, rfl⟩

theorem Reachable.performAll (h : t.Reachable) {ops : List Operation} (hops : t.Allows ops) :
    (t.performAll ops).2.Reachable := by
  obtain ⟨tagsAreTypes, made, hmade, rfl⟩ := h
  exact ⟨tagsAreTypes, made ++ ops, allows_append.2 ⟨hmade, hops⟩, by rw [performAll_append]⟩

/-- What a table has that operations keep, every table has that they make of it. -/
theorem Allows.induction {P : Table → Prop}
    (hP : ∀ {t op}, P t → (∀ e ∈ op.subject?, e.index < t.entities.size) → P (t.perform op).2)
    {ops : List Operation} (hops : t.Allows ops) (h : P t) : P (t.performAll ops).2 := by
  induction ops generalizing t with
  | nil => exact h
  | cons op ops ih => exact ih hops.2 (hP h hops.1)

/-- **What holds of empty tables and is kept by every operation holds of every reachable table.** -/
theorem Reachable.induction {P : Table → Prop} (hempty : ∀ tagsAreTypes, P (empty tagsAreTypes))
    (hP : ∀ {t op}, P t → (∀ e ∈ op.subject?, e.index < t.entities.size) → P (t.perform op).2)
    (h : t.Reachable) : P t := by
  obtain ⟨tagsAreTypes, ops, hops, rfl⟩ := h
  exact hops.induction hP (hempty tagsAreTypes)

/-! ### What is there -/

theorem closed_empty (tagsAreTypes : Bool) :
    (empty tagsAreTypes).Closed (empty tagsAreTypes).present where
  file := Nat.zero_lt_one
  active s hs := by rw [List.mem_singleton.1 hs]; exact Nat.zero_lt_one
  scope {s scope} hs ho := by
    obtain ⟨i⟩ := s
    cases i with
    | zero => cases ho; exact ⟨nofun, nofun, nofun⟩
    | succ i => cases ho
  entity := nofun

/-- The scopes that an operation may enter or bind in are there. -/
theorem Closed.standing (h : t.Closed t.present) : t.Standing where
  file := h.file
  active := h.active
  members {e s} hm := by
    obtain ⟨info, hi, hs⟩ := members?_eq_some_iff.1 hm
    exact (h.entity (lt_of_entity? hi) hi).members s hs

/-- What is there before an operation is closed in what is there after it. -/
theorem Closed.present_of_perform (h : t.Closed t.present) (op : Operation) :
    t.Closed (t.perform op).2.present :=
  have grows := keeps_perform t op
  h.enlarge (fun _ hs => Nat.lt_of_lt_of_le hs grows.scopes_le)
    (fun _ he => Nat.lt_of_lt_of_le he grows.entities_le) (fun _ _ => trivial)
    (fun _ _ => id) (fun _ _ => id)

/-- An operation on what is there keeps everything in the table within it. -/
theorem Closed.perform_present (h : t.Closed t.present) {op : Operation}
    (hop : ∀ e ∈ op.subject?, e.index < t.entities.size) :
    (t.perform op).2.Closed (t.perform op).2.present :=
  (h.present_of_perform op).perform
    (fun e he => Nat.lt_of_lt_of_le (hop e he) (keeps_perform t op).entities_le)
    (fun _ _ => trivial) id id

/-- **A reachable table leads to nothing that is not there.** -/
theorem Reachable.closed (h : t.Reachable) : t.Closed t.present :=
  h.induction (P := fun t => t.Closed t.present) closed_empty fun hc hop =>
    hc.perform_present hop

/-- The entities that are there after some operations were there before or have been answered. -/
theorem lt_iff_answered_of_closed (h : t.Closed t.present) {ops : List Operation}
    (hops : t.Allows ops) {e : EntityId} :
    e.index < (t.performAll ops).2.entities.size ↔
      e.index < t.entities.size ∨ .entity e ∈ (t.performAll ops).1 := by
  induction ops generalizing t with
  | nil => simp [performAll]
  | cons op ops ih =>
      rw [performAll_cons]
      refine (ih (h.perform_present hops.1) hops.2).trans ?_
      rw [List.mem_cons, ← or_assoc]
      refine or_congr_left ⟨fun he => ?_, ?_⟩
      · by_cases hold : e.index < t.entities.size
        · exact Or.inl hold
        · exact Or.inr (answer_of_new (Nat.le_of_not_lt hold) he).1.symm
      · rintro (he | he)
        · exact Nat.lt_of_lt_of_le he (keeps_perform t op).entities_le
        · exact (h.present_of_perform op).answer he.symm id

/-- **The entities that are there are those with which an operation has answered.** -/
theorem lt_iff_answered {tagsAreTypes : Bool} {ops : List Operation}
    (hops : (empty tagsAreTypes).Allows ops) {e : EntityId} :
    e.index < ((empty tagsAreTypes).performAll ops).2.entities.size ↔
      .entity e ∈ ((empty tagsAreTypes).performAll ops).1 := by
  rw [lt_iff_answered_of_closed (closed_empty tagsAreTypes) hops]
  simp [empty]

end TypeUses.Table
