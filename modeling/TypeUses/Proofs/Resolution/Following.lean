import TypeUses.Proofs.Resolution.Readings
import TypeUses.Proofs.Resolution.Runs
import TypeUses.Proofs.Resolution.States

/-!
# Resolution — what a descent leaves as it was

`Follows s s'` relates the state before a descent to the state after it.  The active scopes are the
same; the tree has its nodes as they were, and further ones; what is pending and what the functions
note of their labels and `goto`s is what there was, with further nodes in front.  So it is across
every descent (`follows_descend`): a scope that is entered is left again, and only the `goto`s of a
function inside are linked.
-/

namespace TypeUses.Resolution

variable {language : Language} {source : ByteArray}

/-! ### Lists that grow in front -/

/-- `ys` is `xs` with elements in front of it that satisfy `new`. -/
def Prepends {α : Type} (new : α → Prop) (xs ys : List α) : Prop :=
  ∃ more, ys = more ++ xs ∧ ∀ x ∈ more, new x

namespace Prepends

variable {α : Type} {new new' : α → Prop} {xs ys zs : List α}

theorem refl (new : α → Prop) (xs : List α) : Prepends new xs xs := ⟨[], rfl, nofun⟩

theorem cons {x : α} (hx : new x) : Prepends new xs (x :: xs) :=
  ⟨[x], rfl, fun _ hy => List.mem_singleton.1 hy ▸ hx⟩

theorem trans (h : Prepends new xs ys) (h' : Prepends new' ys zs) (hnew : ∀ x, new' x → new x) :
    Prepends new xs zs := by
  obtain ⟨more, rfl, hm⟩ := h
  obtain ⟨more', rfl, hm'⟩ := h'
  refine ⟨more' ++ more, (List.append_assoc ..).symm, fun x hx => ?_⟩
  exact (List.mem_append.1 hx).elim (fun hx => hnew x (hm' x hx)) (hm x)

theorem mem (h : Prepends new xs ys) {x : α} (hx : x ∈ ys) : new x ∨ x ∈ xs := by
  obtain ⟨more, rfl, hm⟩ := h
  exact (List.mem_append.1 hx).imp_left (hm x)

theorem of_mem (h : Prepends new xs ys) {x : α} (hx : x ∈ xs) : x ∈ ys := by
  obtain ⟨more, rfl, -⟩ := h
  exact List.mem_append_right _ hx

end Prepends

/-! ### Functions and their labels -/

/-- The frame has further labels and `goto`s, from node `n` on. -/
structure LabelFrame.Follows (n : Nat) (frame frame' : LabelFrame) : Prop where
  labels : Prepends (fun l => n ≤ l.2.index) frame.labels frame'.labels
  gotos : Prepends (fun g => n ≤ g.1.index) frame.gotos frame'.gotos

theorem LabelFrame.Follows.refl (n : Nat) (frame : LabelFrame) : frame.Follows n frame :=
  ⟨.refl _ _, .refl _ _⟩

theorem LabelFrame.Follows.trans {n n' : Nat} (hn : n ≤ n') {frame frame' frame'' : LabelFrame}
    (h : frame.Follows n frame') (h' : frame'.Follows n' frame'') : frame.Follows n frame'' :=
  ⟨h.labels.trans h'.labels fun _ => Nat.le_trans hn,
    h.gotos.trans h'.gotos fun _ => Nat.le_trans hn⟩

theorem LabelFrame.follows_note (frame : LabelFrame) (id : NodeId) (c : Content) :
    frame.Follows id.index (frame.note id c) := by
  rcases frame.note_cases id c with h | ⟨name, -, h⟩ | ⟨spelling, target, -, h⟩ <;> rw [h]
  · exact .refl _ _
  · exact ⟨.cons (Nat.le_refl _), .refl _ _⟩
  · exact ⟨.refl _ _, .cons (Nat.le_refl _)⟩

/-- Only the innermost function has further labels and `goto`s. -/
def FunctionsFollow (n : Nat) : List LabelFrame → List LabelFrame → Prop
  | [], frames' => frames' = []
  | frame :: rest, frames' => ∃ frame', frames' = frame' :: rest ∧ frame.Follows n frame'

namespace FunctionsFollow

theorem refl (n : Nat) : ∀ frames, FunctionsFollow n frames frames
  | [] => rfl
  | frame :: _ => ⟨frame, rfl, .refl n frame⟩

theorem trans {n n' : Nat} (hn : n ≤ n') : ∀ {frames frames' frames'' : List LabelFrame},
    FunctionsFollow n frames frames' → FunctionsFollow n' frames' frames'' →
      FunctionsFollow n frames frames''
  | [], _, _, rfl, h' => h'
  | _ :: _, _, _, ⟨_, rfl, h⟩, ⟨frame'', hf, h'⟩ => ⟨frame'', hf, h.trans hn h'⟩

/-- Noting a label or `goto` adds to the innermost function alone. -/
theorem noteLabel (id : NodeId) (c : Content) :
    ∀ frames, FunctionsFollow id.index frames (State.noteLabel frames id c)
  | [] => rfl
  | frame :: _ => ⟨frame.note id c, rfl, frame.follows_note id c⟩

end FunctionsFollow

/-! ### States -/

/-- What lies before a descent is there after it as it was. -/
structure Follows (s s' : State) : Prop where
  active : s'.scopes.active = s.scopes.active
  scopes : s.scopes.Grows (fun d => s.tree.size ≤ d.index) s'.scopes
  tree : s.tree.Extends s'.tree
  pending : Prepends (fun p => s.tree.size ≤ p.1.index) s.pending s'.pending
  functions : FunctionsFollow s.tree.size s.functions s'.functions

namespace Follows

theorem refl (s : State) : Follows s s :=
  ⟨rfl, .refl _ _, .refl _, .refl _ _, .refl _ _⟩

theorem trans {s s₁ s' : State} (h : Follows s s₁) (h' : Follows s₁ s') : Follows s s' where
  active := h'.active.trans h.active
  scopes := h.scopes.trans (h'.scopes.mono fun _ => Nat.le_trans h.tree.size_le)
  tree := h.tree.trans h'.tree
  pending := h.pending.trans h'.pending fun _ => Nat.le_trans h.tree.size_le
  functions := h.functions.trans h.tree.size_le h'.functions

end Follows

/-- A node is added behind all the others. -/
theorem follows_add {s s' : State} {f : Frame} {id : NodeId} {outline : Outline}
    (h : s.add language source f = .ok (s', id, outline)) : Follows s s' := by
  obtain ⟨tree, htree, rfl, rfl⟩ := add_eq_ok.1 h
  obtain ⟨-, rfl, -⟩ := Tree.push?_eq_ok.1 htree
  have hread := readAs_readNode language source s.scopes ⟨s.tree.size⟩ f
  generalize readNode language source s.scopes ⟨s.tree.size⟩ f = r at hread htree
  have scopes : r.scopes.active = s.scopes.active ∧
      s.scopes.Grows (fun d => s.tree.size ≤ d.index) r.scopes := by
    rcases hread.scopes with hs | ⟨op, hb, -, hs, hnode⟩
    · rw [hs]; exact ⟨rfl, .refl _ _⟩
    · rw [hs]
      exact ⟨Table.active_perform hb,
        Table.grows_perform fun d hd =>
          Nat.le_of_eq (congrArg NodeId.index (hnode d hd).1).symm⟩
  refine ⟨scopes.1, scopes.2, Tree.extends_of_push? htree, ?_, .noteLabel ⟨s.tree.size⟩ _ _⟩
  rcases s.pending_record tree ⟨s.tree.size⟩ r with h | ⟨e, -, h⟩
  · rw [h]
    exact .refl _ _
  · rw [h]
    exact .cons (Nat.le_refl _)

/-- A reference that has a target is not the node that is added. -/
theorem reference_of_add {s s' : State} {f : Frame} {id : NodeId} {outline : Outline}
    (h : s.add language source f = .ok (s', id, outline)) {x d : NodeId} {ref : Reference}
    (hr : s'.tree.content? x = some (.reference ref)) (hd : ref.target = some d) :
    s.tree.content? x = some (.reference ref) := by
  obtain ⟨tree, htree, rfl, -⟩ := add_eq_ok.1 h
  have hread := readAs_readNode language source s.scopes ⟨s.tree.size⟩ f
  have hr : tree.content? x = some (.reference ref) := hr
  rw [Tree.content?_of_push? htree] at hr
  split at hr
  · rw [hread.unlinked (Option.some.inj hr)] at hd
    cases hd
  · exact hr

theorem tree_enterOpening (s : State) (o : Option Opening) : (s.enterOpening o).tree = s.tree := by
  cases o with
  | none => rfl
  | some o => exact tree_enter s o.entry

theorem active_enter (s : State) (entry : ScopeEntry) :
    ∃ x, (s.enter entry).scopes.active = x :: s.scopes.active := by
  cases entry with
  | fresh | function => exact ⟨_, rfl⟩
  | members e kind => exact s.scopes.active_enterMembers e kind

/-- A scope that is entered and left around what follows changes nothing from before. -/
theorem follows_leave {s s₁ s' : State} {entry : ScopeEntry} (h : Follows (s.enter entry) s₁)
    (hleave : s₁.leave entry = .ok s') : Follows s s' := by
  obtain ⟨hscopes, hpending, htree⟩ := leave_eq_ok hleave
  obtain ⟨x, hx⟩ := active_enter s entry
  have enter : s.scopes.Grows (fun d => s.tree.size ≤ d.index) (s.enter entry).scopes := by
    rw [scopes_enter]
    exact Table.grows_perform (by cases entry <;> nofun)
  have h_tree := h.tree
  have h_pending := h.pending
  have h_functions := h.functions
  have h_scopes := h.scopes
  rw [tree_enter] at h_tree h_pending h_functions h_scopes
  rw [pending_enter] at h_pending
  refine ⟨?_, ?_, ?_, by rw [hpending]; exact h_pending, ?_⟩
  · rw [hscopes]
    exact Table.active_leave (h.active.trans hx)
  · rw [hscopes]
    exact (enter.trans h_scopes).trans (Table.grows_leave _ _)
  · rcases htree with ⟨ht, -, -⟩ | ⟨frame, rfl, hf, hl⟩
    · rw [ht]; exact h_tree
    · -- the links lead from `goto`s of the function that is left
      rw [functions_enter, if_pos rfl, hf] at h_functions
      obtain ⟨frame', he, hframe⟩ := h_functions
      obtain ⟨rfl, -⟩ := List.cons.inj he
      have new : ∀ id d, (id, d) ∈ frame.links → s.tree.size ≤ id.index := by
        intro id d hd
        obtain ⟨name, hg, -⟩ := LabelFrame.mem_links.1 hd
        exact (hframe.gotos.mem hg).resolve_right nofun
      exact hl.extends_of h_tree new
  · rcases htree with ⟨-, hf, hno⟩ | ⟨frame, rfl, hf, -⟩
    · rw [hf]
      rw [functions_enter] at h_functions
      split at h_functions
      · -- a function that was entered is there to be left
        next he =>
        rw [hno he] at h_functions
        obtain ⟨_, he, -⟩ := h_functions
        cases he
      · exact h_functions
    · rw [functions_enter, if_pos rfl, hf] at h_functions
      obtain ⟨frame', he, -⟩ := h_functions
      rw [(List.cons.inj he).2]
      exact .refl _ _

/-- When a function is left, the functions around it have the labels that they had. -/
theorem functions_of_leave {s s₁ s' : State} (h : Follows (s.enter .function) s₁)
    (hleave : s₁.leave .function = .ok s') : s'.functions = s.functions := by
  have hfunctions := h.functions
  rw [functions_enter, if_pos rfl] at hfunctions
  obtain ⟨frame, hframe, -⟩ := hfunctions
  obtain ⟨-, -, ⟨-, -, hno⟩ | ⟨frame', -, hf', -⟩⟩ := leave_eq_ok hleave
  · rw [hno rfl] at hframe
    cases hframe
  · exact (List.cons.inj (hf'.symm.trans hframe)).2

/-- A walk only adds to what there is, and leaves the scopes that it enters. -/
theorem respects_follows :
    Respects language source (fun _ => True) Follows (fun _ _ => True) where
  refl := .refl
  trans := .trans
  add _ h := ⟨trivial, follows_add h, fun _ _ => trivial⟩
  keep _ _ := trivial
  enter _ _ := trivial
  leave _ _ _ h hleave := ⟨trivial, follows_leave h hleave⟩

/-- What a descent preserves of the table: bindings and scopes keep `P`, and what a node defines,
whose members may be entered, satisfies `Q`. -/
theorem respects_of_table {P : Table → Prop} {Q : Table → EntityId → Prop}
    (binding : ∀ {t op}, P t → Operation.IsBinding op → P (t.perform op).2)
    (answer : ∀ {t op e d}, P t → Operation.IsBinding op → op.node? = some d →
      (t.perform op).1 = .entity e → Q (t.perform op).2 e)
    (keep : ∀ {new t t' e}, Table.Grows new t t' → Q t e → Q t' e)
    (enter : ∀ {t} (entry : ScopeEntry), P t → (∀ e, entry.entity? = some e → Q t e) →
      P (t.perform entry.operation).2)
    (leave : ∀ {new t t'}, P t → P t' → Table.Grows new t t'.leave → t'.leave.active = t.active →
      P t'.leave) :
    Respects language source (fun s => P s.scopes) Follows
      (fun s entry => ∀ e, entry.entity? = some e → Q s.scopes e) where
  refl := .refl
  trans := .trans
  add {s f s' id outline} hs h := by
    have follows := follows_add h
    obtain ⟨tree, -, rfl, rfl⟩ := add_eq_ok.1 h
    have hread := readAs_readNode language source s.scopes ⟨s.tree.size⟩ f
    rw [State.scopes_record]
    refine ⟨?_, follows, fun o ho e he => ?_⟩
    · rcases hread.scopes with heq | ⟨op, hop, -, heq, -⟩ <;> rw [heq]
      · exact hs
      · exact binding hs hop
    · obtain ⟨op, hop, hnode, hanswer, heq, -⟩ := hread.opening ho he
      rw [heq]
      exact answer hs hop hnode hanswer
  keep h hq e he := keep h.scopes (hq e he)
  enter {s entry} hs hq := by
    rw [scopes_enter]
    exact enter entry hs hq
  leave {s s₁ s' entry} hs _ hs₁ h hleave := by
    have follows := follows_leave h hleave
    obtain ⟨hscopes, -⟩ := leave_eq_ok hleave
    refine ⟨?_, follows⟩
    have hg := follows.scopes
    have hactive := follows.active
    rw [hscopes] at hg hactive ⊢
    exact leave hs hs₁ hg hactive

/-- **What a descent leaves as it was.** -/
theorem follows_descend {outer : Concrete.Node} {parent : NodeId} {context : Context}
    {n : Concrete.Node} {s s' : State}
    (h : descend language source s outer parent context n = .ok s') : Follows s s' :=
  (respects_follows.descend n trivial h).2

/-- Children among which no scope is entered leave everything as it was. -/
theorem follows_descendAll {node : Concrete.Node} {id : NodeId} {context : Context}
    {outline : Outline} {cs : List Concrete.Node} {s s' : State}
    (h : descendAll language source s node id context outline none cs = .ok s') : Follows s s' :=
  (respects_follows.descendAll_none cs trivial h).2

end TypeUses.Resolution
