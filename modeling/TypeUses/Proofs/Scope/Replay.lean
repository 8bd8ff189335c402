import TypeUses.Proofs.Scope.History
import TypeUses.Proofs.Scope.Locals
import TypeUses.Proofs.Scope.Reachable

/-!
# Scopes — a table knows what its history says

A table `Agrees` with a history if its views are those that are read off the history.  An operation
on such a table has the answer that the history gives, and the table after it agrees with the
history that it continues (`Agrees.perform`).  So does the table that operations make of an empty
one (`performAll_replay`), and all that it is asked it answers from the history alone.
-/

namespace TypeUses

/-- What of a scope never changes: its kind and the scopes around it. -/
def Scope.frame (s : Scope) : Frame := ⟨s.kind, s.enclosing⟩

namespace Table

/-- The views of the table are read off the history. -/
structure Agrees (h : History) (t : Table) : Prop where
  active : t.active = h.active
  scopes_size : t.scopes.size = h.frames.length
  entities_size : t.entities.size = h.events.length
  frame : ∀ s, (t.scope? s).map Scope.frame = h.frame? s
  latest : ∀ s space name, t.local? s space name = h.latest t.tagsAreTypes s space name
  usedBy : ∀ s, t.usedBy s = h.usedBy s
  kind : ∀ e, t.kind? e = h.kind? e
  definition : ∀ e, t.definition? e = h.definition? e
  members : ∀ e, t.members? e = h.members? e

variable {h : History} {t t' : Table} {op : Operation} {b : Binding} {e : EntityId}

theorem frame_create (s : ScopeId) (space : Space) (name : String) (info : EntityInfo)
    (x : ScopeId) : ((t.create s space name info).2.scope? x).map Scope.frame =
      (t.scope? x).map Scope.frame := by
  rw [scope?_create]
  split
  · cases t.scope? x <;> rfl
  · rfl

namespace Agrees

theorem current (ha : Agrees h t) : t.current = h.current := by
  rw [History.current, ← ha.active]
  rfl

theorem chain (ha : Agrees h t) (s : ScopeId) : t.chain s = Frame.chain h.frames s := by
  have hf := ha.frame s
  rw [Table.chain, Frame.chain, ← History.frame?, ← hf, Option.map_map]
  rfl

theorem innermost (ha : Agrees h t) (accepts : ScopeKind → Bool) :
    t.innermost accepts = h.target accepts := by
  simp only [Table.innermost, History.target, ← ha.active, ← ha.frame, Option.map_map]
  rfl

theorem search (ha : Agrees h t) (spaces : List Space) (name : String) (s : ScopeId) :
    t.search spaces name s = h.search t.tagsAreTypes spaces name s := by
  have hlocal : t.localIn? spaces name =
      fun x => spaces.findSome? fun space => h.latest t.tagsAreTypes x space name :=
    funext fun x => congrArg spaces.findSome? (funext fun space => ha.latest x space name)
  rw [Table.search, History.search, ha.usedBy, hlocal]

/-- Every lookup finds what the history says. -/
theorem lookup (ha : Agrees h t) (spaces : List Space) (name : String) (look : Lookup) :
    t.lookup spaces name look = h.lookup t.tagsAreTypes spaces name look := by
  have hsearch : t.search spaces name = h.search t.tagsAreTypes spaces name :=
    funext (ha.search spaces name)
  cases look with
  | lexical => rw [Table.lookup, History.lookup, hsearch, ha.chain, ha.current]
  | member qualifier =>
      cases qualifier with
      | none => rfl
      | some e => rw [Table.lookup, History.lookup, hsearch, ha.members]
  | global => rw [Table.lookup, History.lookup, hsearch]

/-- What the table takes for compatible the history does. -/
theorem compatible_iff (ha : Agrees h t) (e : EntityId) (kind : EntityKind) :
    ((t.kind? e).map fun existing => t.compatible existing kind).getD false = true ↔
      ∃ existing ∈ h.kind? e,
        existing = kind ∨ t.tagsAreTypes ∧ existing.isTag ∧ kind.isTag := by
  rw [ha.kind]
  cases h.kind? e with
  | none => simp
  | some existing => simp [compatible, and_assoc]

/-- **A binding means again what the history says.** -/
theorem bindName_eq (ha : Agrees h t) (b : Binding) :
    t.bindName b =
      match h.reused? t.tagsAreTypes b with
      | some e => (e, t.rebind b e)
      | none => t.create (h.target b.accepts) b.space b.name ⟨b.kind, b.node, none⟩ := by
  rw [bindName, History.reused?, ← ha.innermost, ← ha.latest]
  simp only [defineIn, declareIn, compatible?, History.Reuses, ← ha.compatible_iff]
  cases t.local? (t.innermost b.accepts) b.space b.name with
  | none => cases hn : b.node <;> simp
  | some x =>
      by_cases hk : ((t.kind? x).map fun existing => t.compatible existing b.kind).getD false = true
      · cases hn : b.node with
        | none => simp [hk, hn, rebind, Option.filter_some]
        | some node =>
            have hd : ((t.definition? x).isNone || b.kind == .namespaceName) = true ↔
                h.definition? x = none ∨ b.kind = .namespaceName := by
              simp [ha.definition]
            by_cases hdef : h.definition? x = none ∨ b.kind = .namespaceName
            · simp [hk, hn, hd.2 hdef, hdef, rebind, Option.filter_some]
            · have hnot := mt hd.1 hdef
              simp only [Option.filter_some, hk, hdef, hnot, if_true, and_false, reduceCtorEq,
                false_or, decide_false, Bool.false_eq_true, if_false]
      · cases b.node <;> simp [hk, Option.filter_some]

/-! ### Bindings -/

section Binding
variable (ha : Agrees h t) (hb : op.binding? = some b)
include ha hb

theorem rebind {info : EntityInfo} (hi : t.entity? e = some info) :
    Agrees ((op, .entity e) :: h) (t.rebind b e) := by
  obtain ⟨hactive, hframes, hmembers, hused⟩ := History.frame_of_binding hb h e
  have hevents : History.events ((op, .entity e) :: h) = h.events := by
    rw [History.events_of_binding hb, if_neg (ha.entities_size ▸ Nat.ne_of_lt (lt_of_entity? hi))]
  have hscope : ∀ s, (t.rebind b e).scope? s = t.scope? s := fun s => by
    rw [scope?, scopes_rebind, scope?]
  refine ⟨?_, ?_, ?_, fun s => ?_, fun s space name => ?_, fun s => ?_, fun x => ?_, fun x => ?_,
    fun x => ?_⟩
  · rw [active_rebind, hactive, ha.active]
  · rw [scopes_rebind, hframes, ha.scopes_size]
  · rw [entities_size_rebind, hevents, ha.entities_size]
  · rw [hscope, History.frame?, hframes, ha.frame]; rfl
  · rw [local?, hscope, tagsAreTypes_rebind, History.latest, hevents]
    exact ha.latest s space name
  · rw [Table.usedBy, hscope, hused]
    exact ha.usedBy s
  · rw [kind?_rebind hi, History.kind?_of_binding hb, ha.kind]
  · rw [definition?_rebind hi, History.definition?_of_binding hb, ha.definition]
  · rw [members?_rebind, hmembers, ha.members]

theorem create (hs : (h.target b.accepts).index < t.scopes.size) :
    Agrees ((op, .entity ⟨h.events.length⟩) :: h)
      (t.create (h.target b.accepts) b.space b.name ⟨b.kind, b.node, none⟩).2 := by
  obtain ⟨hactive, hframes, hmembers, hused⟩ :=
    History.frame_of_binding hb h ⟨h.events.length⟩
  have hevents := (History.events_of_binding hb h ⟨h.events.length⟩).trans (if_pos rfl)
  have hfresh : t.entity? ⟨h.events.length⟩ = none := by
    rw [entity?, ← ha.entities_size]
    exact Array.getElem?_size
  refine ⟨?_, ?_, ?_, fun s => ?_, fun s space name => ?_, fun s => ?_, fun x => ?_, fun x => ?_,
    fun x => ?_⟩
  · rw [active_create, hactive, ha.active]
  · rw [scopes_size_create, hframes, ha.scopes_size]
  · rw [entities_size_create, hevents, List.length_cons, ha.entities_size]
  · rw [frame_create, History.frame?, hframes, ha.frame]
    rfl
  · rw [local?_create hs, History.latest_cons hevents, ha.latest, ha.entities_size]
    rfl
  · rw [usedBy_create, hused, ha.usedBy]
  · rw [kind?, entity?_create, History.kind?_of_binding hb, ← ha.kind, ha.entities_size, kind?]
    split
    · next hx => rw [hx, hfresh]; cases b.node <;> rfl
    · rfl
  · rw [definition?, entity?_create, History.definition?_of_binding hb, ← ha.definition,
      ha.entities_size, definition?]
    split
    · next hx => rw [hx, hfresh]; rfl
    · exact (Option.or_none).symm
  · rw [members?, entity?_create, hmembers, ← ha.members, ha.entities_size, members?]
    split
    · next hx => rw [hx, hfresh]; rfl
    · rfl

end Binding

/-! ### Entering and leaving -/

theorem frame_newScope (ha : Agrees h t) (kind : ScopeKind) (s : ScopeId) :
    ((t.newScope kind).2.scope? s).map Scope.frame =
      (h.frames ++ [⟨kind, Frame.chain h.frames h.current⟩])[s.index]? := by
  rw [scope?_newScope, ha.scopes_size]
  by_cases hs : s = ⟨h.frames.length⟩
  · rw [if_pos hs, hs, List.getElem?_concat_length, ← ha.chain, ← ha.current]
    rfl
  · rw [if_neg hs, ha.frame, History.frame?]
    rcases Nat.lt_or_gt_of_ne fun hi => hs (ScopeId.ext hi) with hi | hi
    · rw [List.getElem?_append_left hi]
    · rw [List.getElem?_eq_none (Nat.le_of_lt hi), List.getElem?_eq_none]
      rw [List.length_append]
      exact hi

/-- An operation that binds no name changes scopes and members only. -/
theorem of_no_binding (ha : Agrees h t) (hb : op.binding? = none) {answer : Answer}
    (htags : t'.tagsAreTypes = t.tagsAreTypes) (hsize : t'.entities.size = t.entities.size)
    (hlocal : ∀ s space name, t'.local? s space name = t.local? s space name)
    (hkind : ∀ x, t'.kind? x = t.kind? x) (hdef : ∀ x, t'.definition? x = t.definition? x)
    (hactive : t'.active = History.active ((op, answer) :: h))
    (hscopes : t'.scopes.size = (History.frames ((op, answer) :: h)).length)
    (hframe : ∀ s, (t'.scope? s).map Scope.frame = (History.frames ((op, answer) :: h))[s.index]?)
    (hused : ∀ s, t'.usedBy s = History.usedBy ((op, answer) :: h) s)
    (hmembers : ∀ x, t'.members? x = History.members? ((op, answer) :: h) x) :
    Agrees ((op, answer) :: h) t' := by
  obtain ⟨hevents, hkinds, hdefs⟩ := History.frame_of_no_binding hb h answer
  refine ⟨hactive, hscopes, ?_, hframe, fun s space name => ?_, hused, fun x => ?_, fun x => ?_,
    hmembers⟩
  · rw [hsize, hevents, ha.entities_size]
  · rw [hlocal, htags, History.latest, hevents]
    exact ha.latest s space name
  · rw [hkind, hkinds, ha.kind]
  · rw [hdef, hdefs, ha.definition]

theorem enter (ha : Agrees h t) (kind : ScopeKind) :
    Agrees ((.enter kind, .scope ⟨t.scopes.size⟩) :: h) (t.enter kind).2 := by
  refine ha.of_no_binding rfl rfl rfl (t.local?_newScope kind) (fun _ => rfl) (fun _ => rfl)
    ?_ ?_ (ha.frame_newScope kind) (fun s => (t.usedBy_newScope kind s).trans (ha.usedBy s))
    ha.members
  · rw [enter_eq, active_activate, active_newScope, ha.active]
    rfl
  · rw [enter_eq]
    show (t.newScope kind).2.scopes.size = (h.frames ++ [_]).length
    rw [size_newScope, ha.scopes_size, List.length_append, List.length_singleton]

theorem enterMembers (ha : Agrees h t) {info : EntityInfo} (hi : t.entity? e = some info)
    (kind : ScopeKind) :
    Agrees ((.enterMembers e kind, .scope ((t.members? e).getD ⟨t.scopes.size⟩)) :: h)
      (t.enterMembers e kind).2 := by
  cases hm : t.members? e with
  | some s =>
      -- the members have a scope, which becomes active again
      have hmade : History.frames ((.enterMembers e kind, .scope s) :: h) = h.frames := by
        rw [History.frames, History.made?, ← ha.members, hm, if_neg (Option.some_ne_none s)]
      rw [enterMembers_of_some hm, Option.getD_some]
      refine ha.of_no_binding rfl rfl rfl (fun _ _ _ => rfl) (fun _ => rfl) (fun _ => rfl) ?_ ?_
        (fun s => ?_) ha.usedBy (fun x => ?_)
      · rw [active_activate, ha.active]
        rfl
      · rw [hmade, ← ha.scopes_size]
        rfl
      · rw [hmade]
        exact ha.frame s
      · show t.members? x = (h.members? x).or (if x = e then some s else none)
        rw [← ha.members]
        split
        · next hx => rw [hx, hm]; rfl
        · exact Option.or_none.symm
  | none =>
      -- the scope of the members is made
      have hmade : History.frames ((.enterMembers e kind, .scope ⟨t.scopes.size⟩) :: h) =
          h.frames ++ [⟨kind, Frame.chain h.frames h.current⟩] := by
        rw [History.frames, History.made?, ← ha.members, hm, if_pos rfl]
      rw [enterMembers_of_none hm, Option.getD_none]
      refine ha.of_no_binding rfl rfl (entities_size_setMembers ..) (t.local?_newScope kind)
        (fun x => ?_) (fun x => ?_) ?_ ?_ (fun s => ?_)
        (fun s => (t.usedBy_newScope kind s).trans (ha.usedBy s)) (fun x => ?_)
      · rw [kind?, entity?_activate, entity?_setMembers, entity?_newScope, kind?]
        split
        · cases t.entity? x <;> rfl
        · rfl
      · rw [definition?, entity?_activate, entity?_setMembers, entity?_newScope, definition?]
        split
        · cases t.entity? x <;> rfl
        · rfl
      · rw [active_activate, active_setMembers, active_newScope, ha.active]
        rfl
      · rw [hmade, List.length_append, List.length_singleton, ← ha.scopes_size]
        exact size_newScope t kind
      · rw [hmade]
        exact ha.frame_newScope kind s
      · show _ = (h.members? x).or (if x = e then some ⟨t.scopes.size⟩ else none)
        rw [members?, entity?_activate, entity?_setMembers, entity?_newScope, ← ha.members]
        split
        · next hx => rw [hx, hi, hm]; rfl
        · exact Option.or_none.symm

theorem leave (ha : Agrees h t) : Agrees ((.leave, .done) :: h) t.leave := by
  have hactive : t.leave.active = History.active ((.leave, .done) :: h) := by
    rw [History.active, ← ha.active]
    cases ho : t.outer <;> simp [Table.leave, Table.active, ho]
  refine ha.of_no_binding rfl ?_ (by rw [entities_leave]) (fun s _ _ => ?_) (fun x => ?_)
    (fun x => ?_) hactive ?_ (fun s => ?_) (fun s => ?_) (fun x => ?_)
  · unfold Table.leave; split <;> rfl
  · rw [local?, scope?_leave, local?]
  · rw [kind?, entity?_leave, kind?]
  · rw [definition?, entity?_leave, definition?]
  · rw [scopes_leave, ha.scopes_size]
    rfl
  · rw [scope?_leave, ha.frame]
    rfl
  · rw [Table.usedBy, scope?_leave]
    exact ha.usedBy s
  · rw [members?, entity?_leave]
    exact ha.members x

theorem useNamespace (ha : Agrees h t) (hc : t.Closed t.present) (e : EntityId) :
    Agrees ((.useNamespace e, .done) :: h) (t.useNamespace e) := by
  rw [useNamespace_eq]
  cases hm : t.members? e with
  | none =>
      refine ha.of_no_binding rfl rfl rfl (fun _ _ _ => rfl) (fun _ => rfl) (fun _ => rfl)
        ha.active ha.scopes_size ha.frame (fun s => ?_) ha.members
      rw [History.usedBy, ← ha.members, hm]
      exact ha.usedBy s
  | some x =>
      have hused : ∀ s, History.usedBy ((.useNamespace e, .done) :: h) s =
          if s = t.bindingScope ∧ x ∉ t.usedBy s then t.usedBy s ++ [x] else t.usedBy s := by
        intro s
        rw [History.usedBy, ← ha.members, hm, ha.usedBy, bindingScope, ha.innermost]
      refine ha.of_no_binding rfl rfl rfl (t.local?_useIn _ _) (fun _ => rfl) (fun _ => rfl)
        ha.active ((scopes_size_useIn ..).trans ha.scopes_size) (fun s => ?_) (fun s => ?_)
        ha.members
      · rw [scope?_useIn]
        refine Eq.trans ?_ (ha.frame s)
        split
        · cases t.scope? s with
          | none => rfl
          | some scope => simp [Scope.frame]
        · rfl
      · rw [hused, Table.usedBy, scope?_useIn]
        by_cases hs : s = t.bindingScope
        · obtain ⟨scope, ho⟩ := exists_scope? (hc.innermost _)
          have ho : t.scope? s = some scope := by rw [hs]; exact ho
          by_cases hx : x ∈ scope.used <;>
            simp [← hs, Table.usedBy, ho, Scope.use, hx]
        · simp [hs, Table.usedBy]

/-! ### Operations -/

theorem empty (tagsAreTypes : Bool) : Agrees [] (empty tagsAreTypes) := by
  have hframe : ∀ s, ((Table.empty tagsAreTypes).scope? s).map Scope.frame =
      [(⟨.file, []⟩ : Frame)][s.index]? := fun s => by
    cases hi : s.index <;> simp [scope?, Table.empty, Scope.frame, hi]
  refine ⟨rfl, rfl, rfl, hframe, fun s space name => ?_, fun s => ?_, fun _ => rfl, fun _ => rfl,
    fun _ => rfl⟩
  · cases hi : s.index <;> simp [local?, scope?, Table.empty, Scope.local?, hi] <;> rfl
  · cases hi : s.index <;> simp [Table.usedBy, scope?, Table.empty, hi] <;> rfl

/-- **An operation has the answer that the history gives**, and the table goes on to agree. -/
theorem perform (ha : Agrees h t) (hc : t.Closed t.present)
    (hop : ∀ e ∈ op.subject?, e.index < t.entities.size) :
    (t.perform op).1 = h.answer t.tagsAreTypes op ∧
      Agrees ((op, h.answer t.tagsAreTypes op) :: h) (t.perform op).2 := by
  cases hb : op.binding? with
  | some b =>
      -- a binding completes the entity that it reuses, or makes one
      have hanswer : h.answer t.tagsAreTypes op =
          .entity ((h.reused? t.tagsAreTypes b).getD ⟨h.events.length⟩) := by
        simp only [History.answer, hb]
      rw [perform_of_binding hc.current hb, hanswer, ha.bindName_eq]
      cases hr : h.reused? t.tagsAreTypes b with
      | some e =>
          have hlocal : t.local? (h.target b.accepts) b.space b.name = some e :=
            (ha.latest ..).trans (Option.filter_eq_some_iff.1 hr).1
          obtain ⟨scope, ho, hmem⟩ := bound_of_local? hlocal
          have he : e.index < t.entities.size :=
            (hc.scope (lt_of_scope? ho) ho).names _ hmem
          exact ⟨rfl, ha.rebind hb (Array.getElem?_eq_getElem he)⟩
      | none =>
          refine ⟨congrArg (fun i => Answer.entity ⟨i⟩) ha.entities_size, ha.create hb ?_⟩
          rw [← ha.innermost]
          exact hc.innermost _
  | none =>
      cases op with
      | define | defineParameter | declare | declareImplicit => cases hb
      | enter kind =>
          have hanswer : h.answer t.tagsAreTypes (.enter kind) = .scope ⟨t.scopes.size⟩ := by
            rw [ha.scopes_size]; rfl
          rw [hanswer]
          exact ⟨rfl, ha.enter kind⟩
      | enterMembers e kind =>
          have hanswer : h.answer t.tagsAreTypes (.enterMembers e kind) =
              .scope ((t.members? e).getD ⟨t.scopes.size⟩) := by
            rw [ha.scopes_size, ha.members]; rfl
          have hscope : (t.enterMembers e kind).1 = (t.members? e).getD ⟨t.scopes.size⟩ := by
            cases hm : t.members? e with
            | some s => rw [enterMembers_of_some hm]; rfl
            | none => rw [enterMembers_of_none hm]; rfl
          rw [hanswer]
          exact ⟨congrArg Answer.scope hscope,
            ha.enterMembers (Array.getElem?_eq_getElem (hop e rfl)) kind⟩
      | leave => exact ⟨rfl, ha.leave⟩
      | useNamespace e => exact ⟨rfl, ha.useNamespace hc e⟩

/-- A list of operations has the answers of the history that it replays, and agrees with it. -/
theorem performAll (ha : Agrees h t) (hc : t.Closed t.present) {ops : List Operation}
    (hops : t.Allows ops) :
    (History.replay t.tagsAreTypes h ops).answers = h.answers ++ (t.performAll ops).1 ∧
      (t.performAll ops).2.tagsAreTypes = t.tagsAreTypes ∧
      Agrees (History.replay t.tagsAreTypes h ops) (t.performAll ops).2 := by
  induction ops generalizing h t with
  | nil => exact ⟨(List.append_nil _).symm, rfl, ha⟩
  | cons op ops ih =>
      obtain ⟨hanswer, hagrees⟩ := ha.perform hc hops.1
      have htags := (keeps_perform t op).tagsAreTypes
      obtain ⟨hanswers, htags', hagrees'⟩ := ih hagrees (hc.perform_present hops.1) hops.2
      rw [htags] at hanswers htags' hagrees'
      refine ⟨hanswers.trans ?_, htags', hagrees'⟩
      rw [performAll_cons, hanswer, History.answers, List.map_cons, List.reverse_cons,
        List.append_assoc]
      rfl

end Agrees

/-- **A table refines its history.**  Let operations be performed on an empty table, each about
entities that have been answered before.  Then every answer is the one that the history gives; and
after them the active scopes, the meaning of every name in every mode of lookup, and the kind and the
definition of every entity are those that the history tells. -/
theorem performAll_refines_history {tagsAreTypes : Bool} {ops : List Operation}
    (hops : (empty tagsAreTypes).Allows ops) :
    let h := History.replay tagsAreTypes [] ops
    let t := ((empty tagsAreTypes).performAll ops).2
    ((empty tagsAreTypes).performAll ops).1 = h.answers ∧ t.active = h.active ∧
      (∀ spaces name look,
        t.lookup spaces name look = h.lookup tagsAreTypes spaces name look) ∧
      ∀ e, t.kind? e = h.kind? e ∧ t.definition? e = h.definition? e := by
  intro h t
  obtain ⟨hanswers, htags, hagrees⟩ :=
    (Agrees.empty tagsAreTypes).performAll (closed_empty tagsAreTypes) hops
  refine ⟨hanswers.symm, hagrees.active, fun spaces name look => ?_, fun e =>
    ⟨hagrees.kind e, hagrees.definition e⟩⟩
  exact (hagrees.lookup spaces name look).trans (by rw [htags]; rfl)

/-- A tag that is declared as one kind and defined as another, whose name then becomes that of a type
as well, before it is defined again. -/
theorem performAll_refines_history_tag :
    let ops : List Operation :=
      [.declare .tag "S" .structTag, .define .tag "S" .classTag ⟨1⟩, .enterMembers ⟨0⟩ .classBody,
        .leave, .define .ordinary "S" .typedefName ⟨2⟩, .useNamespace ⟨0⟩,
        .define .tag "S" .structTag ⟨3⟩]
    ((empty true).performAll ops).1 =
        [.entity ⟨0⟩, .entity ⟨0⟩, .scope ⟨1⟩, .done, .entity ⟨1⟩, .done, .entity ⟨2⟩] ∧
      ((empty true).performAll ops).2.lookup [.ordinary] "S" .lexical = some ⟨2⟩ := by
  intro ops
  obtain ⟨hanswers, -, hlookup, -⟩ :=
    performAll_refines_history (by decide : (empty true).Allows ops)
  exact ⟨hanswers.trans (by decide), (hlookup ..).trans (by decide)⟩

end Table

end TypeUses
