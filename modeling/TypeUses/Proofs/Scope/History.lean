import TypeUses.Proofs.Scope.Binding

/-!
# Scopes — histories

The `History` of a table is the list of the operations on it, each with its answer, latest first.
All that a table knows can be read off its history:

* which scopes are active (`active`), and of each scope its kind and the scopes around it (`frames`);
* the creations of entities (`events`), and of each entity its kind, its definition and the scope of
  its members (`kind?`, `definition?`, `members?`);
* the entity that a scope binds under a name, which is that of the latest creation there under that
  name (`latest`); and the scopes that a scope uses (`usedBy`).

An operation is answered from these (`answer`), and so is a lookup (`lookup`).  Of a list of
operations the history follows (`replay`).
-/

namespace TypeUses

/-- What never changes of a scope. -/
structure Frame where
  kind : ScopeKind
  /-- the scopes around it, nearest first -/
  enclosing : List ScopeId
deriving DecidableEq, Repr

/-- A scope and those around it, nearest first. -/
def Frame.chain (frames : List Frame) (s : ScopeId) : List ScopeId :=
  s :: ((frames[s.index]?).map Frame.enclosing).getD []

/-- An entity is made and bound to a name. -/
structure Event where
  scope : ScopeId
  space : Space
  name : String
  entity : EntityId
deriving DecidableEq, Repr

/-- Operations and their answers, latest first. -/
abbrev History := List (Operation × Answer)

namespace History

/-! ### Scopes -/

/-- The active scopes, innermost first.  An operation that answers with a scope enters it. -/
def active : History → List ScopeId
  | [] => [Table.fileScope]
  | (.leave, _) :: h =>
    match active h with
    | _ :: s :: outer => s :: outer
    | scopes => scopes
  | (_, .scope s) :: h => s :: active h
  | _ :: h => active h

/-- The innermost active scope. -/
def current (h : History) : ScopeId := h.active.headD Table.fileScope

/-- The scope of an entity's members, the one in which they were entered first. -/
def members? : History → EntityId → Option ScopeId
  | [], _ => none
  | (.enterMembers e _, .scope s) :: h, x => (members? h x).or (if x = e then some s else none)
  | _ :: h, x => members? h x

/-- The kind of the scope that an operation makes, if it makes one. -/
def made? (h : History) : Operation → Option ScopeKind
  | .enter kind => some kind
  | .enterMembers e kind => if h.members? e = none then some kind else none
  | _ => none

/-- All scopes in the order in which they are made.  A scope lies in the one that is current when it
is made. -/
def frames : History → List Frame
  | [] => [⟨.file, []⟩]
  | (op, _) :: h =>
    match made? h op with
    | some kind => frames h ++ [⟨kind, Frame.chain (frames h) (current h)⟩]
    | none => frames h

/-- The kind of a scope and the scopes around it. -/
def frame? (h : History) (s : ScopeId) : Option Frame := h.frames[s.index]?

/-- The innermost active scope of an accepted kind. -/
def target (h : History) (accepts : ScopeKind → Bool) : ScopeId :=
  (h.active.find? fun s => ((h.frame? s).map fun f => accepts f.kind).getD false).getD
    Table.fileScope

/-- The scopes whose names are visible in a scope: those of the members of what has been used where
it was the innermost that is not a template's, each once. -/
def usedBy : History → ScopeId → List ScopeId
  | [], _ => []
  | (.useNamespace e, _) :: h, s =>
    match members? h e with
    | some x =>
      if s = target h (fun k => k != .template) ∧ x ∉ usedBy h s then usedBy h s ++ [x]
      else usedBy h s
    | none => usedBy h s
  | _ :: h, s => usedBy h s

/-! ### Entities -/

/-- The name that is bound and the entity that it means then. -/
def bound? : Operation × Answer → Option (Binding × EntityId)
  | (op, .entity e) => op.binding?.map fun b => (b, e)
  | _ => none

/-- The creations of entities, latest first.  An entity is made when the next number that is free is
answered. -/
def events : History → List Event
  | [] => []
  | entry :: h =>
    match bound? entry with
    | some (b, e) =>
      if e.index = (events h).length then ⟨target h b.accepts, b.space, b.name, e⟩ :: events h
      else events h
    | none => events h

/-- The kind of an entity, that of its latest definition or else that with which it was made. -/
def kind? : History → EntityId → Option EntityKind
  | [], _ => none
  | entry :: h, x =>
    match bound? entry with
    | some (b, e) =>
      if x = e then (if b.node = none then kind? h x else none).or (some b.kind) else kind? h x
    | none => kind? h x

/-- The node that defined an entity first. -/
def definition? : History → EntityId → Option NodeId
  | [], _ => none
  | entry :: h, x =>
    match bound? entry with
    | some (b, e) => (definition? h x).or (if x = e then b.node else none)
    | none => definition? h x

/-! ### Answers -/

section
variable (tagsAreTypes : Bool) (h : History)

/-- The entity of the latest event with this scope and name whose space is this one.  Where tags are
types, the space of a tag is that of ordinary names as well. -/
def latest (s : ScopeId) (space : Space) (name : String) : Option EntityId :=
  (h.events.find? fun ev => ev.scope = s ∧ ev.name = name ∧
    (ev.space = space ∨ tagsAreTypes ∧ ev.space = .tag ∧ space = .ordinary)).map Event.entity

/-- The binding of its name may mean this entity again: its kind is the same, or tags are types and
both are tags; and it is not to be defined a second time, unless it is a namespace. -/
def Reuses (b : Binding) (e : EntityId) : Prop :=
  (∃ kind ∈ h.kind? e, kind = b.kind ∨ tagsAreTypes ∧ kind.isTag ∧ b.kind.isTag) ∧
    (b.node = none ∨ h.definition? e = none ∨ b.kind = .namespaceName)

instance (b : Binding) (e : EntityId) : Decidable (h.Reuses tagsAreTypes b e) :=
  inferInstanceAs (Decidable (_ ∧ _))

/-- The entity that a binding means again. -/
def reused? (b : Binding) : Option EntityId :=
  (h.latest tagsAreTypes (h.target b.accepts) b.space b.name).filter
    fun e => h.Reuses tagsAreTypes b e

/-- The answer to an operation. -/
def answer (op : Operation) : Answer :=
  match op.binding?, op with
  | some b, _ => .entity ((h.reused? tagsAreTypes b).getD ⟨h.events.length⟩)
  | none, .enter _ => .scope ⟨h.frames.length⟩
  | none, .enterMembers e _ => .scope ((h.members? e).getD ⟨h.frames.length⟩)
  | none, _ => .done

/-- The meaning of a name in a scope: the latest there, else the latest in the first of the scopes
used there that binds it. -/
def search (spaces : List Space) (name : String) (s : ScopeId) : Option EntityId :=
  (s :: h.usedBy s).findSome? fun x =>
    spaces.findSome? fun space => h.latest tagsAreTypes x space name

/-- The meaning of a name. -/
def lookup (spaces : List Space) (name : String) : Lookup → Option EntityId
  | .lexical => (Frame.chain h.frames h.current).findSome? (h.search tagsAreTypes spaces name)
  | .member (some e) => (h.members? e).bind (h.search tagsAreTypes spaces name)
  | .member none => none
  | .global => h.search tagsAreTypes spaces name Table.fileScope

end

/-- The history that goes on with some operations. -/
def replay (tagsAreTypes : Bool) (h : History) : List Operation → History
  | [] => h
  | op :: ops => replay tagsAreTypes ((op, h.answer tagsAreTypes op) :: h) ops

/-- The answers, in the order in which they are given. -/
def answers (h : History) : List Answer := (h.map Prod.snd).reverse

/-! ### What one more operation changes -/

variable {h : History} {op : Operation} {b : Binding} {e : EntityId}

/-- A binding leaves alone what is not about entities. -/
theorem frame_of_binding (hb : op.binding? = some b) (h : History) (e : EntityId) :
    active ((op, .entity e) :: h) = h.active ∧ frames ((op, .entity e) :: h) = h.frames ∧
      members? ((op, .entity e) :: h) = h.members? ∧ usedBy ((op, .entity e) :: h) = h.usedBy := by
  cases op with
  | enter | enterMembers | leave | useNamespace => cases hb
  | define | defineParameter | declare | declareImplicit => exact ⟨rfl, rfl, rfl, rfl⟩

/-- A name means the latest entity that was bound to it in a scope. -/
theorem latest_cons {h' : History} {ev : Event} (hev : h'.events = ev :: h.events)
    (tagsAreTypes : Bool) (s : ScopeId) (space : Space) (name : String) :
    h'.latest tagsAreTypes s space name =
      if ev.scope = s ∧ ev.name = name ∧
          (ev.space = space ∨ tagsAreTypes ∧ ev.space = .tag ∧ space = .ordinary) then
        some ev.entity
      else h.latest tagsAreTypes s space name := by
  rw [latest, hev, List.find?_cons]
  split
  · next hm => rw [if_pos (of_decide_eq_true hm)]; rfl
  · next hm => rw [if_neg (of_decide_eq_false hm)]; rfl

/-- What an operation that binds no name leaves alone. -/
theorem frame_of_no_binding (hb : op.binding? = none) (h : History) (answer : Answer) :
    events ((op, answer) :: h) = h.events ∧ kind? ((op, answer) :: h) = h.kind? ∧
      definition? ((op, answer) :: h) = h.definition? := by
  have hbound : bound? (op, answer) = none := by cases answer <;> simp [bound?, hb]
  refine ⟨?_, funext fun x => ?_, funext fun x => ?_⟩
  · rw [events, hbound]
  · rw [kind?, hbound]
  · rw [definition?, hbound]

section Binding
variable (hb : op.binding? = some b)
include hb

theorem bound?_of_binding (e : EntityId) : bound? (op, .entity e) = some (b, e) := by
  rw [bound?, hb]
  rfl

/-- A binding that makes an entity is an event, and no other is. -/
theorem events_of_binding (h : History) (e : EntityId) :
    events ((op, .entity e) :: h) =
      if e.index = h.events.length then ⟨h.target b.accepts, b.space, b.name, e⟩ :: h.events
      else h.events := by
  rw [events, bound?_of_binding hb]

/-- A definition gives its entity the kind that it says, a declaration only if there was none. -/
theorem kind?_of_binding (h : History) (e x : EntityId) :
    kind? ((op, .entity e) :: h) x =
      if x = e then (if b.node = none then h.kind? x else none).or (some b.kind)
      else h.kind? x := by
  rw [kind?, bound?_of_binding hb]

/-- A binding gives its entity a definition, if it had none. -/
theorem definition?_of_binding (h : History) (e x : EntityId) :
    definition? ((op, .entity e) :: h) x =
      (h.definition? x).or (if x = e then b.node else none) := by
  rw [definition?, bound?_of_binding hb]

end Binding

end History

end TypeUses
