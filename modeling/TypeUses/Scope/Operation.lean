import TypeUses.Scope.Table

/-!
# Scopes — operations on a table as data

An `Operation` is one call on a table; `Table.perform` carries it out and gives its answer.  A
history of a table is the list of the operations that made it (`Table.performAll`).
-/

namespace TypeUses

/-- One call on a table that changes it. -/
inductive Operation
  | enter (kind : ScopeKind)
  | enterMembers (entity : EntityId) (kind : ScopeKind)
  | leave
  | define (space : Space) (name : String) (kind : EntityKind) (node : NodeId)
  | defineParameter (name : String) (kind : EntityKind) (node : NodeId)
  | declare (space : Space) (name : String) (kind : EntityKind)
  | declareImplicit (space : Space) (name : String) (kind : EntityKind)
  | useNamespace (entity : EntityId)
deriving DecidableEq, Repr

/-- The entity that an operation is about, if it is about one that exists already. -/
def Operation.subject? : Operation → Option EntityId
  | enterMembers entity _ | useNamespace entity => some entity
  | _ => none

/-- What an operation gives back. -/
inductive Answer
  | scope (scope : ScopeId)
  | entity (entity : EntityId)
  | done
deriving DecidableEq, Repr

namespace Table

/-- The answer to an operation, and the table after it. -/
def perform (t : Table) : Operation → Answer × Table
  | .enter kind => let (s, t) := t.enter kind; (.scope s, t)
  | .enterMembers e kind => let (s, t) := t.enterMembers e kind; (.scope s, t)
  | .leave => (.done, t.leave)
  | .define space name kind node => let (e, t) := t.define space name kind node; (.entity e, t)
  | .defineParameter name kind node =>
    let (e, t) := t.defineParameter name kind node; (.entity e, t)
  | .declare space name kind => let (e, t) := t.declare space name kind; (.entity e, t)
  | .declareImplicit space name kind =>
    let (e, t) := t.declareImplicit space name kind; (.entity e, t)
  | .useNamespace e => (.done, t.useNamespace e)

/-- The answers to a list of operations, and the table after them. -/
def performAll (t : Table) : List Operation → List Answer × Table
  | [] => ([], t)
  | op :: ops =>
    let (answer, t) := t.perform op
    let (answers, t) := t.performAll ops
    (answer :: answers, t)

end Table

end TypeUses
