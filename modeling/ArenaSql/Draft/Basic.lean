import ArenaSql.AliasTable
import ArenaSql.Resolution
import ArenaSql.Sql

/-!
# Drafts

A draft is a query on its way to a statement: the query, whose fields get resolved as work goes on, the
statements of its nested queries that are already compiled, the aliases given so far, and the number of
placeholders requested. Work on a draft may fail, and then keeps what it did before.
-/

namespace ArenaSql

/-- What statements are made with. -/
structure Context where
  dialect : Dialect
  schema : Schema
  config : Config

/-- How compiling a query ended: the query as it is now, the placeholders requested so far, and the statement
or the reason why there is none. -/
structure Outcome where
  query : Query
  requested : Nat
  result : Except CompileError Statement

/-- A context, and how nested queries are compiled. -/
structure Scope extends Context where
  nested : Query → Nat → Outcome

structure Draft where
  query : Query
  /-- Statements of nested queries, by the positions of their nodes. -/
  statements : List (Nat × Statement) := []
  aliases : AliasTable := {}
  requested : Nat := 0

abbrev DraftM := ExceptT CompileError (StateM Draft)

namespace DraftM

def run {α : Type} (work : DraftM α) (draft : Draft) : Except CompileError α × Draft :=
  ExceptT.run work draft

/-! ### One step at a time -/

variable {α β : Type}

@[simp] theorem run_pure (a : α) (draft : Draft) : run (pure a) draft = (.ok a, draft) := rfl

@[simp] theorem run_throw (e : CompileError) (draft : Draft) :
    run (throw e : DraftM α) draft = (.error e, draft) := rfl

@[simp] theorem run_get (draft : Draft) : run get draft = (.ok draft, draft) := rfl

@[simp] theorem run_modify (f : Draft → Draft) (draft : Draft) : run (modify f) draft = (.ok (), f draft) := rfl

/-- A failure ends the work and keeps the draft. -/
theorem run_bind (work : DraftM α) (next : α → DraftM β) (draft : Draft) :
    run (work >>= next) draft =
      match run work draft with
      | (.ok a, after) => run (next a) after
      | (.error e, after) => (.error e, after) := by
  change (match run work draft with | (result, after) => ExceptT.bindCont next result after) = _
  rcases run work draft with ⟨result | a, after⟩ <;> rfl

/-- Work on the query alone. -/
def onQuery (work : Query → Query × Option CompileError) : DraftM Unit := do
  let (query, failure) := work (← get).query
  modify ({ · with query := query })
  match failure with
  | some e => throw e
  | none => pure ()

/-- The expression that a reference leads to. -/
def tree (ref : NodeRef) : DraftM Tree :=
  return (← get).query.tree ref

/-- Requests the next placeholder of a dialect. -/
def placeholder (dialect : Dialect) : DraftM String := do
  modify fun draft => { draft with requested := draft.requested + 1 }
  return dialect.placeholder (← get).requested

end DraftM

/-- A nested query, marked for the way it is embedded. -/
def Query.embedded (q : Query) (embedding : Embedding) : Query :=
  { q with
    subquery := true
    existsQuery := embedding == .presence
    subqueryExpression := embedding == .scalar
    forms := ["subquery", "exists_query", "subquery_expression"].foldr Fields.erase q.forms }

namespace Scope

/-- Compiles the nested query at a position. The query is kept as compiling left it. -/
def compileAt (scope : Scope) (index : Nat) (query : Query) (embedding : Embedding) : DraftM Statement := do
  let outcome := scope.nested (query.embedded embedding) (← get).requested
  modify fun draft => { draft with
    query := draft.query.setExpr index (.subquery outcome.query embedding)
    requested := outcome.requested }
  match outcome.result with
  | .error e => throw e
  | .ok statement =>
    modify fun draft => { draft with statements := (index, statement) :: draft.statements }
    return statement

/-- The statement of the nested query that a reference leads to, which is compiled when it is first asked
for. Once it is there, a reference only has to equal its position. -/
def statementAt (scope : Scope) (ref : NodeRef) : DraftM Statement := do
  let draft ← get
  match draft.statements.find? fun (i, _) => ref.equalPosition? == some i with
  | some (_, statement) => return statement
  | none =>
    match locate? draft.query.nodes ref with
    | none => throw (.arena (.outside ref draft.query.nodes.length))
    | some (index, { expr := .subquery query embedding, .. }) => scope.compileAt index query embedding
    | some _ => throw (.notSubquery ref)

end Scope

end ArenaSql
