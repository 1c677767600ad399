import ArenaSql.Dialect.Registry
import ArenaSql.Draft.Clauses

/-!
# Compiling queries

A query is compiled in passes. The record index is settled; then for the select list, the filter, the
grouping, the condition on groups and the ordering, in this order, the fields are resolved and the values
collected. Parts that the statement will not show are skipped, and so is null in the place of a reference. At
last the clauses are rendered. Nested queries are compiled in the same way when their values are first asked
for.
-/

namespace ArenaSql

namespace Scope

/-- The values of several expressions, in order. -/
def valuesOfRoots (scope : Scope) : List NodeRef → DraftM (List Value)
  | [] => return []
  | root :: rest => do
    let found ← scope.valuesOf (← DraftM.tree root)
    return found ++ (← valuesOfRoots scope rest)

/-- Resolves the fields of several expressions and collects their values. -/
def pass (scope : Scope) (refs : List NodeRef) : DraftM (List Value) := do
  let roots := refs.filter (!·.isNull)
  DraftM.onQuery (Query.resolveTrees scope.schema scope.config.joinType roots)
  scope.valuesOfRoots roots

/-- The condition on groups, if the statement shows it. -/
def shownHaving (q : Query) : List NodeRef :=
  if q.summarise.isSome then q.having.toList else []

/-- The ordering, if the statement may show it. -/
def shownOrder (q : Query) : List NodeRef :=
  if q.ordered && !q.simpleAggregate then q.order else []

/-- All values of the statement, in the order of the clauses that bind them. -/
def passes (scope : Scope) : DraftM (List Value) := do
  DraftM.onQuery Query.settleIndex
  let query := (← get).query
  let selected ← scope.pass query.select
  let filtered ← scope.pass query.head.toList
  let grouped ← scope.pass query.summarise.toList
  let conditions ← scope.pass (shownHaving query)
  let ordering ← scope.pass (shownOrder query)
  return selected ++ filtered ++ grouped ++ conditions ++ ordering

/-- The clauses of the statement, without those that are left out. -/
def clauses (scope : Scope) : DraftM (List Sql) := do
  let selecting ← scope.selectClause
  let sources ← fromClause
  let filter ← scope.whereClause
  let grouping ← scope.groupByClause
  let having ← scope.havingClause
  let ordering ← scope.orderByClause
  let limit ← scope.limitClause
  return selecting :: sources :: [filter, grouping, having, ordering, limit].filterMap id

end Scope

/-- The alias of a derived table. -/
def Query.derivedName (q : Query) : String :=
  (q.aliasName.filter (!·.isEmpty)).getD "_sub"

/-- A query embedded as a derived table stands in parentheses, with an alias. -/
def Query.derived (q : Query) (sql : Sql) : Sql :=
  if q.subquery && !q.existsQuery && !q.subqueryExpression then
    sql.parenthesized ++ Sql.plain (" AS " ++ q.derivedName)
  else sql

namespace Scope

def statement (scope : Scope) : DraftM Statement := do
  let values ← scope.passes
  let clauses ← scope.clauses
  let query := (← get).query
  return ⟨query.derived (Sql.joined " " clauses), values, scope.dialect.name⟩

/-- Compiles a query from a fresh draft. -/
def compile (scope : Scope) (q : Query) (requested : Nat) : Outcome :=
  let (result, draft) := scope.statement.run { query := q, requested := requested }
  ⟨draft.query, draft.requested, result⟩

end Scope

/-- Compiles a query whose nested queries, at most `depth` levels, are compiled in the context `inner`. -/
def compileWithin (inner : Context) : Nat → Context → Query → Nat → Outcome
  | 0, _, q, requested => ⟨q, requested, .error (.arena .cyclic)⟩
  | depth + 1, context, q, requested =>
    Scope.compile ⟨context, compileWithin inner depth inner⟩ q requested

/-- The scope of a query: nested queries are compiled in the context `inner`. -/
def Context.scopeWith (context inner : Context) (q : Query) : Scope :=
  ⟨context, compileWithin inner q.nesting inner⟩

/-- Compiles a query; nested queries are compiled in a context of their own. -/
def Query.compileWith (context inner : Context) (q : Query) : Outcome :=
  (context.scopeWith inner q).compile q 0

/-- Compiles a query. -/
def Query.compile (context : Context) (q : Query) : Outcome :=
  q.compileWith context context

/-- The dialect registered under a name. -/
def Registry.dialect (r : Registry) (name : String) : Except CompileError Dialect :=
  match r.find? name with
  | some dialect => .ok dialect
  | none => .error (.unknownDialect name r.targets)

/-- The context of a configuration, whose dialect has to be registered. -/
def Registry.context (r : Registry) (schema : Schema) (config : Config) : Except CompileError Context :=
  (r.dialect config.dialect).map fun dialect => ⟨dialect, schema, config⟩

end ArenaSql
