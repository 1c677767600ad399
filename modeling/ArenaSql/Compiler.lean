import ArenaSql.Compile

/-!
# Compilers

A compiler serves one query. After its first success it answers with the same statement for that query, which
is known by a name, and refuses any other. A failure leaves it unused.
-/

namespace ArenaSql

structure Compiler where
  context : Context
  /-- The context of nested queries. -/
  inner : Context
  /-- The name of the query it compiled, and the statement. -/
  done : Option (String × Statement) := none

namespace Compiler

/-- A compiler with one context for a query and all queries nested in it. -/
def new (context : Context) : Compiler :=
  ⟨context, context, none⟩

/-- The answer, the query as it is afterwards, and the compiler as it is afterwards. -/
def compile (c : Compiler) (name : String) (q : Query) : Except CompileError Statement × Query × Compiler :=
  match c.done with
  | some (served, statement) => (if served = name then .ok statement else .error .compilerUsed, q, c)
  | none =>
    let outcome := q.compileWith c.context c.inner
    match outcome.result with
    | .ok statement => (.ok statement, outcome.query, { c with done := some (name, statement) })
    | .error e => (.error e, outcome.query, c)

end Compiler

end ArenaSql
