import ArenaSql.Compile.Document
import ArenaSql.Compiler

/-!
# Sessions

A session holds named queries with their drafts, and named compilers. Work that fails keeps what it did before.
-/

namespace ArenaSql

structure Session where
  registry : Registry
  context : Context
  drafts : List (String × Draft) := []
  compilers : List (String × Compiler) := []

abbrev SessionM := ExceptT Failure (StateM Session)

/-- Starts a session on the queries of some documents. -/
def Session.start (registry : Registry) (schema : Value) (config : Option Value) (queries : Fields) :
    Except Failure Session := do
  let schema ← (Schema.ofValue schema).orFail
  let config ← Config.load {} config
  let context ← (registry.context schema config).mapError .compile
  let drafts ← queries.mapM fun (name, document) => do
    let query ← (Query.load document).mapError .load
    return (name, ({ query := query } : Draft))
  return { registry, context, drafts }

namespace SessionM

def lift {α : Type} : Except Failure α → SessionM α
  | .ok a => return a
  | .error e => throw e

def liftCompile {α : Type} : Except CompileError α → SessionM α
  | .ok a => return a
  | .error e => throw (.compile e)

def draft (name : String) : SessionM Draft := do
  match (← get).drafts.find? (·.1 == name) with
  | some (_, draft) => return draft
  | none => throw (.unknownQuery name)

def putDraft (name : String) (draft : Draft) : SessionM Unit :=
  modify fun s => { s with drafts := s.drafts.map fun (n, d) => if n == name then (n, draft) else (n, d) }

/-- Work on the draft of a query. -/
def onDraft {α : Type} (name : String) (work : Scope → DraftM α) : SessionM α := do
  let draft ← draft name
  let context := (← get).context
  let (result, draft) := (work (context.scopeWith context draft.query)).run draft
  putDraft name draft
  liftCompile result

def onQuery (name : String) (work : Query → Query) : SessionM Unit :=
  onDraft name fun _ => modify fun draft => { draft with query := work draft.query }

def query (name : String) : SessionM Query :=
  return (← draft name).query

/-- The node that a reference leads to, with its position. -/
def locate (name : String) (ref : NodeRef) : SessionM (Nat × Node) := do
  let query ← query name
  match locate? query.nodes ref with
  | some found => return found
  | none => throw (.compile (.arena (.outside ref query.nodes.length)))

/-- The node that a reference leads to, where a negative position counts from the end of the arena. -/
def locateFromEnd (name : String) (ref : NodeRef) : SessionM (Nat × Node) := do
  let size := (← query name).nodes.length
  locate name (ref.fromEnd size)

def fieldNodes (name : String) (ref : NodeRef) : SessionM (List Node) := do
  let query ← query name
  match (query.tree ref).fields with
  | (_, some e) => throw (.compile e)
  | (indices, none) => return indices.filterMap fun i => query.nodes[i]?

def contextFor (config : Config) : SessionM Context := do
  let s ← get
  liftCompile (s.registry.context s.context.schema config)

def compiler (name : String) : SessionM Compiler := do
  let s ← get
  match s.compilers.find? (·.1 == name) with
  | some (_, compiler) => return compiler
  | none => return Compiler.new s.context

def putCompiler (name : String) (compiler : Compiler) : SessionM Unit :=
  modify fun s => { s with compilers := (name, compiler) :: s.compilers.filter (·.1 != name) }

/-- Compiles a query of the session with a compiler. -/
def compileWith (name : String) (c : Compiler) : SessionM (Except CompileError Statement × Compiler) := do
  let draft ← draft name
  let (result, query, c) := c.compile name draft.query
  putDraft name { draft with query := query }
  return (result, c)

end SessionM

end ArenaSql
