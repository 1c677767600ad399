import ArenaSql.Compile
import ArenaSql.Query.Document
import ArenaSql.Schema.Document

/-!
# Compiling documents

A query may be compiled straight from its document. The configuration is checked first, then the schema, the
query and the dialect.
-/

namespace ArenaSql

/-- Why a request on documents has no answer. -/
inductive Failure where
  | invalid (issues : List Issue)
  | load (error : LoadError)
  | compile (error : CompileError)
  /-- A session has no query of this name. -/
  | unknownQuery (name : String)
  /-- A query or node has no part of this name. -/
  | unknownPart (className part : String)

/-- What is said of a part that a query or node does not have. -/
def unknownPartMessage (className part : String) : String :=
  "\"" ++ className ++ "\" object has no field \"" ++ part ++ "\""

def Checked.orFail {α : Type} (checked : Checked α) : Except Failure α :=
  checked.toExcept.mapError .invalid

/-- The configuration of a document, or the default one. -/
def Config.load (default : Config) : Option Value → Except Failure Config
  | some v => (Config.ofValue v).orFail
  | none => .ok default

/-- The configuration with another dialect, if one is given. -/
def Config.withDialect (c : Config) (dialect : Option String) : Config :=
  { c with dialect := dialect.getD c.dialect }

/-- Compiles a query that is at hand. -/
def Registry.compileQuery (r : Registry) (schema : Schema) (config : Config) (q : Query) :
    Except Failure Statement := do
  let context ← (r.context schema config).mapError .compile
  (q.compile context).result.mapError .compile

/-- Compiles the query of a document. -/
def Registry.compileDocument (r : Registry) (schema query : Value) (config : Option Value)
    (dialect : Option String) : Except Failure Statement := do
  let config ← Config.load {} config
  let schema ← (Schema.ofValue schema).orFail
  let query ← (Query.load query).mapError .load
  r.compileQuery schema (config.withDialect dialect) query

end ArenaSql
