import ArenaSql.Query.FieldName
import ArenaSql.Query.NodeRef
import ArenaSql.Text.Numeral

/-!
# Compile errors

Why a query could not be compiled. A failure either belongs to the resolution of a field or to the compilation
itself, in which case it may name the clause it was found in.
-/

namespace ArenaSql

/-- Why following a reference into the arena fails. -/
inductive ArenaFault where
  | outside (ref : NodeRef) (size : Nat)
  /-- The reference leads back to a node it came from. -/
  | cyclic
  deriving DecidableEq

inductive CompileError where
  | arena (fault : ArenaFault)
  | unknownTable (field : FieldName) (table : String)
  | unknownColumn (field : FieldName) (table : String)
  /-- A negation has other than one predicate. -/
  | negation
  /-- A node of a kind that has no text. -/
  | unknownNode (className : String)
  | notSubquery (ref : NodeRef)
  | notGrouping (className : String)
  | compilerUsed
  /-- The number of a generated alias got too long. -/
  | aliasNumber (error : Text.LengthError)
  | unknownDialect (name : String) (targets : List String)
  deriving DecidableEq

namespace CompileError

def message : CompileError → String
  | .arena (.outside ref size) =>
    let index := ref.text
    s!"Node index {index} is outside the arena (size {size})."
  | .arena .cyclic => "The expression refers back to itself."
  | .unknownTable _ table => s!"Unknown table '{table}'."
  | .unknownColumn field table =>
    let column := field.column
    s!"No column or lookup for '{column}' on table '{table}'."
  | .negation => "NOT takes exactly one predicate."
  | .unknownNode className => s!"Unknown node type: {className}"
  | .notSubquery ref =>
    let index := ref.text
    s!"Node {index} is not a subquery."
  | .notGrouping className => s!"Grouping node must be a summarise node, not {className}."
  | .compilerUsed => "QueryCompiler compiles exactly one QueryAST; create a new compiler for each query."
  | .aliasNumber error => error.message
  | .unknownDialect name targets =>
    let known := (Value.ofList .str targets).display
    s!"Unsupported dialect target: '{name}'. Registered targets: {known}."

/-- The clause an error was found in. -/
def clause? : CompileError → Option String
  | .negation => some "WHERE"
  | .unknownNode _ | .notSubquery _ => some "expression"
  | .notGrouping _ => some "GROUP BY"
  | _ => none

/-- The field and the table of an error of resolution. -/
def unresolved? : CompileError → Option (FieldName × String)
  | .unknownTable field table | .unknownColumn field table => some (field, table)
  | _ => none

end CompileError

end ArenaSql
