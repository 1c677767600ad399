import ArenaSql.Draft.Basic
import ArenaSql.Value.Printer

/-!
# Rendering expressions

An expression is rendered in one of two styles: with a placeholder for each literal other than null, or with
the literals written out. The second is its canonical text, by which aliases are found. The values of an
expression are its literals other than null, from left to right, and the values of its nested queries; they
come in the order in which the first style requests placeholders.
-/

namespace ArenaSql

inductive Style where
  | bound
  | inline
  deriving DecidableEq

/-! ## Leaves and connectives -/

/-- The text of a field: in its table, or in the primary table once there are joins, or as written. -/
def Field.text (sources : Sources) (f : Field) : String :=
  match f.table.filter (!·.isEmpty) with
  | some table => table ++ "." ++ f.name.column
  | none =>
    if !sources.joins.isEmpty && !f.name.isStar then sources.qualifier ++ "." ++ f.name.column
    else f.name.written

/-- The text of an operand, in parentheses if it is compound. -/
def Tree.operand (t : Tree) (sql : Sql) : Sql :=
  if t.isCompound then sql.parenthesized else sql

/-- Connects the predicates that have a text. -/
def CondOp.connect (op : CondOp) (parts : List Sql) : Except CompileError Sql :=
  match parts.filter (!·.isBlank), op with
  | [], _ => .ok []
  | [part], .neg => .ok (Sql.plain "NOT " ++ part.parenthesized)
  | _, .neg => .error .negation
  | [part], _ => .ok part
  | parts, op => .ok (Sql.joined (" " ++ op.text ++ " ") (parts.map Sql.parenthesized))

def Embedding.wrap (embedding : Embedding) (sql : Sql) : Sql :=
  match embedding with
  | .presence => Sql.plain "EXISTS " ++ sql.parenthesized
  | .scalar | .other _ => sql.parenthesized

def CmpOp.spelling (dialect : Dialect) : CmpOp → String
  | .like op => dialect.like op
  | op => op.text

namespace Scope

/-- A literal. Null is written out in both styles. -/
def literal (scope : Scope) (style : Style) (v : Value) : DraftM Sql :=
  match v, style with
  | .null, _ => return Sql.plain "NULL"
  | v, .inline => return Sql.plain v.literal
  | v, .bound => return [.bound v (← DraftM.placeholder scope.dialect)]

/-! ## Trees -/

mutual

def render (scope : Scope) (style : Style) : Tree → DraftM Sql
  | .field _ f => return Sql.plain (f.text (← get).query.tables)
  | .value v => scope.literal style v
  | .func name args => do
    let parts ← renderAll scope style args
    return Sql.plain (name ++ "(") ++ Sql.joined ", " parts ++ Sql.plain ")"
  | .calc op left right => do
    let l ← render scope style (left ())
    let r ← render scope style (right ())
    return (left ()).operand l ++ Sql.plain (" " ++ op.text ++ " ") ++ (right ()).operand r
  | .cmp op left right => do
    let l ← render scope style (left ())
    match op.nullTest?, (right ()).isNull with
    | some test, true => return (left ()).operand l ++ Sql.plain (" " ++ test)
    | _, _ =>
      let r ← render scope style (right ())
      return (left ()).operand l ++ Sql.plain (" " ++ op.spelling scope.dialect ++ " ") ++ (right ()).operand r
  | .cond op args => do
    let parts ← renderAll scope style args
    match op.connect parts with
    | .ok sql => return sql
    | .error e => throw e
  | .sort expr direction => do
    return (← render scope style (expr ())) ++ Sql.plain (" " ++ direction.text)
  | .summarise args => do
    return Sql.joined ", " (← renderAll scope style args)
  | .subquery index embedding => do
    return embedding.wrap (← scope.statementAt (.index index)).sql
  | .unknown className => throw (.unknownNode className)
  | .broken fault => throw (.arena fault)

def renderAll (scope : Scope) (style : Style) : List (Unit → Tree) → DraftM (List Sql)
  | [] => return []
  | t :: rest => do
    let sql ← render scope style (t ())
    return sql :: (← renderAll scope style rest)

end

/-- The text with literals written out. -/
def canonicalText (scope : Scope) (t : Tree) : DraftM String :=
  return (← scope.render .inline t).text

mutual

/-- The values of an expression, left to right. -/
def valuesOf (scope : Scope) : Tree → DraftM (List Value)
  | .value .null => return []
  | .value v => return [v]
  | .subquery index _ => return (← scope.statementAt (.index index)).values
  | .func _ args | .cond _ args | .summarise args => valuesOfAll scope args
  | .calc _ left right | .cmp _ left right => do
    let found ← valuesOf scope (left ())
    return found ++ (← valuesOf scope (right ()))
  | .sort expr _ => valuesOf scope (expr ())
  | .field .. | .unknown _ => return []
  | .broken fault => throw (.arena fault)

def valuesOfAll (scope : Scope) : List (Unit → Tree) → DraftM (List Value)
  | [] => return []
  | t :: rest => do
    let found ← valuesOf scope (t ())
    return found ++ (← valuesOfAll scope rest)

end

mutual

/-- Whether an expression has values. Nothing is read behind the first one. -/
def hasValues (scope : Scope) : Tree → DraftM Bool
  | .value .null => return false
  | .value _ => return true
  | .subquery index _ => return !(← scope.statementAt (.index index)).values.isEmpty
  | .func _ args | .cond _ args | .summarise args => anyHasValues scope args
  | .calc _ left right | .cmp _ left right => do
    if ← hasValues scope (left ()) then return true
    hasValues scope (right ())
  | .sort expr _ => hasValues scope (expr ())
  | .field .. | .unknown _ => return false
  | .broken fault => throw (.arena fault)

def anyHasValues (scope : Scope) : List (Unit → Tree) → DraftM Bool
  | [] => return false
  | t :: rest => do
    if ← hasValues scope (t ()) then return true
    anyHasValues scope rest

end

/-! ## Aliases -/

def isSimple (t : Tree) : DraftM Bool :=
  match t.isSimple with
  | .ok b => return b
  | .error fault => throw (.arena fault)

/-- The alias that an expression with this text already has. -/
def aliasOf? (scope : Scope) (t : Tree) : DraftM (Option String) := do
  let text ← scope.canonicalText t
  return (← get).aliases.find? text

/-- Gives the text of an expression a fresh alias. -/
def freshAlias (scope : Scope) (t : Tree) : DraftM String := do
  let text ← scope.canonicalText t
  match (← get).aliases.assign scope.config text with
  | .ok (name, aliases) =>
    modify ({ · with aliases := aliases })
    return name
  | .error e => throw (.aliasNumber e)

/-- Renders an expression that may be given an alias. A simple one stays as it is; one that has an alias is
that alias; any other defines a fresh one. -/
def renderAliased (scope : Scope) (t : Tree) : DraftM Sql := do
  if ← isSimple t then scope.render .bound t
  else match ← scope.aliasOf? t with
    | some name => return Sql.plain name
    | none =>
      let name ← scope.freshAlias t
      return (← scope.render .bound t) ++ Sql.plain (" AS " ++ name)

end Scope

end ArenaSql
