import ArenaSql.Draft.Rendering
import ArenaSql.Query.Paging

/-!
# Clauses

Each clause of a statement is rendered from a draft, or left out. Resolution and the collection of values come
before, so clauses only render.
-/

namespace ArenaSql

/-! ## FROM -/

/-- A joined table, with the condition that ties it to the primary table. -/
def Join.text (qualifier : String) (j : Join) : String :=
  j.type.text ++ " JOIN " ++ j.table ++ " ON " ++ qualifier ++ "." ++ j.fromCol ++ " = " ++ j.table ++ "." ++ j.toCol

/-- The primary table, with its alias unless that is empty. -/
def Sources.primaryText (s : Sources) : String :=
  match s.aliasName.filter (!·.isEmpty) with
  | some name => s.table ++ " AS " ++ name
  | none => s.table

def Sources.text (s : Sources) : String :=
  " ".intercalate (s.primaryText :: s.joins.map (Join.text s.qualifier))

namespace Scope

def fromClause : DraftM Sql :=
  return Sql.plain ("FROM " ++ (← get).query.tables.text)

/-! ## SELECT and WHERE -/

/-- An expression with the alias of its node, unless that is empty. -/
def selectItem (scope : Scope) (ref : NodeRef) : DraftM Sql := do
  let sql ← scope.render .bound (← DraftM.tree ref)
  match ((← get).query.node? ref).bind (·.aliasName.filter (!·.isEmpty)) with
  | some name => return sql ++ Sql.plain (" AS " ++ name)
  | none => return sql

def selectItems (scope : Scope) : List NodeRef → DraftM (List Sql)
  | [] => return []
  | ref :: rest => do
    let sql ← scope.selectItem ref
    return sql :: (← selectItems scope rest)

def selectClause (scope : Scope) : DraftM Sql := do
  match (← get).query.select with
  | [] => return Sql.plain "SELECT *"
  | refs => return Sql.plain "SELECT " ++ Sql.joined ", " (← scope.selectItems refs)

def whereClause (scope : Scope) : DraftM (Option Sql) := do
  match (← get).query.head with
  | none => return none
  | some root =>
    let sql ← scope.render .bound (← DraftM.tree root)
    if sql.isBlank then return none else return some (Sql.plain "WHERE " ++ sql)

/-! ## GROUP BY and HAVING -/

/-- An argument of the grouping. One that has values is written out even if it has an alias, as the values are
bound again. -/
def groupItem (scope : Scope) (ref : NodeRef) : DraftM Sql := do
  let t ← DraftM.tree ref
  if ← isSimple t then scope.render .bound t
  else
    let known := (← scope.aliasOf? t).isSome
    if known then
      if ← scope.hasValues t then scope.render .bound t else scope.renderAliased t
    else scope.renderAliased t

def groupItems (scope : Scope) : List NodeRef → DraftM (List Sql)
  | [] => return []
  | ref :: rest => do
    let sql ← scope.groupItem ref
    return sql :: (← groupItems scope rest)

def groupByClause (scope : Scope) : DraftM (Option Sql) := do
  let query := (← get).query
  match query.summarise with
  | none => return none
  | some root =>
    match query.expr? root with
    | none => throw (.arena (.outside root query.nodes.length))
    | some (.summarise []) => return none
    | some (.summarise args) =>
      return some (Sql.plain "GROUP BY " ++ Sql.joined ", " (← scope.groupItems args))
    | some expr => throw (.notGrouping expr.className)

/-- Only a grouped query has this clause, which stays even if its condition has no text. -/
def havingClause (scope : Scope) : DraftM (Option Sql) := do
  let query := (← get).query
  match query.summarise, query.having with
  | some _, some root =>
    return some (Sql.plain "HAVING " ++ (← scope.render .bound (← DraftM.tree root)))
  | _, _ => return none

/-! ## ORDER BY -/

/-- A term of the ordering. A sorted expression that has an alias and no values is sorted by its alias. -/
def orderItem (scope : Scope) (ref : NodeRef) : DraftM Sql := do
  let t ← DraftM.tree ref
  match t with
  | .sort expr direction =>
    if ← isSimple (expr ()) then scope.render .bound t
    else if ← scope.hasValues (expr ()) then scope.render .bound t
    else match ← scope.aliasOf? (expr ()) with
      | some name => return Sql.plain (name ++ " " ++ direction.text)
      | none => scope.render .bound t
  | t => scope.render .bound t

def orderItems (scope : Scope) : List NodeRef → DraftM (List Sql)
  | [] => return []
  | ref :: rest => do
    let sql ← scope.orderItem ref
    return sql :: (← orderItems scope rest)

def orderByClause (scope : Scope) : DraftM (Option Sql) := do
  let query := (← get).query
  if query.simpleAggregate || !query.ordered || query.order.isEmpty then return none
  return some (Sql.plain "ORDER BY " ++ Sql.joined ", " (← scope.orderItems query.order))

/-! ## LIMIT -/

def limitClause (scope : Scope) : DraftM (Option Sql) :=
  return ((← get).query.limit? scope.config.countOption).map Sql.plain

end Scope

end ArenaSql
