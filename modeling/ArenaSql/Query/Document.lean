import ArenaSql.Document.Reader
import ArenaSql.Query.Basic

/-!
# Queries as documents

A query is read from a record, and its nodes from records with a `kind`. Nested queries are read like the
outermost; the depth of the document bounds how deep they go. `Query.toValue` writes every field, so that
reading what was written gives the query back.
-/

namespace ArenaSql

open Decode

/-! ## Reading -/

def Field.ofFields (fields : Fields) : Checked Field :=
  (fun name table resolved => { name := .text name, table, resolved }) <$> required fields "name" text
    <*> optional fields "table" none (nullable text)
    <*> optional fields "resolved" false bool

def NodeRef.ofValue (v : Value) : Checked NodeRef :=
  .index <$> integer v

/-- The fields that every node may have. -/
def nodeFields : List String := ["alias", "kind"]

/-- A node of which `decode` reads the content, from the named fields. -/
def Node.ofFields (known : List String) (decode : Fields → Checked Expr) (fields : Fields) : Checked Node :=
  (fun aliasName expr => { aliasName, expr }) <$> optional fields "alias" none (nullable text)
    <*> decode fields
    <* noOthers (nodeFields ++ known) fields

/-- How the nodes of a kind are read, given how nested queries are. -/
def Node.reader? (nested : Value → Checked Query) : String → Option (Fields → Checked Node)
  | "field" => some <| Node.ofFields ["name", "table", "resolved"] fun fields =>
      .field <$> Field.ofFields fields
  | "value" => some <| Node.ofFields ["value"] fun fields =>
      .value <$> optional fields "value" .null .ok
  | "func" => some <| Node.ofFields ["func", "args"] fun fields =>
      .func <$> required fields "func" text <*> optional fields "args" [] (list NodeRef.ofValue)
  | "calc" => some <| Node.ofFields ["op", "left", "right"] fun fields =>
      .calc <$> required fields "op" (choice CalcOp.all CalcOp.text)
        <*> required fields "left" NodeRef.ofValue <*> required fields "right" NodeRef.ofValue
  | "cmp" => some <| Node.ofFields ["op", "left", "right"] fun fields =>
      .cmp <$> required fields "op" (choice CmpOp.all CmpOp.text)
        <*> required fields "left" NodeRef.ofValue <*> required fields "right" NodeRef.ofValue
  | "cond" => some <| Node.ofFields ["op", "args"] fun fields =>
      .cond <$> optional fields "op" .conj (choice CondOp.all CondOp.text)
        <*> optional fields "args" [] (list NodeRef.ofValue)
  | "sort" => some <| Node.ofFields ["expr", "direction"] fun fields =>
      .sort <$> required fields "expr" NodeRef.ofValue
        <*> optional fields "direction" .asc (choice Direction.all Direction.text)
  | "summarise" => some <| Node.ofFields ["args"] fun fields =>
      .summarise <$> optional fields "args" [] (list NodeRef.ofValue)
  | "subquery" => some <| Node.ofFields ["query", "mode"] fun fields =>
      .subquery <$> required fields "query" nested
        <*> optional fields "mode" .presence (choice Embedding.all Embedding.text)
  | _ => none

/-- A node of any kind. The kind is part of the path to what is inside. -/
def Node.ofValueWith (nested : Value → Checked Query) : Value → Checked Node
  | .object fields =>
    match Fields.get? fields "kind" with
    | none => .issue .kindMissing
    | some (.str kind) =>
      match Node.reader? nested kind with
      | some read => (read fields).under (.field kind)
      | none => .issue .kindUnknown
    | some _ => .issue .kindUnknown
  | _ => .issue .notNode

def Query.ofValueWith (nested : Value → Checked Query) : Value → Checked Query :=
  record fun fields =>
    Query.mk <$> optional fields "nodes" [] (list (Node.ofValueWith nested))
      <*> optional fields "select" [] (list NodeRef.ofValue)
      <*> optional fields "head" none (nullable NodeRef.ofValue)
      <*> optional fields "summarise" none (nullable NodeRef.ofValue)
      <*> optional fields "having" none (nullable NodeRef.ofValue)
      <*> optional fields "order" [] (list NodeRef.ofValue)
      <*> optional fields "options" [] (mapping (list text))
      <*> required fields "tables" Sources.ofValue
      <*> optional fields "subquery" false bool
      <*> optional fields "exists_query" false bool
      <*> optional fields "subquery_expression" false bool
      <*> optional fields "alias" none (nullable text)
      <*> optional fields "record_index" none (nullable fun v => .whole <$> integer v)
      <*> optional fields "ordered" false bool
      <*> optional fields "simple_aggregate" false bool
      <*> pure []
      <* noOthers ["nodes", "select", "head", "summarise", "having", "order", "options", "tables", "subquery",
          "exists_query", "subquery_expression", "alias", "record_index", "ordered", "simple_aggregate"] fields

/-- Reads queries nested at most `n` deep. -/
def Query.ofValueWithin : Nat → Value → Checked Query
  | 0 => fun _ => .issue .notRecord
  | n + 1 => Query.ofValueWith (Query.ofValueWithin n)

def Query.ofValue (v : Value) : Checked Query :=
  Query.ofValueWithin (v.depth + 1) v

def Node.ofValue (v : Value) : Checked Node :=
  Node.ofValueWith (Query.ofValueWithin v.depth) v

/-- A field on its own, which may carry its kind. -/
def Field.ofValue : Value → Checked (Option String × Field) :=
  record fun fields =>
    Prod.mk <$> optional fields "alias" none (nullable text)
      <* optional fields "kind" () (choice [()] fun _ => "field")
      <*> Field.ofFields fields
      <* noOthers (nodeFields ++ ["name", "table", "resolved"]) fields

/-! ## Loading -/

inductive LoadError where
  /-- The text is no document. -/
  | unreadable (source : String) (error : Document.ReadError)
  /-- The document is no query. -/
  | invalid (fromText : Bool) (issues : List Issue)

def LoadError.message : LoadError → String
  | .unreadable source (.malformed problem offset) =>
    "Invalid JSON: " ++ Document.ReadError.message source (.malformed problem offset)
  | .unreadable source error => error.message source
  | .invalid .. => "QueryAST structure is invalid"

/-- Loads a query from a document, or from the text of one. -/
def Query.load : Value → Except LoadError Query
  | .str source =>
    match Document.read source with
    | .ok v => (Query.ofValue v).toExcept.mapError (.invalid true)
    | .error e => .error (.unreadable source e)
  | v => (Query.ofValue v).toExcept.mapError (.invalid false)

/-! ## Writing -/

def Field.members (f : Field) : Fields :=
  Fields.showing f.forms
    [("name", f.name.toValue), ("table", .ofOption .str f.table), ("resolved", .bool f.resolved)]

mutual

def Query.toValue : Query → Value
  | ⟨nodes, select, head, summarise, having, order, options, tables, subquery, existsQuery, subqueryExpression,
      aliasName, recordIndex, ordered, simpleAggregate, forms⟩ =>
    .object <| Fields.showing forms [("nodes", .list (nodesToValues nodes)),
      ("select", .ofList NodeRef.toValue select), ("head", .ofOption NodeRef.toValue head),
      ("summarise", .ofOption NodeRef.toValue summarise), ("having", .ofOption NodeRef.toValue having),
      ("order", .ofList NodeRef.toValue order),
      ("options", .object (options.map fun (name, args) => (name, .ofList .str args))),
      ("tables", tables.toValue), ("subquery", .bool subquery), ("exists_query", .bool existsQuery),
      ("subquery_expression", .bool subqueryExpression), ("alias", .ofOption .str aliasName),
      ("record_index", .ofOption RecordIndex.toValue recordIndex), ("ordered", .bool ordered),
      ("simple_aggregate", .bool simpleAggregate)]

def Node.toValue : Node → Value
  | ⟨_, .raw given, _⟩ => given
  | ⟨aliasName, expr, forms⟩ => .object (Fields.showing forms (("alias", .ofOption .str aliasName) :: expr.members))

/-- The kind of an expression and the fields of that kind. -/
def Expr.members : Expr → Fields
  | .field f => ("kind", .str "field") :: f.members
  | .value v => [("kind", .str "value"), ("value", v)]
  | .func name args => [("kind", .str "func"), ("func", .str name), ("args", .ofList NodeRef.toValue args)]
  | .calc op left right =>
    [("kind", .str "calc"), ("op", op.toValue), ("left", left.toValue), ("right", right.toValue)]
  | .cmp op left right =>
    [("kind", .str "cmp"), ("op", op.toValue), ("left", left.toValue), ("right", right.toValue)]
  | .cond op args => [("kind", .str "cond"), ("op", op.toValue), ("args", .ofList NodeRef.toValue args)]
  | .sort expr direction =>
    [("kind", .str "sort"), ("expr", expr.toValue), ("direction", direction.toValue)]
  | .summarise args => [("kind", .str "summarise"), ("args", .ofList NodeRef.toValue args)]
  | .subquery query embedding =>
    [("kind", .str "subquery"), ("query", query.toValue), ("mode", embedding.toValue)]
  | .bare | .raw _ => []

def nodesToValues : List Node → List Value
  | [] => []
  | node :: rest => node.toValue :: nodesToValues rest

end

end ArenaSql
