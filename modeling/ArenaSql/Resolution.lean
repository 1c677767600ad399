import ArenaSql.Config
import ArenaSql.Query.Tree
import ArenaSql.Schema.Basic

/-!
# Resolution of fields

A field is placed against the primary table of its query. A qualified name and the star are taken as written;
a qualifier that is the target of a lookup of the primary table joins that lookup. A column of the primary
table stays there. Any other column has to be exposed by a lookup of the primary table, which is then joined.
Every lookup is joined at most once, and a resolved field stays as it is.
-/

namespace ArenaSql

/-! ## One field -/

/-- Where a column was found. -/
inductive Placement where
  /-- Taken as written; the qualifier may lead to a lookup. -/
  | asWritten (table : Option String) (via : Option Lookup)
  | primary
  | through (lookup : Lookup)

/-- Places an unqualified column other than the star. -/
def Schema.placeColumn (s : Schema) (primary : String) (name : FieldName) : Except CompileError Placement :=
  match s.table? primary, name with
  | none, _ => .error (.unknownTable name primary)
  | some _, .other _ => .error (.unknownColumn name primary)
  | some table, .text column =>
    if table.columnNames.contains column then .ok .primary
    else match s.lookupFor? primary column with
      | some lookup => .ok (.through lookup)
      | none => .error (.unknownColumn name primary)

def Schema.place (s : Schema) (primary : String) (name : FieldName) : Except CompileError Placement :=
  match name with
  | .other _ => s.placeColumn primary name
  | .text written =>
    match (ColumnRef.parse written).table with
    | some table =>
      .ok (.asWritten (some table) (if table = primary then none else s.lookupTo? primary table))
    | none => if written = "*" then .ok (.asWritten none none) else s.placeColumn primary name

/-- The lookup that a placement needs. -/
def Placement.lookup? : Placement → Option Lookup
  | .asWritten _ via => via
  | .primary => none
  | .through lookup => some lookup

/-- The field once it is placed. -/
def Placement.settle (f : Field) : Placement → Field
  | .asWritten table _ => { f with table := table, resolved := true, forms := [] }
  | .primary => { f with resolved := true, forms := Fields.erase "resolved" f.forms }
  | .through lookup => { f with table := some lookup.toTable, resolved := true, forms := [] }

/-- Joins a lookup, unless it is joined already. -/
def Sources.join (s : Sources) (type : JoinType) (lookup : Lookup) : Sources :=
  if s.hasJoin lookup.key then s
  else { s with joins := s.joins ++ [⟨lookup.key, lookup.toTable, lookup.fromCol, lookup.toCol, type⟩] }

def Sources.joinAny (s : Sources) (type : JoinType) : Option Lookup → Sources
  | some lookup => s.join type lookup
  | none => s

/-- Resolves a field, and joins the lookup it needs. -/
def Field.resolve (schema : Schema) (type : JoinType) (sources : Sources) (f : Field) :
    Except CompileError (Field × Sources) :=
  if f.resolved then .ok (f, sources)
  else match schema.place sources.table f.name with
    | .error e => .error e
    | .ok placement => .ok (placement.settle f, sources.joinAny type placement.lookup?)

/-! ## The fields of a query -/

namespace Query

/-- Resolves the field at a position of the arena. What is no field stays as it is. -/
def resolveAt (schema : Schema) (type : JoinType) (q : Query) (index : Nat) : Except CompileError Query :=
  match q.expr? (.index index) with
  | some (.field f) =>
    match f.resolve schema type q.tables with
    | .error e => .error e
    | .ok (f, tables) => .ok { q.setExpr index (.field f) with tables := tables }
  | _ => .ok q

/-- Resolves the fields of an expression from left to right. If one cannot be resolved or the expression is
broken, those before stay resolved. -/
def resolveTree (schema : Schema) (type : JoinType) (root : NodeRef) (q : Query) :
    Query × Option CompileError :=
  (q.tree root).walk (fun index q =>
    match q.resolveAt schema type index with
    | .ok q => (q, none)
    | .error e => (q, some e)) q

/-- Resolves the fields of several expressions. -/
def resolveTrees (schema : Schema) (type : JoinType) : List NodeRef → Query → Query × Option CompileError
  | [], q => (q, none)
  | root :: rest, q =>
    match q.resolveTree schema type root with
    | (q, none) => resolveTrees schema type rest q
    | failed => failed

end Query

end ArenaSql
