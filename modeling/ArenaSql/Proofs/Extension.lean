import ArenaSql.Proofs.Compilable
import ArenaSql.Proofs.Growth
import ArenaSql.Schema.Inference

/-!
# Schemas with more lookups

A name without a point is looked up in the primary table and then in the lookups, of which the first one counts. So
lookups that are added behind those of a schema are asked only for names that could not be resolved before. A query
without qualified names that compiles is therefore compiled in the same way when lookups are added, for instance those
that are inferred from the names of columns.
-/

namespace ArenaSql

open DraftM

/-! ## More lookups -/

def Schema.extended (s : Schema) (extra : List Lookup) : Schema :=
  { s with lookups := s.lookups ++ extra }

/-- The context with lookups behind those of its schema. -/
def Context.extended (context : Context) (extra : List Lookup) : Context :=
  { context with schema := context.schema.extended extra }

theorem Schema.lookupFor?_extended {s : Schema} {table column : String} {l : Lookup}
    (h : s.lookupFor? table column = some l) (extra : List Lookup) :
    (s.extended extra).lookupFor? table column = some l := by
  rw [lookupFor?] at h ⊢
  exact (List.find?_append ..).trans (by rw [h, Option.some_or])

/-! ## Names without a point -/

def FieldName.isDotted : FieldName → Bool
  | .text name => name.toList.contains '.'
  | .other _ => false

mutual

/-- The names of all fields of a query and of the queries nested in it. -/
def Query.fieldNames : Query → List FieldName
  | { nodes, .. } => fieldNamesAll nodes

def Node.fieldNames : Node → List FieldName
  | { expr, .. } => expr.fieldNames

def Expr.fieldNames : Expr → List FieldName
  | .field f => [f.name]
  | .subquery query _ => query.fieldNames
  | .value _ | .func .. | .calc .. | .cmp .. | .cond .. | .sort .. | .summarise _ | .bare | .raw _ => []

def fieldNamesAll : List Node → List FieldName
  | [] => []
  | node :: rest => node.fieldNames ++ fieldNamesAll rest

end

/-- No field is named with a point, also in the queries nested in the query. -/
def Query.Undotted (q : Query) : Prop :=
  ∀ name ∈ q.fieldNames, name.isDotted = false

def Expr.Undotted (expr : Expr) : Prop :=
  ∀ name ∈ expr.fieldNames, name.isDotted = false

theorem mem_fieldNamesAll_iff {nodes : List Node} {name : FieldName} :
    name ∈ fieldNamesAll nodes ↔ ∃ node ∈ nodes, name ∈ node.expr.fieldNames := by
  induction nodes with
  | nil => simp [fieldNamesAll]
  | cons node rest ih => cases node; simp [fieldNamesAll, Node.fieldNames, ih]

namespace Query

variable {q : Query}

theorem undotted_iff : q.Undotted ↔ ∀ (i : Nat) expr, q.expr? (.index i) = some expr → expr.Undotted := by
  have hmem : ∀ name, name ∈ q.fieldNames ↔ ∃ node ∈ q.nodes, name ∈ node.expr.fieldNames := by
    intro name
    cases q
    exact mem_fieldNamesAll_iff
  constructor
  · intro h i expr hexpr name hname
    rw [expr?_index] at hexpr
    obtain ⟨node, hnode, rfl⟩ := Option.map_eq_some_iff.mp hexpr
    exact h name ((hmem name).mpr ⟨node, List.mem_of_getElem? hnode, hname⟩)
  · intro h name hname
    obtain ⟨node, hnode, hname⟩ := (hmem name).mp hname
    obtain ⟨i, hi⟩ := List.getElem?_of_mem hnode
    exact h i node.expr (by rw [expr?_index, hi, Option.map_some]) name hname

theorem Undotted.setExpr (h : q.Undotted) (i : Nat) {new : Expr} (hnew : new.Undotted) :
    (q.setExpr i new).Undotted := by
  refine undotted_iff.mpr fun j expr hexpr => ?_
  rw [expr?_index, getElem?_setExpr] at hexpr
  obtain ⟨node, hnode, rfl⟩ := Option.map_eq_some_iff.mp hexpr
  split at hnode
  · obtain ⟨node, -, rfl⟩ := Option.map_eq_some_iff.mp hnode
    exact hnew
  · exact undotted_iff.mp h j _ (by rw [expr?_index, hnode, Option.map_some])

theorem Undotted.of_nodes (h : q.Undotted) {q' : Query} (hnodes : q'.nodes = q.nodes) : q'.Undotted := by
  refine undotted_iff.mpr fun i expr hexpr => undotted_iff.mp h i expr ?_
  rwa [expr?_index, hnodes, ← expr?_index] at hexpr

theorem Undotted.settleIndex (h : q.Undotted) : q.settleIndex.1.Undotted := by
  obtain ⟨f, recordIndex, forms, hf, heq⟩ := q.settleIndex_eq
  refine undotted_iff.mpr fun i expr' hexpr' => ?_
  have hmap : q.settleIndex.1.expr? (.index i) = (q.expr? (.index i)).map (f i) := by
    rw [heq]
    exact q.expr?_mapExprs_index f i
  rw [hmap] at hexpr'
  obtain ⟨expr, hexpr, rfl⟩ := Option.map_eq_some_iff.mp hexpr'
  rcases hf i expr with hsame | ⟨ref, d, d', -, -, hsort⟩
  · rw [hsame]
    exact undotted_iff.mp h i expr hexpr
  · rw [hsort]
    intro name hname
    cases hname

end Query

/-! ## Resolution -/

namespace Schema

variable {s : Schema} {primary : String} {name : FieldName} {placement : Placement}

theorem placeColumn_extended (h : s.placeColumn primary name = .ok placement) (extra : List Lookup) :
    (s.extended extra).placeColumn primary name = .ok placement := by
  have htable : (s.extended extra).table? primary = s.table? primary := rfl
  unfold placeColumn at h ⊢
  rw [htable]
  split at h
  · cases h
  · cases h
  · rename_i table column _
    split
    · rename_i hcolumn
      rwa [if_pos hcolumn] at h
    · rename_i hcolumn
      rw [if_neg hcolumn] at h
      cases hlookup : s.lookupFor? primary column with
      | none => rw [hlookup] at h; cases h
      | some l =>
        rw [lookupFor?_extended hlookup]
        rwa [hlookup] at h

/-- Where a name without a point was found, it is found again. -/
theorem place_extended (hname : name.isDotted = false) (h : s.place primary name = .ok placement)
    (extra : List Lookup) : (s.extended extra).place primary name = .ok placement := by
  cases name with
  | other given => exact placeColumn_extended h extra
  | text written =>
    have hparse : (ColumnRef.parse written).table = none := by
      rw [ColumnRef.table_parse_eq_none_iff]
      simpa [FieldName.isDotted] using hname
    rw [place, hparse] at h ⊢
    dsimp only at h ⊢
    split
    · rename_i hstar
      rwa [if_pos hstar] at h
    · rename_i hstar
      rw [if_neg hstar] at h
      exact placeColumn_extended h extra

end Schema

theorem Field.resolve_extended {schema : Schema} {type : JoinType} {sources tables : Sources} {f f' : Field}
    (hname : f.name.isDotted = false) (h : f.resolve schema type sources = .ok (f', tables)) (extra : List Lookup) :
    f.resolve (schema.extended extra) type sources = .ok (f', tables) ∧ f'.name = f.name := by
  have hsettled : f'.name = f.name := by
    rw [resolve_eq] at h
    split at h
    · cases h
    · cases h
      exact name_settled f
  refine ⟨?_, hsettled⟩
  rw [resolve] at h ⊢
  cases hresolved : f.resolved with
  | true =>
    rw [hresolved] at h
    exact h
  | false =>
    rw [hresolved] at h
    cases hplace : schema.place sources.table f.name with
    | error e => rw [hplace] at h; cases h
    | ok placement =>
      rw [hplace] at h
      rw [Schema.place_extended hname hplace extra]
      exact h

namespace Query

variable {schema : Schema} {type : JoinType} {q q' : Query}

theorem resolveAt_extended {i : Nat} (hq : q.Undotted) (h : q.resolveAt schema type i = .ok q') (extra : List Lookup) :
    q'.Undotted ∧ q.resolveAt (schema.extended extra) type i = .ok q' := by
  rw [resolveAt] at h ⊢
  split at h
  · rename_i f hexpr
    cases hresolve : f.resolve schema type q.tables with
    | error e => rw [hresolve] at h; cases h
    | ok found =>
      obtain ⟨f', tables⟩ := found
      have hname : f.name.isDotted = false := undotted_iff.mp hq i _ hexpr f.name (List.mem_singleton_self _)
      -- the field keeps its name, so the query that is left has no points either
      obtain ⟨hextended, hsame⟩ := Field.resolve_extended hname hresolve extra
      rw [hresolve] at h
      cases h
      rw [hextended]
      refine ⟨(hq.setExpr i ?_).of_nodes rfl, rfl⟩
      intro name hmem
      rw [List.mem_singleton.mp hmem, hsame]
      exact hname
  · cases h
    exact ⟨hq, rfl⟩

theorem resolveLeaves_extended {leaves : List Leaf} (hq : q.Undotted)
    (h : q.resolveLeaves schema type leaves = (q', none)) (extra : List Lookup) :
    q'.Undotted ∧ q.resolveLeaves (schema.extended extra) type leaves = (q', none) := by
  induction leaves generalizing q with
  | nil =>
    cases h
    exact ⟨hq, rfl⟩
  | cons leaf rest ih =>
    cases leaf with
    | field i =>
      rw [resolveLeaves, Leaf.visitAll] at h ⊢
      cases hresolve : q.resolveAt schema type i with
      | error e => rw [hresolve] at h; cases h
      | ok q₁ =>
        obtain ⟨hq₁, hextended⟩ := resolveAt_extended hq hresolve extra
        rw [hresolve] at h
        rw [hextended]
        exact ih hq₁ h
    | broken fault => cases h
    | value | subquery | unknown => exact ih hq h

theorem resolveTrees_extended {roots : List NodeRef} (hq : q.Undotted)
    (h : q.resolveTrees schema type roots = (q', none)) (extra : List Lookup) :
    q'.Undotted ∧ q.resolveTrees (schema.extended extra) type roots = (q', none) := by
  rw [resolveTrees_eq] at h ⊢
  exact resolveLeaves_extended hq h extra

end Query

/-! ## Drafts -/

/-- The second scope is the first one with more lookups, and nested queries without points that the first one compiles
are compiled in the same way. -/
structure Scope.Extended (scope scope' : Scope) (extra : List Lookup) : Prop where
  context : scope'.toContext = scope.toContext.extended extra
  nested : ∀ (query : Query) (requested : Nat) statement, query.Undotted →
    (scope.nested query requested).result = .ok statement →
      (scope.nested query requested).query.Undotted ∧ scope'.nested query requested = scope.nested query requested

/-- Work of which other work does all that succeeds, from queries without points to such queries. -/
abbrev DraftM.Covers {α : Type} (work work' : DraftM α) : Prop :=
  Follows (fun d => d.query.Undotted) (fun _ => True) work work'

theorem DraftM.covers_onQuery {work work' : Query → Query × Option CompileError}
    (h : ∀ q q', q.Undotted → work q = (q', none) → q'.Undotted ∧ work' q = (q', none)) :
    Covers (onQuery work) (onQuery work') := by
  intro d hd
  rw [run_onQuery, run_onQuery]
  rcases hwork : work d.query with ⟨q', _ | e⟩
  · obtain ⟨hq', hwork'⟩ := h d.query q' hd hwork
    rw [hwork']
    exact ⟨hq', rfl⟩
  · exact trivial

namespace Scope

variable {scope scope' : Scope} {extra : List Lookup} (h : scope.Extended scope' extra)

include h

theorem Extended.dialect : scope'.dialect = scope.dialect := by
  rw [h.context]
  rfl

theorem Extended.config : scope'.config = scope.config := by
  rw [h.context]
  rfl

theorem covers_statementAt (i : Nat) : Covers (scope.statementAt (.index i)) (scope'.statementAt (.index i)) := by
  intro d hd
  rw [run_statementAt, run_statementAt]
  cases d.statement? i with
  | some statement => exact ⟨hd, rfl⟩
  | none =>
    cases hexpr : d.query.expr? (.index i) with
    | none => exact trivial
    | some expr =>
      cases expr with
      | subquery query embedding =>
        dsimp only
        rw [run_compileAt, run_compileAt]
        dsimp only
        cases hresult : (scope.nested (query.embedded embedding) d.requested).result with
        | error e => exact trivial
        | ok statement =>
          have hquery : query.Undotted := Query.undotted_iff.mp hd i _ hexpr
          obtain ⟨hleft, hnested⟩ := h.nested (query.embedded embedding) _ statement (hquery.of_nodes rfl) hresult
          rw [hnested, hresult]
          exact ⟨hd.setExpr i hleft, rfl⟩
      | _ => exact trivial

theorem Extended.leads : scope.Leads scope' (fun d => d.query.Undotted) (fun _ => True) fun _ => True where
  dialect := h.dialect
  config := h.config
  failing _ _ := trivial
  placeholder _ _ hd := hd
  statementAt i _ := covers_statementAt h i
  roots _ _ _ _ _ _ _ _ := trivial
  args _ _ _ _ _ _ _ _ _ _ := trivial

theorem covers_pass (refs : List NodeRef) : Covers (scope.pass refs) (scope'.pass refs) := by
  have hschema : scope'.schema = scope.schema.extended extra := congrArg Context.schema h.context
  rw [pass, pass, hschema, h.config]
  refine (covers_onQuery fun q q' hq hresolve => Query.resolveTrees_extended hq hresolve extra).bind fun _ => ?_
  exact follows_valuesOfRoots h.leads _ fun _ _ _ _ _ _ => trivial

theorem covers_passAll (parts : List (List NodeRef)) : Covers (scope.passAll parts) (scope'.passAll parts) := by
  induction parts with
  | nil => exact .pure _
  | cons refs rest ih => exact (covers_pass h refs).bind fun _ => ih.bind fun _ => .pure _

theorem covers_statement : Covers scope.statement scope'.statement := by
  have hindex : Covers (onQuery Query.settleIndex) (onQuery Query.settleIndex) := by
    refine covers_onQuery fun q q' hq hsettle => ⟨?_, hsettle⟩
    have hsettled := hq.settleIndex
    rwa [hsettle] at hsettled
  rw [statement, statement, passes_eq, passes_eq, h.dialect]
  refine (hindex.bind fun _ => .get_bind fun d _ => covers_passAll h _).bind fun _ => ?_
  refine (follows_clauses h.leads fun _ _ hd => hd).bind fun _ => ?_
  exact .get_bind fun _ _ => .pure _

/-- A query without points that compiles does so with more lookups, in the same way. -/
theorem compile_extended {q : Query} {requested : Nat} {statement : Statement} (hq : q.Undotted)
    (hresult : (scope.compile q requested).result = .ok statement) :
    (scope.compile q requested).query.Undotted ∧ scope'.compile q requested = scope.compile q requested := by
  rw [compile] at hresult ⊢
  rw [compile]
  rcases hrun : scope.statement.run { query := q, requested := requested } with ⟨_ | answer, d⟩
  · rw [hrun] at hresult
    cases hresult
  · obtain ⟨hd, hrun'⟩ := (covers_statement h).of_ok hq hrun
    rw [hrun']
    exact ⟨hd, rfl⟩

end Scope

/-! ## All levels -/

theorem compileWithin_extended {inner : Context} (extra : List Lookup) {depth requested : Nat} {context : Context}
    {q : Query} {statement : Statement} (hq : q.Undotted)
    (h : (compileWithin inner depth context q requested).result = .ok statement) :
    (compileWithin inner depth context q requested).query.Undotted ∧
      compileWithin (inner.extended extra) depth (context.extended extra) q requested =
        compileWithin inner depth context q requested := by
  induction depth generalizing context q requested statement with
  | zero => cases h
  | succ depth ih => exact Scope.compile_extended ⟨rfl, fun query requested statement => ih⟩ hq h

/-- A query whose fields, also those of nested queries, are named without a point, and that compiles, is compiled in the
same way when lookups are added behind those of the schemas: the statement and the query that is left are the same. -/
theorem Query.compileWith_extended {context inner : Context} {q : Query} {statement : Statement} (hq : q.Undotted)
    (h : (q.compileWith context inner).result = .ok statement) (extra : List Lookup) :
    q.compileWith (context.extended extra) (inner.extended extra) = q.compileWith context inner := by
  refine (Scope.compile_extended ⟨rfl, fun query requested statement => ?_⟩ hq h).2
  exact compileWithin_extended extra

/-- Orders with their buyers and sellers, of which only the buyers have a lookup. -/
def Context.trades : Context where
  dialect := .postgres
  schema :=
    { tables := [
        { name := "orders", columns := [{ name := "total" }, { name := "buyer_id" }, { name := "seller_id" }] },
        { name := "sellers", columns := [{ name := "id" }, { name := "name" }, { name := "grade" }] },
        { name := "buyers", columns := [{ name := "id" }, { name := "name" }] }],
      lookups := [
        { key := "buyer", fromTable := "orders", fromCol := "buyer_id", toTable := "buyers", columns := ["name"] }] }
  config := {}

/-- Buyers of expensive orders, if there are any orders of a buyer with a given name. -/
def Query.trades : Query where
  nodes := [{ expr := .field { name := .text "name" } }, { expr := .field { name := .text "total" } },
    { expr := .value (.int 10) }, { expr := .cmp .gt (.index 1) (.index 2) }, { expr := .subquery named .presence },
    { expr := .cond .conj [.index 3, .index 4] }]
  select := [.index 0]
  head := some (.index 5)
  tables := { table := "orders" }
where
  named : Query :=
    { nodes := [{ expr := .field { name := .text "total" } }, { expr := .field { name := .text "name" } },
        { expr := .value (.str "Ada") }, { expr := .cmp .eq (.index 1) (.index 2) }]
      select := [.index 0]
      head := some (.index 3)
      tables := { table := "orders" } }

/-- Names are inferred to be those of the sellers too, and stay those of the buyers. -/
theorem Query.compileWith_extended_trades :
    (Context.trades.schema.infer.lookups.map fun l => (l.toTable, l.columns)) =
        [("buyers", ["name"]), ("buyers", ["name"]), ("sellers", ["name", "grade"])] ∧
      Query.trades.Undotted ∧
      ∃ statement, (Query.trades.compile .trades).result = .ok statement ∧
        statement.text = "SELECT buyers.name FROM orders LEFT JOIN buyers ON orders.buyer_id = buyers.id " ++
          "WHERE (orders.total > %s) AND (EXISTS (SELECT orders.total FROM orders " ++
          "LEFT JOIN buyers ON orders.buyer_id = buyers.id WHERE buyers.name = %s))" ∧
        Query.trades.compile { Context.trades with schema := Context.trades.schema.infer } =
          Query.trades.compile .trades := by
  have hundotted : Query.trades.Undotted := by
    rw [Undotted]
    decide +kernel
  refine ⟨by decide +kernel, hundotted, ?_⟩
  have heval : (Query.trades.compile .trades).result.toOption.map Statement.text =
      some ("SELECT buyers.name FROM orders LEFT JOIN buyers ON orders.buyer_id = buyers.id " ++
        "WHERE (orders.total > %s) AND (EXISTS (SELECT orders.total FROM orders " ++
        "LEFT JOIN buyers ON orders.buyer_id = buyers.id WHERE buyers.name = %s))") := by decide +kernel
  cases hresult : (Query.trades.compile .trades).result with
  | error e => rw [hresult] at heval; cases heval
  | ok statement =>
    rw [hresult] at heval
    exact ⟨statement, rfl, Option.some.inj heval, compileWith_extended hundotted hresult Context.trades.schema.inferred⟩

end ArenaSql
