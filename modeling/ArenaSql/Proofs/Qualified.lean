import ArenaSql.Proofs.InScope
import Mathlib.Logic.Relation

/-!
# Names with a table

A name with a point can always be resolved. From then on the field is written as it is named, whatever is joined, if
there is a table before the point. Where nothing stands before it, the point is lost or gets the primary table.
-/

namespace ArenaSql

open Relation

theorem ColumnRef.parse_point (column : String) : parse ("." ++ column) = ⟨some "", column⟩ := by
  simp [parse]

namespace Field

variable {f : Field} {name : String}

/-- A field whose name has a point is resolved without a look at any table. -/
theorem resolve_of_point (schema : Schema) (type : JoinType) (sources : Sources) (hnew : f.resolved = false)
    (hname : f.name = .text name) (hpoint : '.' ∈ name.toList) :
    ∃ via, f.resolve schema type sources =
      .ok ({ f with table := (ColumnRef.parse name).table, resolved := true, forms := [] }, sources.joinAny type via) := by
  cases htable : (ColumnRef.parse name).table with
  | none => exact absurd hpoint (ColumnRef.table_parse_eq_none_iff.mp htable)
  | some table =>
    have hplace : schema.place sources.table f.name = .ok (.asWritten (some table)
        (if table = sources.table then none else schema.lookupTo? sources.table table)) := by
      rw [hname, Schema.place, htable]
    rw [resolve, hnew, hplace]
    exact ⟨_, rfl⟩

/-- How a name with a point is written: as it is, if there is something before the point, and else like a column that
is named alone. -/
theorem text_of_point (hname : f.name = .text name) (hpoint : '.' ∈ name.toList)
    (htable : f.table = (ColumnRef.parse name).table) (sources : Sources) :
    ((∀ column, name ≠ "." ++ column) → f.text sources = name) ∧
      ∀ column, name = "." ++ column →
        f.text sources = if sources.joins = [] ∨ column = "*" then column else sources.qualifier ++ name := by
  constructor
  · intro hbefore
    cases hparse : (ColumnRef.parse name).table with
    | none => exact absurd hpoint (ColumnRef.table_parse_eq_none_iff.mp hparse)
    | some table =>
      have heq := ColumnRef.eq_of_table_parse hparse
      have hne : table ≠ "" := by
        rintro rfl
        exact hbefore _ (heq.trans (by rw [String.empty_append]))
      rw [text_of_table (htable.trans hparse) hne, hname]
      exact heq.symm
  · rintro column rfl
    have hnone : f.table.filter (!·.isEmpty) = none := by rw [htable, ColumnRef.parse_point]; rfl
    have hcolumn : f.name.column = column := by rw [hname, FieldName.column, ColumnRef.parse_point]
    have hstar : f.name.isStar = (column == "*") := by rw [hname, FieldName.isStar, ColumnRef.parse_point]
    have hwritten : f.name.written = column := by rw [hname, FieldName.written, ColumnRef.parse_point]; rfl
    rw [text, hnone, hcolumn, hstar, hwritten]
    by_cases hjoins : sources.joins = [] <;> by_cases hall : column = "*" <;>
      simp [hjoins, hall, String.append_assoc]

/-- A name that begins with the point is hardly ever written as it is. -/
theorem text_eq_name_iff (hname : f.name = .text name) (hpoint : '.' ∈ name.toList)
    (htable : f.table = (ColumnRef.parse name).table) (sources : Sources) :
    f.text sources = name ↔
      (∀ column, name ≠ "." ++ column) ∨ sources.joins ≠ [] ∧ name ≠ ".*" ∧ sources.qualifier = "" := by
  obtain ⟨hbefore, hleading⟩ := text_of_point hname hpoint htable sources
  by_cases hcolumn : ∃ column, name = "." ++ column
  · obtain ⟨column, rfl⟩ := hcolumn
    have hfirst : ¬ ∀ other, "." ++ column ≠ "." ++ other := fun h => h column rfl
    have hstar : ".*" = "." ++ "*" := by decide
    rw [hleading column rfl, or_iff_right hfirst, hstar, Ne, Ne, String.append_right_inj]
    split
    · rename_i hbare
      have hlost : column ≠ "." ++ column := fun h => absurd (String.append_eq_right_iff.mp h.symm) (by decide)
      refine iff_of_false hlost ?_
      rintro ⟨hjoins, hall, -⟩
      exact hbare.elim hjoins hall
    · rename_i hbehind
      rw [not_or] at hbehind
      rw [String.append_eq_right_iff, and_iff_right hbehind.1, and_iff_right hbehind.2]
  · rw [not_exists] at hcolumn
    exact iff_of_true (hbefore hcolumn) (Or.inl hcolumn)

end Field

namespace Query

variable {q q' : Query} {i : Nat} {f : Field}

/-! ## Resolutions -/

/-- A field is resolved, which may be one of the arena or stand apart from it. -/
inductive Resolves (q : Query) : Query → Prop where
  | inside {schema : Schema} {type : JoinType} {i : Nat} {q' : Query} (h : q.resolveAt schema type i = .ok q') :
    Resolves q q'
  | apart {schema : Schema} {type : JoinType} {f f' : Field} {tables : Sources}
    (h : f.resolve schema type q.tables = .ok (f', tables)) : Resolves q { q with tables := tables }

/-- A field that is resolved stays as it is while others are. -/
theorem Resolves.fieldAt? (h : q.Resolves q') (hf : q.fieldAt? i = some f) (hresolved : f.resolved) :
    q'.fieldAt? i = some f := by
  cases h with
  | @inside schema type j _ h =>
    rw [resolveAt_eq] at h
    cases hplaced : q.unplaced? schema j with
    | some e => rw [hplaced] at h; cases h
    | none =>
      rw [hplaced] at h
      cases h
      rw [fieldAt?_settledAt, hf, Option.map_some, Field.settled_of_resolved hresolved, ite_self]
  | apart h => exact hf

theorem fieldAt?_of_resolutions (h : ReflTransGen Resolves q q') (hf : q.fieldAt? i = some f) (hresolved : f.resolved) :
    q'.fieldAt? i = some f := by
  induction h with
  | refl => exact hf
  | tail _ hstep ih => exact hstep.fieldAt? ih hresolved

/-- A field whose name has a point is resolved to the table of its name. -/
theorem resolveAt_of_point {name : String} (schema : Schema) (type : JoinType) (hf : q.fieldAt? i = some f)
    (hnew : f.resolved = false) (hname : f.name = .text name) (hpoint : '.' ∈ name.toList) :
    ∃ q' g, q.resolveAt schema type i = .ok q' ∧ q'.fieldAt? i = some g ∧ g.name = .text name ∧
      g.table = (ColumnRef.parse name).table ∧ g.resolved := by
  have hexpr := fieldAt?_eq_some_iff.mp hf
  obtain ⟨via, hresolve⟩ := Field.resolve_of_point schema type q.tables hnew hname hpoint
  rw [resolveAt, hexpr]
  dsimp only
  rw [hresolve]
  refine ⟨_, { f with table := _, resolved := true, forms := [] }, rfl, fieldAt?_eq_some_iff.mpr ?_, hname, rfl, rfl⟩
  rw [expr?_index, Option.map_eq_some_iff] at hexpr
  obtain ⟨node, hnode, -⟩ := hexpr
  rw [expr?_index]
  dsimp only
  rw [getElem?_setExpr, if_pos rfl, hnode]
  rfl

/-! ## Rendering -/

theorem tree_of_fieldAt? (hf : q.fieldAt? i = some f) {ref : NodeRef} (href : ref.position? = some i) :
    q.tree ref = .field i f := by
  have hexpr := fieldAt?_eq_some_iff.mp hf
  rw [expr?_index, Option.map_eq_some_iff] at hexpr
  obtain ⟨node, hnode, hexpr⟩ := hexpr
  rw [tree, Tree.unfold_of_some _ (locate?_eq_some_iff.mpr ⟨href, hnode⟩), hexpr]
  rfl

end Query

theorem Scope.run_render_field (scope : Scope) (style : Style) (i : Nat) (f : Field) (d : Draft) :
    (scope.render style (.field i f)).run d = (.ok (Sql.plain (f.text d.query.tables)), d) := by
  rw [render]
  rfl

/-- A field whose name has a point can be resolved in any query. From then on, whatever else is resolved and joined, it
is written as it is named, unless the name begins with the point. Such a name loses its point, or, once there are joins
and unless it is for all columns, gets the qualifier of the primary table before it; so it is written as it is named only
if that qualifier is empty. -/
theorem Query.render_qualified {q : Query} {i : Nat} {f : Field} {name : String} (hf : q.fieldAt? i = some f)
    (hnew : f.resolved = false) (hname : f.name = .text name) (hpoint : '.' ∈ name.toList) (schema : Schema)
    (type : JoinType) :
    ∃ q', q.resolveAt schema type i = .ok q' ∧ ∀ later, ReflTransGen Resolves q' later →
      ∀ (scope : Scope) (style : Style) (d : Draft) (ref : NodeRef), d.query = later → ref.position? = some i →
        ∃ text, (scope.render style (later.tree ref)).run d = (.ok (Sql.plain text), d) ∧
          (text = name ↔ (∀ column, name ≠ "." ++ column) ∨
            later.tables.joins ≠ [] ∧ name ≠ ".*" ∧ later.tables.qualifier = "") ∧
          ∀ column, name = "." ++ column →
            text = if later.tables.joins = [] ∨ column = "*" then column else later.tables.qualifier ++ name := by
  obtain ⟨q', g, hresolve, hg, hname', htable, hresolved⟩ := resolveAt_of_point schema type hf hnew hname hpoint
  refine ⟨q', hresolve, ?_⟩
  rintro later hlater scope style d ref rfl href
  rw [tree_of_fieldAt? (fieldAt?_of_resolutions hlater hg hresolved) href]
  exact ⟨g.text d.query.tables, Scope.run_render_field scope style i g d,
    Field.text_eq_name_iff hname' hpoint htable _, (Field.text_of_point hname' hpoint htable _).2⟩

/-! ## An instance -/

/-- Purchases, whose buyers and shops stand in tables of their own. -/
def Schema.purchases : Schema where
  tables := [{ name := "purchases", columns := [{ name := "total" }] }]
  lookups := [
    { key := "buyer", fromTable := "purchases", fromCol := "buyer", toTable := "users", columns := ["name"] },
    { key := "shop", fromTable := "purchases", fromCol := "shop", toTable := "shops", columns := ["street"] }]

/-- One name has two points, another has nothing before its point, and the last one has none. -/
def Query.purchases : Query where
  nodes := [{ expr := .field { name := .text "users.name.first" } }, { expr := .field { name := .text ".total" } },
    { expr := .field { name := .text "street" } }]
  tables := { table := "purchases" }

/-- The text of the first field is its name, though tables are joined when it is resolved and later. -/
theorem Query.render_qualified_purchases :
    ∃ q' later, purchases.resolveAt .purchases .left 0 = .ok q' ∧ q'.resolveAt .purchases .left 2 = .ok later ∧
      q'.tables.joins.map Join.table = ["users"] ∧ later.tables.joins.map Join.table = ["users", "shops"] ∧
      ∀ (scope : Scope) (style : Style),
        (scope.render style (later.tree (.index 0))).run { query := later } =
          (.ok (Sql.plain "users.name.first"), { query := later }) := by
  have heval : ((purchases.resolveAt .purchases .left 0).toOption.bind fun q' =>
      (q'.resolveAt .purchases .left 2).toOption.map fun later =>
        (q'.tables.joins.map Join.table, later.tables.joins.map Join.table)) =
      some (["users"], ["users", "shops"]) := by decide +kernel
  obtain ⟨q', hfirst, heval⟩ := Option.bind_eq_some_iff.mp heval
  obtain ⟨later, hthird, hjoins⟩ := Option.map_eq_some_iff.mp heval
  rw [Prod.mk.injEq] at hjoins
  have hq' := Except.eq_ok_of_toOption hfirst
  have hlater := Except.eq_ok_of_toOption hthird
  refine ⟨q', later, hq', hlater, hjoins.1, hjoins.2, fun scope style => ?_⟩
  obtain ⟨_, hresolved, hrender⟩ :=
    render_qualified (q := purchases) (i := 0) rfl rfl rfl (by decide) Schema.purchases .left
  cases hresolved.symm.trans hq'
  obtain ⟨text, hrun, hname, -⟩ :=
    hrender later (.single (.inside hlater)) scope style { query := later } (.index 0) rfl rfl
  have hbefore : ∀ column, "users.name.first" ≠ "." ++ column := by
    intro column heq
    have hhead := congrArg (·.toList.head?) heq
    simp at hhead
  rw [hname.mpr (Or.inl hbefore)] at hrun
  exact hrun

/-- The field without a table before the point is written without the point, and behind the primary table once another
table is joined. -/
theorem Query.render_leadingPoint :
    purchases.fieldAt? 1 = some { name := .text ".total" } ∧
      ∃ q' later, purchases.resolveAt .purchases .left 1 = .ok q' ∧ q'.resolveAt .purchases .left 2 = .ok later ∧
        ∀ (scope : Scope) (style : Style),
          (scope.render style (q'.tree (.index 1))).run { query := q' } = (.ok (Sql.plain "total"), { query := q' }) ∧
          (scope.render style (later.tree (.index 1))).run { query := later } =
            (.ok (Sql.plain "purchases.total"), { query := later }) := by
  refine ⟨rfl, _, _, rfl, rfl, fun scope style => ⟨?_, ?_⟩⟩
  · rfl
  · rfl

end ArenaSql
