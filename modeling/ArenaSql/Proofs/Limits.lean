import ArenaSql.Proofs.Growth
import ArenaSql.Proofs.Numerals

/-!
# The limiting clause

What the limiting clause of a statement is, for all record indices and all options. It comes behind the other clauses,
and depends on the index as it was given and on the count option alone: the distance of the index from the nearer end is
what matters, and a count that is no positive number is no count.
-/

namespace ArenaSql

/-! ## Index and count -/

/-- The option has a first argument, which spells a positive number. -/
def Query.Counts (q : Query) (option : String) (k : Int) : Prop :=
  ∃ arg rest, q.option? option = some (arg :: rest) ∧ Text.Spells arg k ∧ 0 < k

theorem Query.count?_eq_some_iff {q : Query} {option : String} {k : Int} :
    q.count? option = some k ↔ q.Counts option k := by
  simp only [count?, Option.bind_eq_bind, Option.bind_eq_some_iff, Text.integer?_eq_some_iff,
    Option.ite_none_right_eq_some, Option.some.injEq]
  constructor
  · rintro ⟨args, hargs, arg, hhead, k', hspells, hpos, rfl⟩
    cases args with
    | nil => cases hhead
    | cons first rest =>
      cases hhead
      exact ⟨arg, rest, hargs, hspells, hpos⟩
  · rintro ⟨arg, rest, hargs, hspells, hpos⟩
    exact ⟨arg :: rest, hargs, arg, rfl, k, hspells, hpos, rfl⟩

/-- The limiting clause for a record index and a count. -/
inductive Pages : Option Int → Option Int → Option String → Prop
  /-- Records stand before the wanted one. -/
  | behind {i : Int} (count : Option Int) : 2 ≤ |i| →
      Pages (some i) count (some ("LIMIT " ++ toString (count.getD 1) ++ " OFFSET " ++ toString (|i| - 1)))
  /-- The first record is wanted, from one end or the other. -/
  | first {i : Int} (count : Option Int) : |i| = 1 → Pages (some i) count (some ("LIMIT " ++ toString (count.getD 1)))
  /-- No record is wanted in particular. -/
  | counted {index : Option Int} (k : Int) : index.getD 0 = 0 → Pages index (some k) (some ("LIMIT " ++ toString k))
  | all {index : Option Int} : index.getD 0 = 0 → Pages index none none

/-- No clause limits to no record, or skips none. -/
theorem Pages.positive {n count : Option Int} {paging : Option String} (h : Pages n count paging)
    (hcount : ∀ k, count = some k → 0 < k) :
    ∀ clause ∈ paging, ∃ k : Int, 0 < k ∧ (clause = "LIMIT " ++ toString k ∨
      ∃ o : Int, 0 < o ∧ clause = "LIMIT " ++ toString k ++ " OFFSET " ++ toString o) := by
  have hlimit : 0 < count.getD 1 := by
    cases count with
    | none => decide
    | some k => exact hcount k rfl
  rintro clause hclause
  cases h with
  | behind _ hbehind =>
    cases hclause
    exact ⟨_, hlimit, .inr ⟨_, by omega, rfl⟩⟩
  | first _ hfirst =>
    cases hclause
    exact ⟨_, hlimit, .inl rfl⟩
  | counted k hzero =>
    cases hclause
    exact ⟨_, hlimit, .inl rfl⟩
  | all hzero => cases hclause

namespace Query

variable {q : Query} {n : Option Int} {option : String}

/-- A whole index is settled to its distance from the nearer end, and zero to none. -/
theorem recordIndex_settleIndex (h : q.recordIndex = n.map .whole) :
    q.settleIndex.1.recordIndex = (n.filter (· != 0)).map fun i => .whole |i| := by
  have hreverse : ∀ (refs : List NodeRef) (q : Query), (q.reverseEach refs).1.recordIndex = q.recordIndex := by
    intro refs q
    obtain ⟨f, -, hquery⟩ := (reverseEach_eq refs q).1
    rw [hquery]
    rfl
  rw [settleIndex, h]
  cases n with
  | none => exact h
  | some i =>
    dsimp only [Option.map_some]
    rcases lt_trichotomy i 0 with hnegative | rfl | hpositive
    · rw [if_neg (by simpa [RecordIndex.isZero] using hnegative.ne),
        if_pos (by simpa [RecordIndex.isNegative] using hnegative), hreverse]
      simp [RecordIndex.neg, hnegative.ne, abs_of_neg hnegative]
    · rfl
    · rw [if_neg (by simpa [RecordIndex.isZero] using hpositive.ne'),
        if_neg (by simpa [RecordIndex.isNegative] using hpositive.le), h]
      simp [hpositive.ne', abs_of_pos hpositive]

theorem pages_of_settled (h : q.recordIndex = (n.filter (· != 0)).map fun i => .whole |i|) :
    Pages n (q.count? option) (q.limit? option) := by
  have hnone : n.getD 0 = 0 → Pages n (q.count? option) (q.limit? option) := by
    intro hn
    have hindex : q.recordIndex = none := by
      rw [h]
      cases n with
      | none => rfl
      | some i => rw [show i = 0 from hn]; rfl
    rw [limit?, hindex]
    cases q.count? option with
    | none => exact .all hn
    | some k => exact .counted k hn
  cases n with
  | none => exact hnone rfl
  | some i =>
    by_cases hzero : i = 0
    · exact hnone hzero
    have hindex : q.recordIndex = some (.whole |i|) := by
      rw [h, Option.filter_some_pos (by simpa using hzero), Option.map_some]
    have hlimit : q.limit? option =
        (RecordIndex.whole |i|).offset?.elim (some ("LIMIT " ++ toString ((q.count? option).getD 1)))
          (fun offset => some ("LIMIT " ++ toString ((q.count? option).getD 1) ++ " OFFSET " ++ offset)) := by
      rw [limit?, hindex]
      cases q.count? option <;> dsimp only <;> cases (RecordIndex.whole |i|).offset? <;> rfl
    have hpositive := Int.one_le_abs hzero
    rw [hlimit, RecordIndex.offset?]
    by_cases hfirst : |i| = 1
    · rw [if_neg (by omega)]
      exact .first _ hfirst
    · rw [if_pos (by omega)]
      exact .behind _ (by omega)

/-- Neither resolution nor nested queries have an influence on the limiting clause. -/
theorem SameButNested.limit? {q' : Query} (h : q.SameButNested q') (option : String) :
    q'.limit? option = q.limit? option := by
  obtain ⟨f, -, rfl⟩ := h
  rfl

theorem limit?_resolved (context : Context) (q : Query) (option : String) :
    (q.resolved context).limit? option = q.settleIndex.1.limit? option := by
  obtain ⟨done, joins, heq, -⟩ := q.settleIndex.1.resolveLeaves_eq context.schema context.config.joinType
    (q.settleIndex.1.leaves q.settleIndex.1.liveRoots)
  rw [resolved, resolveTrees_eq, heq]
  rfl

theorem derived_resolved (context : Context) (q : Query) (sql : Sql) :
    (q.resolved context).derived sql = q.derived sql := by
  obtain ⟨g, recordIndex, forms, tables, -, heq⟩ := resolved_eq context q
  rw [heq]
  rfl

theorem count?_settleIndex (q : Query) (option : String) : q.settleIndex.1.count? option = q.count? option := by
  obtain ⟨f, recordIndex, forms, -, heq⟩ := q.settleIndex_eq
  rw [heq]
  rfl

end Query

namespace Scope

/-- The clauses before the limiting one. -/
def otherClauses (scope : Scope) : DraftM (List Sql) := do
  let selecting ← scope.selectClause
  let sources ← fromClause
  let filter ← scope.whereClause
  let grouping ← scope.groupByClause
  let having ← scope.havingClause
  let ordering ← scope.orderByClause
  return selecting :: sources :: [filter, grouping, having, ordering].filterMap id

theorem clauses_eq (scope : Scope) :
    scope.clauses = (do
      let others ← scope.otherClauses
      let limit ← scope.limitClause
      return others ++ limit.toList) := by
  have hlast : ∀ filter grouping having ordering limit : Option Sql,
      [filter, grouping, having, ordering, limit].filterMap id =
        [filter, grouping, having, ordering].filterMap id ++ limit.toList := by
    intro filter grouping having ordering limit
    have hsplit : [filter, grouping, having, ordering, limit] = [filter, grouping, having, ordering] ++ [limit] := rfl
    rw [hsplit, List.filterMap_append]
    cases limit <;> rfl
  simp only [clauses, otherClauses, bind_assoc, pure_bind, hlast, List.cons_append]

/-- In every statement the limiting clause is the last one, and it is the one that the record index and the count option of
the query call for. -/
theorem compile_pages {scope : Scope} {q : Query} {requested : Nat} {statement : Statement} {n : Option Int}
    (hindex : q.recordIndex = n.map .whole) (h : (scope.compile q requested).result = .ok statement) :
    ∃ others paging count,
      (DraftM.run (do let _ ← scope.passes; scope.otherClauses) { query := q, requested := requested }).1 = .ok others ∧
      statement.sql = q.derived (Sql.joined " " (others ++ (paging.map Sql.plain).toList)) ∧
      (∀ k, count = some k ↔ q.Counts scope.config.countOption k) ∧ Pages n count paging ∧
      ∀ clause ∈ paging, ∃ k : Int, 0 < k ∧ (clause = "LIMIT " ++ toString k ∨
        ∃ o : Int, 0 < o ∧ clause = "LIMIT " ++ toString k ++ " OFFSET " ++ toString o) := by
  obtain ⟨d, hrun⟩ : ∃ d, scope.statement.run { query := q, requested := requested } = (.ok statement, d) :=
    ⟨_, Prod.ext h rfl⟩
  -- the query at the end is the resolved one, apart from nested queries
  obtain ⟨d₁', clauses', hdrafts⟩ := exists_drafts h
  have hlast : scope.lastDraft q requested = d := congrArg Prod.snd hrun
  have hsame : (q.resolved scope.toContext).SameButNested d.query := hlast ▸ hdrafts.query.trans hdrafts.grows.query
  obtain ⟨values, d₁, hpasses, hrest⟩ := DraftM.run_bind_eq_ok_iff.mp hrun
  obtain ⟨clauses, _, hclauses, hend⟩ := DraftM.run_bind_eq_ok_iff.mp hrest
  cases hend
  rw [clauses_eq] at hclauses
  obtain ⟨others, d₂, hothers, hlimit⟩ := DraftM.run_bind_eq_ok_iff.mp hclauses
  cases hlimit
  have hpages : Pages n (q.count? scope.config.countOption) (d.query.limit? scope.config.countOption) := by
    rw [hsame.limit?, Query.limit?_resolved, ← Query.count?_settleIndex]
    exact Query.pages_of_settled (Query.recordIndex_settleIndex hindex)
  have hpositive : ∀ k, q.count? scope.config.countOption = some k → 0 < k := by
    intro k hk
    obtain ⟨-, -, -, -, hpos⟩ := Query.count?_eq_some_iff.mp hk
    exact hpos
  refine ⟨others, _, _, ?_, ?_, ?_, hpages, hpages.positive hpositive⟩
  · rw [DraftM.run_bind, hpasses]
    exact congrArg Prod.fst hothers
  · exact (hsame.derived _).trans (Query.derived_resolved scope.toContext q _)
  · exact fun k => Query.count?_eq_some_iff

end Scope

/-- The orders from the third one on, counted from the end. The number of rows has digits of two scripts, in two groups. -/
def Query.thirdLast : Query where
  nodes := [{ expr := .field { name := .text "total" } }, { expr := .sort (.index 0) .asc }]
  select := [.index 0]
  order := [.index 1]
  ordered := true
  options := [("rows", ["\u00a0+\u0662_5 ", "7"])]
  recordIndex := some (.whole (-3))
  tables := { table := "orders" }

/-- The orders, where the option `rows` counts the rows. -/
def Context.counting : Context where
  dialect := .postgres
  schema := { tables := [{ name := "orders", columns := [{ name := "total" }] }] }
  config := { countOption := "rows" }

theorem Scope.compile_pages_thirdLast :
    let scope := Context.counting.scopeWith .counting .thirdLast
    Query.thirdLast.Counts "rows" 25 ∧ ∃ statement, (scope.compile .thirdLast 0).result = .ok statement ∧
      statement.text = "SELECT total FROM orders ORDER BY total DESC LIMIT 25 OFFSET 2" ∧
      ∃ others, statement.sql = Sql.joined " " (others ++ [Sql.plain "LIMIT 25 OFFSET 2"]) := by
  intro scope
  have hcounts : Query.thirdLast.Counts "rows" 25 := Query.count?_eq_some_iff.mp (by decide +kernel)
  have htext : (scope.compile .thirdLast 0).result.toOption.map Statement.text =
      some "SELECT total FROM orders ORDER BY total DESC LIMIT 25 OFFSET 2" := by decide +kernel
  obtain ⟨statement, hstatement, htext⟩ := Option.map_eq_some_iff.mp htext
  have hresult := Except.eq_ok_of_toOption hstatement
  have hindex : Query.thirdLast.recordIndex = (some (-3)).map .whole := rfl
  obtain ⟨others, paging, count, -, hsql, hcount, hpages, -⟩ := compile_pages hindex hresult
  rw [(hcount 25).mpr hcounts] at hpages
  have hclause : "LIMIT " ++ toString ((some (25 : Int)).getD 1) ++ " OFFSET " ++ toString (|(-3 : Int)| - 1) =
      "LIMIT 25 OFFSET 2" := by decide +kernel
  refine ⟨hcounts, statement, hresult, htext, others, ?_⟩
  cases hpages with
  | behind =>
    rw [hclause] at hsql
    exact hsql
  | first _ hone => exact absurd hone (by decide)
  | counted _ hzero => exact absurd hzero (by decide)

end ArenaSql
