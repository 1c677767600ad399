import ArenaSql.Proofs.Recompile
import ArenaSql.Proofs.Respelling

/-!
# Compiling for two dialects

Two dialects that spell each placeholder alike, with some text, differ in the texts of statements only: a query is
left in the same state, with the same error or the same values to bind. The exception is an alias whose number gets
too long. Aliases are made from texts, so this may happen for one dialect and not for the other.
-/

namespace ArenaSql

/-! ## Endings -/

/-- Two endings of a compilation: the query is left in the same state, and the statements have the same values or the
errors are the same; or an alias number got too long for one of them. -/
def Coincide (x y : Query × Except CompileError Statement) : Prop :=
  Overruns x.2 ∨ Overruns y.2 ∨ (x.1 = y.1 ∧ Concurs (fun s s' => s.values = s'.values) x.2 y.2)

theorem Coincide.concurs {x y : Query × Except CompileError Statement} (h : Coincide x y) :
    Concurs (fun s s' => s.values = s'.values) x.2 y.2 := by
  rcases h with hx | hy | ⟨-, h⟩
  · exact .left hx
  · exact .right hy
  · exact h

namespace Scope

/-- Scopes that differ in their dialects, and in how generated aliases and row counts are named. -/
structure Respells (scope scope' : Scope) : Prop where
  mark : scope.dialect.mark ≠ ""
  mark' : scope'.dialect.mark ≠ ""
  schema : scope.schema = scope'.schema
  joinType : scope.config.joinType = scope'.config.joinType
  nested : ∀ q, Coincide (scope.nested q 0).ending (scope'.nested q 0).ending

variable {scope scope' : Scope}

theorem Respells.nestedAt (h : scope.Respells scope') (q : Query) (i : Nat) :
    Concurs (fun s s' => s.values = s'.values) (scope.nestedAt q i) (scope'.nestedAt q i) := by
  rw [Scope.nestedAt, Scope.nestedAt]
  split
  · exact (h.nested _).concurs
  · exact .error _
  · exact .error _

theorem Respells.view (h : scope.Respells scope') (q : Query) : (scope.view q).Respells (scope'.view q) :=
  ⟨h.mark, h.mark', rfl, h.nestedAt q⟩

/-! ### What is gathered -/

theorem Respells.gather (h : scope.Respells scope') (parts : List (List NodeRef)) (done : Nat → Bool) (q : Query) :
    Overruns (scope.gather parts done q).values ∨ Overruns (scope'.gather parts done q).values ∨
      scope.gather parts done q = scope'.gather parts done q := by
  induction parts generalizing done q with
  | nil => exact Or.inr (Or.inr rfl)
  | cons roots rest ih =>
    rw [Scope.gather, Scope.gather, h.schema, h.joinType]
    rcases q.resolveTrees scope'.schema scope'.config.joinType roots with ⟨q', _ | e⟩
    · dsimp only
      rcases (h.view q').collect (q'.leaves roots) with ⟨e, hx⟩ | ⟨e, hy⟩ | ⟨hsame, hmet⟩
      · rw [hx]
        exact Or.inl ⟨e, rfl⟩
      · rw [hy]
        exact Or.inr (Or.inl ⟨e, rfl⟩)
      · rw [hsame, hmet]
        cases (scope'.view q').collect (q'.leaves roots) with
        | error e => exact Or.inr (Or.inr rfl)
        | ok found =>
          dsimp only
          rcases ih (fun i => done i || ((scope'.view q').met (q'.leaves roots)).contains i) q' with hx | hy | hsame
          · exact Or.inl (hx.map _)
          · exact Or.inr (Or.inl (hy.map _))
          · exact Or.inr (Or.inr (by rw [hsame]))
    · exact Or.inr (Or.inr rfl)

/-- If gathering does not overrun, no nested query that it compiled does. -/
theorem not_overruns_of_gather {parts : List (List NodeRef)} {q : Query} {i : Nat}
    (h : ¬ Overruns (scope.gather parts (fun _ => false) q).values)
    (hdone : (scope.gather parts (fun _ => false) q).done i) :
    ¬ Overruns (scope.nestedAt (scope.gather parts (fun _ => false) q).query i) := by
  rw [(scope.later_gather parts (fun _ => false) q).nestedAt]
  rintro ⟨e, he⟩
  exact h ⟨e, (gather_done hdone rfl).2 _ he⟩

/-- Nested queries that were compiled without overrun are left in the same state. -/
theorem Respells.overlay (h : scope.Respells scope') {done : Nat → Bool} {q : Query}
    (hx : ∀ i, done i → ¬ Overruns (scope.nestedAt q i)) (hy : ∀ i, done i → ¬ Overruns (scope'.nestedAt q i)) :
    scope.overlay done q = scope'.overlay done q := by
  refine Query.mapExprs_congr fun i expr hexpr => ?_
  split
  · rename_i hdone
    cases expr with
    | subquery query embedding =>
      have hx := hx i hdone
      have hy := hy i hdone
      rw [Scope.nestedAt, hexpr] at hx hy
      rcases h.nested (query.embedded embedding) with hover | hover | ⟨hquery, -⟩
      · exact absurd hover hx
      · exact absurd hover hy
      · exact congrArg (Expr.subquery · embedding) hquery
    | _ => rfl
  · rfl

/-! ### What is left -/

theorem Respells.outline (h : scope.Respells scope') (q : Query) : Coincide (scope.outline q) (scope'.outline q) := by
  rw [Scope.outline, Scope.outline]
  rcases q.settleIndex with ⟨q₁, _ | e⟩
  · dsimp only
    by_cases hx : Overruns (scope.gather q₁.parts (fun _ => false) q₁).values
    · exact Or.inl (hx.bind _)
    by_cases hy : Overruns (scope'.gather q₁.parts (fun _ => false) q₁).values
    · exact Or.inr (Or.inl (hy.bind _))
    have hsame := ((h.gather q₁.parts (fun _ => false) q₁).resolve_left hx).resolve_left hy
    refine Or.inr (Or.inr ⟨?_, ?_⟩)
    · have hleft := fun i => not_overruns_of_gather hx (i := i)
      have hright := fun i => not_overruns_of_gather hy (i := i)
      rw [hsame] at hleft
      dsimp only
      rw [hsame]
      exact h.overlay hleft hright
    · dsimp only
      rw [hsame]
      exact .bind_refl fun values => (h.view _).clauses.bind fun _ _ _ => .ok rfl
  · exact Or.inr (Or.inr ⟨rfl, .error e⟩)

end Scope

theorem Context.respells_scope (context context' : Context) (hd : context.dialect.Stateless)
    (hd' : context'.dialect.Stateless) (hmark : context.dialect.mark ≠ "") (hmark' : context'.dialect.mark ≠ "")
    (hschema : context.schema = context'.schema) (hjoin : context.config.joinType = context'.config.joinType)
    (depth : Nat) : (context.scope depth).Respells (context'.scope depth) := by
  induction depth with
  | zero => exact ⟨hmark, hmark', hschema, hjoin, fun _ => Or.inr (Or.inr ⟨rfl, .error _⟩)⟩
  | succ depth ih =>
    refine ⟨hmark, hmark', hschema, hjoin, fun q => ?_⟩
    rw [ending_nested_succ hd, ending_nested_succ hd']
    exact ih.outline q

/-! ## A grouping by two expressions -/

/-- The query is grouped by two expressions with canonical texts, and nothing but their aliases can keep its clauses
from being rendered. -/
structure View.GroupsByTwo (view : View) (q : Query) (first second : NodeRef) (text text' : String) : Prop where
  selects : (view.selectClause q).toOption.isSome
  filters : (view.whereClause q).toOption.isSome
  args : q.groupArgs.toOption = some [first, second]
  having : q.having = none
  order : q.order = []
  simple : (isSimple (q.tree first)).toOption = some false
  simple' : (isSimple (q.tree second)).toOption = some false
  canonical : (view.canonicalText (q.tree first)).toOption = some text
  canonical' : (view.canonicalText (q.tree second)).toOption = some text'
  bound : (view.render .bound (q.tree first)).toOption.isSome
  bound' : (view.render .bound (q.tree second)).toOption.isSome

namespace View.GroupsByTwo

variable {view : View} {q : Query} {first second : NodeRef} {text text' : String} {config : Config}

/-- The clauses end as the second argument of the grouping does. -/
theorem clauses_ending (h : view.GroupsByTwo q first second text text') :
    (view.clauses config q).map (fun _ => ()) =
      (view.groupItem config (({} : AliasTable).insert text (String.ofList (AliasTable.candidate config text)))
        (q.tree second)).map fun _ => () := by
  obtain ⟨selecting, hselecting⟩ := Except.exists_eq_ok_of_toOption h.selects
  obtain ⟨filter, hfilter⟩ := Except.exists_eq_ok_of_toOption h.filters
  obtain ⟨sql, hsql⟩ := Except.exists_eq_ok_of_toOption h.bound
  have hfirst : view.groupItem config {} (q.tree first) = .ok (_, ({} : AliasTable).insert text _) :=
    groupItem_of_free (Except.eq_ok_of_toOption h.simple) (Except.eq_ok_of_toOption h.canonical) rfl List.not_mem_nil
      hsql
  have hhaving : view.havingClause q = .ok none := by
    rw [havingClause, h.having]
    split
    · contradiction
    · rfl
  have horder : ∀ table, view.orderByClause q table = .ok none := fun table => by
    rw [orderByClause, if_pos (by simp [h.order])]
  simp only [clauses, hselecting, hfilter, groupByClause, Except.eq_ok_of_toOption h.args, groupItems, hfirst, hhaving,
    horder, bind, Except.bind]
  cases view.groupItem config (({} : AliasTable).insert text (String.ofList (AliasTable.candidate config text)))
    (q.tree second) <;> rfl

end View.GroupsByTwo

/-- Once all values are gathered, a compilation ends as its clauses do. -/
theorem Scope.outline_ending {scope : Scope} {q : Query} (hsettled : q.settleIndex = (q, none))
    (hvalues : (scope.gather q.parts (fun _ => false) q).values.toOption.isSome) :
    let left := (scope.gather q.parts (fun _ => false) q).query
    (scope.outline q).2.map (fun _ => ()) = ((scope.view left).clauses scope.config left).map fun _ => () := by
  obtain ⟨values, hvalues⟩ := Except.exists_eq_ok_of_toOption hvalues
  rw [outline, hsettled]
  dsimp only
  rw [hvalues]
  generalize (scope.gather q.parts (fun _ => false) q).query = left
  cases (scope.view left).clauses scope.config left <;> rfl

/-! ## The same values, and another text -/

/-- A query that is compiled for two dialects, which may have different names in the configuration, is left in the same
state and has the same error, or statements with the same values, unless the number of a generated alias gets too
long for one of them. -/
theorem Query.compile_respelled (context : Context) (dialect : Dialect) (name : String) (q : Query)
    (hd : context.dialect.Stateless) (hd' : dialect.Stateless) (hmark : context.dialect.mark ≠ "")
    (hmark' : dialect.mark ≠ "") :
    let here := q.compile context
    let there := q.compile { context with dialect := dialect, config.dialect := name }
    (here.query = there.query ∧
        ((∃ e, here.result = .error e ∧ there.result = .error e) ∨
          ∃ s s', here.result = .ok s ∧ there.result = .ok s' ∧ s.values = s'.values)) ∨
      (∃ e, here.result = .error (.aliasNumber e)) ∨ ∃ e, there.result = .error (.aliasNumber e) := by
  intro here there
  have hscopes := Context.respells_scope context { context with dialect := dialect, config.dialect := name } hd hd'
    hmark hmark' rfl rfl q.nesting
  have hends := hscopes.outline q
  rw [Coincide, ← (compile_eq_outline hd q).1, ← (compile_eq_outline hd q).2, ← (compile_eq_outline hd' q).1,
    ← (compile_eq_outline hd' q).2] at hends
  rcases hends with hx | hy | ⟨hquery, hresults⟩
  · exact Or.inr (Or.inl hx)
  · exact Or.inr (Or.inr hy)
  · rcases hresults.cases with hx | hy | ⟨e, he, he'⟩ | ⟨s, s', hs, hs', hvalues⟩
    · exact Or.inr (Or.inl hx)
    · exact Or.inr (Or.inr hy)
    · exact Or.inl ⟨hquery, Or.inl ⟨e, he, he'⟩⟩
    · exact Or.inl ⟨hquery, Or.inr ⟨s, s', hs, hs', hvalues⟩⟩

/-- Users by what their names match, of those whose names match a pattern. -/
def Query.notedUsers : Query where
  nodes :=
    [{ expr := .field { name := .text "name" } }, { expr := .field { name := .text "note" } },
     { expr := .field { name := .text "note_2" } }, { expr := .cmp (.like .ilike) (.index 0) (.index 1) },
     { expr := .cmp (.like .like) (.index 0) (.index 2) }, { expr := .summarise [.index 3, .index 4] },
     { expr := .value (.str "a%") }, { expr := .cmp (.like .ilike) (.index 0) (.index 6) }]
  head := some (.index 7)
  summarise := some (.index 5)
  tables := { table := "users" }

def Context.users (suffix : String) : Context where
  dialect := .generic
  schema := { tables := [{ name := "users", columns := [{ name := "name" }, { name := "note" }, { name := "note_2" }] }] }
  config := { aliasSuffix := suffix }

theorem Query.compile_respelled_notedUsers :
    let here := notedUsers.compile (.users "_alias")
    let there := notedUsers.compile { Context.users "_alias" with dialect := .mysql, config.dialect := "mysql" }
    here.query = there.query ∧ ∃ s s', here.result = .ok s ∧ there.result = .ok s' ∧ s.values = s'.values ∧
      s.text = "SELECT * FROM users WHERE name ILIKE ? GROUP BY name ILIKE note AS name_ILIKE_note_alias, " ++
        "name LIKE note_2 AS name_LIKE_note_alias" ∧
      s'.text = "SELECT * FROM users WHERE name LIKE %s GROUP BY name LIKE note AS name_LIKE_note_alias, " ++
        "name LIKE note_2 AS name_LIKE_note_alias_1" := by
  have heval : (notedUsers.compile (.users "_alias")).result.toOption.map Statement.text =
        some ("SELECT * FROM users WHERE name ILIKE ? GROUP BY name ILIKE note AS name_ILIKE_note_alias, " ++
          "name LIKE note_2 AS name_LIKE_note_alias") ∧
      (notedUsers.compile { Context.users "_alias" with dialect := .mysql, config.dialect := "mysql" }).result.toOption.map
          Statement.text =
        some ("SELECT * FROM users WHERE name LIKE %s GROUP BY name LIKE note AS name_LIKE_note_alias, " ++
          "name LIKE note_2 AS name_LIKE_note_alias_1") := by decide +kernel
  obtain ⟨htext, htext'⟩ := heval
  rcases compile_respelled (.users "_alias") .mysql "mysql" notedUsers (fun _ => rfl) (fun _ => rfl) (by decide)
    (by decide) with ⟨hquery, ⟨e, he, -⟩ | ⟨s, s', hs, hs', hvalues⟩⟩ | ⟨e, he⟩ | ⟨e, he⟩
  · rw [he] at htext
    cases htext
  · rw [hs] at htext
    rw [hs'] at htext'
    exact ⟨hquery, s, s', hs, hs', hvalues, Option.some.inj htext, Option.some.inj htext'⟩
  · rw [he] at htext
    cases htext
  · rw [he] at htext'
    cases htext'

/-- Users, with aliases that end in a number with one digit too many. -/
def Context.numberedUsers (dialect : Dialect) : Context :=
  { Context.users (String.ofList ('_' :: List.replicate (Text.maxDigits + 1) '9')) with
    dialect := dialect
    config.dialect := dialect.name }

namespace Context

variable {dialect : Dialect} {text : String}

theorem candidate_numberedUsers (h : AliasTable.stem text ≠ []) :
    AliasTable.candidate (numberedUsers dialect).config text =
      AliasTable.stem text ++ '_' :: List.replicate (Text.maxDigits + 1) '9' := by
  have hsuffix : (numberedUsers dialect).config.aliasSuffix.toList = '_' :: List.replicate (Text.maxDigits + 1) '9' :=
    String.toList_ofList
  rw [AliasTable.candidate, hsuffix, if_neg (by simpa using h)]

theorem splitNumber?_numberedUsers (h : AliasTable.stem text ≠ []) :
    AliasTable.splitNumber? (AliasTable.candidate (numberedUsers dialect).config text) =
      some (AliasTable.stem text, List.replicate (Text.maxDigits + 1) '9') := by
  rw [candidate_numberedUsers h]
  refine AliasTable.splitNumber?_append (fun c hc => ?_) (List.cons_ne_nil _ _)
  rw [List.eq_of_mem_replicate hc]
  decide

end Context

namespace Query

/-- The noted users, with their fields resolved. -/
def notedLeft (dialect : Dialect) : Query :=
  (((Context.numberedUsers dialect).scope 0).gather notedUsers.parts (fun _ => false) notedUsers).query

def notedView (dialect : Dialect) : View :=
  ((Context.numberedUsers dialect).scope 0).view (notedLeft dialect)

theorem compile_notedUsers_ending {dialect : Dialect} {text text' : String} (hd : dialect.Stateless)
    (hvalues : (((Context.numberedUsers dialect).scope 0).gather notedUsers.parts (fun _ => false)
      notedUsers).values.toOption.isSome)
    (hgroups : (notedView dialect).GroupsByTwo (notedLeft dialect) (.index 3) (.index 4) text text') :
    (notedUsers.compile (.numberedUsers dialect)).result.map (fun _ => ()) =
      ((notedView dialect).groupItem (Context.numberedUsers dialect).config (({} : AliasTable).insert text
          (String.ofList (AliasTable.candidate (Context.numberedUsers dialect).config text)))
        ((notedLeft dialect).tree (.index 4))).map fun _ => () := by
  have hnesting : notedUsers.nesting = 0 := by decide +kernel
  have houtline : (notedUsers.compile (.numberedUsers dialect)).result =
      (((Context.numberedUsers dialect).scope notedUsers.nesting).outline notedUsers).2 := (compile_eq_outline hd _).2
  rw [houtline, hnesting, Scope.outline_ending rfl hvalues]
  exact hgroups.clauses_ending

/-- For one standard dialect the noted users have a statement, for another they have none. -/
theorem compile_notedUsers_differs :
    Dialect.generic.Stateless ∧ Dialect.sqlite.Stateless ∧ Dialect.generic.mark ≠ "" ∧ Dialect.sqlite.mark ≠ "" ∧
      (∃ s, (notedUsers.compile (.numberedUsers .generic)).result = .ok s) ∧
      ∃ e, (notedUsers.compile (.numberedUsers .sqlite)).result = .error (.aliasNumber e) := by
  have hgeneric : (notedView .generic).GroupsByTwo (notedLeft .generic) (.index 3) (.index 4) "name ILIKE note"
      "name LIKE note_2" := by constructor <;> decide +kernel
  have hsqlite : (notedView .sqlite).GroupsByTwo (notedLeft .sqlite) (.index 3) (.index 4) "name LIKE note"
      "name LIKE note_2" := by constructor <;> decide +kernel
  have hstem : AliasTable.stem "name ILIKE note" = "name_ILIKE_note".toList ∧
      AliasTable.stem "name LIKE note" = "name_LIKE_note".toList ∧
      AliasTable.stem "name LIKE note_2" = "name_LIKE_note".toList := by decide +kernel
  refine ⟨fun _ => rfl, fun _ => rfl, by decide, by decide, ?_, ?_⟩
  · have hend := compile_notedUsers_ending (fun _ => rfl) (by decide +kernel) hgeneric
    obtain ⟨sql, hsql⟩ := Except.exists_eq_ok_of_toOption hgeneric.bound'
    rw [View.groupItem_of_free (Except.eq_ok_of_toOption hgeneric.simple') (Except.eq_ok_of_toOption hgeneric.canonical')
      (by decide +kernel) ?_ hsql] at hend
    · cases hresult : (notedUsers.compile (.numberedUsers .generic)).result with
      | error e => rw [hresult] at hend; cases hend
      | ok s => exact ⟨s, rfl⟩
    · intro htaken
      have hsame := String.ofList_inj.mp (List.mem_singleton.mp htaken)
      rw [Context.candidate_numberedUsers (by rw [hstem.2.2]; decide),
        Context.candidate_numberedUsers (by rw [hstem.1]; decide), hstem.1, hstem.2.2] at hsame
      exact absurd (List.append_cancel_right hsame) (by decide)
  · have hend := compile_notedUsers_ending (fun _ => rfl) (by decide +kernel) hsqlite
    rw [View.groupItem_of_overlong (Except.eq_ok_of_toOption hsqlite.simple')
      (Except.eq_ok_of_toOption hsqlite.canonical') (by decide +kernel) ?_
      (Context.splitNumber?_numberedUsers (by rw [hstem.2.2]; decide)) ?_] at hend
    · cases hresult : (notedUsers.compile (.numberedUsers .sqlite)).result with
      | error e => rw [hresult] at hend; cases hend; exact ⟨_, rfl⟩
      | ok s => rw [hresult] at hend; cases hend
    · refine List.mem_singleton.mpr (congrArg String.ofList ?_)
      rw [Context.candidate_numberedUsers (by rw [hstem.2.2]; decide),
        Context.candidate_numberedUsers (by rw [hstem.2.1]; decide), hstem.2.1, hstem.2.2]
    · rw [List.length_replicate]
      exact Nat.lt_succ_self _

end Query

end ArenaSql
