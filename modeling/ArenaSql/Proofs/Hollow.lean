import ArenaSql.Proofs.Growth

/-!
# Predicates without text

A predicate that is made of connectives alone has no text, whichever they are and however they are nested: a connective
passes over predicates without text before it looks at what is left. Such a filter is the same as none. A condition on
groups of that sort is rendered without asking for its text, though, so that its clause stays and holds nothing but its
keyword; apart from that it is the same as none, too.
-/

namespace ArenaSql

/-- The expression is made of connectives alone. -/
inductive Tree.Hollow : Tree → Prop
  | cond (op : CondOp) {args : List (Unit → Tree)} : (∀ t ∈ args, (t ()).Hollow) → Hollow (.cond op args)

/-! ## Hollow expressions -/

theorem CondOp.connect_of_blank (op : CondOp) {parts : List Sql} (h : ∀ part ∈ parts, part.isBlank) :
    op.connect parts = .ok [] := by
  have hnone : parts.filter (!·.isBlank) = [] :=
    List.filter_eq_nil_iff.mpr fun part hpart => by simp [h part hpart]
  simp only [connect, hnone]

namespace Tree.Hollow

variable {t : Tree}

theorem leaves (h : t.Hollow) : t.leaves = [] := by
  induction h with
  | @cond op args _ ih =>
    have hall : ∀ ts : List (Unit → Tree), (∀ t ∈ ts, (t ()).leaves = []) → Tree.leaves.leavesAll ts = [] := by
      intro ts hts
      induction ts with
      | nil => rfl
      | cons t rest ihrest =>
        rw [List.forall_mem_cons] at hts
        rw [Tree.leaves.leavesAll, hts.1, ihrest hts.2, List.append_nil]
    exact hall args ih

theorem render (h : t.Hollow) (scope : Scope) (style : Style) : scope.render style t = pure [] := by
  induction h with
  | @cond op args _ ih =>
    have hall : ∀ ts : List (Unit → Tree), (∀ t ∈ ts, scope.render style (t ()) = pure []) →
        scope.renderAll style ts = pure (List.replicate ts.length []) := by
      intro ts hts
      induction ts with
      | nil => rw [Scope.renderAll]; rfl
      | cons t rest ihrest =>
        rw [List.forall_mem_cons] at hts
        rw [Scope.renderAll, hts.1, ihrest hts.2, pure_bind, pure_bind]
        rfl
    have hblank : ∀ part ∈ List.replicate args.length ([] : Sql), Sql.isBlank part :=
      fun part hpart => by rw [List.eq_of_mem_replicate hpart]; rfl
    rw [Scope.render, hall args ih, pure_bind, op.connect_of_blank hblank]

end Tree.Hollow

namespace Query

variable {q : Query} {ref : NodeRef}

/-- What is hollow stays so as long as connectives are left alone. -/
theorem hollow_mapExprs {f : Nat → Expr → Expr} (hf : ∀ i op args, f i (.cond op args) = .cond op args)
    (h : (q.tree ref).Hollow) : ((q.mapExprs f).tree ref).Hollow := by
  have hunfold : ∀ n ref, (Tree.unfold q.nodes n ref).Hollow → (Tree.unfold (q.mapExprs f).nodes n ref).Hollow := by
    intro n
    induction n with
    | zero => exact fun ref h => by cases h
    | succ n ih =>
      intro ref h
      cases hlocate : locate? q.nodes ref with
      | none =>
        rw [Tree.unfold_of_none n hlocate] at h
        cases h
      | some found =>
        obtain ⟨i, node⟩ := found
        have hlocate' : locate? (q.mapExprs f).nodes ref = some (i, { node with expr := f i node.expr }) := by
          rw [locate?_mapExprs, hlocate]
          rfl
        rw [Tree.unfold_of_some n hlocate] at h
        rw [Tree.unfold_of_some n hlocate']
        cases hexpr : node.expr with
        | cond op args =>
          rw [hexpr, Expr.treeWith] at h
          cases h with
          | cond _ hargs =>
            rw [hf, Expr.treeWith]
            refine .cond op (List.forall_mem_map.mpr fun arg harg => ih arg ?_)
            exact List.forall_mem_map.mp hargs arg harg
        | _ => rw [hexpr] at h; cases h
  rw [tree] at h
  rw [tree, length_mapExprs]
  exact hunfold _ ref h

theorem hollow_settleIndex (h : (q.tree ref).Hollow) : (q.settleIndex.1.tree ref).Hollow := by
  obtain ⟨f, recordIndex, forms, hf, hquery⟩ := q.settleIndex_eq
  rw [hquery]
  refine hollow_mapExprs (f := f) (fun i op args => ?_) h
  rcases hf i (.cond op args) with hsame | ⟨_, _, _, _, hsort, _⟩
  · exact hsame
  · cases hsort

theorem hollow_resolveTrees (schema : Schema) (type : JoinType) (roots : List NodeRef) (h : (q.tree ref).Hollow) :
    ((q.resolveTrees schema type roots).1.tree ref).Hollow := by
  obtain ⟨done, joins, heq, -⟩ := q.resolveLeaves_eq schema type (q.leaves roots)
  rw [resolveTrees_eq, heq]
  refine hollow_mapExprs (f := fun i expr => if done i then expr.settled schema q.tables.table else expr) ?_ h
  intro i op args
  split <;> rfl

theorem aside_rerooted (head having : Option NodeRef) : Aside (rerooted · head having) :=
  ⟨fun _ => rfl, fun _ => rfl, fun _ _ _ => rfl, fun _ _ => rfl⟩

theorem settleIndex_rerooted (head having : Option NodeRef) (q : Query) :
    (q.rerooted head having).settleIndex = (q.settleIndex.1.rerooted head having, q.settleIndex.2) := by
  have hindex : (q.rerooted head having).recordIndex = q.recordIndex := rfl
  rw [settleIndex, settleIndex, hindex]
  cases q.recordIndex with
  | none => rfl
  | some index =>
    dsimp only
    split
    · rfl
    · split
      · exact (aside_rerooted head having).reverseEach q.order { q with recordIndex := some index.neg, forms := _ }
      · rfl

theorem resolveTrees_rerooted (schema : Schema) (type : JoinType) (roots : List NodeRef)
    (head having : Option NodeRef) (q : Query) :
    (q.rerooted head having).resolveTrees schema type roots =
      ((q.resolveTrees schema type roots).1.rerooted head having, (q.resolveTrees schema type roots).2) := by
  rw [resolveTrees_eq, resolveTrees_eq]
  exact (aside_rerooted head having).resolveLeaves schema type _ q

end Query

/-! ## Drafts with a hollow root and without it -/

/-- The second root is the first one, or there is none where the first one is `ref`. -/
def NodeRef.Fades (ref : NodeRef) (root root' : Option NodeRef) : Prop :=
  root' = root ∨ root = some ref ∧ root' = none

/-- Drafts of queries like `q` that have other roots, while the reference is hollow. -/
structure Draft.Twins (q : Query) (ref : NodeRef) (head having head' having' : Option NodeRef) (d d' : Draft) :
    Prop where
  hollow : (d.query.tree ref).Hollow
  derived : d.query.derived = q.derived
  summarise : d.query.summarise = q.summarise
  head : d.query.head = head
  having : d.query.having = having
  eq : d' = d.rerooted head' having'

namespace DraftM

variable {α β : Type} {R : Draft → Draft → Prop} {F : CompileError → Draft → Option Draft → Prop}

/-- Work that succeeds and leaves the draft as it is may be passed over. -/
theorem Mirrors.skip {work : DraftM α} {next : α → DraftM β} {work' : DraftM β} {a : α}
    (h : ∀ d d', R d d' → work.run d = (.ok a, d)) (hnext : Mirrors R F (next a) work') :
    Mirrors R F (work >>= next) work' := by
  intro d d' hd
  rw [run_bind, h d d' hd]
  exact hnext d d' hd

theorem run_map (f : α → β) (work : DraftM α) (d : Draft) : ((f <$> work).run d).1 = (work.run d).1.map f := by
  rw [map_eq_pure_bind, run_bind]
  rcases work.run d with ⟨_ | _, _⟩ <;> rfl

/-- Where failures are shared, both have the same result. -/
theorem Mirrors.result_eq {work work' : DraftM α} (h : Mirrors R (fun _ _ other => other.isSome) work work')
    {d d' : Draft} (hd : R d d') : (work.run d).1 = (work'.run d').1 := by
  have hmirrors := h d d' hd
  rcases hrun : work.run d with ⟨e | a, d₁⟩
  · rw [hrun] at hmirrors
    obtain hnone | ⟨d₁', hrun', -⟩ := hmirrors
    · cases hnone
    · rw [hrun']
  · rw [hrun] at hmirrors
    obtain ⟨d₁', hrun', -⟩ := hmirrors
    rw [hrun']

/-- Work that is the same for twins: it has the same result, and leaves twins again if it succeeds. -/
abbrev SameForTwins (q : Query) (ref : NodeRef) (head having head' having' : Option NodeRef) (work work' : DraftM α) :
    Prop :=
  Mirrors (Draft.Twins q ref head having head' having') (fun _ _ other => other.isSome) work work'

end DraftM

namespace Scope

open DraftM

variable {scope : Scope} {q : Query} {ref : NodeRef} {head having head' having' : Option NodeRef}

theorem twins_statementAt (scope : Scope) (i : Nat) :
    SameForTwins q ref head having head' having' (scope.statementAt (.index i)) (scope.statementAt (.index i)) := by
  rintro d _ hd
  obtain rfl := hd.eq
  have hstatement : (d.rerooted head' having').statement? i = d.statement? i := rfl
  have hquery : (d.rerooted head' having').query.expr? (.index i) = d.query.expr? (.index i) := rfl
  rw [run_statementAt, run_statementAt, hstatement, hquery]
  cases d.statement? i with
  | some statement => exact ⟨_, rfl, hd⟩
  | none =>
    cases hexpr : d.query.expr? (.index i) with
    | none => exact Or.inr ⟨_, rfl, rfl⟩
    | some expr =>
      cases expr with
      | subquery query embedding =>
        dsimp only
        rw [run_compileAt, run_compileAt]
        dsimp only [Draft.rerooted]
        cases (scope.nested (query.embedded embedding) d.requested).result with
        | error e => exact Or.inr ⟨_, rfl, rfl⟩
        | ok statement =>
          refine ⟨_, rfl, ?_, hd.derived, hd.summarise, hd.head, hd.having, rfl⟩
          rw [(Query.SameButNested.setExpr hexpr _).tree]
          exact hd.hollow
      | _ => exact Or.inr ⟨_, rfl, rfl⟩

theorem mirror_twins (scope : Scope) :
    scope.Mirror scope (Draft.Twins q ref head having head' having') (fun _ _ other => other.isSome) fun _ => True where
  dialect := rfl
  config := rfl
  same _ _ hd := ⟨head', having', hd.eq⟩
  failing _ _ _ _ _ := Or.inr rfl
  placeholder d d' n hd := ⟨hd.hollow, hd.derived, hd.summarise, hd.head, hd.having, by rw [hd.eq]; rfl⟩
  statementAt i _ := twins_statementAt scope i
  roots _ _ _ _ _ _ _ _ _ := trivial
  args _ _ _ _ _ _ _ _ _ _ _ := trivial

theorem twins_onQuery {work : Query → Query × Option CompileError}
    (hrerooted : ∀ head having q, work (Query.rerooted q head having) = ((work q).1.rerooted head having, (work q).2))
    (hhollow : ∀ q : Query, (q.tree ref).Hollow → ((work q).1.tree ref).Hollow)
    (hsame : ∀ q, (work q).1.derived = q.derived ∧ (work q).1.summarise = q.summarise) :
    SameForTwins q ref head having head' having' (onQuery work) (onQuery work) := by
  rintro d _ hd
  obtain rfl := hd.eq
  have hroots : (work d.query).1 = (work d.query).1.rerooted d.query.head d.query.having := by
    have hself := hrerooted d.query.head d.query.having d.query
    rw [show d.query.rerooted d.query.head d.query.having = d.query from congrArg Draft.query d.rerooted_self] at hself
    exact congrArg Prod.fst hself
  rw [run_onQuery, run_onQuery, show (d.rerooted head' having').query = d.query.rerooted head' having' from rfl,
    hrerooted]
  rcases hwork : work d.query with ⟨q', _ | e⟩
  · have hq' : (work d.query).1 = q' := by rw [hwork]
    rw [hq'] at hroots
    refine ⟨_, rfl, ?_, ?_, ?_, ?_, ?_, rfl⟩
    · exact hq' ▸ hhollow d.query hd.hollow
    · exact hq' ▸ (hsame d.query).1.trans hd.derived
    · exact hq' ▸ (hsame d.query).2.trans hd.summarise
    · exact (congrArg Query.head hroots).trans hd.head
    · exact (congrArg Query.having hroots).trans hd.having
  · exact Or.inr ⟨_, rfl, rfl⟩

/-! ## Passes -/

theorem twins_pass (scope : Scope) (refs : List NodeRef) :
    SameForTwins q ref head having head' having' (scope.pass refs) (scope.pass refs) := by
  refine (twins_onQuery ?_ ?_ ?_).bind fun _ => ?_
  · exact fun head having q => q.resolveTrees_rerooted _ _ _ head having
  · exact fun q hq => Query.hollow_resolveTrees _ _ _ hq
  · intro q
    obtain ⟨done, joins, heq, -⟩ := q.resolveLeaves_eq scope.schema scope.config.joinType _
    rw [Query.resolveTrees_eq, heq]
    exact ⟨rfl, rfl⟩
  · exact mirrors_valuesOfRoots (mirror_twins scope) _ fun _ _ _ _ _ _ => trivial

/-- A pass over a hollow expression finds nothing to do. -/
theorem run_pass_of_hollow (scope : Scope) {d : Draft} (h : (d.query.tree ref).Hollow) :
    (scope.pass [ref]).run d = (.ok [], d) := by
  have hleaves : d.query.leaves ([ref].filter (!·.isNull)) = [] := by
    refine List.flatMap_eq_nil_iff.mpr fun root hroot => ?_
    rw [List.mem_singleton.mp (List.mem_of_mem_filter hroot)]
    exact h.leaves
  have hplain : ∀ leaf ∈ d.query.leaves ([ref].filter (!·.isNull)), leaf.isPlain := by simp [hleaves]
  have hresolved : d.query.resolveLeaves scope.schema scope.config.joinType
      (d.query.leaves ([ref].filter (!·.isNull))) = (d.query, none) := by
    rw [hleaves]
    rfl
  rw [run_pass_of_plain hplain hresolved, hleaves]
  rfl

theorem twins_pass_root (scope : Scope) {root root' : Option NodeRef} (h : ref.Fades root root') :
    SameForTwins q ref head having head' having' (scope.pass root.toList) (scope.pass root'.toList) := by
  rcases h with rfl | ⟨rfl, rfl⟩
  · exact twins_pass scope _
  · intro d d' hd
    rw [Option.toList_some, run_pass_of_hollow scope hd.hollow]
    exact ⟨d', rfl, hd⟩

theorem twins_passes (scope : Scope) (hhead : ref.Fades head head') (hhaving : ref.Fades having having') :
    SameForTwins q ref head having head' having' scope.passes scope.passes := by
  rw [passes_eq]
  refine (twins_onQuery ?_ ?_ ?_).bind fun _ => ?_
  · exact fun head having q => q.settleIndex_rerooted head having
  · exact fun q hq => Query.hollow_settleIndex hq
  · intro q
    obtain ⟨f, recordIndex, forms, -, hquery⟩ := q.settleIndex_eq
    rw [hquery]
    exact ⟨rfl, rfl⟩
  · refine .get_bind fun d d' hd => ?_
    have hshown : SameForTwins q ref head having head' having' (scope.pass (shownHaving d.query))
        (scope.pass (shownHaving (d.query.rerooted head' having'))) := by
      rw [shownHaving, shownHaving, hd.having]
      cases hgrouped : d.query.summarise with
      | none => simp only [Query.rerooted, hgrouped]; exact twins_pass scope _
      | some root => simp only [Query.rerooted, hgrouped]; exact twins_pass_root scope hhaving
    rw [hd.eq]
    simp only [passAll]
    refine (twins_pass scope _).bind fun _ => ?_
    rw [hd.head]
    refine ((twins_pass_root scope hhead).bind fun _ => ?_).bind fun _ => .pure _
    refine ((twins_pass scope _).bind fun _ => ?_).bind fun _ => .pure _
    refine (hshown.bind fun _ => ?_).bind fun _ => .pure _
    exact ((twins_pass scope _).bind fun _ => .pure _).bind fun _ => .pure _

/-! ## Clauses -/

theorem twins_aliases (d d' : Draft) (table : AliasTable) (hd : Draft.Twins q ref head having head' having' d d') :
    Draft.Twins q ref head having head' having' { d with aliases := table } { d' with aliases := table } :=
  ⟨hd.hollow, hd.derived, hd.summarise, hd.head, hd.having, by rw [hd.eq]; rfl⟩

theorem twins_whereClause (scope : Scope) (hhead : ref.Fades head head') :
    SameForTwins q ref head having head' having' scope.whereClause scope.whereClause := by
  rcases hhead with rfl | ⟨rfl, rfl⟩
  · exact mirrors_whereClause (mirror_twins scope) fun d d' hd => by rw [hd.eq]; exact hd.head.symm
  · intro d d' hd
    have hblank : scope.whereClause.run d = (.ok none, d) := by
      rw [whereClause, run_bind, run_get]
      dsimp only
      rw [hd.head]
      dsimp only
      rw [DraftM.tree, bind_assoc, run_bind, run_get]
      dsimp only
      rw [pure_bind, hd.hollow.render, pure_bind]
      rfl
    rw [hblank]
    refine ⟨d', ?_, hd⟩
    rw [hd.eq]
    rfl

/-- The clause of a hollow condition on groups. -/
theorem run_havingClause_of_hollow {d : Draft} (scope : Scope) (h : (d.query.tree ref).Hollow)
    (hgrouped : d.query.summarise.isSome) (hhaving : d.query.having = some ref) :
    scope.havingClause.run d = (.ok (some (Sql.plain "HAVING ")), d) := by
  obtain ⟨root, hroot⟩ := Option.isSome_iff_exists.mp hgrouped
  rw [havingClause, run_bind, run_get]
  dsimp only
  rw [hroot, hhaving]
  dsimp only
  rw [DraftM.tree, bind_assoc, run_bind, run_get]
  dsimp only
  rw [pure_bind, h.render, pure_bind]
  rfl

/-- The clauses before and behind the condition on groups, and the values. -/
def surroundings (scope : Scope) : DraftM (List Sql × List Sql × List Value) := do
  let values ← scope.passes
  let selecting ← scope.selectClause
  let sources ← fromClause
  let filter ← scope.whereClause
  let grouping ← scope.groupByClause
  let ordering ← scope.orderByClause
  let limit ← scope.limitClause
  return (selecting :: sources :: [filter, grouping].filterMap id, [ordering, limit].filterMap id, values)

/-- The statement with such clauses and values, and with a clause for the condition on groups or without it. -/
def surrounding (scope : Scope) (q : Query) (having : Option Sql) : List Sql × List Sql × List Value → Statement
  | (front, back, values) =>
    ⟨q.derived (Sql.joined " " (front ++ having.toList ++ back)), values, scope.dialect.name⟩

/-- A hollow filter makes no difference. -/
theorem twins_statement_head (scope : Scope) (hhead : ref.Fades head head') :
    SameForTwins q ref head having head' having scope.statement scope.statement := by
  have hmirror : scope.Mirror scope (Draft.Twins q ref head having head' having) (fun _ _ other => other.isSome)
      fun _ => True := mirror_twins scope
  refine (twins_passes scope hhead (Or.inl rfl)).bind fun values => ?_
  refine Mirrors.bind ?_ fun clauses => ?_
  · refine (mirrors_selectClause hmirror).bind fun _ => (mirrors_fromClause hmirror).bind fun _ => ?_
    refine (twins_whereClause scope hhead).bind fun _ => (mirrors_groupByClause hmirror twins_aliases).bind fun _ => ?_
    refine (mirrors_havingClause hmirror fun d d' hd => by rw [hd.eq]; exact hd.having.symm).bind fun _ => ?_
    exact (mirrors_orderByClause hmirror).bind fun _ => (mirrors_limitClause hmirror).bind fun _ => .pure _
  · refine .get_bind fun d d' hd => ?_
    rw [hd.eq]
    exact .pure _

/-- A hollow condition on groups makes no difference to the clauses around it. -/
theorem twins_statement_having (scope : Scope) (hhaving : ref.Fades having none) (hgrouped : q.summarise.isSome) :
    SameForTwins q ref head having head none scope.statement
      (scope.surrounding q (having.map fun _ => Sql.plain "HAVING ") <$> scope.surroundings) := by
  have hmirror : scope.Mirror scope (Draft.Twins q ref head having head none) (fun _ _ other => other.isSome)
      fun _ => True := mirror_twins scope
  have hclause : ∀ d d', Draft.Twins q ref head having head none d d' →
      scope.havingClause.run d = (.ok (having.map fun _ => Sql.plain "HAVING "), d) := by
    intro d d' hd
    rcases hhaving with rfl | ⟨rfl, -⟩
    · rw [havingClause, run_bind, run_get]
      dsimp only
      rw [hd.having]
      cases d.query.summarise <;> rfl
    · exact run_havingClause_of_hollow scope hd.hollow (hd.summarise ▸ hgrouped) hd.having
  have hclauses : ∀ filter grouping condition ordering limit : Option Sql,
      [filter, grouping, condition, ordering, limit].filterMap id =
        [filter, grouping].filterMap id ++ condition.toList ++ [ordering, limit].filterMap id := by
    intro filter grouping condition ordering limit
    cases filter <;> cases grouping <;> cases condition <;> rfl
  simp only [statement, clauses, surroundings, map_eq_pure_bind, bind_assoc, pure_bind]
  refine (twins_passes scope (Or.inl rfl) hhaving).bind fun values => ?_
  refine (mirrors_selectClause hmirror).bind fun selecting => (mirrors_fromClause hmirror).bind fun sources => ?_
  refine (twins_whereClause scope (Or.inl rfl)).bind fun filter => ?_
  refine (mirrors_groupByClause hmirror twins_aliases).bind fun grouping => .skip hclause ?_
  refine (mirrors_orderByClause hmirror).bind fun ordering => (mirrors_limitClause hmirror).bind fun limit => ?_
  intro d d' hd
  refine ⟨d', ?_, hd⟩
  rw [surrounding, hclauses, hd.derived]
  rfl

end Scope

/-! ## Compiling -/

theorem Query.nesting_rerooted (q : Query) (head having : Option NodeRef) :
    (q.rerooted head having).nesting = q.nesting := by
  rw [nesting_eq, nesting_eq]
  rfl

/-- The twins with which compiling starts. -/
theorem Draft.twins_start {q : Query} {ref : NodeRef} (h : (q.tree ref).Hollow) (head having head' having' : Option NodeRef) :
    Twins q ref head having head' having' { query := q.rerooted head having } { query := q.rerooted head' having' } :=
  ⟨h, rfl, rfl, rfl, rfl, rfl⟩

/-- A filter that is made of connectives alone is the same as none. Of a condition on groups that is made of connectives
alone, the keyword stays between the clauses before and behind it; apart from that it is the same as none, too. -/
theorem Query.compileWith_of_hollow (context inner : Context) {q : Query} {ref : NodeRef} (h : (q.tree ref).Hollow) :
    ({ q with head := some ref }.compileWith context inner).result =
        ({ q with head := none }.compileWith context inner).result ∧
      (q.summarise.isSome → ∃ drafted : Except CompileError (List Sql × List Sql × List Value),
        ({ q with having := none }.compileWith context inner).result = drafted.map (fun (front, back, values) =>
            ⟨q.derived (Sql.joined " " (front ++ back)), values, context.dialect.name⟩) ∧
          ({ q with having := some ref }.compileWith context inner).result = drafted.map (fun (front, back, values) =>
            ⟨q.derived (Sql.joined " " (front ++ Sql.plain "HAVING " :: back)), values, context.dialect.name⟩)) := by
  have hscope : ∀ head having, context.scopeWith inner (q.rerooted head having) = context.scopeWith inner q := by
    intro head having
    rw [Context.scopeWith, nesting_rerooted, Context.scopeWith]
  have hresult : ∀ head having, ((q.rerooted head having).compileWith context inner).result =
      ((context.scopeWith inner q).statement.run { query := q.rerooted head having }).1 := by
    intro head having
    rw [compileWith, hscope]
    rfl
  refine ⟨?_, fun hgrouped => ?_⟩
  · change ((q.rerooted (some ref) q.having).compileWith context inner).result =
      ((q.rerooted none q.having).compileWith context inner).result
    rw [hresult, hresult]
    exact (Scope.twins_statement_head _ (Or.inr ⟨rfl, rfl⟩)).result_eq (Draft.twins_start h _ _ _ _)
  · let scope := context.scopeWith inner q
    have hhaving : ∀ having, ref.Fades having none →
        ((q.rerooted q.head having).compileWith context inner).result =
          (scope.surroundings.run { query := q.rerooted q.head none }).1.map
            (scope.surrounding q (having.map fun _ => Sql.plain "HAVING ")) := by
      intro having hfades
      rw [hresult, ← DraftM.run_map]
      exact (Scope.twins_statement_having scope hfades hgrouped).result_eq (Draft.twins_start h _ _ _ _)
    refine ⟨_, (hhaving none (Or.inl rfl)).trans (congrArg (Except.map · _) ?_),
      (hhaving (some ref) (Or.inr ⟨rfl, rfl⟩)).trans (congrArg (Except.map · _) ?_)⟩
    · funext ⟨front, back, values⟩
      simp [Scope.surrounding, scope, Context.scopeWith]
    · funext ⟨front, back, values⟩
      simp [Scope.surrounding, scope, Context.scopeWith]

/-- Sales with their regions and sums. -/
def Context.sales : Context where
  dialect := .postgres
  schema := { tables := [{ name := "sales", columns := [{ name := "region" }, { name := "total" }] }] }
  config := {}

/-- The regions with large sales. The arena also has a disjunction of an empty conjunction and a negation of it. -/
def Query.salesByRegion : Query where
  nodes :=
    [{ expr := .field { name := .text "region" } }, { expr := .summarise [.index 0] }, { expr := .cond .conj [] },
     { expr := .cond .neg [.index 2, .index 2] }, { expr := .cond .disj [.index 2, .index 3] },
     { expr := .field { name := .text "total" } }, { expr := .value (.int 100) },
     { expr := .cmp .gt (.index 5) (.index 6) }, { expr := .sort (.index 0) .desc }]
  select := [.index 0]
  head := some (.index 7)
  summarise := some (.index 1)
  order := [.index 8]
  ordered := true
  tables := { table := "sales" }

theorem Query.hollow_salesByRegion : (salesByRegion.tree (.index 4)).Hollow := by
  have hnone : (Tree.cond .conj []).Hollow := .cond .conj (by simp)
  have hneg : (Tree.cond .neg [fun _ => .cond .conj [], fun _ => .cond .conj []]).Hollow :=
    .cond .neg (by simp [hnone])
  have hdisj : (Tree.cond .disj [fun _ => .cond .conj [],
      fun _ => .cond .neg [fun _ => .cond .conj [], fun _ => .cond .conj []]]).Hollow :=
    .cond .disj (by simp [hnone, hneg])
  exact hdisj

/-- With the disjunction for a filter there is no filter. With the disjunction for a condition on groups there is its
keyword between the clauses around it. -/
theorem Query.compileWith_of_hollow_salesByRegion :
    ({ salesByRegion with head := some (.index 4) }.compileWith .sales .sales).result.toOption.map Statement.text =
        some "SELECT region FROM sales GROUP BY region ORDER BY region DESC" ∧
      ∃ front back values,
        ({ salesByRegion with having := none }.compileWith .sales .sales).result =
            .ok ⟨Sql.joined " " (front ++ back), values, "postgres"⟩ ∧
          ({ salesByRegion with having := some (.index 4) }.compileWith .sales .sales).result =
            .ok ⟨Sql.joined " " (front ++ Sql.plain "HAVING " :: back), values, "postgres"⟩ := by
  obtain ⟨hhead, hhaving⟩ := compileWith_of_hollow .sales .sales hollow_salesByRegion
  obtain ⟨drafted, hnone, hsome⟩ := hhaving rfl
  have htext : ({ salesByRegion with head := none }.compileWith .sales .sales).result.toOption.map Statement.text =
      some "SELECT region FROM sales GROUP BY region ORDER BY region DESC" := by decide +kernel
  have hok : ({ salesByRegion with having := none }.compileWith .sales .sales).result.isOk := by decide +kernel
  refine ⟨by rw [hhead]; exact htext, ?_⟩
  cases drafted with
  | error e => rw [hnone] at hok; cases hok
  | ok parts => exact ⟨parts.1, parts.2.1, parts.2.2, hnone, hsome⟩

/-- The keyword that stays makes another text. -/
theorem Query.compileWith_hollow_having :
    (salesByRegion.tree (.index 4)).Hollow ∧ salesByRegion.summarise.isSome ∧
      ({ salesByRegion with having := none }.compileWith .sales .sales).result.toOption.map Statement.text =
        some "SELECT region FROM sales WHERE total > %s GROUP BY region ORDER BY region DESC" ∧
      ({ salesByRegion with having := some (.index 4) }.compileWith .sales .sales).result.toOption.map Statement.text =
        some "SELECT region FROM sales WHERE total > %s GROUP BY region HAVING  ORDER BY region DESC" :=
  ⟨hollow_salesByRegion, rfl, by decide +kernel, by decide +kernel⟩

end ArenaSql
