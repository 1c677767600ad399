import ArenaSql.Proofs.Drafting
import ArenaSql.Proofs.Paging
import ArenaSql.Proofs.Resolved

/-!
# The outline of a compilation

What compiling a query yields, without drafts: the record index is settled; for one part of the query after the
other, the fields are resolved and the values collected; at last the clauses are read off the view of the query.
The nested queries that were met on the way are left as compiling leaves them.
-/

namespace ArenaSql

/-- The parts of a query that its statement shows, in the order of the passes. -/
def Query.parts (q : Query) : List (List NodeRef) :=
  [q.select, q.head.toList, q.summarise.toList, Scope.shownHaving q, Scope.shownOrder q].map
    (·.filter (!·.isNull))

/-- What the passes over some parts of a query leave. -/
structure Gathering where
  query : Query
  /-- The positions of the nested queries that are compiled. -/
  done : Nat → Bool
  values : Except CompileError (List Value)

namespace Scope

def gather (scope : Scope) : List (List NodeRef) → (Nat → Bool) → Query → Gathering
  | [], done, q => ⟨q, done, .ok []⟩
  | roots :: rest, done, q =>
    match q.resolveTrees scope.schema scope.config.joinType roots with
    | (q, some e) => ⟨q, done, .error e⟩
    | (q, none) =>
      let done := fun i => done i || ((scope.view q).met (q.leaves roots)).contains i
      match (scope.view q).collect (q.leaves roots) with
      | .error e => ⟨q, done, .error e⟩
      | .ok found =>
        let after := gather scope rest done q
        ⟨after.query, after.done, after.values.map (found ++ ·)⟩

/-- The query as compiling leaves it, and the statement or the reason why there is none. -/
def outline (scope : Scope) (q : Query) : Query × Except CompileError Statement :=
  match q.settleIndex with
  | (q, some e) => (q, .error e)
  | (q, none) =>
    let gathered := scope.gather q.parts (fun _ => false) q
    (scope.overlay gathered.done gathered.query, do
      let values ← gathered.values
      let (clauses, _) ← (scope.view gathered.query).clauses scope.config gathered.query
      return ⟨gathered.query.derived (Sql.joined " " clauses), values, scope.dialect.name⟩)

end Scope

/-! ## Collecting -/

namespace View

variable {view : View} {leaves : List Leaf} {found : List Value}

theorem collect_cons_eq_ok {leaf : Leaf} {rest : List Leaf} (h : view.collect (leaf :: rest) = .ok found) :
    ∃ first more, view.leafValues leaf = .ok first ∧ view.collect rest = .ok more ∧ found = first ++ more := by
  rw [collect] at h
  cases hfirst : view.leafValues leaf with
  | error e => rw [hfirst] at h; cases h
  | ok first =>
    cases hmore : view.collect rest with
    | error e => rw [hfirst, hmore] at h; cases h
    | ok more => rw [hfirst, hmore] at h; cases h; exact ⟨first, more, rfl, rfl, rfl⟩

theorem unbroken_of_collect (h : view.collect leaves = .ok found) (fault : ArenaFault) : .broken fault ∉ leaves := by
  induction leaves generalizing found with
  | nil => exact List.not_mem_nil
  | cons leaf rest ih =>
    obtain ⟨first, more, hfirst, hmore, -⟩ := collect_cons_eq_ok h
    intro hmem
    rcases List.mem_cons.mp hmem with rfl | hmem
    · cases hfirst
    · exact ih hmore hmem

theorem exists_nested_of_collect (h : view.collect leaves = .ok found) {i : Nat}
    (hi : .subquery i ∈ leaves) : ∃ statement, view.nested i = .ok statement := by
  induction leaves generalizing found with
  | nil => cases hi
  | cons leaf rest ih =>
    obtain ⟨first, more, hfirst, hmore, -⟩ := collect_cons_eq_ok h
    rcases List.mem_cons.mp hi with rfl | hi
    · rw [leafValues] at hfirst
      obtain ⟨statement, hstatement, -⟩ := Except.bind_eq_ok_iff.mp hfirst
      exact ⟨statement, hstatement⟩
    · exact ih hmore hi

/-- If all values are collected, all nested queries are met. -/
theorem mem_met_iff (h : view.collect leaves = .ok found) {i : Nat} : i ∈ view.met leaves ↔ .subquery i ∈ leaves := by
  induction leaves generalizing found with
  | nil => simp [met]
  | cons leaf rest ih =>
    obtain ⟨first, more, hfirst, hmore, -⟩ := collect_cons_eq_ok h
    cases leaf with
    | subquery j =>
      cases hnested : view.nested j with
      | error e => rw [leafValues, hnested] at hfirst; cases hfirst
      | ok statement => simp [met, hnested, ih hmore]
    | broken fault => cases hfirst
    | field | value | unknown => simp [met, ih hmore]

end View

/-! ## Passes -/

theorem DraftM.run_onQuery (work : Query → Query × Option CompileError) (d : Draft) :
    (onQuery work).run d =
      match work d.query with
      | (q, some e) => (.error e, { d with query := q })
      | (q, none) => (.ok (), { d with query := q }) := by
  rw [onQuery, run_bind, run_get]
  dsimp only
  rw [run_bind, run_modify]
  rcases work d.query with ⟨q, _ | e⟩ <;> rfl

namespace Scope

variable {scope : Scope} {q : Query} {done : Nat → Bool} {d : Draft}

theorem keepsFields_leftover (scope : Scope) (done : Nat → Bool) :
    Expr.KeepsFields fun i expr => if done i then scope.leftover expr else expr := by
  intro i expr field
  dsimp only
  split
  · cases expr <;> simp [leftover]
  · exact Iff.rfl

theorem leaves_overlay (roots : List NodeRef) : (scope.overlay done q).leaves roots = q.leaves roots := by
  simp only [Query.leaves, tree_overlay]

theorem resolveTrees_overlay {schema : Schema} {type : JoinType} (roots : List NodeRef) :
    (scope.overlay done q).resolveTrees schema type roots =
      (scope.overlay done (q.resolveTrees schema type roots).1, (q.resolveTrees schema type roots).2) := by
  rw [Query.resolveTrees_eq, Query.resolveTrees_eq, leaves_overlay]
  exact Query.resolveLeaves_mapExprs (keepsFields_leftover scope done) _ q

/-- Resolving fields has no influence on nested queries. -/
theorem nestedAt_settledAt {schema : Schema} (joins : List Join) (i : Nat) :
    scope.nestedAt (q.settledAt schema done joins) i = scope.nestedAt q i := by
  rw [nestedAt, nestedAt, Query.expr?_settledAt]
  cases q.expr? (.index i) with
  | none => simp [Query.settledAt]
  | some expr => cases expr <;> cases done i <;> rfl

theorem nestedAt_resolveTrees (scope : Scope) (schema : Schema) (type : JoinType) (roots : List NodeRef) (q : Query) :
    scope.nestedAt (q.resolveTrees schema type roots).1 = scope.nestedAt q := by
  funext i
  obtain ⟨done, joins, heq, -⟩ := q.resolveLeaves_eq schema type (q.leaves roots)
  rw [Query.resolveTrees_eq, heq, nestedAt_settledAt]

theorem tracks_resolveTrees {schema : Schema} {type : JoinType} {roots : List NodeRef} {q' : Query}
    {fault : Option CompileError} (htracks : d.Tracks scope q done)
    (h : q.resolveTrees schema type roots = (q', fault)) :
    { d with query := scope.overlay done q' }.Tracks scope q' done := by
  have hnested := nestedAt_resolveTrees scope schema type roots q
  rw [h] at hnested
  exact ⟨rfl, by rw [hnested]; exact htracks.statements, htracks.others⟩

/-- The values of several expressions are collected from all their leaves. -/
theorem run_valuesOfRoots (hsteady : scope.Steady) (roots : List NodeRef) (htracks : d.Tracks scope q done) :
    (scope.valuesOfRoots roots).run d = (scope.collect (q.leaves roots)).run d := by
  induction roots generalizing d done with
  | nil => rfl
  | cons root rest ih =>
    have hsub : ∀ i : Nat, .subquery i ∈ (q.tree root).leaves →
        ∃ query embedding, q.expr? (.index i) = some (.subquery query embedding) :=
      fun i hi => Query.subquery_of_mem_leaves (List.mem_flatMap.mpr ⟨root, List.mem_singleton_self _, hi⟩)
    obtain ⟨d', hrun, -, -, htracks'⟩ := Harvests.collect hsteady (q.tree root).leaves hsub d htracks
    rw [valuesOfRoots, run_tree_bind htracks.ready, valuesOf_eq_collect, Query.leaves, List.flatMap_cons,
      collect_append, DraftM.run_bind, DraftM.run_bind, hrun]
    cases hanswer : (scope.view q).collect (q.tree root).leaves with
    | error e => rfl
    | ok found =>
      rw [hanswer] at htracks'
      dsimp only
      rw [DraftM.run_bind, DraftM.run_bind, ih (htracks' rfl)]
      rfl

/-- The passes over some parts of the query. -/
def passAll (scope : Scope) : List (List NodeRef) → DraftM (List Value)
  | [] => return []
  | refs :: rest => do
    let found ← scope.pass refs
    return found ++ (← passAll scope rest)

/-- One pass resolves fields below the overlay, and then collects values. -/
theorem run_pass (hsteady : scope.Steady) (refs : List NodeRef) (htracks : d.Tracks scope q done) :
    (scope.pass refs).run d =
      let roots := refs.filter (!·.isNull)
      match q.resolveTrees scope.schema scope.config.joinType roots with
      | (q', some e) => (.error e, { d with query := scope.overlay done q' })
      | (q', none) => (scope.collect (q'.leaves roots)).run { d with query := scope.overlay done q' } := by
  rw [pass, DraftM.run_bind, DraftM.run_onQuery, htracks.query_eq, resolveTrees_overlay]
  dsimp only
  cases hresolved : q.resolveTrees scope.schema scope.config.joinType (refs.filter (!·.isNull)) with
  | mk q' fault =>
    cases fault with
    | some e => rfl
    | none => exact run_valuesOfRoots hsteady _ (tracks_resolveTrees htracks hresolved)

/-- The passes over some parts of the query end as the gathering says. -/
theorem run_passAll (hsteady : scope.Steady) (parts : List (List NodeRef)) (htracks : d.Tracks scope q done) :
    let gathered := scope.gather (parts.map (·.filter (!·.isNull))) done q
    ∃ d', (scope.passAll parts).run d = (gathered.values, d') ∧ d'.aliases = d.aliases ∧
      d'.query = scope.overlay gathered.done gathered.query ∧
      (gathered.values.isOk → d'.Tracks scope gathered.query gathered.done) := by
  -- a pass that fails leaves its changes behind, but no draft that tracks them
  induction parts generalizing d q done with
  | nil => exact ⟨d, rfl, rfl, htracks.query_eq, fun _ => htracks⟩
  | cons refs rest ih =>
    rw [passAll, DraftM.run_bind, run_pass hsteady refs htracks, List.map_cons, gather]
    dsimp only
    cases hresolved : q.resolveTrees scope.schema scope.config.joinType (refs.filter (!·.isNull)) with
    | mk q' fault =>
      cases fault with
      | some e => exact ⟨_, rfl, rfl, rfl, fun h => by cases h⟩
      | none =>
        obtain ⟨d₁, hrun₁, haliases₁, hquery₁, htracks₁⟩ := Harvests.collect hsteady
          (q'.leaves (refs.filter (!·.isNull))) (fun i hi => Query.subquery_of_mem_leaves hi) _
          (tracks_resolveTrees htracks hresolved)
        dsimp only
        rw [hrun₁]
        cases hfound : (scope.view q').collect (q'.leaves (refs.filter (!·.isNull))) with
        | error e => exact ⟨d₁, rfl, haliases₁, hquery₁, fun h => by cases h⟩
        | ok found =>
          rw [hfound] at htracks₁
          obtain ⟨d₂, hrun₂, haliases₂, hquery₂, htracks₂⟩ := ih (htracks₁ rfl)
          dsimp only
          rw [DraftM.run_bind, hrun₂]
          cases hvalues : (scope.gather (rest.map (·.filter (!·.isNull)))
            (fun i => done i || ((scope.view q').met (q'.leaves (refs.filter (!·.isNull)))).contains i) q').values with
          | error e => exact ⟨d₂, rfl, haliases₂.trans haliases₁, hquery₂, fun h => by cases h⟩
          | ok more =>
            rw [hvalues] at htracks₂
            exact ⟨d₂, rfl, haliases₂.trans haliases₁, hquery₂, fun _ => htracks₂ rfl⟩

end Scope

theorem Query.leaves_append (q : Query) (first rest : List NodeRef) :
    q.leaves (first ++ rest) = q.leaves first ++ q.leaves rest := by
  simp [leaves]

/-! ## Passes over plain leaves -/

namespace Scope

variable {scope : Scope} {d : Draft} {q : Query} {fault : Option CompileError}

theorem run_valuesOfRoots_of_plain {roots : List NodeRef} (h : ∀ leaf ∈ d.query.leaves roots, leaf.isPlain) :
    (scope.valuesOfRoots roots).run d = (.ok ((d.query.leaves roots).flatMap Leaf.ownValues), d) := by
  induction roots with
  | nil => rfl
  | cons root rest ih =>
    have htree : (DraftM.tree root).run d = (.ok (d.query.tree root), d) := rfl
    have hleaves : d.query.leaves (root :: rest) = (d.query.tree root).leaves ++ d.query.leaves rest := rfl
    rw [hleaves, List.forall_mem_append] at h
    rw [valuesOfRoots, DraftM.run_bind, htree]
    dsimp only
    rw [DraftM.run_bind, valuesOf_eq_collect, scope.run_collect_of_plain h.1]
    dsimp only
    rw [DraftM.run_bind, ih h.2, hleaves, List.flatMap_append]
    rfl

/-- Over plain leaves, a pass does what resolution does. -/
theorem run_pass_of_plain {refs : List NodeRef}
    (hplain : ∀ leaf ∈ d.query.leaves (refs.filter (!·.isNull)), leaf.isPlain)
    (hresolved : d.query.resolveLeaves scope.schema scope.config.joinType (d.query.leaves (refs.filter (!·.isNull))) =
      (q, fault)) :
    (scope.pass refs).run d =
      (fault.elim (.ok ((d.query.leaves (refs.filter (!·.isNull))).flatMap Leaf.ownValues)) .error,
        { d with query := q }) := by
  rw [pass, DraftM.run_bind, DraftM.run_onQuery, Query.resolveTrees_eq, hresolved]
  cases fault with
  | some e => rfl
  | none =>
    rw [← Query.leaves_resolveLeaves hresolved] at hplain ⊢
    exact run_valuesOfRoots_of_plain hplain

/-- The passes over several parts resolve the fields of all parts in one go. -/
theorem run_passAll_of_plain {parts : List (List NodeRef)}
    (hplain : ∀ leaf ∈ d.query.leaves (parts.map (·.filter (!·.isNull))).flatten, leaf.isPlain)
    (hresolved : d.query.resolveLeaves scope.schema scope.config.joinType
      (d.query.leaves (parts.map (·.filter (!·.isNull))).flatten) = (q, fault)) :
    (scope.passAll parts).run d =
      (fault.elim (.ok ((d.query.leaves (parts.map (·.filter (!·.isNull))).flatten).flatMap Leaf.ownValues)) .error,
        { d with query := q }) := by
  induction parts generalizing d with
  | nil =>
    cases hresolved
    rfl
  | cons refs rest ih =>
    rw [List.map_cons, List.flatten_cons, Query.leaves_append] at hplain hresolved ⊢
    rw [List.forall_mem_append] at hplain
    rw [Query.resolveLeaves_append] at hresolved
    cases hfirst : d.query.resolveLeaves scope.schema scope.config.joinType
      (d.query.leaves (refs.filter (!·.isNull))) with
    | mk q₁ fault₁ =>
      rw [hfirst] at hresolved
      rw [passAll, DraftM.run_bind, run_pass_of_plain hplain.1 hfirst]
      cases fault₁ with
      | some e =>
        cases hresolved
        rfl
      | none =>
        have hleaves := Query.leaves_resolveLeaves hfirst (rest.map (·.filter (!·.isNull))).flatten
        rw [← hleaves] at hplain
        have hmore := ih (d := { d with query := q₁ }) hplain.2 (by rw [hleaves]; exact hresolved)
        dsimp only [Option.elim]
        rw [DraftM.run_bind, hmore, hleaves, List.flatMap_append]
        cases fault <;> rfl

end Scope

/-! ## What was gathered -/

/-- The references from which the passes start. -/
def Query.liveRoots (q : Query) : List NodeRef :=
  q.parts.flatten

theorem Query.liveRoots_eq (q : Query) :
    q.liveRoots = (q.select ++ (q.head.toList ++ (q.summarise.toList ++ (Scope.shownHaving q ++ Scope.shownOrder q)))).filter
      (!·.isNull) := by
  simp [liveRoots, parts]

namespace View

variable {view view' : View}

theorem collect_append (first rest : List Leaf) :
    view.collect (first ++ rest) = do
      let found ← view.collect first
      let more ← view.collect rest
      return found ++ more := by
  induction first with
  | nil => cases h : view.collect rest <;> rw [List.nil_append, h] <;> rfl
  | cons leaf more ih => simp only [List.cons_append, collect, ih, bind_assoc, pure_bind, List.append_assoc]

/-- Values are collected in the same way wherever nested queries have the same answers. -/
theorem collect_congr (h : view.nested = view'.nested) (leaves : List Leaf) :
    view.collect leaves = view'.collect leaves := by
  induction leaves with
  | nil => rfl
  | cons leaf rest ih =>
    have hleaf : view.leafValues leaf = view'.leafValues leaf := by
      cases leaf with
      | subquery i => rw [leafValues, leafValues, h]
      | value v => cases v <;> rfl
      | field | unknown | broken => rfl
    rw [collect, collect, hleaf, ih]

end View

namespace Scope

variable {scope : Scope} {q : Query} {done : Nat → Bool}

theorem view_nested_settledAt {schema : Schema} (settled : Nat → Bool) (joins : List Join) :
    (scope.view (q.settledAt schema settled joins)).nested = (scope.view q).nested :=
  funext fun i => nestedAt_settledAt joins i

/-- Gathering succeeds if the fields of all parts can be resolved and the values of all parts can be collected. -/
theorem gather_values_eq_ok_iff {parts : List (List NodeRef)} {found : List Value} :
    (scope.gather parts done q).values = .ok found ↔
      q.fault? scope.schema (q.leaves parts.flatten) = none ∧
        (scope.view q).collect (q.leaves parts.flatten) = .ok found := by
  induction parts generalizing q done found with
  | nil => simp [gather, Query.leaves, Query.fault?, View.collect]
  | cons roots rest ih =>
    obtain ⟨settled, joins, heq, -⟩ := q.resolveLeaves_eq scope.schema scope.config.joinType (q.leaves roots)
    rw [gather, Query.resolveTrees_eq, heq, List.flatten_cons, Query.leaves_append, Query.fault?_append,
      View.collect_append]
    cases hfault : q.fault? scope.schema (q.leaves roots) with
    | some e => simp
    | none =>
      dsimp only
      rw [Query.leaves_settledAt, View.collect_congr (view_nested_settledAt settled joins)]
      cases hfirst : (scope.view q).collect (q.leaves roots) with
      | error e => simp [bind, Except.bind]
      | ok first =>
        have hrest : ∀ done more, (scope.gather rest done (q.settledAt scope.schema settled joins)).values = .ok more ↔
            q.fault? scope.schema (q.leaves rest.flatten) = none ∧
              (scope.view q).collect (q.leaves rest.flatten) = .ok more := by
          intro done more
          rw [ih, Query.leaves_settledAt, Query.fault?_settledAt,
            View.collect_congr (view_nested_settledAt settled joins)]
        dsimp only
        rw [Option.none_or]
        constructor
        · intro h
          obtain ⟨more, hmore, rfl⟩ := Except.map_eq_ok_iff.mp h
          obtain ⟨hfault', hcollect⟩ := (hrest _ more).mp hmore
          exact ⟨hfault', by rw [hcollect]; rfl⟩
        · rintro ⟨hfault', hcollect⟩
          cases hmore : (scope.view q).collect (q.leaves rest.flatten) with
          | error e => rw [hmore] at hcollect; cases hcollect
          | ok more =>
            rw [hmore] at hcollect
            cases hcollect
            rw [(hrest _ more).mpr ⟨hfault', hmore⟩]
            rfl

/-- What a successful gathering leaves: all fields are resolved, and all nested queries compiled. -/
theorem gather_of_ok {parts : List (List NodeRef)} {found : List Value}
    (h : (scope.gather parts done q).values = .ok found) :
    q.resolveLeaves scope.schema scope.config.joinType (q.leaves parts.flatten) =
        ((scope.gather parts done q).query, none) ∧
      ∀ i, (scope.gather parts done q).done i ↔ done i ∨ .subquery i ∈ q.leaves parts.flatten := by
  induction parts generalizing q done found with
  | nil => exact ⟨rfl, fun i => by simp [gather, Query.leaves]⟩
  | cons roots rest ih =>
    obtain ⟨settled, joins, heq, -⟩ := q.resolveLeaves_eq scope.schema scope.config.joinType (q.leaves roots)
    rw [gather, Query.resolveTrees_eq, heq] at h ⊢
    rw [List.flatten_cons, Query.leaves_append, Query.resolveLeaves_append, heq]
    cases hfault : q.fault? scope.schema (q.leaves roots) with
    | some e => rw [hfault] at h; cases h
    | none =>
      rw [hfault] at h
      dsimp only at h ⊢
      cases hfirst : (scope.view (q.settledAt scope.schema settled joins)).collect
          ((q.settledAt scope.schema settled joins).leaves roots) with
      | error e => rw [hfirst] at h; cases h
      | ok first =>
        rw [hfirst] at h
        obtain ⟨more, hmore, -⟩ := Except.map_eq_ok_iff.mp h
        obtain ⟨hquery, hdone⟩ := ih hmore
        rw [Query.leaves_settledAt] at hquery
        refine ⟨hquery, fun i => (hdone i).trans ?_⟩
        rw [Bool.or_eq_true, List.contains_iff_mem, View.mem_met_iff hfirst, Query.leaves_settledAt,
          Query.leaves_settledAt, List.mem_append, or_assoc]

end Scope

/-! ## The whole compilation -/

theorem locate?_of_isNull {nodes : List Node} {ref : NodeRef} (h : ref.isNull) : locate? nodes ref = none := by
  cases ref with
  | index => cases h
  | other given =>
    cases given with
    | null => rfl
    | _ => cases h

theorem Query.eq_broken_of_isNull {q : Query} {ref : NodeRef} (h : ref.isNull) {leaf : Leaf}
    (hleaf : leaf ∈ (q.tree ref).leaves) : leaf = .broken (.outside ref q.nodes.length) := by
  rw [tree, Tree.unfold_of_none _ (locate?_of_isNull h)] at hleaf
  exact List.mem_singleton.mp hleaf

/-- The arguments of the grouping have the leaves that the grouping has. -/
theorem Query.leaves_groupArgs {q : Query} {args : List NodeRef} (hargs : q.groupArgs = .ok args)
    (hunbroken : ∀ root ∈ q.summarise, root.isNull = false → (q.tree root).Unbroken) :
    q.leaves args = q.leaves q.summarise.toList := by
  rw [groupArgs] at hargs
  cases hsum : q.summarise with
  | none => rw [hsum] at hargs; cases hargs; rfl
  | some root =>
    rw [hsum] at hargs
    dsimp only at hargs
    cases hnull : root.isNull with
    | true =>
      rw [expr?, node?, locate?_of_isNull hnull] at hargs
      cases hargs
    | false =>
      obtain ⟨i, node, hlocate, htree, -⟩ := tree_eq_treeWith (hunbroken root hsum hnull)
      rw [expr?_of_locate? hlocate] at hargs
      have hleaves : q.leaves (some root).toList = (q.tree root).leaves := by simp [leaves]
      rw [hleaves, htree]
      cases hexpr : node.expr with
      | summarise args' =>
        rw [hexpr] at hargs
        cases hargs
        exact (Tree.leavesAll_map q.tree _).symm
      | _ => rw [hexpr] at hargs; cases hargs

namespace Scope

variable {scope : Scope} {q : Query}

theorem passes_eq (scope : Scope) :
    scope.passes = (do
      DraftM.onQuery Query.settleIndex
      let query := (← get).query
      scope.passAll
        [query.select, query.head.toList, query.summarise.toList, shownHaving query, shownOrder query]) := by
  simp only [passes, passAll, bind_assoc, pure_bind, List.append_nil, List.append_assoc]

theorem mem_liveRoots {q : Query} {ref : NodeRef} {refs : List NodeRef}
    (hrefs : refs ∈ [q.select, q.head.toList, q.summarise.toList, shownHaving q, shownOrder q]) (href : ref ∈ refs)
    (hnull : ref.isNull = false) : ref ∈ q.liveRoots := by
  refine List.mem_flatten.mpr ⟨refs.filter (!·.isNull), List.mem_map_of_mem hrefs, ?_⟩
  exact List.mem_filter.mpr ⟨href, by rw [hnull]; rfl⟩

theorem mem_liveRoots_of_summarise {q : Query} {root : NodeRef} (hroot : root ∈ q.summarise)
    (hnull : root.isNull = false) : root ∈ q.liveRoots :=
  mem_liveRoots (show q.summarise.toList ∈ _ by simp) (Option.mem_toList.mpr hroot) hnull

/-- If the live leaves are unbroken, so is the grouping. -/
theorem leaves_groupArgs_of_live {q : Query} {args : List NodeRef} (hargs : q.groupArgs = .ok args)
    (hunbroken : ∀ fault, .broken fault ∉ q.leaves q.liveRoots) : q.leaves args = q.leaves q.summarise.toList :=
  Query.leaves_groupArgs hargs fun root hroot hnull fault hfault =>
    hunbroken fault (List.mem_flatMap.mpr ⟨root, mem_liveRoots_of_summarise hroot hnull, hfault⟩)

/-- All nested queries that the clauses of a query meet are at the positions `known`. -/
structure Meets (q : Query) (known : Nat → Prop) : Prop where
  select : ∀ ref ∈ q.select, ∀ i, .subquery i ∈ (q.tree ref).leaves → known i
  head : ∀ ref ∈ q.head, ∀ i, .subquery i ∈ (q.tree ref).leaves → known i
  groups : ∀ args, q.groupArgs = .ok args → ∀ ref ∈ args, ∀ i, .subquery i ∈ (q.tree ref).leaves → known i
  having : ∀ ref ∈ shownHaving q, ∀ i, .subquery i ∈ (q.tree ref).leaves → known i
  order : ∀ ref ∈ shownOrder q, ∀ i, .subquery i ∈ (q.tree ref).leaves → known i

theorem Meets.mono {known known' : Nat → Prop} (h : Meets q known) (hknown : ∀ i, known i → known' i) :
    Meets q known' where
  select ref href i hi := hknown i (h.select ref href i hi)
  head ref href i hi := hknown i (h.head ref href i hi)
  groups args hargs ref href i hi := hknown i (h.groups args hargs ref href i hi)
  having ref href i hi := hknown i (h.having ref href i hi)
  order ref href i hi := hknown i (h.order ref href i hi)

/-- After a successful gathering, clauses only meet nested queries that are compiled. -/
theorem meets_of_gather {values : List Value}
    (h : (scope.gather q.parts (fun _ => false) q).values = .ok values) :
    Meets (scope.gather q.parts (fun _ => false) q).query
      fun i => (scope.gather q.parts (fun _ => false) q).done i = true := by
  obtain ⟨hquery, hdone⟩ := gather_of_ok h
  have hcollect := (gather_values_eq_ok_iff.mp h).2
  generalize scope.gather q.parts (fun _ => false) q = gathered at *
  obtain ⟨settled, joins, heq, -⟩ := q.resolveLeaves_eq scope.schema scope.config.joinType (q.leaves q.parts.flatten)
  rw [heq, Prod.mk.injEq] at hquery
  have hq : gathered.query = q.settledAt scope.schema settled joins := hquery.1.symm
  rw [hq]
  have hlive : ∀ refs ∈ [q.select, q.head.toList, q.summarise.toList, shownHaving q, shownOrder q], ∀ ref ∈ refs,
      ∀ i, .subquery i ∈ ((q.settledAt scope.schema settled joins).tree ref).leaves → gathered.done i = true := by
    intro refs hrefs ref href i hi
    cases hnull : ref.isNull with
    | true => cases Query.eq_broken_of_isNull hnull hi
    | false =>
      have hleaf : .subquery i ∈ q.leaves [ref] := by
        rw [← q.leaves_settledAt settled joins]
        simpa [Query.leaves] using hi
      refine (hdone i).mpr (Or.inr ?_)
      obtain ⟨_, hmem, hleaf⟩ := List.mem_flatMap.mp hleaf
      rw [List.mem_singleton.mp hmem] at hleaf
      exact List.mem_flatMap.mpr ⟨ref, mem_liveRoots hrefs href hnull, hleaf⟩
  refine ⟨hlive q.select (by simp), fun ref href => hlive q.head.toList (by simp) ref (Option.mem_toList.mpr href),
    fun args hargs ref href i hi => ?_, hlive (shownHaving q) (by simp), hlive (shownOrder q) (by simp)⟩
  have hleaves := leaves_groupArgs_of_live hargs fun fault => by
    rw [Query.leaves_settledAt]
    exact View.unbroken_of_collect hcollect fault
  have hi' : .subquery i ∈ (q.settledAt scope.schema settled joins).leaves args :=
    List.mem_flatMap.mpr ⟨ref, href, hi⟩
  rw [hleaves] at hi'
  obtain ⟨root, hroot, hi'⟩ := List.mem_flatMap.mp hi'
  exact hlive q.summarise.toList (by simp) root hroot i hi'

theorem names_clauses (hd : scope.dialect.Stateless) {values : List Value}
    (h : (scope.gather q.parts (fun _ => false) q).values = .ok values) {d : Draft} (haliases : d.aliases = {})
    (htracks : d.Tracks scope (scope.gather q.parts (fun _ => false) q).query
      (scope.gather q.parts (fun _ => false) q).done) :
    NamesFrom scope.clauses
      ((scope.view (scope.gather q.parts (fun _ => false) q).query).clauses scope.config
        (scope.gather q.parts (fun _ => false) q).query) d := by
  have hmeets := meets_of_gather h
  exact NamesFrom.clauses hd hmeets.select hmeets.head hmeets.groups hmeets.having hmeets.order htracks.ready haliases

/-- Compiling a query yields what the outline says, however many placeholders were requested before. -/
theorem compile_eq_outline (scope : Scope) (hd : scope.dialect.Stateless) (hsteady : scope.Steady) (q : Query)
    (requested : Nat) :
    (scope.compile q requested).query = (scope.outline q).1 ∧
      (scope.compile q requested).result = (scope.outline q).2 := by
  rw [compile, statement, DraftM.run_bind, passes_eq, DraftM.run_bind, DraftM.run_onQuery, outline]
  dsimp only
  cases hsettled : q.settleIndex with
  | mk q₁ fault =>
    cases fault with
    | some e => exact ⟨rfl, rfl⟩
    | none =>
      dsimp only
      rw [DraftM.run_bind, DraftM.run_get]
      -- the passes leave the query resolved and the nested queries compiled, as the clauses find them
      obtain ⟨d₁, hrun₁, haliases₁, hquery₁, htracks₁⟩ := run_passAll hsteady
        [q₁.select, q₁.head.toList, q₁.summarise.toList, shownHaving q₁, shownOrder q₁]
        (Draft.tracks_fresh scope q₁ requested)
      rw [← Query.parts] at hrun₁ hquery₁ htracks₁
      dsimp only
      rw [hrun₁]
      cases hvalues : (scope.gather q₁.parts (fun _ => false) q₁).values with
      | error e => exact ⟨hquery₁, rfl⟩
      | ok values =>
        rw [hvalues] at htracks₁
        obtain ⟨n, table, hrun₂, -⟩ := names_clauses hd hvalues haliases₁ (htracks₁ rfl)
        dsimp only
        rw [DraftM.run_bind, hrun₂]
        cases (scope.view (scope.gather q₁.parts (fun _ => false) q₁).query).clauses scope.config
          (scope.gather q₁.parts (fun _ => false) q₁).query with
        | error e => exact ⟨hquery₁, rfl⟩
        | ok found =>
          refine ⟨hquery₁, ?_⟩
          change Except.ok (Statement.mk (d₁.query.derived (Sql.joined " " found.1)) values scope.dialect.name) = _
          rw [hquery₁, overlay_derived]
          rfl

end Scope

/-- How a query is compiled with success, step by step. -/
structure Scope.Succeeds (scope : Scope) (q : Query) (statement : Statement) (q₁ q₂ : Query) (clauses : List Sql)
    (table : AliasTable) : Prop where
  settled : q.settleIndex = (q₁, none)
  resolved : q₁.resolveLeaves scope.schema scope.config.joinType (q₁.leaves q₁.liveRoots) = (q₂, none)
  collected : (scope.view q₁).collect (q₁.leaves q₁.liveRoots) = .ok statement.values
  rendered : (scope.view q₂).clauses scope.config q₂ = .ok (clauses, table)
  sql_eq : statement.sql = q₂.derived (Sql.joined " " clauses)
  dialect_eq : statement.dialect = scope.dialect.name

theorem Scope.Succeeds.fault?_eq_none {scope : Scope} {q q₁ q₂ : Query} {statement : Statement} {clauses : List Sql}
    {table : AliasTable} (h : scope.Succeeds q statement q₁ q₂ clauses table) :
    q₁.fault? scope.schema (q₁.leaves q₁.liveRoots) = none := by
  obtain ⟨_, _, heq, -⟩ := q₁.resolveLeaves_eq scope.schema scope.config.joinType (q₁.leaves q₁.liveRoots)
  exact congrArg Prod.snd (heq.symm.trans h.resolved)

theorem Scope.Succeeds.gathered {scope : Scope} {q q₁ q₂ : Query} {statement : Statement} {clauses : List Sql}
    {table : AliasTable} (h : scope.Succeeds q statement q₁ q₂ clauses table) :
    (scope.gather q₁.parts (fun _ => false) q₁).values = .ok statement.values ∧
      (scope.gather q₁.parts (fun _ => false) q₁).query = q₂ := by
  have hvalues : (scope.gather q₁.parts (fun _ => false) q₁).values = .ok statement.values :=
    gather_values_eq_ok_iff.mpr ⟨h.fault?_eq_none, h.collected⟩
  exact ⟨hvalues, congrArg Prod.fst ((gather_of_ok hvalues).1.symm.trans h.resolved)⟩

theorem Scope.outline_eq_ok_iff {scope : Scope} {q : Query} {statement : Statement} :
    (scope.outline q).2 = .ok statement ↔
      ∃ q₁ q₂ clauses table, scope.Succeeds q statement q₁ q₂ clauses table := by
  rw [outline]
  cases hsettled : q.settleIndex with
  | mk q₁ fault =>
    cases fault with
    | some e =>
      refine ⟨fun h => (by cases h), ?_⟩
      rintro ⟨_, _, _, _, h⟩
      cases hsettled.symm.trans h.settled
    | none =>
      dsimp only
      constructor
      · intro h
        cases hvalues : (scope.gather q₁.parts (fun _ => false) q₁).values with
        | error e => rw [hvalues] at h; cases h
        | ok values =>
          have hgathered := (gather_of_ok hvalues).1
          have hcollect := (gather_values_eq_ok_iff.mp hvalues).2
          rw [hvalues] at h
          generalize (scope.gather q₁.parts (fun _ => false) q₁).query = q₂ at h hgathered
          cases hclauses : (scope.view q₂).clauses scope.config q₂ with
          | error e => simp only [hclauses] at h; cases h
          | ok found =>
            simp only [hclauses] at h
            cases h
            exact ⟨q₁, q₂, found.1, found.2, hsettled, hgathered, hcollect, hclauses, rfl, rfl⟩
      · rintro ⟨q₁', q₂, clauses, table, h⟩
        cases hsettled.symm.trans h.settled
        obtain ⟨hvalues, hquery⟩ := h.gathered
        rw [hvalues, hquery]
        simp only [h.rendered, bind, Except.bind]
        rw [← h.sql_eq, ← h.dialect_eq]
        rfl

/-- What is read before the fields are resolved may be read off the query as it was given. -/
theorem Scope.leaves_settleIndex (scope : Scope) {q q₁ : Query} {fault : Option CompileError}
    (h : q.settleIndex = (q₁, fault)) :
    q₁.leaves q₁.liveRoots = q.leaves q.liveRoots ∧ scope.nestedAt q₁ = scope.nestedAt q := by
  obtain ⟨f, recordIndex, forms, hf, hquery⟩ := q.settleIndex_eq
  rw [h] at hquery
  subst hquery
  refine ⟨hf.leaves q q.liveRoots, funext fun i => ?_⟩
  have hexpr : Query.expr? { q.mapExprs f with recordIndex := recordIndex, forms := forms } (.index i) =
      (q.expr? (.index i)).map (f i) := q.expr?_mapExprs_index f i
  rw [nestedAt, nestedAt, hexpr]
  cases q.expr? (.index i) with
  | none => simp
  | some expr =>
    rcases hf i expr with hsame | ⟨ref, d, d', -, rfl, hsort⟩
    · simp [hsame]
    · simp [hsort]

namespace Scope

variable {scope : Scope} {q q₁ q₂ : Query} {statement : Statement} {clauses : List Sql} {table : AliasTable}

theorem Succeeds.settledAt_eq (h : scope.Succeeds q statement q₁ q₂ clauses table) :
    ∃ settled joins, q₂ = q₁.settledAt scope.schema settled joins := by
  obtain ⟨settled, joins, heq, -⟩ :=
    q₁.resolveLeaves_eq scope.schema scope.config.joinType (q₁.leaves q₁.liveRoots)
  exact ⟨settled, joins, congrArg Prod.fst (h.resolved.symm.trans heq)⟩

theorem Succeeds.nestedAt_eq (h : scope.Succeeds q statement q₁ q₂ clauses table) :
    scope.nestedAt q₂ = scope.nestedAt q := by
  obtain ⟨settled, joins, rfl⟩ := h.settledAt_eq
  exact Eq.trans (view_nested_settledAt settled joins) (scope.leaves_settleIndex h.settled).2

/-- The clauses are rendered from a query with the live leaves that the given query has. -/
theorem Succeeds.leaves_eq (h : scope.Succeeds q statement q₁ q₂ clauses table) :
    q₂.leaves q₂.liveRoots = q.leaves q.liveRoots := by
  obtain ⟨settled, joins, rfl⟩ := h.settledAt_eq
  rw [Query.leaves_settledAt]
  exact (scope.leaves_settleIndex h.settled).1

theorem Succeeds.collect_eq (h : scope.Succeeds q statement q₁ q₂ clauses table) :
    (scope.view q₂).collect (q₂.leaves q₂.liveRoots) = .ok statement.values := by
  obtain ⟨settled, joins, rfl⟩ := h.settledAt_eq
  rw [View.collect_congr (view_nested_settledAt settled joins), Query.leaves_settledAt]
  exact h.collected

theorem nestedAt_eq_ok {i : Nat} (h : scope.nestedAt q i = .ok statement) :
    ∃ query embedding, q.expr? (.index i) = some (.subquery query embedding) := by
  unfold nestedAt at h
  split at h
  · rename_i query embedding hexpr
    exact ⟨query, embedding, hexpr⟩
  · cases h
  · cases h

end Scope

/-! ## Nested compilations -/

namespace Context

variable {context : Context}

/-- The scope in which queries are compiled that are nested at most `depth` levels. -/
def scope (context : Context) (depth : Nat) : Scope :=
  ⟨context, compileWithin context depth context⟩

theorem steady_scope (hd : context.dialect.Stateless) (depth : Nat) : (context.scope depth).Steady := by
  induction depth with
  | zero => exact fun _ _ => ⟨rfl, rfl⟩
  | succ depth ih =>
    intro q n
    have hn := (context.scope depth).compile_eq_outline hd ih q n
    have h₀ := (context.scope depth).compile_eq_outline hd ih q 0
    exact ⟨hn.1.trans h₀.1.symm, hn.2.trans h₀.2.symm⟩

theorem nested_scope_succ (hd : context.dialect.Stateless) (depth : Nat) (q : Query) :
    ((context.scope (depth + 1)).nested q 0).query = ((context.scope depth).outline q).1 ∧
      ((context.scope (depth + 1)).nested q 0).result = ((context.scope depth).outline q).2 :=
  (context.scope depth).compile_eq_outline hd (steady_scope hd depth) q 0

/-- What holds of a statement if it holds of the statements of the nested queries, holds of all statements. -/
theorem outline_induction (hd : context.dialect.Stateless) {p : Query → Statement → Prop}
    (hstep : ∀ (scope : Scope) (q : Query) (statement : Statement), scope.toContext = context →
      (∀ (i : Nat) query embedding nested, q.expr? (.index i) = some (.subquery query embedding) →
        scope.nestedAt q i = .ok nested → p (query.embedded embedding) nested) →
      (scope.outline q).2 = .ok statement → p q statement)
    {depth : Nat} {q : Query} {statement : Statement} (h : ((context.scope depth).outline q).2 = .ok statement) :
    p q statement := by
  induction depth generalizing q statement with
  | zero =>
    refine hstep (context.scope 0) q statement rfl (fun i query embedding nested hexpr hnested => ?_) h
    rw [Scope.nestedAt, hexpr] at hnested
    cases hnested
  | succ depth ih =>
    refine hstep (context.scope (depth + 1)) q statement rfl (fun i query embedding nested hexpr hnested => ih ?_) h
    rw [Scope.nestedAt, hexpr] at hnested
    exact (nested_scope_succ hd depth (query.embedded embedding)).2.symm.trans hnested

end Context

theorem Query.nesting_embedded (q : Query) (embedding : Embedding) : (q.embedded embedding).nesting = q.nesting := by
  cases q
  cases embedding <;> rfl

/-- If the scope is deep enough for a query, nested queries are compiled one level below. -/
theorem Context.nestedAt_scope {context : Context} (hd : context.dialect.Stateless) {depth : Nat} {q query : Query}
    {embedding : Embedding} {i : Nat} (hdepth : q.nesting ≤ depth)
    (h : q.expr? (.index i) = some (.subquery query embedding)) :
    ∃ below, depth = below + 1 ∧ (query.embedded embedding).nesting ≤ below ∧
      (context.scope depth).nestedAt q i = ((context.scope below).outline (query.embedded embedding)).2 := by
  have hlt := Query.nesting_lt h
  obtain ⟨below, rfl⟩ : ∃ below, depth = below + 1 := ⟨depth - 1, by omega⟩
  refine ⟨below, rfl, ?_, ?_⟩
  · rw [Query.nesting_embedded]
    omega
  · rw [Scope.nestedAt, h]
    exact (nested_scope_succ hd below _).2

theorem Query.compile_eq_outline {context : Context} (hd : context.dialect.Stateless) (q : Query) :
    (q.compile context).query = ((context.scope q.nesting).outline q).1 ∧
      (q.compile context).result = ((context.scope q.nesting).outline q).2 :=
  (context.scope q.nesting).compile_eq_outline hd (Context.steady_scope hd q.nesting) q 0

end ArenaSql
