import ArenaSql.Compiler
import ArenaSql.Proofs.Growth

/-!
# What compiling changes

Compiling works on the query itself. Whether it succeeds or fails, and whatever the dialect, it leaves traces of a few
kinds: in the record index, in the directions of the ordering if the index counted from the other end, in the fields
that it resolved, in joins behind those that were there, and in nested queries, which are marked for the way they are
embedded and then compiled in the same way. Nothing else changes.
-/

namespace ArenaSql

open Relation DraftM

/-- Some clause of the query reaches the node at the position. -/
def Query.LiveAt (q : Query) (i : Nat) : Prop :=
  ∃ ref, q.Reaches ref ∧ ref.position? = some i

mutual

/-- What compiling may leave of a query. -/
inductive Query.Touched : Query → Query → Prop where
  | intro {q q' : Query} (f : Nat → Expr → Expr) (recordIndex : Option RecordIndex) (forms : Fields) (joins : List Join)
    (exprs : ∀ (i : Nat) expr, q.expr? (.index i) = some expr → Expr.Touched q i expr (f i expr))
    -- The value that an edit put in the place of the record index goes with the index.
    (noted : forms = q.forms ∨ forms = Fields.erase "record_index" q.forms)
    (eq : q' = { q.mapExprs f with
      recordIndex := recordIndex
      forms := forms
      tables := { q.tables with joins := q.tables.joins ++ joins } }) : q.Touched q'

/-- What compiling a query may leave of the expression at a position. -/
inductive Expr.Touched : Query → Nat → Expr → Expr → Prop where
  | same {q : Query} {i : Nat} (expr : Expr) : Expr.Touched q i expr expr
  | turned {q : Query} {i : Nat} {ref term : NodeRef} {index : RecordIndex} (hindex : q.recordIndex = some index)
    (hnegative : index.isNegative) (hterm : term ∈ q.order) (hposition : term.position? = some i)
    (direction direction' : Direction) : Expr.Touched q i (.sort ref direction) (.sort ref direction')
  | resolved {q : Query} {i : Nat} {f : Field} (hlive : q.LiveAt i) (hopen : f.resolved = false) (table : Option String)
    -- In a field, only the table and the flag may have other values in their place.
    {forms : Fields} (hforms : forms.Sublist f.forms) :
    Expr.Touched q i (.field f) (.field { f with table := table, resolved := true, forms := forms })
  | nested {q : Query} {i : Nat} {query query' : Query} {embedding : Embedding} (hlive : q.LiveAt i)
    (h : (query.embedded embedding).Touched query') :
    Expr.Touched q i (.subquery query embedding) (.subquery query' embedding)

end

/-! ## Expressions -/

namespace Expr.Touched

variable {q : Query} {i : Nat} {expr expr' : Expr}

theorem leaf? (h : Expr.Touched q i expr expr') : expr'.leaf? i = expr.leaf? i := by
  cases h <;> rfl

theorem children (h : Expr.Touched q i expr expr') : expr'.children = expr.children := by
  cases h <;> rfl

theorem eq_summarise {args : List NodeRef} (h : Expr.Touched q i expr (.summarise args)) : expr = .summarise args := by
  cases h
  rfl

theorem reversedAt {term : NodeRef} {index : RecordIndex} (hindex : q.recordIndex = some index)
    (hnegative : index.isNegative) (hterm : term ∈ q.order) {j : Nat} (hposition : term.position? = some j)
    (h : Expr.Touched q i expr expr') : Expr.Touched q i expr (Query.reversedAt j i expr') := by
  by_cases hj : i = j
  · subst hj
    cases expr' with
    | sort ref direction =>
      rw [Query.reversedAt, if_pos rfl]
      cases h <;> exact .turned hindex hnegative hterm hposition ..
    | _ => exact h
  · have hsame : Query.reversedAt j i expr' = expr' := by
      cases expr' <;> simp [Query.reversedAt, hj]
    rwa [hsame]

theorem settled (schema : Schema) (primary : String) (hlive : q.LiveAt i) (h : Expr.Touched q i expr expr') :
    Expr.Touched q i expr (expr'.settled schema primary) := by
  cases h with
  | same =>
    cases expr with
    | field f =>
      rw [Expr.settled]
      obtain hsame | ⟨hopen, table, forms, hforms, heq⟩ := f.settled_eq schema primary
      · rw [hsame]
        exact .same _
      · rw [heq]
        exact .resolved hlive hopen table hforms
    | _ => exact .same _
  | turned hindex hnegative hterm hposition => exact .turned hindex hnegative hterm hposition ..
  | resolved hlive hopen table hforms =>
    rw [Expr.settled, Field.settled_of_resolved rfl]
    exact .resolved hlive hopen table hforms
  | nested hlive h => exact .nested hlive h

end Expr.Touched

/-! ## Queries -/

namespace Query.Touched

variable {q q' : Query}

theorem refl (q : Query) : q.Touched q := by
  refine ⟨fun _ expr => expr, q.recordIndex, q.forms, [], fun i expr _ => .same expr, Or.inl rfl, ?_⟩
  rw [mapExprs_eq_self fun _ _ _ => rfl, List.append_nil]
  cases q
  rfl

theorem roots (h : q.Touched q') : q'.roots = q.roots := by
  obtain ⟨f, recordIndex, forms, joins, hexprs, hnoted, rfl⟩ := h
  rfl

theorem leaves (h : q.Touched q') (ref : NodeRef) : (q'.tree ref).leaves = (q.tree ref).leaves := by
  obtain ⟨f, recordIndex, forms, joins, hexprs, hnoted, rfl⟩ := h
  have hleaves := leaves_tree_mapExprs (q := q) (f := f) id
    (fun i expr hexpr => by rw [(hexprs i expr hexpr).leaf?, Option.map_id, id])
    (fun i expr hexpr => (hexprs i expr hexpr).children) (fun _ => rfl) ref
  rw [List.map_id] at hleaves
  exact hleaves

theorem locate? {ref : NodeRef} {i : Nat} {node' : Node} (h : q.Touched q')
    (hlocate : ArenaSql.locate? q'.nodes ref = some (i, node')) :
    ∃ node, ArenaSql.locate? q.nodes ref = some (i, node) ∧ Expr.Touched q i node.expr node'.expr := by
  obtain ⟨f, recordIndex, forms, joins, hexprs, hnoted, rfl⟩ := h
  have hmap := q.locate?_mapExprs f ref
  dsimp only at hlocate
  rw [hlocate] at hmap
  obtain ⟨⟨j, node⟩, hfound, heq⟩ := Option.map_eq_some_iff.mp hmap.symm
  cases heq
  exact ⟨node, hfound, hexprs i node.expr (expr?_index_of_locate? hfound)⟩

theorem expr? {i : Nat} {expr' : Expr} (h : q.Touched q') (hexpr : q'.expr? (.index i) = some expr') :
    ∃ expr, q.expr? (.index i) = some expr ∧ Expr.Touched q i expr expr' := by
  obtain ⟨j, node', hlocate, rfl⟩ := expr?_eq_some_iff.mp hexpr
  obtain ⟨node, hfound, htouched⟩ := h.locate? hlocate
  obtain ⟨rfl, -⟩ : i = j ∧ _ := by simpa using (locate?_eq_some_iff.mp hfound)
  exact ⟨node.expr, expr?_of_locate? hfound, htouched⟩

/-- The arguments of the grouping stay. -/
theorem groupArgs {args : List NodeRef} (h : q.Touched q') (hargs : q'.groupArgs = .ok args) :
    q.groupArgs = .ok args := by
  have hsummarise : q'.summarise = q.summarise := by
    obtain ⟨f, recordIndex, forms, joins, hexprs, hnoted, rfl⟩ := h
    rfl
  rw [Query.groupArgs, hsummarise] at hargs
  rw [Query.groupArgs]
  cases hroot : q.summarise with
  | none => rwa [hroot] at hargs
  | some root =>
    rw [hroot] at hargs
    dsimp only at hargs ⊢
    cases hexpr : q'.expr? root with
    | none => rw [hexpr] at hargs; cases hargs
    | some expr' =>
      obtain ⟨i, node', hlocate, rfl⟩ := expr?_eq_some_iff.mp hexpr
      obtain ⟨node, hfound, htouched⟩ := h.locate? hlocate
      rw [hexpr] at hargs
      cases hnode : node'.expr with
      | summarise args' =>
        rw [hnode] at hargs htouched
        rw [expr?_of_locate? hfound, htouched.eq_summarise]
        exact hargs
      | _ => rw [hnode] at hargs; cases hargs

/-- Expressions may be replaced by others that are as good. -/
theorem mapExprs {g : Nat → Expr → Expr} (h : q.Touched q')
    (hg : ∀ (i : Nat) expr expr', q.expr? (.index i) = some expr → Expr.Touched q i expr expr' →
      Expr.Touched q i expr (g i expr')) : q.Touched (q'.mapExprs g) := by
  obtain ⟨f, recordIndex, forms, joins, hexprs, hnoted, rfl⟩ := h
  refine ⟨fun i expr => g i (f i expr), recordIndex, forms, joins, fun i expr hexpr => ?_, hnoted, ?_⟩
  · exact hg i expr (f i expr) hexpr (hexprs i expr hexpr)
  · exact congrArg (fun q' : Query => { q' with
      recordIndex := recordIndex
      forms := forms
      tables := { q.tables with joins := q.tables.joins ++ joins } }) (mapExprs_mapExprs f g q)

theorem setExpr {i : Nat} {expr expr' new : Expr} (h : q.Touched q') (hexpr : q.expr? (.index i) = some expr)
    (hexpr' : q'.expr? (.index i) = some expr') (hnew : Expr.Touched q i expr new) : q.Touched (q'.setExpr i new) := by
  rw [setExpr_eq_mapExprs (f := fun j expr => if j = i then new else expr) hexpr' (if_pos rfl) fun _ _ hj => if_neg hj]
  refine h.mapExprs fun j old _ hold htouched => ?_
  split
  · rename_i hj
    subst hj
    rw [hexpr] at hold
    cases hold
    exact hnew
  · exact htouched

theorem joins {joins : List Join} (h : q.Touched q') (hjoins : q'.tables.joins <+: joins) :
    q.Touched { q' with tables := { q'.tables with joins := joins } } := by
  obtain ⟨f, recordIndex, forms, joins', hexprs, hnoted, rfl⟩ := h
  obtain ⟨more, rfl⟩ := hjoins
  exact ⟨f, recordIndex, forms, joins' ++ more, hexprs, hnoted, by rw [← List.append_assoc]⟩

/-- The ordering is turned around. -/
theorem reverseEach {index : RecordIndex} (hindex : q.recordIndex = some index) (hnegative : index.isNegative)
    {terms : List NodeRef} (hterms : ∀ term ∈ terms, term ∈ q.order) (h : q.Touched q') :
    q.Touched (q'.reverseEach terms).1 := by
  induction terms generalizing q' with
  | nil => exact h
  | cons term rest ih =>
    obtain ⟨hterm, hrest⟩ := List.forall_mem_cons.mp hterms
    rw [Query.reverseEach]
    cases hlocate : ArenaSql.locate? q'.nodes term with
    | none => exact h
    | some found =>
      obtain ⟨i, node⟩ := found
      have hposition := (locate?_eq_some_iff.mp hlocate).1
      refine ih hrest ?_
      rw [reverseAt_eq]
      exact h.mapExprs fun _ _ _ _ htouched => htouched.reversedAt hindex hnegative hterm hposition

theorem settleIndex (q : Query) : q.Touched q.settleIndex.1 := by
  have hindex : ∀ recordIndex, q.Touched { q with recordIndex, forms := Fields.erase "record_index" q.forms } := by
    intro recordIndex
    refine ⟨fun _ expr => expr, recordIndex, _, [], fun i expr _ => .same expr, Or.inr rfl, ?_⟩
    rw [mapExprs_eq_self fun _ _ _ => rfl, List.append_nil]
  rw [Query.settleIndex]
  cases hrecord : q.recordIndex with
  | none => exact .refl q
  | some index =>
    dsimp only
    split
    · exact hindex none
    · split
      · rename_i hnegative
        exact (hindex _).reverseEach hrecord hnegative fun _ => id
      · exact .refl q

theorem resolveLeaves (schema : Schema) (type : JoinType) {leaves : List Leaf}
    (hleaves : ∀ i, .field i ∈ leaves → q.LiveAt i) (h : q.Touched q') :
    q.Touched (q'.resolveLeaves schema type leaves).1 := by
  induction leaves generalizing q' with
  | nil => exact h
  | cons leaf rest ih =>
    have hrest : ∀ i, .field i ∈ rest → q.LiveAt i := fun i hi => hleaves i (List.mem_cons_of_mem _ hi)
    cases leaf with
    | field i =>
      rw [Query.resolveLeaves, Leaf.visitAll, resolveAt_eq]
      cases q'.unplaced? schema i with
      | some e => exact h
      | none =>
        refine ih hrest ?_
        have hmap : q.Touched (q'.mapExprs fun j expr =>
            if (j == i) = true then expr.settled schema q'.tables.table else expr) := by
          refine h.mapExprs fun j expr expr' _ htouched => ?_
          split
          · rename_i hj
            rw [beq_iff_eq] at hj
            subst hj
            exact htouched.settled _ _ (hleaves j List.mem_cons_self)
          · exact htouched
        exact hmap.joins (Sources.joins_joinAny_prefix ..)
    | broken fault => exact h
    | value | subquery | unknown => exact ih hrest h

end Query.Touched

/-! ## Drafts -/

/-- A query with its traces, in which the nested queries that have no statement yet are as they were. -/
structure Draft.Marks (q : Query) (d : Draft) : Prop where
  query : q.Touched d.query
  pending : ∀ (i : Nat) query embedding, q.expr? (.index i) = some (.subquery query embedding) → d.statement? i = none →
    d.query.expr? (.index i) = some (.subquery query embedding)

theorem Query.liveAt_of_mem_leaves {q : Query} {ref : NodeRef} {i : Nat} {leaf : Leaf} (href : q.Reaches ref)
    (hleaf : leaf ∈ (q.tree ref).leaves) (hi : leaf = .field i ∨ leaf = .subquery i) : q.LiveAt i := by
  obtain ⟨root, hroot, hreach⟩ := href
  obtain ⟨fault, rfl⟩ | ⟨other, j, node, hreach', hlocate, hnode⟩ := reaches_of_mem_leaves hleaf
  · simp at hi
  · obtain rfl : j = i := by
      rcases hi with rfl | rfl <;> cases hexpr : node.expr <;> rw [hexpr] at hnode <;> cases hnode <;> rfl
    exact ⟨other, ⟨root, hroot, hreach.trans hreach'⟩, (locate?_eq_some_iff.mp hlocate).1⟩

namespace Scope

variable {scope : Scope} {q : Query}

/-- The scope leaves traces in nested queries, and nothing else. -/
def Treads (scope : Scope) : Prop :=
  ∀ (query : Query) (requested : Nat), query.Touched (scope.nested query requested).query

theorem keeps_statementAt (hnested : scope.Treads) {i : Nat} (hlive : q.LiveAt i) :
    (scope.statementAt (.index i)).Keeps (Draft.Marks q) fun d => q.Touched d.query := by
  intro d hd
  rw [run_statementAt]
  cases hstatement : d.statement? i with
  | some statement => exact hd
  | none =>
    cases hexpr' : d.query.expr? (.index i) with
    | none => exact hd.query
    | some expr' =>
      cases expr' with
      | subquery query' embedding =>
        obtain ⟨expr, hexpr, htouched⟩ := hd.query.expr? hexpr'
        -- the nested query has no statement yet, so it is as it was
        obtain ⟨query, rfl⟩ : ∃ query, expr = .subquery query embedding := by
          cases htouched <;> exact ⟨_, rfl⟩
        obtain rfl : query = query' := by
          rw [hd.pending i query embedding hexpr hstatement] at hexpr'
          cases hexpr'
          rfl
        dsimp only
        rw [run_compileAt]
        have htouched := hd.query.setExpr hexpr hexpr' (.nested hlive (hnested _ d.requested))
        dsimp only
        cases (scope.nested (query.embedded embedding) d.requested).result with
        | error e => exact htouched
        | ok statement =>
          refine ⟨htouched, fun j query embedding hexpr hnone => ?_⟩
          rw [statement?_cons] at hnone
          split at hnone
          · cases hnone
          · rename_i hj
            have hsame := hd.pending j query embedding hexpr hnone
            rw [Query.expr?_index] at hsame ⊢
            rw [Query.getElem?_setExpr, if_neg hj]
            exact hsame
      | _ => exact hd.query

theorem invariant_marks (hnested : scope.Treads) :
    scope.Invariant (Draft.Marks q) (fun d => q.Touched d.query) q.LiveAt where
  failing _ hd := hd.query
  placeholder _ _ hd := ⟨hd.query, hd.pending⟩
  statementAt _ hlive := keeps_statementAt hnested hlive
  roots d hd ref href d' hd' i hi := by
    rw [hd'.query.leaves] at hi
    rw [hd.query.roots] at href
    exact Query.liveAt_of_mem_leaves ⟨ref, href, .refl⟩ hi (Or.inr rfl)
  args d hd args hargs ref href d' hd' i hi := by
    rw [hd'.query.leaves] at hi
    obtain ⟨root, hroot, hrefers⟩ := View.refers_of_groupArgs (hd.query.groupArgs hargs) href
    refine Query.liveAt_of_mem_leaves ⟨root, ?_, .single hrefers⟩ hi (Or.inr rfl)
    have hroot : q.summarise = some root := hroot
    simp [Query.roots, hroot]

theorem reads_of_roots {refs : List NodeRef} (hrefs : ∀ ref ∈ refs, ref ∈ q.roots) :
    ∀ ref ∈ refs, Draft.Reads (Draft.Marks q) q.LiveAt ref := by
  intro ref href d hd i hi
  rw [hd.query.leaves] at hi
  exact Query.liveAt_of_mem_leaves ⟨ref, hrefs ref href, .refl⟩ hi (Or.inr rfl)

theorem marks_resolveTrees {d : Draft} (hd : d.Marks q) (schema : Schema) (type : JoinType) {roots : List NodeRef}
    (hroots : ∀ ref ∈ roots, ref ∈ q.roots) :
    Draft.Marks q { d with query := (d.query.resolveTrees schema type roots).1 } := by
  rw [Query.resolveTrees_eq]
  constructor
  · refine hd.query.resolveLeaves schema type fun i hi => ?_
    obtain ⟨ref, href, hi⟩ := List.mem_flatMap.mp hi
    rw [hd.query.leaves] at hi
    exact Query.liveAt_of_mem_leaves ⟨ref, hroots ref href, .refl⟩ hi (Or.inl rfl)
  · intro i query embedding hexpr hnone
    obtain ⟨done, joins, heq, -⟩ := d.query.resolveLeaves_eq schema type (d.query.leaves roots)
    rw [heq]
    exact Query.expr?_settledAt_subquery.mpr (hd.pending i query embedding hexpr hnone)

theorem keeps_pass (hnested : scope.Treads) {refs : List NodeRef} (hrefs : ∀ ref ∈ refs, ref ∈ q.roots) :
    (scope.pass refs).Keeps (Draft.Marks q) fun d => q.Touched d.query := by
  have hroots : ∀ ref ∈ refs.filter (!·.isNull), ref ∈ q.roots := fun ref href => hrefs ref (List.mem_filter.mp href).1
  refine .bind (fun d hd => ?_) fun _ => keeps_valuesOfRoots (invariant_marks hnested) _ (reads_of_roots hroots)
  have hresolved := marks_resolveTrees hd scope.schema scope.config.joinType hroots
  rw [run_onQuery]
  revert hresolved
  rcases d.query.resolveTrees scope.schema scope.config.joinType (refs.filter (!·.isNull)) with ⟨q', _ | e⟩
  · exact id
  · exact fun hresolved => hresolved.query

theorem keeps_passAll (hnested : scope.Treads) {parts : List (List NodeRef)}
    (hparts : ∀ refs ∈ parts, ∀ ref ∈ refs, ref ∈ q.roots) :
    (scope.passAll parts).Keeps (Draft.Marks q) fun d => q.Touched d.query := by
  induction parts with
  | nil => exact .pure _
  | cons refs rest ih =>
    obtain ⟨hrefs, hrest⟩ := List.forall_mem_cons.mp hparts
    exact (keeps_pass hnested hrefs).bind fun _ => (ih hrest).bind fun _ => .pure _

/-- What follows once the record index is settled. -/
theorem keeps_afterIndex (hnested : scope.Treads) :
    DraftM.Keeps (Draft.Marks q) (fun d => q.Touched d.query) (do
      let query := (← get).query
      let values ← scope.passAll
        [query.select, query.head.toList, query.summarise.toList, shownHaving query, shownOrder query]
      let clauses ← scope.clauses
      let query := (← get).query
      return (⟨query.derived (Sql.joined " " clauses), values, scope.dialect.name⟩ : Statement)) := by
  refine .get_bind fun d hd => (keeps_passAll hnested fun refs hrefs ref href => ?_).bind fun _ => ?_
  · rw [← hd.query.roots]
    simp only [List.mem_cons, List.not_mem_nil, or_false] at hrefs
    simp only [Query.roots, List.mem_append]
    rcases hrefs with rfl | rfl | rfl | rfl | rfl <;> simp only [href, true_or, or_true]
  · refine (keeps_clauses (invariant_marks hnested) fun _ _ hd => ⟨hd.query, hd.pending⟩).bind fun _ => ?_
    exact .get_bind fun _ _ => .pure _

/-- Compiling leaves traces and nothing else, if this is so of nested queries. -/
theorem touched_compile (hnested : scope.Treads) (q : Query) (requested : Nat) :
    q.Touched (scope.compile q requested).query := by
  have hindex := Query.Touched.settleIndex q
  have hpending : ∀ (i : Nat) query embedding, q.expr? (.index i) = some (.subquery query embedding) →
      q.settleIndex.1.expr? (.index i) = some (.subquery query embedding) :=
    fun _ _ _ => Query.expr?_settleIndex_subquery.mpr
  change q.Touched (scope.statement.run { query := q, requested := requested }).2.query
  rw [statement, passes_eq, bind_assoc, run_bind, run_onQuery]
  revert hindex hpending
  rcases q.settleIndex with ⟨q₁, _ | e⟩
  · intro hindex hpending
    exact (keeps_afterIndex hnested).of_run (fun _ hd => hd.query)
      ⟨hindex, fun i query embedding hexpr _ => hpending i query embedding hexpr⟩
  · exact fun hindex _ => hindex

end Scope

theorem touched_compileWithin (inner : Context) (depth : Nat) (context : Context) (q : Query) (requested : Nat) :
    q.Touched (compileWithin inner depth context q requested).query := by
  induction depth generalizing context q requested with
  | zero => exact .refl q
  | succ depth ih => exact Scope.touched_compile (fun query requested => ih inner query requested) q requested

/-- Whatever a compiler answers, and whether it has served before, the query that it leaves is the one that it was given
but for the traces of compiling. -/
theorem Compiler.compile_footprint (c : Compiler) (name : String) (q : Query) : q.Touched (c.compile name q).2.1 := by
  have htouched : q.Touched (q.compileWith c.context c.inner).query :=
    Scope.touched_compile (fun query requested => touched_compileWithin c.inner _ c.inner query requested) q 0
  rw [compile]
  cases c.done with
  | some served => exact .refl q
  | none =>
    dsimp only
    cases (q.compileWith c.context c.inner).result with
    | ok statement => exact htouched
    | error e => exact htouched

end ArenaSql
