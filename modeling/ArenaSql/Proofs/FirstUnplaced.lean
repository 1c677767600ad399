import ArenaSql.Proofs.Inference
import ArenaSql.Proofs.JoinOrder
import ArenaSql.Proofs.Literals
import ArenaSql.Proofs.Success

/-!
# The first field without a place

A query that reaches no nested queries fails to be resolved just when a live field has no place. The passes resolve one
part after the other and collect values in between, but that can neither fail nor change anything as long as no nested
queries are met; so all live fields are resolved in one go, up to the first that has no place. The clauses behind the
passes resolve nothing. What is left then is the query with the earlier fields resolved and what they need joined.
-/

namespace ArenaSql

open Relation

/-! ## Why a field has no place -/

theorem Schema.unresolved?_of_place {s : Schema} {primary : String} {name : FieldName} {e : CompileError}
    (h : s.place primary name = .error e) : e.unresolved? = some (name, primary) := by
  have hcolumn : s.placeColumn primary name = .error e := by
    unfold place at h
    split at h
    · exact h
    · split at h
      · cases h
      · split at h
        · cases h
        · exact h
  unfold placeColumn at hcolumn
  split at hcolumn
  · cases hcolumn
    rfl
  · cases hcolumn
    rfl
  · split at hcolumn
    · cases hcolumn
    · split at hcolumn <;> cases hcolumn
      rfl

theorem Field.unresolved?_of_unplaced? {schema : Schema} {primary : String} {f : Field} {e : CompileError}
    (h : f.unplaced? schema primary = some e) : e.unresolved? = some (f.name, primary) := by
  rw [unplaced?] at h
  split at h
  · cases h
  · split at h
    · cases h
    · rename_i hplace
      cases h
      exact Schema.unresolved?_of_place hplace

/-! ## Joins by their keys -/

/-- Lookups are joined where their keys first occur, unless the keys are joined before. -/
theorem Sources.joins_joinAll_eq (type : JoinType) (lookups : List Lookup) (s : Sources) :
    (s.joinAll type lookups).joins =
      s.joins ++ (Schema.withNewKeys (s.joins.map (·.lookup)) lookups).map (Lookup.join type) := by
  induction lookups generalizing s with
  | nil => simp [joinAll, Schema.withNewKeys]
  | cons l rest ih =>
    have hkey : s.hasJoin l.key = (s.joins.map (·.lookup)).contains l.key := by
      rw [Bool.eq_iff_iff, List.contains_iff_mem, hasJoin, List.any_eq_true, List.mem_map]
      simp only [beq_iff_eq]
    rw [joinAll, List.foldl_cons, ← joinAll, ih, Schema.withNewKeys, ← hkey, join]
    by_cases hjoined : s.hasJoin l.key
    · rw [if_pos hjoined, if_pos hjoined]
    · have hknown : Schema.withNewKeys ((s.joins ++ [l.join type]).map (·.lookup)) rest =
          Schema.withNewKeys (l.key :: s.joins.map (·.lookup)) rest :=
        Schema.withNewKeys_congr (fun key => by simp [Lookup.join, or_comm]) rest
      rw [if_neg hjoined, if_neg hjoined, List.map_cons, ← hknown]
      exact (List.append_assoc ..).trans rfl

/-! ## Resolution up to a field -/

namespace Query

variable {schema : Schema} {type : JoinType} {q : Query}

theorem getElem?_settledAt {done : Nat → Bool} {j : Nat} (joins : List Join) (h : done j = false) :
    (q.settledAt schema done joins).nodes[j]? = q.nodes[j]? := by
  have hnode := getElem?_mapExprs (fun i expr => if done i then expr.settled schema q.tables.table else expr) q j
  refine hnode.trans ?_
  cases q.nodes[j]? with
  | none => rfl
  | some node =>
    cases node
    simp [h]

/-- Resolution leaves alone what is not among its fields. -/
theorem getElem?_resolveLeaves {leaves : List Leaf} {j : Nat} (h : .field j ∉ leaves) :
    (q.resolveLeaves schema type leaves).1.nodes[j]? = q.nodes[j]? := by
  induction leaves generalizing q with
  | nil => rfl
  | cons leaf rest ih =>
    have hrest := List.not_mem_of_not_mem_cons h
    cases leaf with
    | field i =>
      have hij : j ≠ i := fun hij => List.ne_of_not_mem_cons h (by rw [hij])
      rw [resolveLeaves, Leaf.visitAll, resolveAt_eq]
      cases q.unplaced? schema i with
      | some e => rfl
      | none => exact (ih hrest).trans (getElem?_settledAt _ (by simpa using hij))
    | broken fault => rfl
    | value | subquery | unknown => exact ih hrest

/-- If the fields among some leaves have their places, they are resolved then. -/
theorem resolved_resolveLeaves {leaves : List Leaf} {i : Nat} {f : Field} (hplaced : q.fault? schema leaves = none)
    (hi : .field i ∈ leaves) (hf : q.fieldAt? i = some f) :
    ∃ f', (q.resolveLeaves schema type leaves).1.fieldAt? i = some f' ∧ f'.resolved := by
  obtain ⟨done, joins, heq, hdone⟩ := q.resolveLeaves_eq schema type leaves
  have hfield := (fault?_eq_none_iff.mp hplaced).2 i hi
  rw [unplaced?, hf, Option.bind_some] at hfield
  rw [heq, fieldAt?_settledAt, hf, Option.map_some, if_pos (hdone hplaced i hi)]
  exact ⟨_, rfl, Field.resolved_settled hfield⟩

/-! ## Leaves at positions -/

theorem leafAt?_eq_field_iff {i j : Nat} :
    leafAt? q.nodes i = some (.field j) ↔ j = i ∧ (q.fieldAt? i).isSome := by
  rw [leafAt?, fieldAt?, expr?_index]
  cases q.nodes[i]? with
  | none => simp
  | some node => cases hexpr : node.expr <;> simp [hexpr, Expr.leaf?, eq_comm]

theorem fieldsOf_leafAt? (positions : List Nat) :
    q.fieldsOf (positions.filterMap (leafAt? q.nodes)) = positions.filterMap q.fieldAt? := by
  have hleaf : ∀ i, (leafAt? q.nodes i).bind q.field? = q.fieldAt? i := by
    intro i
    cases hnode : q.nodes[i]? with
    | none => simp [leafAt?, fieldAt?, expr?_index, hnode]
    | some node => cases hexpr : node.expr <;> simp [leafAt?, Expr.leaf?, field?, fieldAt?, expr?_index, hnode, hexpr]
  rw [fieldsOf, List.filterMap_filterMap]
  exact List.filterMap_congr fun i _ => hleaf i

end Query

/-! ## Plain leaves -/

theorem Query.mem_leaves_roots {q : Query} {leaf : Leaf} (h : leaf ∈ q.leaves q.liveRoots) :
    leaf ∈ q.leaves q.roots := by
  obtain ⟨root, hroot, hleaf⟩ := List.mem_flatMap.mp h
  exact List.mem_flatMap.mpr ⟨root, (mem_liveRoots_iff.mp hroot).1, hleaf⟩

/-- All leaves are plain just when what the clauses reach is inside the arena, on no cycle and no nested query. -/
theorem Query.isPlain_leaves_roots_iff {q : Query} :
    (∀ leaf ∈ q.leaves q.roots, leaf.isPlain) ↔ ∀ ref, q.Reaches ref →
      (q.expr? ref).isSome ∧ ¬ TransGen q.Refers ref ref ∧
        ∀ query embedding, q.expr? ref ≠ some (.subquery query embedding) := by
  constructor
  · rintro h ref ⟨root, hroot, hreach⟩
    have hunbroken : (q.tree root).Unbroken :=
      fun fault hfault => by cases h _ (List.mem_flatMap.mpr ⟨root, hroot, hfault⟩)
    obtain ⟨hsome, hacyclic⟩ := unbroken_iff.mp hunbroken ref hreach
    refine ⟨hsome, hacyclic, fun query embedding hexpr => ?_⟩
    obtain ⟨i, node, hlocate, hnode⟩ := expr?_eq_some_iff.mp hexpr
    have hleaf := (mem_leaves_iff hunbroken).mpr ⟨ref, i, node, hreach, hlocate, by rw [hnode]; rfl⟩
    cases h _ (List.mem_flatMap.mpr ⟨root, hroot, hleaf⟩)
  · intro h leaf hleaf
    obtain ⟨root, hroot, hleaf⟩ := List.mem_flatMap.mp hleaf
    have hunbroken : (q.tree root).Unbroken := by
      refine unbroken_iff.mpr fun ref hreach => ?_
      obtain ⟨hsome, hacyclic, -⟩ := h ref ⟨root, hroot, hreach⟩
      exact ⟨hsome, hacyclic⟩
    obtain ⟨ref, i, node, hreach, hlocate, hnode⟩ := (mem_leaves_iff hunbroken).mp hleaf
    obtain ⟨-, -, hplain⟩ := h ref ⟨root, hroot, hreach⟩
    rw [expr?_of_locate? hlocate] at hplain
    cases hexpr : node.expr with
    | subquery query embedding => exact absurd (congrArg some hexpr) (hplain query embedding)
    | _ =>
      rw [hexpr] at hnode
      cases hnode <;> rfl

/-! ## Compiling without nested queries -/

namespace Scope

open DraftM

variable (scope : Scope)

/-- Clauses without nested queries leave the query as it is, and if they fail, it is not for a field without a place. -/
theorem mirror_plain {q : Query} (h : ∀ leaf ∈ q.leaves q.liveRoots, leaf.isPlain) :
    scope.Mirror scope (fun d d' => d' = d ∧ d.query = q) (fun e d _ => e.unresolved? = none ∧ d.query = q) fun _ =>
      False := by
  have hroots : ∀ ref ∈ q.roots, ∀ i, .subquery i ∉ (q.tree ref).leaves := by
    intro ref href i hi
    cases hnull : ref.isNull with
    | true => cases Query.eq_broken_of_isNull hnull hi
    | false => cases h _ (List.mem_flatMap.mpr ⟨ref, Query.mem_liveRoots_iff.mpr ⟨href, hnull⟩, hi⟩)
  have hargs : ∀ args, q.groupArgs = .ok args → ∀ ref ∈ args, ∀ i, .subquery i ∉ (q.tree ref).leaves := by
    intro args hargs ref href i hi
    have hi' : .subquery i ∈ q.leaves args := List.mem_flatMap.mpr ⟨ref, href, hi⟩
    rw [leaves_groupArgs_of_live hargs fun fault hfault => by cases h _ hfault] at hi'
    obtain ⟨root, hroot, hi'⟩ := List.mem_flatMap.mp hi'
    exact hroots root (by simp [Query.roots, Option.mem_toList.mp hroot]) i hi'
  refine ⟨rfl, rfl, fun d d' hd => ⟨d.query.head, d.query.having, hd.1.trans d.rerooted_self.symm⟩,
    fun e he d d' hd => Or.inl ⟨he, hd.2⟩, ?_, fun _ hi => hi.elim, ?_, ?_⟩
  · rintro d _ n ⟨rfl, hd⟩
    exact ⟨rfl, hd⟩
  · rintro d _ ⟨-, rfl⟩ ref href d₁ ⟨_, -, heq⟩ i hi
    rw [heq] at hi
    exact hroots ref href i hi
  · rintro d _ ⟨-, rfl⟩ args hok ref href d₁ ⟨_, -, heq⟩ i hi
    rw [heq] at hi
    exact hargs args hok ref href i hi

/-- Without nested queries, compiling leaves the query as resolution leaves it. If resolution fails, compiling fails for
the same reason; if not, compiling fails for no reason of that kind. -/
theorem compile_plain {q q₁ q₂ : Query} {fault : Option CompileError} (hsettled : q.settleIndex = (q₁, none))
    (hplain : ∀ leaf ∈ q₁.leaves q₁.liveRoots, leaf.isPlain)
    (hresolved : q₁.resolveLeaves scope.schema scope.config.joinType (q₁.leaves q₁.liveRoots) = (q₂, fault)) (n : Nat) :
    (scope.compile q n).query = q₂ ∧ (∀ e ∈ fault, (scope.compile q n).result = .error e) ∧
      (fault = none → ∀ e, (scope.compile q n).result = .error e → e.unresolved? = none) := by
  have hrun : scope.passes.run { query := q, requested := n } =
      (fault.elim (.ok ((q₁.leaves q₁.liveRoots).flatMap Leaf.ownValues)) .error,
        { query := q₂, requested := n }) := by
    rw [passes_eq, run_bind, run_onQuery]
    dsimp only
    rw [hsettled]
    dsimp only
    rw [run_bind, run_get]
    exact run_passAll_of_plain hplain hresolved
  rw [compile, statement, run_bind, hrun]
  cases fault with
  | some e => exact ⟨rfl, fun _ h => by cases h; rfl, fun h => by cases h⟩
  | none =>
    have hplain₂ : ∀ leaf ∈ q₂.leaves q₂.liveRoots, leaf.isPlain := by
      obtain ⟨settled, joins, heq, -⟩ :=
        q₁.resolveLeaves_eq scope.schema scope.config.joinType (q₁.leaves q₁.liveRoots)
      obtain rfl : q₂ = q₁.settledAt scope.schema settled joins := congrArg Prod.fst (hresolved.symm.trans heq)
      rw [Query.leaves_settledAt]
      exact hplain
    have hclauses := mirrors_clauses (scope.mirror_plain hplain₂) (fun _ _ hd => by rw [hd.1])
      (fun _ _ hd => by rw [hd.1]) (fun d d' _ hd => ⟨by rw [hd.1], hd.2⟩)
      { query := q₂, requested := n } { query := q₂, requested := n } ⟨rfl, rfl⟩
    dsimp only [Option.elim]
    rw [run_bind]
    rcases hrun₂ : scope.clauses.run { query := q₂, requested := n } with ⟨e | clauses, d₂⟩
    · rw [hrun₂] at hclauses
      have hfails : e.unresolved? = none ∧ d₂.query = q₂ := by
        rcases hclauses with hfails | ⟨_, -, hfails⟩ <;> exact hfails
      exact ⟨hfails.2, fun _ h => (by cases h), fun _ _ h => by cases h; exact hfails.1⟩
    · rw [hrun₂] at hclauses
      obtain ⟨_, -, -, hquery⟩ := hclauses
      exact ⟨hquery, fun _ h => (by cases h), fun _ _ h => by cases h⟩

end Scope

/-! ## The first field without a place -/

namespace Query

variable {q : Query}

/-- A record index that is not negative is settled without a look at the nodes. -/
theorem settleIndex_of_nonnegative (h : ∀ index ∈ q.recordIndex, index.isNegative = false) :
    ∃ recordIndex forms, q.settleIndex = ({ q with recordIndex, forms }, none) := by
  unfold settleIndex
  cases hindex : q.recordIndex with
  | none =>
    cases q
    exact ⟨_, _, rfl⟩
  | some index =>
    dsimp only
    split
    · exact ⟨none, _, rfl⟩
    · rw [if_neg (by simp [h index hindex])]
      cases q
      exact ⟨_, _, rfl⟩

/-- The lookups that the fields at some positions need, as far as they are not resolved. -/
def neededAt (schema : Schema) (q : Query) (positions : List Nat) : List Lookup :=
  ((positions.filterMap q.fieldAt?).filter (!·.resolved)).filterMap fun f =>
    schema.neededFor? q.tables.table f.name

/-- The second query is the first one with the fields at some positions resolved. What they need is joined, where the
keys first occur and unless they are joined before. All other nodes are the same. -/
structure ResolvedUpTo (schema : Schema) (type : JoinType) (positions : List Nat) (q q' : Query) : Prop where
  fields : ∀ i ∈ positions, ∀ f, q.fieldAt? i = some f → ∃ f', q'.fieldAt? i = some f' ∧ f'.resolved
  others : ∀ i, (i ∈ positions → q.fieldAt? i = none) → q'.nodes[i]? = q.nodes[i]?
  joins : q'.tables.joins = q.tables.joins ++
    (Schema.withNewKeys (q.tables.joins.map (·.lookup)) (q.neededAt schema positions)).map (Lookup.join type)

variable {schema : Schema} {type : JoinType}

theorem unplaced?_eq_none_iff {i : Nat} :
    q.unplaced? schema i = none ↔ ∀ f, q.fieldAt? i = some f → f.Placeable schema q.tables.table := by
  rw [unplaced?, Option.bind_eq_none_iff]
  simp only [Field.unplaced?_eq_none_iff]

/-- Resolution fails for the reason of the first field that has no place. -/
theorem fault?_leafAt? (positions : List Nat) :
    q.fault? schema (positions.filterMap (leafAt? q.nodes)) = positions.findSome? (q.unplaced? schema) := by
  have hleaf : ∀ i, q.fault? schema (leafAt? q.nodes i).toList = q.unplaced? schema i := by
    intro i
    cases hnode : q.nodes[i]? with
    | none => simp [leafAt?, unplaced?, fieldAt?, expr?_index, hnode, fault?]
    | some node =>
      cases hexpr : node.expr <;> simp [leafAt?, Expr.leaf?, unplaced?, fieldAt?, expr?_index, hnode, hexpr, fault?]
  rw [List.filterMap_eq_flatMap_toList]
  induction positions with
  | nil => rfl
  | cons i rest ih =>
    rw [List.flatMap_cons, fault?_append, hleaf, ih, List.findSome?_cons]
    cases q.unplaced? schema i <;> rfl

/-- Resolution stops at the first field that has no place. -/
theorem resolveLeaves_leafAt? {before : List Nat} {i : Nat} {e : CompileError}
    (hbefore : ∀ j ∈ before, q.unplaced? schema j = none) (hi : q.unplaced? schema i = some e) (after : List Nat) :
    q.resolveLeaves schema type ((before ++ i :: after).filterMap (leafAt? q.nodes)) =
      ((q.resolveLeaves schema type (before.filterMap (leafAt? q.nodes))).1, some e) := by
  obtain ⟨f, hf, -⟩ := Option.bind_eq_some_iff.mp hi
  have hleaf : leafAt? q.nodes i = some (.field i) := leafAt?_eq_field_iff.mpr ⟨rfl, by rw [hf]; rfl⟩
  obtain ⟨done, joins, heq, -⟩ := q.resolveLeaves_eq schema type (before.filterMap (leafAt? q.nodes))
  rw [fault?_leafAt?, List.findSome?_eq_none_iff.mpr hbefore] at heq
  rw [List.filterMap_append, List.filterMap_cons_some hleaf, resolveLeaves_append, heq]
  dsimp only
  rw [resolveLeaves, Leaf.visitAll, resolveAt_eq, unplaced?_settledAt, hi]

theorem resolvedUpTo_resolveLeaves {positions : List Nat} (h : ∀ i ∈ positions, q.unplaced? schema i = none) :
    q.ResolvedUpTo schema type positions
      (q.resolveLeaves schema type (positions.filterMap (leafAt? q.nodes))).1 := by
  have hplaced : q.fault? schema (positions.filterMap (leafAt? q.nodes)) = none := by
    rw [fault?_leafAt?]
    exact List.findSome?_eq_none_iff.mpr h
  refine ⟨fun i hi f hf => resolved_resolveLeaves hplaced ?_ hf, fun i hi => getElem?_resolveLeaves fun hleaf => ?_, ?_⟩
  · exact List.mem_filterMap.mpr ⟨i, hi, leafAt?_eq_field_iff.mpr ⟨rfl, by rw [hf]; rfl⟩⟩
  · obtain ⟨j, hj, hleaf⟩ := List.mem_filterMap.mp hleaf
    obtain ⟨rfl, hsome⟩ := leafAt?_eq_field_iff.mp hleaf
    rw [hi hj] at hsome
    cases hsome
  · obtain ⟨done, joins, heq, -⟩ := q.resolveLeaves_eq schema type (positions.filterMap (leafAt? q.nodes))
    rw [hplaced] at heq
    have hfields : ∀ f ∈ positions.filterMap q.fieldAt?, f.unplaced? schema q.tables.table = none := by
      intro f hf
      obtain ⟨i, hi, hfield⟩ := List.mem_filterMap.mp hf
      exact Field.unplaced?_eq_none_iff.mpr (unplaced?_eq_none_iff.mp (h i hi) f hfield)
    rw [heq, tables_resolveLeaves heq, fieldsOf_leafAt?, Field.filterMap_needed? hfields, ← neededAt,
      Sources.joins_joinAll_eq]

/-- A query without nested queries is compiled as the fields at its live positions are resolved. -/
theorem compileWith_live (context inner : Context) (hindex : ∀ index ∈ q.recordIndex, index.isNegative = false)
    (hplain : ∀ leaf ∈ q.leaves q.liveRoots, leaf.isPlain) :
    ∃ recordIndex forms, ∀ q₂ fault,
      resolveLeaves context.schema context.config.joinType (q.livePositions.filterMap (leafAt? q.nodes))
          { q with recordIndex, forms } = (q₂, fault) →
        (q.compileWith context inner).query = q₂ ∧ (∀ e ∈ fault, (q.compileWith context inner).result = .error e) ∧
          (fault = none → ∀ e, (q.compileWith context inner).result = .error e → e.unresolved? = none) := by
  obtain ⟨recordIndex, forms, hsettled⟩ := settleIndex_of_nonnegative hindex
  refine ⟨recordIndex, forms, fun q₂ fault hresolved => ?_⟩
  rw [← leaves_liveRoots fun fault hfault => by cases hplain _ hfault] at hresolved
  exact (context.scopeWith inner q).compile_plain hsettled hplain hresolved 0

end Query

/-- If the clauses reach no nested queries, and nothing outside the arena or on a cycle, resolution fails just when a
live field has no place. The error names the first such field and the primary table. The live fields before it are
resolved then, what they need is joined, and all other nodes are as they were. -/
theorem Query.compileWith_unresolved (context inner : Context) {q : Query}
    (hindex : ∀ index ∈ q.recordIndex, index.isNegative = false)
    (hinside : ∀ ref, q.Reaches ref → (q.expr? ref).isSome)
    (hacyclic : ∀ ref, q.Reaches ref → ¬ TransGen q.Refers ref ref)
    (hplain : ∀ ref query embedding, q.Reaches ref → q.expr? ref ≠ some (.subquery query embedding)) :
    let outcome := q.compileWith context inner
    ((∃ e, outcome.result = .error e ∧ e.unresolved?.isSome) ↔
        ∃ i ∈ q.livePositions, ∃ f, q.fieldAt? i = some f ∧ ¬ f.Placeable context.schema q.tables.table) ∧
      ∀ before i after f, q.livePositions = before ++ i :: after → q.fieldAt? i = some f →
        ¬ f.Placeable context.schema q.tables.table →
        (∀ j ∈ before, ∀ g, q.fieldAt? j = some g → g.Placeable context.schema q.tables.table) →
        (∃ e, outcome.result = .error e ∧ e.unresolved? = some (f.name, q.tables.table)) ∧
          q.ResolvedUpTo context.schema context.config.joinType before outcome.query := by
  intro outcome
  have hleaves := isPlain_leaves_roots_iff.mpr fun ref hreach =>
    ⟨hinside ref hreach, hacyclic ref hreach, fun query embedding => hplain ref query embedding hreach⟩
  obtain ⟨recordIndex, forms, hcompile⟩ :=
    compileWith_live context inner hindex fun leaf hleaf => hleaves leaf (mem_leaves_roots hleaf)
  -- the query with its index settled has the fields and the tables of the given one
  let q₁ : Query := { q with recordIndex, forms }
  refine ⟨?_, fun before i after f hlive hf hnot hbefore => ?_⟩
  · obtain ⟨done, joins, heq, -⟩ := q₁.resolveLeaves_eq context.schema context.config.joinType
      (q.livePositions.filterMap (leafAt? q₁.nodes))
    obtain ⟨-, hfails, hsucceeds⟩ := hcompile _ _ heq
    rw [fault?_leafAt?] at hfails hsucceeds
    cases hfirst : q.livePositions.findSome? (q₁.unplaced? context.schema) with
    | none =>
      refine iff_of_false ?_ ?_
      · rintro ⟨e, he, hsome⟩
        rw [hsucceeds hfirst e he] at hsome
        cases hsome
      · rintro ⟨i, hi, f, hf, hnot⟩
        exact hnot (unplaced?_eq_none_iff.mp (List.findSome?_eq_none_iff.mp hfirst i hi) f hf)
    | some e =>
      obtain ⟨i, hi, he⟩ := List.exists_of_findSome?_eq_some hfirst
      obtain ⟨f, hf, he⟩ := Option.bind_eq_some_iff.mp he
      refine iff_of_true ⟨e, hfails e hfirst, by rw [Field.unresolved?_of_unplaced? he]; rfl⟩
        ⟨i, hi, f, hf, fun hplaceable => ?_⟩
      cases he.symm.trans (Field.unplaced?_eq_none_iff.mpr hplaceable)
  · obtain ⟨e, he⟩ := Option.ne_none_iff_exists'.mp (mt Field.unplaced?_eq_none_iff.mp hnot)
    have hplaced : ∀ j ∈ before, q₁.unplaced? context.schema j = none :=
      fun j hj => unplaced?_eq_none_iff.mpr (hbefore j hj)
    have hi : q₁.unplaced? context.schema i = some e := Option.bind_eq_some_iff.mpr ⟨f, hf, he⟩
    rw [hlive] at hcompile
    obtain ⟨hquery, hfails, -⟩ := hcompile _ _ (resolveLeaves_leafAt? hplaced hi after)
    have hresolved : q₁.ResolvedUpTo context.schema context.config.joinType before _ :=
      resolvedUpTo_resolveLeaves hplaced
    rw [← hquery] at hresolved
    exact ⟨⟨e, hfails e rfl, Field.unresolved?_of_unplaced? he⟩, hresolved.fields, hresolved.others, hresolved.joins⟩

/-- Orders whose customer is joined. The filter compares the weight, which orders do not have, after the names of the
customers were met twice and the phone of the driver once. It is for this qualified column alone that the drivers have
to be joined. -/
def Query.heavyDeliveries : Query where
  nodes := [{ expr := .field { name := .text "total" } }, { expr := .field { name := .text "name" } },
    { expr := .field { name := .text "customers.city" } }, { expr := .cmp .ne (.index 1) (.index 2) },
    { expr := .field { name := .text "drivers.phone" } }, { expr := .field { name := .text "weight" } },
    { expr := .cmp .lt (.index 4) (.index 5) }, { expr := .cond .conj [.index 3, .index 6] },
    { expr := .field { name := .text "street" } }]
  select := [.index 0, .index 1]
  head := some (.index 7)
  order := [.index 8]
  ordered := true
  tables := { table := "orders", joins := [⟨"customer", "customers", "customer", "number", .left⟩] }

theorem Query.compileWith_unresolved_heavyDeliveries :
    let outcome := heavyDeliveries.compileWith .deliveries .deliveries
    (∃ e, outcome.result = .error e ∧ e.unresolved? = some (.text "weight", "orders")) ∧
      heavyDeliveries.ResolvedUpTo Context.deliveries.schema .left [0, 1, 1, 2, 4] outcome.query ∧
      outcome.query.tables.joins =
        [⟨"customer", "customers", "customer", "number", .left⟩, ⟨"driver", "drivers", "driver", "id", .left⟩] := by
  have hplain : ∀ leaf ∈ heavyDeliveries.leaves heavyDeliveries.roots, leaf.isPlain := by decide +kernel
  have hreach := isPlain_leaves_roots_iff.mp hplain
  have hbefore : ∀ j ∈ [0, 1, 1, 2, 4], heavyDeliveries.unplaced? Context.deliveries.schema j = none := by
    decide +kernel
  have hweight : Field.unplaced? Context.deliveries.schema "orders" { name := .text "weight" } ≠ none := by
    decide +kernel
  obtain ⟨hresult, hresolved⟩ := (compileWith_unresolved .deliveries .deliveries (by decide)
    (fun ref h => (hreach ref h).1) (fun ref h => (hreach ref h).2.1)
    (fun ref query embedding h => (hreach ref h).2.2 query embedding)).2 [0, 1, 1, 2, 4] 5 [8]
    { name := .text "weight" } (by decide +kernel) (by decide +kernel) (mt Field.unplaced?_eq_none_iff.mpr hweight)
    fun j hj => unplaced?_eq_none_iff.mp (hbefore j hj)
  refine ⟨hresult, hresolved, hresolved.joins.trans ?_⟩
  decide +kernel

end ArenaSql
