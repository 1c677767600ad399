import ArenaSql.Compiler
import ArenaSql.Proofs.Compilable
import ArenaSql.Proofs.Later
import Mathlib.Data.Nat.Bitwise

/-!
# Compiling again

A query that was compiled is left in a state in which nothing is left to do: its record index is settled, the fields
that its clauses reach are resolved, and its nested queries are in such a state in turn. Compiled again, it has the
same statement and stays as it is. The same is true of a query that failed, up to the point where it did, with one
exception: the record index is turned before the terms of the ordering are looked up, so that a term outside the arena
may be met the first time only.
-/

namespace ArenaSql

/-! ## Settled record indices -/

namespace Binary64

theorem toNat_bits_neg (x : Binary64) : x.neg.bits.toNat = x.bits.toNat ^^^ 2 ^ 63 := by
  rw [neg, UInt64.toNat_xor]
  rfl

/-- Only the sign changes. -/
theorem toNat_bits_neg_mod (x : Binary64) : x.neg.bits.toNat % 2 ^ 63 = x.bits.toNat % 2 ^ 63 := by
  rw [toNat_bits_neg, Nat.xor_mod_two_pow, Nat.mod_self, Nat.xor_zero]

theorem kind_neg (x : Binary64) : x.neg.kind = x.kind := by
  have hmod := toNat_bits_neg_mod x
  have hfraction : x.neg.bits.toNat % twoTo 52 = x.bits.toNat % twoTo 52 := by
    change _ % 2 ^ 52 = _ % 2 ^ 52
    omega
  have hexponent : x.neg.bits.toNat / twoTo 52 % twoTo 11 = x.bits.toNat / twoTo 52 % twoTo 11 := by
    change _ / 2 ^ 52 % 2 ^ 11 = _ / 2 ^ 52 % 2 ^ 11
    omega
  rw [kind, hfraction, hexponent]
  rfl

theorem isNegative_neg {x : Binary64} (h : x.isNegative) : x.neg.isNegative = false := by
  simp only [isNegative, twoTo, Nat.pow_eq, beq_iff_eq] at h
  simp only [isNegative, twoTo, Nat.pow_eq, toNat_bits_neg, Nat.xor_div_two_pow, h]
  rfl

end Binary64

/-- The index neither asks for nothing nor counts from the other end. -/
def RecordIndex.Settled (index : RecordIndex) : Prop :=
  index.isZero = false ∧ index.isNegative = false

theorem RecordIndex.settled_neg {index : RecordIndex} (hzero : index.isZero = false) (hnegative : index.isNegative) :
    index.neg.Settled := by
  cases index with
  | whole n =>
    simp only [isNegative, decide_eq_true_eq] at hnegative
    simp only [Settled, neg, isZero, isNegative, beq_eq_false_iff_ne, decide_eq_false_iff_not]
    omega
  | fractional x =>
    simp only [isNegative, Bool.and_eq_true] at hnegative
    refine ⟨?_, ?_⟩
    · simp only [isZero, Binary64.isZero, neg, Binary64.kind_neg] at hzero ⊢
      exact hzero
    · simp only [neg, isNegative, Binary64.isNegative_neg hnegative.1.1, Bool.false_and]

namespace Query

/-- After the record index was settled it is, and no fields have new forms. -/
theorem settled_settleIndex (q : Query) :
    (∀ index ∈ q.settleIndex.1.recordIndex, index.Settled) ∧ q.settleIndex.1.forms ⊆ q.forms := by
  rw [settleIndex]
  cases hindex : q.recordIndex with
  | none => simp [hindex]
  | some index =>
    dsimp only
    split
    · exact ⟨fun _ hnone => (by cases hnone), List.filter_subset_self _⟩
    · rename_i hzero
      split
      · rename_i hnegative
        obtain ⟨⟨f, -, heq⟩, -⟩ := reverseEach_eq q.order
          { q with recordIndex := some index.neg, forms := Fields.erase "record_index" q.forms }
        rw [heq]
        refine ⟨fun other hother => ?_, List.filter_subset_self _⟩
        cases hother
        exact RecordIndex.settled_neg (Bool.eq_false_iff.mpr hzero) hnegative
      · rename_i hnegative
        rw [hindex]
        refine ⟨fun other hother => ?_, fun _ h => h⟩
        cases hother
        exact ⟨Bool.eq_false_iff.mpr hzero, Bool.eq_false_iff.mpr hnegative⟩

theorem settleIndex_of_settled {q : Query} (h : ∀ index ∈ q.recordIndex, index.Settled) :
    q.settleIndex = (q, none) := by
  rw [settleIndex]
  cases hindex : q.recordIndex with
  | none => rfl
  | some index =>
    obtain ⟨hzero, hnegative⟩ := h index hindex
    simp [hzero, hnegative]

end Query

/-! ## Queries that are marked for their embedding -/

/-- The query is marked for the way it is embedded. -/
structure Query.Marked (q : Query) (embedding : Embedding) : Prop where
  subquery : q.subquery = true
  existsQuery : q.existsQuery = (embedding == .presence)
  subqueryExpression : q.subqueryExpression = (embedding == .scalar)
  forms : ∀ key ∈ ["subquery", "exists_query", "subquery_expression"], ∀ form ∈ q.forms, form.1 ≠ key

theorem Query.marked_embedded (q : Query) (embedding : Embedding) : (q.embedded embedding).Marked embedding := by
  refine ⟨rfl, rfl, rfl, fun key hkey form hform hsame => ?_⟩
  simp only [embedded, List.foldr_cons, List.foldr_nil, Fields.erase, List.mem_filter, bne_iff_ne] at hform
  simp only [List.mem_cons, List.not_mem_nil, or_false] at hkey
  rcases hkey with rfl | rfl | rfl
  · exact hform.2 hsame
  · exact hform.1.2 hsame
  · exact hform.1.1.2 hsame

theorem Query.Marked.embedded_eq {q : Query} {embedding : Embedding} (h : q.Marked embedding) :
    q.embedded embedding = q := by
  have hforms : ["subquery", "exists_query", "subquery_expression"].foldr Fields.erase q.forms = q.forms := by
    have herase : ∀ key ∈ ["subquery", "exists_query", "subquery_expression"], Fields.erase key q.forms = q.forms :=
      fun key hkey => List.filter_eq_self.mpr fun form hform => by simpa using h.forms key hkey form hform
    simp only [List.mem_cons, List.not_mem_nil, or_false, forall_eq_or_imp, forall_eq] at herase
    simp only [List.foldr_cons, List.foldr_nil, herase]
  obtain ⟨hsubquery, hexists, hexpression, -⟩ := h
  rw [embedded, hforms]
  cases q
  simp_all

/-! ## Overlays of one query -/

theorem View.groupItems_overlay (view : View) (config : Config) (scope : Scope) (done : Nat → Bool) (q : Query)
    (table : AliasTable) (refs : List NodeRef) :
    view.groupItems config (scope.overlay done q) table refs = view.groupItems config q table refs := by
  induction refs generalizing table with
  | nil => rfl
  | cons ref rest ih => simp only [groupItems, Scope.tree_overlay, ih]

/-- Clauses are the same in every overlay. -/
theorem View.clauses_overlay (view : View) (config : Config) (scope : Scope) (done : Nat → Bool) (q : Query) :
    view.clauses config (scope.overlay done q) = view.clauses config q := by
  have hitem : view.selectItem (scope.overlay done q) = view.selectItem q := by
    funext ref
    rw [selectItem, selectItem, Scope.tree_overlay, Scope.aliasName_overlay]
  simp only [clauses, selectClause, whereClause, groupByClause, havingClause, orderByClause, hitem,
    groupItems_overlay, Scope.overlay_select, Scope.overlay_head, Scope.overlay_summarise, Scope.overlay_having,
    Scope.overlay_order, Scope.overlay_tables, Scope.overlay_ordered, Scope.overlay_simpleAggregate,
    Scope.overlay_limit?, Scope.tree_overlay, Scope.groupArgs_overlay]

/-! ## What compiling leaves -/

namespace Query

variable {schema : Schema} {q query : Query} {embedding : Embedding} {i : Nat}

theorem nesting_settledAt (schema : Schema) (settled : Nat → Bool) (joins : List Join) (q : Query) :
    (q.settledAt schema settled joins).nesting = q.nesting := by
  have hmap := nesting_mapExprs (q := q) (f := fun i expr => if settled i then expr.settled schema q.tables.table else expr)
    fun i expr _ => by cases expr <;> cases settled i <;> rfl
  rw [nesting_eq] at hmap ⊢
  exact hmap

theorem nesting_settleIndex (q : Query) : q.settleIndex.1.nesting = q.nesting := by
  obtain ⟨f, recordIndex, forms, hf, hquery⟩ := q.settleIndex_eq
  have hmap : (q.mapExprs f).nesting = q.nesting := by
    refine nesting_mapExprs fun i expr _ => ?_
    rcases hf i expr with hsame | ⟨ref, d, d', -, rfl, hsort⟩
    · rw [hsame]
    · rw [hsort]
      rfl
  rw [hquery, nesting_eq]
  rw [nesting_eq] at hmap
  exact hmap

end Query

namespace Scope

variable {scope : Scope} {q q₁ query : Query} {embedding : Embedding}

/-- However compiling ends, the query that is left has its record index settled, some fields resolved and some nested
queries compiled. -/
theorem exists_outline_eq (scope : Scope) (q : Query) :
    ∃ done settled joins, (scope.outline q).1 =
      scope.overlay done (q.settleIndex.1.settledAt scope.schema settled joins) := by
  rw [outline]
  cases q.settleIndex with
  | mk q₁ fault =>
    cases fault with
    | some e => exact ⟨fun _ => false, fun _ => false, q₁.tables.joins, by rw [overlay_none, Query.settledAt_none]⟩
    | none =>
      obtain ⟨settled, joins, heq⟩ := scope.exists_gather_query_eq q₁.parts (fun _ => false) q₁
      exact ⟨_, settled, joins, by rw [← heq]⟩

theorem marked_outline (h : q.Marked embedding) : (scope.outline q).1.Marked embedding := by
  obtain ⟨done, settled, joins, heq⟩ := scope.exists_outline_eq q
  have hforms := (q.settled_settleIndex).2
  obtain ⟨f, recordIndex, forms, -, hquery⟩ := q.settleIndex_eq
  rw [hquery] at heq hforms
  rw [heq]
  exact ⟨h.subquery, h.existsQuery, h.subqueryExpression, fun key hkey form hform => h.forms key hkey form (hforms hform)⟩

theorem nesting_outline (hnested : ∀ query, (scope.nested query 0).query.nesting = query.nesting) :
    (scope.outline q).1.nesting = q.nesting := by
  obtain ⟨done, settled, joins, heq⟩ := scope.exists_outline_eq q
  rw [heq, ← q.nesting_settleIndex, ← q.settleIndex.1.nesting_settledAt scope.schema settled joins]
  refine Query.nesting_mapExprs fun i expr _ => ?_
  cases done i with
  | false => rfl
  | true =>
    cases expr with
    | subquery query embedding => simp only [if_true, leftover, Expr.nesting, hnested, Query.nesting_embedded]
    | _ => rfl

/-- What compiling leaves of a nested query. -/
def remainder (scope : Scope) (query : Query) (embedding : Embedding) : Query :=
  (scope.nested (query.embedded embedding) 0).query

theorem leftover_subquery (scope : Scope) (query : Query) (embedding : Embedding) :
    scope.leftover (.subquery query embedding) = .subquery (scope.remainder query embedding) embedding := rfl

/-- What compiling leaves of the nested query stays as it is, and compiling it comes to the same result. -/
structure Rests (scope : Scope) (query : Query) (embedding : Embedding) : Prop where
  embedded_eq : (scope.remainder query embedding).embedded embedding = scope.remainder query embedding
  query_eq : (scope.nested (scope.remainder query embedding) 0).query = scope.remainder query embedding
  result_eq : (scope.nested (scope.remainder query embedding) 0).result = (scope.nested (query.embedded embedding) 0).result

/-- The result of the nested query at a position, after it was compiled there. -/
theorem nestedAt_overlay_of_done {done : Nat → Bool} {i : Nat} (hdone : done i)
    (hexpr : q.expr? (.index i) = some (.subquery query embedding)) :
    scope.nestedAt (scope.overlay done q) i =
      (scope.nested ((scope.remainder query embedding).embedded embedding) 0).result := by
  rw [nestedAt, expr?_overlay, hexpr, hdone]
  rfl

section

variable {done : Nat → Bool}
  (h : ∀ (i : Nat) query embedding, done i → q.expr? (.index i) = some (.subquery query embedding) →
    scope.Rests query embedding)

include h

/-- The nested queries that were compiled have the results that they had before. -/
theorem nestedAt_overlay : scope.nestedAt (scope.overlay done q) = scope.nestedAt q := by
  funext i
  cases hexpr : q.expr? (.index i) with
  | none => rw [nestedAt, expr?_overlay, length_overlay, nestedAt, hexpr]; rfl
  | some expr =>
    cases hdone : done i with
    | false =>
      rw [nestedAt, expr?_overlay, length_overlay, nestedAt, hexpr, hdone]
      rfl
    | true =>
      cases expr with
      | subquery query embedding =>
        have hrests := h i query embedding hdone hexpr
        rw [nestedAt_overlay_of_done hdone hexpr, hrests.embedded_eq, hrests.result_eq, nestedAt, hexpr]
      | _ => rw [nestedAt, expr?_overlay, nestedAt, hexpr, hdone]; rfl

/-- Nested queries that were compiled stay as they are. -/
theorem overlay_overlay : scope.overlay done (scope.overlay done q) = scope.overlay done q := by
  refine Query.mapExprs_eq_self fun i expr hexpr => ?_
  rw [expr?_overlay] at hexpr
  obtain ⟨before, hbefore, rfl⟩ := Option.map_eq_some_iff.mp hexpr
  cases hdone : done i with
  | false => rfl
  | true =>
    cases before with
    | subquery query embedding =>
      have hrests := h i query embedding hdone hbefore
      have hstays : scope.remainder (scope.remainder query embedding) embedding = scope.remainder query embedding := by
        rw [remainder, hrests.embedded_eq, hrests.query_eq]
      simp only [if_true, leftover_subquery, hstays]
    | _ => rfl

end

/-! ## One level -/

/-- If the record index could be settled, and the nested queries that were compiled rest, then all steps of the
compilation repeat themselves on the query that it leaves. -/
theorem outline_outline (hsettled : q.settleIndex = (q₁, none))
    (hrests : ∀ (i : Nat) query embedding, (scope.gather q₁.parts (fun _ => false) q₁).done i →
      q₁.expr? (.index i) = some (.subquery query embedding) → scope.Rests query embedding) :
    scope.outline (scope.outline q).1 = scope.outline q := by
  have hleft : (scope.outline q).1 = scope.overlay (scope.gather q₁.parts (fun _ => false) q₁).done
      (scope.gather q₁.parts (fun _ => false) q₁).query := by
    rw [outline, hsettled]
  obtain ⟨settled, joins, hquery⟩ := scope.exists_gather_query_eq q₁.parts (fun _ => false) q₁
  replace hrests : ∀ (i : Nat) query embedding, (scope.gather q₁.parts (fun _ => false) q₁).done i →
      (scope.gather q₁.parts (fun _ => false) q₁).query.expr? (.index i) = some (.subquery query embedding) →
      scope.Rests query embedding := by
    intro i query embedding hi hexpr
    rw [hquery, Query.expr?_settledAt_subquery] at hexpr
    exact hrests i query embedding hi hexpr
  have hnested := nestedAt_overlay hrests
  have hgather := (later_overlay hnested).gather
  rw [← hleft] at hnested hgather
  have hindex : (scope.outline q).1.settleIndex = ((scope.outline q).1, none) := by
    have hindex := (q.settled_settleIndex).1
    rw [hsettled] at hindex
    refine Query.settleIndex_of_settled ?_
    rw [hleft, hquery]
    exact hindex
  have hparts : (scope.outline q).1.parts = q₁.parts := by
    rw [hleft, hquery]
    rfl
  have hview : scope.view (scope.outline q).1 = scope.view (scope.gather q₁.parts (fun _ => false) q₁).query := by
    rw [view, view, hnested, hleft]
    rfl
  have hstays := overlay_overlay hrests
  rw [← hleft] at hstays
  rw [outline, hindex]
  dsimp only
  rw [hparts, hgather]
  dsimp only
  rw [hstays, hview]
  rw [outline, hsettled]
  dsimp only
  rw [View.clauses_overlay]
  rfl

end Scope

/-- How compiling a query ended, without the placeholders. -/
def Outcome.ending (outcome : Outcome) : Query × Except CompileError Statement :=
  (outcome.query, outcome.result)

/-- The reason why the query cannot be compiled is that its record index counts from the other end and a term of its
ordering is outside the arena, or this is so of a nested query that it reaches. The flag tells whether the ordering
with that term would be shown. -/
inductive Query.Stumbles : Query → Bool → CompileError → Prop where
  | here {q : Query} {index : RecordIndex} {ref : NodeRef} (hindex : q.recordIndex = some index)
    (hnegative : index.isNegative) (href : ref ∈ q.order) (hdangling : q.expr? ref = none) :
    q.Stumbles (q.ordered && !q.simpleAggregate) (.arena (.outside ref q.nodes.length))
  | nested {q query : Query} {embedding : Embedding} {ref : NodeRef} {shown : Bool} {e : CompileError}
    (hreach : q.Reaches ref) (hexpr : q.expr? ref = some (.subquery query embedding))
    (h : (query.embedded embedding).Stumbles shown e) : q.Stumbles shown e

/-- The second ending, of compiling what the first left of the query, is the first again; or else the query stumbled
the first time, and then it fails the second time at least if the ordering is shown. -/
def Query.Recurs (q : Query) (first second : Query × Except CompileError Statement) : Prop :=
  second = first ∨ ∃ shown e, first.2 = .error e ∧ q.Stumbles shown e ∧ (shown → ∃ e', second.2 = .error e')

namespace Query

variable {q : Query} {e : CompileError}

theorem exists_dangling_of_reverseEach {refs : List NodeRef} (h : (q.reverseEach refs).2 = some e) :
    ∃ ref ∈ refs, q.expr? ref = none ∧ e = .arena (.outside ref q.nodes.length) := by
  induction refs generalizing q with
  | nil => cases h
  | cons ref rest ih =>
    rw [reverseEach] at h
    cases hlocate : locate? q.nodes ref with
    | none =>
      rw [hlocate] at h
      cases h
      exact ⟨ref, List.mem_cons_self, by rw [expr?, node?, hlocate]; rfl, rfl⟩
    | some found =>
      rw [hlocate] at h
      obtain ⟨other, hother, hdangling, rfl⟩ := ih h
      rw [reverseAt_eq, expr?, node?, Option.map_eq_none_iff, Option.map_eq_none_iff, locate?_mapExprs,
        Option.map_eq_none_iff] at hdangling
      refine ⟨other, List.mem_cons_of_mem _ hother, by rw [expr?, node?, hdangling]; rfl, ?_⟩
      rw [reverseAt_eq, length_mapExprs]

/-- Settling the record index fails at a term of the ordering. -/
theorem exists_dangling_of_settleIndex (h : q.settleIndex.2 = some e) :
    ∃ index ref, q.recordIndex = some index ∧ index.isNegative ∧ ref ∈ q.order ∧ q.expr? ref = none ∧
      e = .arena (.outside ref q.nodes.length) := by
  rw [settleIndex] at h
  cases hindex : q.recordIndex with
  | none => rw [hindex] at h; cases h
  | some index =>
    rw [hindex] at h
    dsimp only at h
    split at h
    · cases h
    · split at h
      · rename_i hnegative
        obtain ⟨ref, href, hdangling, he⟩ := exists_dangling_of_reverseEach h
        exact ⟨index, ref, rfl, hnegative, href, hdangling, he⟩
      · cases h

/-- Nothing dangles among the roots of a query that compiles. -/
theorem isSome_expr?_of_succeeds {scope : Scope} {q₁ q₂ : Query} {statement : Statement} {clauses : List Sql}
    {table : AliasTable} (h : scope.Succeeds q statement q₁ q₂ clauses table) {ref : NodeRef} (href : ref ∈ q.roots) :
    (q.expr? ref).isSome := by
  have hnull := View.isNull_of_clauses h.rendered
  rw [h.resolved_eq, roots_resolved] at hnull
  refine isSome_expr?_of_unbroken fun fault hfault => View.unbroken_of_collect h.collect_eq fault ?_
  rw [h.leaves_eq]
  exact List.mem_flatMap.mpr ⟨ref, mem_liveRoots_iff.mpr ⟨href, hnull ref href⟩, hfault⟩

theorem reaches_of_live_subquery {i : Nat} (h : .subquery i ∈ q.leaves q.liveRoots) :
    ∃ ref, q.Reaches ref ∧ q.expr? ref = q.expr? (.index i) := by
  obtain ⟨root, hroot, hleaf⟩ := List.mem_flatMap.mp h
  obtain ⟨fault, hfault⟩ | ⟨ref, j, node, hreach, hlocate, hnode⟩ := reaches_of_mem_leaves hleaf
  · cases hfault
  · refine ⟨ref, ⟨root, (mem_liveRoots_iff.mp hroot).1, hreach⟩, ?_⟩
    cases hexpr : node.expr <;> rw [hexpr] at hnode <;> cases hnode
    rw [expr?_of_locate? hlocate, expr?_index_of_locate? hlocate]

end Query

namespace Scope

variable {scope : Scope} {q : Query}

/-- Compiling again what settling the record index left, when it failed. -/
theorem recurs_of_settleIndex {q₁ : Query} {e : CompileError} (h : q.settleIndex = (q₁, some e)) :
    q.Recurs (scope.outline q) (scope.outline (scope.outline q).1) := by
  have hfirst : scope.outline q = (q₁, .error e) := by rw [outline, h]
  obtain ⟨index, ref, hindex, hnegative, href, hdangling, rfl⟩ := Query.exists_dangling_of_settleIndex (congrArg Prod.snd h)
  refine Or.inr ⟨_, _, by rw [hfirst], .here hindex hnegative href hdangling, fun hshown => ?_⟩
  rw [hfirst]
  cases hsecond : (scope.outline q₁).2 with
  | error e => exact ⟨e, rfl⟩
  | ok statement =>
    obtain ⟨f, recordIndex, forms, -, hquery⟩ := q.settleIndex_eq
    rw [h] at hquery
    dsimp only at hquery
    obtain ⟨_, _, _, _, hsucceeds⟩ := outline_eq_ok_iff.mp hsecond
    have hroot : ref ∈ q₁.roots := by
      rw [hquery]
      simp [Query.roots, shownOrder, Query.mapExprs, hshown, href]
    have hsome := Query.isSome_expr?_of_succeeds hsucceeds hroot
    rw [hquery, Query.expr?, Query.node?, Option.isSome_map, Option.isSome_map] at hsome
    rw [Query.expr?, Query.node?, Option.map_eq_none_iff, Option.map_eq_none_iff] at hdangling
    rw [show (locate? _ ref).isSome = _ from q.isSome_locate?_mapExprs f ref, hdangling] at hsome
    cases hsome

/-- The ending of a compilation recurs if those of the nested queries do. -/
theorem recurs_outline
    (hnested : ∀ (i : Nat) query embedding, q.expr? (.index i) = some (.subquery query embedding) →
      (scope.remainder query embedding).embedded embedding = scope.remainder query embedding ∧
        (query.embedded embedding).Recurs (scope.nested (query.embedded embedding) 0).ending
          (scope.nested (scope.remainder query embedding) 0).ending) :
    q.Recurs (scope.outline q) (scope.outline (scope.outline q).1) := by
  cases hsettled : q.settleIndex with
  | mk q₁ fault =>
    cases fault with
    | some e => exact recurs_of_settleIndex hsettled
    | none =>
      have hexpr₁ : ∀ {i : Nat} {query : Query} {embedding : Embedding},
          q₁.expr? (.index i) = some (.subquery query embedding) ↔ q.expr? (.index i) = some (.subquery query embedding) := by
        intro i query embedding
        have hiff : q.settleIndex.1.expr? (.index i) = some (.subquery query embedding) ↔ _ :=
          Query.expr?_settleIndex_subquery
        rwa [hsettled] at hiff
      by_cases hrests : ∀ (i : Nat) query embedding, (scope.gather q₁.parts (fun _ => false) q₁).done i →
          q₁.expr? (.index i) = some (.subquery query embedding) → scope.Rests query embedding
      · exact Or.inl (outline_outline hsettled hrests)
      · -- a nested query does not rest, so it stumbled, and the query failed for that reason
        push Not at hrests
        obtain ⟨i, query, embedding, hdone, hexpr, hnot⟩ := hrests
        obtain ⟨hembedded, hsame | ⟨shown, e, hfails, hstumbles, hagain⟩⟩ := hnested i query embedding (hexpr₁.mp hexpr)
        · exact absurd ⟨hembedded, congrArg Prod.fst hsame, congrArg Prod.snd hsame⟩ hnot
        · obtain ⟨hleaf, hvalues⟩ := gather_done hdone rfl
          obtain ⟨hleaves, hnestedAt⟩ := scope.leaves_settleIndex hsettled
          have hlive : .subquery i ∈ q.leaves q.liveRoots := hleaves ▸ hleaf
          obtain ⟨ref, hreach, href⟩ := Query.reaches_of_live_subquery hlive
          have hfirst : scope.outline q = (scope.overlay (scope.gather q₁.parts (fun _ => false) q₁).done
              (scope.gather q₁.parts (fun _ => false) q₁).query, .error e) := by
            rw [outline, hsettled]
            dsimp only
            rw [hvalues e (by rw [nestedAt, hexpr]; exact hfails)]
            rfl
          refine Or.inr ⟨shown, e, by rw [hfirst], .nested hreach (href.trans (hexpr₁.mp hexpr)) hstumbles, fun hshown => ?_⟩
          obtain ⟨e', he'⟩ := hagain hshown
          obtain ⟨settled, joins, hquery⟩ := scope.exists_gather_query_eq q₁.parts (fun _ => false) q₁
          rw [hfirst]
          cases hsecond : (scope.outline _).2 with
          | error e => exact ⟨e, rfl⟩
          | ok statement =>
            obtain ⟨_, _, _, _, hsucceeds⟩ := outline_eq_ok_iff.mp hsecond
            obtain ⟨nested, hstatement⟩ := View.exists_nested_of_collect hsucceeds.collect_eq (i := i) (by
              rw [hsucceeds.leaves_eq, leaves_overlay, hquery, Query.leaves_settledAt]
              exact hleaf)
            have hresult := (congrFun hsucceeds.nestedAt_eq i).symm.trans hstatement
            rw [nestedAt_overlay_of_done hdone (by rw [hquery, Query.expr?_settledAt_subquery]; exact hexpr),
              hembedded] at hresult
            cases hresult.symm.trans he'

end Scope

/-! ## All levels -/

namespace Context

variable {context : Context}

theorem ending_nested_succ (hd : context.dialect.Stateless) (depth : Nat) (q : Query) :
    ((context.scope (depth + 1)).nested q 0).ending = (context.scope depth).outline q := by
  obtain ⟨hquery, hresult⟩ := nested_scope_succ hd depth q
  exact Prod.ext hquery hresult

theorem nesting_outline (hd : context.dialect.Stateless) (depth : Nat) (q : Query) :
    ((context.scope depth).outline q).1.nesting = q.nesting := by
  induction depth generalizing q with
  | zero => exact Scope.nesting_outline fun _ => rfl
  | succ depth ih =>
    refine Scope.nesting_outline fun query => ?_
    rw [(nested_scope_succ hd depth query).1]
    exact ih query

theorem recurs_outline (hd : context.dialect.Stateless) (depth : Nat) (q : Query) :
    q.Recurs ((context.scope depth).outline q) ((context.scope depth).outline ((context.scope depth).outline q).1) := by
  induction depth generalizing q with
  | zero =>
    -- nothing is compiled at this depth, so a nested query is left as it is marked
    refine Scope.recurs_outline fun i query embedding _ => ⟨(query.marked_embedded embedding).embedded_eq, Or.inl rfl⟩
  | succ depth ih =>
    refine Scope.recurs_outline fun i query embedding _ => ?_
    have hleft : (context.scope (depth + 1)).remainder query embedding =
        ((context.scope depth).outline (query.embedded embedding)).1 := (nested_scope_succ hd depth _).1
    rw [hleft, ending_nested_succ hd, ending_nested_succ hd]
    exact ⟨(Scope.marked_outline (query.marked_embedded embedding)).embedded_eq, ih _⟩

end Context

/-- Compiling what compiling a query left ends as it did before, unless the query stumbled. -/
theorem Query.recurs_compile {context : Context} (hd : context.dialect.Stateless) (q : Query) :
    q.Recurs (q.compile context).ending ((q.compile context).query.compile context).ending := by
  have hending : ∀ q : Query, (q.compile context).ending = (context.scope q.nesting).outline q :=
    fun q => Prod.ext (compile_eq_outline hd q).1 (compile_eq_outline hd q).2
  rw [hending, hending, (compile_eq_outline hd q).1, Context.nesting_outline hd]
  exact Context.recurs_outline hd q.nesting q

/-- A query that was compiled, compiled again, has the same statement and stays as it is, nested queries included. -/
theorem Query.compile_compile {context : Context} {q : Query} {statement : Statement}
    (hd : context.dialect.Stateless) (h : (q.compile context).result = .ok statement) :
    ((q.compile context).query.compile context).result = .ok statement ∧
      ((q.compile context).query.compile context).query = (q.compile context).query := by
  rcases recurs_compile hd q with hsame | ⟨_, e, hfails, -⟩
  · exact ⟨(congrArg Prod.snd hsame).trans h, congrArg Prod.fst hsame⟩
  · cases h.symm.trans hfails

theorem Compiler.compile_new_eq (context : Context) (name : String) (q : Query) :
    ((new context).compile name q).1 = (q.compile context).result ∧
      ((new context).compile name q).2.1 = (q.compile context).query := by
  have hcompile : q.compileWith context context = q.compile context := rfl
  simp only [compile, new, hcompile]
  cases (q.compile context).result <;> exact ⟨rfl, rfl⟩

/-- A fresh compiler that is given what another one left of a query, in the same context, has the same answer and
leaves the query alone. -/
theorem Compiler.compile_again {context : Context} {name other : String} {q left : Query} {statement : Statement}
    {c : Compiler} (hd : context.dialect.Stateless)
    (h : (new context).compile name q = (.ok statement, left, c)) :
    ∃ c', (new context).compile other left = (.ok statement, left, c') := by
  obtain ⟨hresult, hquery⟩ := compile_new_eq context name q
  rw [h] at hresult hquery
  obtain ⟨hagain, hleft⟩ := Query.compile_compile hd hresult.symm
  rw [← hquery] at hagain hleft
  obtain ⟨hresult', hquery'⟩ := compile_new_eq context other left
  exact ⟨((new context).compile other left).2.2, Prod.ext (hresult'.trans hagain) (Prod.ext (hquery'.trans hleft) rfl)⟩

/-- The last of the customers by region for whom there is an order above a sum. -/
def Query.lastCustomer : Query where
  nodes :=
    [{ expr := .field { name := .text "region" } }, { expr := .sort (.index 0) .asc },
     { expr := .subquery
        { nodes :=
            [{ expr := .field { name := .text "total" } }, { expr := .value (.int 50) },
             { expr := .cmp .gt (.index 0) (.index 1) }]
          head := some (.index 2)
          tables := { table := "orders" } } .presence }]
  select := [.index 0]
  head := some (.index 2)
  order := [.index 1]
  recordIndex := some (.whole (-2))
  ordered := true
  tables := { table := "customers" }

def Context.customers : Context where
  dialect := .mysql
  schema :=
    { tables := [{ name := "customers", columns := [{ name := "id" }] }, { name := "orders", columns := [{ name := "total" }] }]
      lookups := [{ key := "address", fromTable := "customers", fromCol := "aid", toTable := "addresses",
                    columns := ["region"] }] }
  config := {}

theorem Compiler.compile_again_lastCustomer :
    ∃ statement left c c', (new .customers).compile "last" .lastCustomer = (.ok statement, left, c) ∧
      statement.text = "SELECT addresses.region FROM customers LEFT JOIN addresses ON customers.aid = addresses.id " ++
        "WHERE EXISTS (SELECT * FROM orders WHERE total > %s) ORDER BY addresses.region DESC LIMIT 1 OFFSET 1" ∧
      left.recordIndex = some (.whole 2) ∧ (new .customers).compile "last" left = (.ok statement, left, c') := by
  have heval : ((new .customers).compile "last" .lastCustomer).1.toOption.map Statement.text =
        some ("SELECT addresses.region FROM customers LEFT JOIN addresses ON customers.aid = addresses.id " ++
          "WHERE EXISTS (SELECT * FROM orders WHERE total > %s) ORDER BY addresses.region DESC LIMIT 1 OFFSET 1") ∧
      ((new .customers).compile "last" .lastCustomer).2.1.recordIndex = some (.whole 2) := by decide +kernel
  obtain ⟨htext, hindex⟩ := heval
  cases hcompile : (new .customers).compile "last" .lastCustomer with
  | mk result rest =>
    obtain ⟨left, c⟩ := rest
    rw [hcompile] at htext hindex
    cases result with
    | error e => cases htext
    | ok statement =>
      obtain ⟨c', hagain⟩ := compile_again (fun _ => rfl) hcompile
      exact ⟨statement, left, c, c', rfl, Option.some.inj htext, hindex, hagain⟩

/-! ## Failures -/

theorem Query.Stumbles.exists_outside {q : Query} {shown : Bool} {e : CompileError} (h : q.Stumbles shown e) :
    ∃ ref size, e = .arena (.outside ref size) := by
  induction h with
  | here => exact ⟨_, _, rfl⟩
  | nested _ _ _ ih => exact ih

/-- A failure leaves a compiler unused. -/
theorem Compiler.compile_new_eq_error_iff {context : Context} {name : String} {q left : Query} {e : CompileError}
    {c : Compiler} :
    (new context).compile name q = (.error e, left, c) ↔
      (q.compile context).ending = (left, .error e) ∧ new context = c := by
  have hcompile : q.compileWith context context = q.compile context := rfl
  rw [Outcome.ending, Prod.mk.injEq]
  simp only [compile, new, hcompile]
  cases (q.compile context).result <;> simp [and_assoc, and_left_comm]

/-- The reason of a failure. Unlike results, reasons can be compared. -/
def Outcome.reason? (outcome : Outcome) : Option CompileError :=
  ((outcome.result.map fun _ => none).tryCatch fun e => .ok (some e)).toOption.join

theorem Outcome.result_of_reason? {outcome : Outcome} {e : CompileError} (h : outcome.reason? = some e) :
    outcome.result = .error e := by
  unfold reason? at h
  cases hresult : outcome.result with
  | ok statement => rw [hresult] at h; cases h
  | error e => rw [hresult] at h; cases h; rfl

theorem Compiler.compile_new_of_reason? {context : Context} {q : Query} {e : CompileError} (name : String)
    (h : (q.compile context).reason? = some e) :
    (new context).compile name q = (.error e, (q.compile context).query, new context) :=
  compile_new_eq_error_iff.mpr ⟨Prod.ext rfl (Outcome.result_of_reason? h), rfl⟩

/-- A fresh compiler that is given what another one left of a query when it failed, in the same context, fails for the
same reason and leaves the query alone, unless the reason was a term of an ordering outside the arena, met while a
record index was turned. Even then it fails if that ordering is shown. -/
theorem Compiler.compile_fails_again {context : Context} {name other : String} {q left : Query} {e : CompileError}
    {c : Compiler} (hd : context.dialect.Stateless) (h : (new context).compile name q = (.error e, left, c)) :
    (new context).compile other left = (.error e, left, new context) ∨
      ∃ shown, q.Stumbles shown e ∧
        (shown → ∃ e' left', (new context).compile other left = (.error e', left', new context)) := by
  simp only [compile_new_eq_error_iff, and_true]
  obtain ⟨hfirst, -⟩ := compile_new_eq_error_iff.mp h
  have hrecurs := Query.recurs_compile hd q
  rw [show (q.compile context).query = left from congrArg Prod.fst hfirst, hfirst] at hrecurs
  refine hrecurs.imp_right ?_
  rintro ⟨shown, reason, hreason, hstumbles, hagain⟩
  cases hreason
  refine ⟨shown, hstumbles, fun hshown => ?_⟩
  obtain ⟨e', he'⟩ := hagain hshown
  exact ⟨e', (left.compile context).query, Prod.ext rfl he'⟩

/-- The last of the customers by region for whom there is an order above a sum, of which the schema knows nothing. -/
def Query.lastUnknown : Query where
  nodes :=
    [{ expr := .field { name := .text "region" } }, { expr := .sort (.index 0) .asc },
     { expr := .subquery
        { nodes :=
            [{ expr := .field { name := .text "sum" } }, { expr := .value (.int 50) },
             { expr := .cmp .gt (.index 0) (.index 1) }]
          head := some (.index 2)
          tables := { table := "orders" } } .presence }]
  select := [.index 0]
  head := some (.index 2)
  order := [.index 1]
  recordIndex := some (.whole (-2))
  ordered := true
  tables := { table := "customers" }

/-- The index is turned, the region is resolved and its table joined when the nested query fails. -/
theorem Compiler.compile_fails_again_lastUnknown :
    ∃ left, (new .customers).compile "last" .lastUnknown =
        (.error (.unknownColumn (.text "sum") "orders"), left, new .customers) ∧
      left.recordIndex = some (.whole 2) ∧ left.tables.joins = [⟨"address", "addresses", "aid", "id", .left⟩] ∧
      (new .customers).compile "again" left =
        (.error (.unknownColumn (.text "sum") "orders"), left, new .customers) := by
  have heval : (Query.lastUnknown.compile .customers).reason? = some (.unknownColumn (.text "sum") "orders") ∧
      (Query.lastUnknown.compile .customers).query.recordIndex = some (.whole 2) ∧
      (Query.lastUnknown.compile .customers).query.tables.joins = [⟨"address", "addresses", "aid", "id", .left⟩] := by
    decide +kernel
  obtain ⟨hreason, hindex, hjoins⟩ := heval
  have hfirst := compile_new_of_reason? "last" hreason
  refine ⟨_, hfirst, hindex, hjoins, ?_⟩
  rcases compile_fails_again (fun _ => rfl) hfirst with hagain | ⟨_, hstumbles, -⟩
  · exact hagain
  · obtain ⟨_, _, hreason⟩ := hstumbles.exists_outside
    cases hreason

/-- The ordering is not shown, and its only term is outside the arena. -/
def Query.lastOrder : Query where
  order := [.index 0]
  recordIndex := some (.whole (-1))
  tables := { table := "orders" }

/-- The index is turned when the term is met. After that nobody asks for the term any more. -/
theorem Compiler.compile_recovers :
    ∃ left statement, (new .customers).compile "last" .lastOrder =
        (.error (.arena (.outside (.index 0) 0)), left, new .customers) ∧
      left.recordIndex = some (.whole 1) ∧ ((new .customers).compile "again" left).1 = .ok statement ∧
      statement.text = "SELECT * FROM orders LIMIT 1" := by
  have heval : (Query.lastOrder.compile .customers).reason? = some (.arena (.outside (.index 0) 0)) ∧
      (Query.lastOrder.compile .customers).query.recordIndex = some (.whole 1) ∧
      ((new .customers).compile "again" (Query.lastOrder.compile .customers).query).1.toOption.map Statement.text =
        some "SELECT * FROM orders LIMIT 1" := by
    decide +kernel
  obtain ⟨hreason, hindex, hagain⟩ := heval
  cases hsecond : ((new .customers).compile "again" (Query.lastOrder.compile .customers).query).1 with
  | error e => rw [hsecond] at hagain; cases hagain
  | ok statement =>
    rw [hsecond] at hagain
    exact ⟨_, statement, compile_new_of_reason? "last" hreason, hindex, hsecond, Option.some.inj hagain⟩

end ArenaSql
