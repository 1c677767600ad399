import ArenaSql.Proofs.Leaves

/-!
# Resolving, position by position

Whether a field can be placed depends on its name, the schema and the primary table, and none of these changes
while fields are resolved. So resolution settles the fields it visits, each for itself, and adds joins. It goes on
in the same way where expressions other than fields are replaced.
-/

namespace ArenaSql

/-! ## One field -/

/-- A column is taken as written, or is one of the primary table, or is reached through a lookup. -/
theorem Schema.place_eq_ok {s : Schema} {primary : String} {name : FieldName} {placement : Placement}
    (h : s.place primary name = .ok placement) :
    (∃ written via, name = .text written ∧ placement = .asWritten (ColumnRef.parse written).table via ∧
        ∀ l ∈ via, l ∈ s.lookups) ∨
      placement = .primary ∨ ∃ l ∈ s.lookups, placement = .through l := by
  have hcolumn : ∀ name, s.placeColumn primary name = .ok placement →
      placement = .primary ∨ ∃ l ∈ s.lookups, placement = .through l := by
    intro name h
    unfold placeColumn at h
    split at h
    · cases h
    · cases h
    · split at h
      · cases h
        exact Or.inl rfl
      · split at h
        · rename_i lookup hfound
          cases h
          exact Or.inr ⟨lookup, List.mem_of_find?_eq_some hfound, rfl⟩
        · cases h
  unfold place at h
  split at h
  · exact Or.inr (hcolumn _ h)
  · rename_i written
    split at h
    · rename_i table htable
      cases h
      refine Or.inl ⟨written, _, rfl, by rw [htable], fun l hl => ?_⟩
      split at hl
      · cases hl
      · exact List.mem_of_find?_eq_some hl
    · rename_i htable
      split at h
      · cases h
        exact Or.inl ⟨written, none, rfl, by rw [htable], fun l hl => by cases hl⟩
      · exact Or.inr (hcolumn _ h)

namespace Field

variable (schema : Schema) (primary : String)

/-- Why the field cannot be resolved, if so. -/
def unplaced? (f : Field) : Option CompileError :=
  if f.resolved then none
  else match schema.place primary f.name with
    | .ok _ => none
    | .error e => some e

/-- The lookup that resolving the field needs. -/
def needed? (f : Field) : Option Lookup :=
  if f.resolved then none
  else match schema.place primary f.name with
    | .ok placement => placement.lookup?
    | .error _ => none

/-- The field as resolving leaves it. -/
def settled (f : Field) : Field :=
  if f.resolved then f
  else match schema.place primary f.name with
    | .ok placement => placement.settle f
    | .error _ => f

variable {schema primary}

theorem resolve_eq (type : JoinType) (sources : Sources) (f : Field) :
    f.resolve schema type sources =
      match f.unplaced? schema sources.table with
      | some e => .error e
      | none => .ok (f.settled schema sources.table, sources.joinAny type (f.needed? schema sources.table)) := by
  rw [resolve, unplaced?, settled, needed?]
  cases f.resolved with
  | true => rfl
  | false => cases schema.place sources.table f.name <;> rfl

theorem settled_of_resolved {f : Field} (h : f.resolved) : f.settled schema primary = f := by
  rw [settled, if_pos h]

/-- A field that is settled either was resolved or could not be, or it is resolved now. -/
theorem settled_eq (schema : Schema) (primary : String) (f : Field) :
    f.settled schema primary = f ∨ f.resolved = false ∧ ∃ table forms, forms.Sublist f.forms ∧
      f.settled schema primary = { f with table := table, resolved := true, forms := forms } := by
  rw [settled]
  cases hresolved : f.resolved with
  | true => exact Or.inl rfl
  | false =>
    rw [if_neg Bool.false_ne_true]
    cases schema.place primary f.name with
    | error e => exact Or.inl rfl
    | ok placement =>
      refine Or.inr ⟨rfl, ?_⟩
      cases placement with
      | asWritten table => exact ⟨table, [], List.nil_sublist _, rfl⟩
      | primary => exact ⟨f.table, _, List.filter_sublist, rfl⟩
      | through lookup => exact ⟨some lookup.toTable, [], List.nil_sublist _, rfl⟩

theorem resolved_settled {f : Field} (h : f.unplaced? schema primary = none) :
    (f.settled schema primary).resolved = true := by
  rw [settled]
  rw [unplaced?] at h
  split
  · assumption
  · rename_i hnot
    rw [if_neg hnot] at h
    cases hplace : schema.place primary f.name with
    | error e => rw [hplace] at h; cases h
    | ok placement => cases placement <;> rfl

theorem settled_of_unplaced {f : Field} {e : CompileError} (h : f.unplaced? schema primary = some e) :
    f.settled schema primary = f := by
  rw [settled]
  rw [unplaced?] at h
  split
  · rfl
  · rename_i hnot
    rw [if_neg hnot] at h
    cases hplace : schema.place primary f.name with
    | error e => rfl
    | ok placement => rw [hplace] at h; cases h

theorem unplaced?_settled (f : Field) : (f.settled schema primary).unplaced? schema primary = f.unplaced? schema primary := by
  cases h : f.unplaced? schema primary with
  | none => rw [unplaced?, if_pos (resolved_settled h)]
  | some e => rw [settled_of_unplaced h, h]

theorem settled_settled (f : Field) : (f.settled schema primary).settled schema primary = f.settled schema primary := by
  cases h : f.unplaced? schema primary with
  | none => exact settled_of_resolved (resolved_settled h)
  | some e => rw [settled_of_unplaced h, settled_of_unplaced h]

theorem mem_lookups_of_needed? {f : Field} {l : Lookup} (h : f.needed? schema primary = some l) :
    l ∈ schema.lookups := by
  rw [needed?] at h
  split at h
  · cases h
  · split at h
    · rename_i placement hplace
      rcases Schema.place_eq_ok hplace with ⟨_, via, -, rfl, hvia⟩ | rfl | ⟨l', hl', rfl⟩
      · exact hvia l h
      · cases h
      · cases h
        exact hl'
    · cases h

/-- A settled field has the table that it had, or the one of its name, or the one that a lookup leads to. -/
theorem table_settled {f : Field} {table : String} (h : (f.settled schema primary).table = some table) :
    f.table = some table ∨ (∃ written, f.name = .text written ∧ (ColumnRef.parse written).table = some table) ∨
      ∃ l ∈ schema.lookups, table = l.toTable := by
  rw [settled] at h
  split at h
  · exact Or.inl h
  · split at h
    · rename_i placement hplace
      rcases Schema.place_eq_ok hplace with ⟨written, via, hname, rfl, -⟩ | rfl | ⟨l, hl, rfl⟩
      · exact Or.inr (Or.inl ⟨written, hname, h⟩)
      · exact Or.inl h
      · exact Or.inr (Or.inr ⟨l, hl, (Option.some.inj h).symm⟩)
    · exact Or.inl h

theorem name_settled (f : Field) : (f.settled schema primary).name = f.name := by
  rw [settled]
  split
  · rfl
  · split
    · rename_i placement _
      cases placement <;> rfl
    · rfl

end Field

def Expr.settled (schema : Schema) (primary : String) : Expr → Expr
  | .field f => .field (f.settled schema primary)
  | expr => expr

theorem Sources.joinAny_eq (s : Sources) (type : JoinType) (lookup : Option Lookup) :
    s.joinAny type lookup = { s with joins := (s.joinAny type lookup).joins } := by
  cases lookup with
  | none => rfl
  | some lookup =>
    rw [joinAny, join]
    split <;> rfl

theorem Sources.mem_joins_joinAny {s : Sources} {type : JoinType} {lookup : Option Lookup} {j : Join}
    (h : j ∈ (s.joinAny type lookup).joins) :
    j ∈ s.joins ∨ ∃ l ∈ lookup, j = ⟨l.key, l.toTable, l.fromCol, l.toCol, type⟩ := by
  cases lookup with
  | none => exact Or.inl h
  | some l =>
    rw [joinAny, join] at h
    split at h
    · exact Or.inl h
    · rcases List.mem_append.mp h with h | h
      · exact Or.inl h
      · exact Or.inr ⟨l, rfl, List.mem_singleton.mp h⟩

theorem Sources.joins_joinAny_prefix (s : Sources) (type : JoinType) (lookup : Option Lookup) :
    s.joins <+: (s.joinAny type lookup).joins := by
  cases lookup with
  | none => exact List.prefix_rfl
  | some l =>
    rw [joinAny, join]
    split
    · exact List.prefix_rfl
    · exact List.prefix_append ..

/-! ## The fields of a query -/

namespace Query

variable {schema : Schema} {type : JoinType}

/-- The field at a position, if there is one. -/
def fieldAt? (q : Query) (i : Nat) : Option Field :=
  match q.expr? (.index i) with
  | some (.field f) => some f
  | _ => none

theorem fieldAt?_eq_some_iff {q : Query} {i : Nat} {f : Field} :
    q.fieldAt? i = some f ↔ q.expr? (.index i) = some (.field f) := by
  rw [fieldAt?]
  split
  · rename_i g hg
    simp [hg]
  · rename_i hnot
    exact ⟨fun h => (by cases h), fun h => absurd h (hnot f)⟩

/-- Why the field at a position cannot be resolved, if so. -/
def unplaced? (schema : Schema) (q : Query) (i : Nat) : Option CompileError :=
  (q.fieldAt? i).bind (Field.unplaced? schema q.tables.table)

/-- The query with the fields at the positions `done` settled, and with the given joins. -/
def settledAt (schema : Schema) (done : Nat → Bool) (joins : List Join) (q : Query) : Query :=
  { q.mapExprs fun i expr => if done i then expr.settled schema q.tables.table else expr with
    tables := { q.tables with joins := joins } }

theorem settledAt_none (q : Query) : q.settledAt schema (fun _ => false) q.tables.joins = q := by
  have hsame : (q.mapExprs fun i expr => if false = true then expr.settled schema q.tables.table else expr) = q :=
    mapExprs_eq_self fun _ _ _ => rfl
  rw [settledAt, hsame]
  cases q
  rfl

theorem mapExprs_mapExprs (f g : Nat → Expr → Expr) (q : Query) :
    (q.mapExprs f).mapExprs g = q.mapExprs fun i expr => g i (f i expr) := by
  simp [mapExprs, List.mapIdx_mapIdx, Function.comp_def]

theorem settledAt_settledAt (done more : Nat → Bool) (joins joins' : List Join) (q : Query) :
    (q.settledAt schema done joins).settledAt schema more joins' =
      q.settledAt schema (fun i => done i || more i) joins' := by
  have hexprs := mapExprs_mapExprs (fun i expr => if done i then expr.settled schema q.tables.table else expr)
    (fun i expr => if more i then expr.settled schema q.tables.table else expr) q
  have hboth : (fun i expr => if more i then (if done i then Expr.settled schema q.tables.table expr else expr).settled
        schema q.tables.table else if done i then expr.settled schema q.tables.table else expr) =
      fun i expr => if (done i || more i) = true then Expr.settled schema q.tables.table expr else expr := by
    funext i expr
    cases done i <;> cases more i <;> cases expr <;> simp [Expr.settled, Field.settled_settled]
  rw [hboth] at hexprs
  exact congrArg (fun q' : Query => { q' with tables := { q.tables with joins := joins' } }) hexprs

theorem setExpr_eq_mapExprs {q : Query} {i : Nat} {old new : Expr} {f : Nat → Expr → Expr}
    (hold : q.expr? (.index i) = some old) (hnew : f i old = new) (hother : ∀ j expr, j ≠ i → f j expr = expr) :
    q.setExpr i new = q.mapExprs f := by
  have hnodes : (q.setExpr i new).nodes = (q.mapExprs f).nodes := by
    apply List.ext_getElem?
    intro j
    rw [getElem?_setExpr, getElem?_mapExprs]
    split
    · rename_i hij
      subst hij
      rw [expr?_index] at hold
      obtain ⟨node, hnode, hexpr⟩ := Option.map_eq_some_iff.mp hold
      rw [hnode, Option.map_some, Option.map_some, hexpr, hnew]
    · rename_i hij
      cases q.nodes[j]? with
      | none => rfl
      | some node =>
        rw [Option.map_some, hother j node.expr (Ne.symm hij)]
        cases node
        rfl
  simpa [setExpr, mapExprs] using hnodes

/-- The lookup that resolving the field at a position needs. -/
def needed? (schema : Schema) (q : Query) (i : Nat) : Option Lookup :=
  (q.fieldAt? i).bind (Field.needed? schema q.tables.table)

theorem settledAt_of_not_field {q : Query} {i : Nat} (h : ∀ f, q.expr? (.index i) ≠ some (.field f)) :
    q.settledAt schema (· == i) q.tables.joins = q := by
  have hsame : (q.mapExprs fun j expr => if (j == i) = true then expr.settled schema q.tables.table else expr) = q := by
    refine mapExprs_eq_self fun j expr hexpr => ?_
    split
    · rename_i hij
      rw [beq_iff_eq.mp hij] at hexpr
      cases expr with
      | field f => exact absurd hexpr (h f)
      | _ => rfl
    · rfl
  rw [settledAt, hsame]
  cases q
  rfl

/-- Resolving the field at a position settles it, if it can be placed. -/
theorem resolveAt_eq (q : Query) (i : Nat) :
    q.resolveAt schema type i =
      match q.unplaced? schema i with
      | some e => .error e
      | none => .ok (q.settledAt schema (· == i) (q.tables.joinAny type (q.needed? schema i)).joins) := by
  rw [unplaced?, needed?]
  cases hfield : q.fieldAt? i with
  | some f =>
    have hf := fieldAt?_eq_some_iff.mp hfield
    have hset : q.setExpr i (.field (f.settled schema q.tables.table)) =
        q.mapExprs fun j expr => if (j == i) = true then expr.settled schema q.tables.table else expr :=
      setExpr_eq_mapExprs hf (by simp [Expr.settled]) fun j expr hj => by simp [hj]
    rw [resolveAt, hf, Option.bind_some, Option.bind_some]
    dsimp only
    rw [Field.resolve_eq]
    cases f.unplaced? schema q.tables.table with
    | some e => rfl
    | none =>
      dsimp only
      rw [hset, settledAt, ← Sources.joinAny_eq]
  | none =>
    have hnot : ∀ f, q.expr? (.index i) ≠ some (.field f) := by
      intro f hf
      rw [← fieldAt?_eq_some_iff, hfield] at hf
      cases hf
    rw [Option.bind_none, Option.bind_none, Sources.joinAny]
    dsimp only
    rw [settledAt_of_not_field hnot, resolveAt]
    split
    · rename_i f hf
      exact absurd hf (hnot f)
    · rfl

/-! ## What settling leaves alone -/

theorem expr?_settledAt (done : Nat → Bool) (joins : List Join) (q : Query) (i : Nat) :
    (q.settledAt schema done joins).expr? (.index i) =
      (q.expr? (.index i)).map fun expr => if done i then expr.settled schema q.tables.table else expr :=
  expr?_mapExprs_index (fun i expr => if done i then expr.settled schema q.tables.table else expr) q i

theorem fieldAt?_settledAt (done : Nat → Bool) (joins : List Join) (q : Query) (i : Nat) :
    (q.settledAt schema done joins).fieldAt? i =
      (q.fieldAt? i).map fun f => if done i then f.settled schema q.tables.table else f := by
  rw [fieldAt?, fieldAt?, expr?_settledAt]
  cases q.expr? (.index i) with
  | none => rfl
  | some expr => cases expr <;> cases done i <;> rfl

theorem expr?_settledAt_subquery {q query : Query} {embedding : Embedding} {i : Nat} {done : Nat → Bool} {joins : List Join} :
    (q.settledAt schema done joins).expr? (.index i) = some (.subquery query embedding) ↔
      q.expr? (.index i) = some (.subquery query embedding) := by
  rw [expr?_settledAt]
  cases q.expr? (.index i) with
  | none => rfl
  | some expr => cases expr <;> cases done i <;> simp [Expr.settled]

theorem unplaced?_settledAt (done : Nat → Bool) (joins : List Join) (q : Query) (i : Nat) :
    (q.settledAt schema done joins).unplaced? schema i = q.unplaced? schema i := by
  rw [unplaced?, unplaced?, fieldAt?_settledAt]
  cases q.fieldAt? i with
  | none => rfl
  | some f =>
    cases done i with
    | true => exact f.unplaced?_settled
    | false => rfl

theorem leaves_tree_settledAt (done : Nat → Bool) (joins : List Join) (q : Query) (ref : NodeRef) :
    ((q.settledAt schema done joins).tree ref).leaves = (q.tree ref).leaves := by
  have hmap := leaves_tree_mapExprs (q := q)
    (f := fun i expr => if done i then expr.settled schema q.tables.table else expr) id
    (fun i expr _ => by cases expr <;> cases done i <;> rfl) (fun i expr _ => by cases expr <;> cases done i <;> rfl)
    (fun _ => rfl) ref
  rw [List.map_id] at hmap
  exact hmap

theorem leaves_settledAt (done : Nat → Bool) (joins : List Join) (q : Query) (roots : List NodeRef) :
    (q.settledAt schema done joins).leaves roots = q.leaves roots := by
  simp only [leaves, leaves_tree_settledAt]

/-! ## Walks -/

/-- Resolves the fields among some leaves. -/
def resolveLeaves (schema : Schema) (type : JoinType) : List Leaf → Query → Query × Option CompileError :=
  Leaf.visitAll fun index q =>
    match q.resolveAt schema type index with
    | .ok q => (q, none)
    | .error e => (q, some e)

/-- Why resolving the fields among some leaves fails, if so. -/
def fault? (schema : Schema) (q : Query) : List Leaf → Option CompileError
  | [] => none
  | .field i :: rest => (q.unplaced? schema i).or (q.fault? schema rest)
  | .broken fault :: _ => some (.arena fault)
  | _ :: rest => q.fault? schema rest

theorem fault?_settledAt (done : Nat → Bool) (joins : List Join) (q : Query) (leaves : List Leaf) :
    (q.settledAt schema done joins).fault? schema leaves = q.fault? schema leaves := by
  induction leaves with
  | nil => rfl
  | cons leaf rest ih => cases leaf <;> simp only [fault?, ih, unplaced?_settledAt]

/-- Resolution settles the fields it visits, and visits all of them if it succeeds. -/
theorem resolveLeaves_eq (schema : Schema) (type : JoinType) (leaves : List Leaf) (q : Query) :
    ∃ done joins, q.resolveLeaves schema type leaves = (q.settledAt schema done joins, q.fault? schema leaves) ∧
      (q.fault? schema leaves = none → ∀ i, .field i ∈ leaves → done i = true) := by
  induction leaves generalizing q with
  | nil => exact ⟨fun _ => false, q.tables.joins, by rw [settledAt_none]; rfl, fun _ _ h => by cases h⟩
  | cons leaf rest ih =>
    cases leaf with
    | field i =>
      rw [resolveLeaves, Leaf.visitAll, resolveAt_eq, fault?]
      cases hplace : q.unplaced? schema i with
      | some e => exact ⟨fun _ => false, q.tables.joins, by rw [settledAt_none]; rfl, fun h => by cases h⟩
      | none =>
        obtain ⟨done, joins, hrest, hall⟩ :=
          ih (q.settledAt schema (· == i) (q.tables.joinAny type (q.needed? schema i)).joins)
        rw [settledAt_settledAt, fault?_settledAt] at hrest
        rw [fault?_settledAt] at hall
        refine ⟨_, joins, hrest, fun hnone j hj => ?_⟩
        rcases List.mem_cons.mp hj with h | h
        · cases h
          simp
        · rw [hall hnone j h, Bool.or_true]
    | broken fault => exact ⟨fun _ => false, q.tables.joins, by rw [settledAt_none]; rfl, fun h => by cases h⟩
    | value | subquery | unknown =>
      obtain ⟨done, joins, hrest, hall⟩ := ih q
      refine ⟨done, joins, hrest, fun hnone j hj => hall hnone j ?_⟩
      exact (List.mem_cons.mp hj).resolve_left (by simp)

theorem leaves_resolveLeaves {q q' : Query} {leaves : List Leaf} {fault : Option CompileError}
    (h : q.resolveLeaves schema type leaves = (q', fault)) (roots : List NodeRef) :
    q'.leaves roots = q.leaves roots := by
  obtain ⟨done, joins, heq, -⟩ := q.resolveLeaves_eq schema type leaves
  cases h.symm.trans heq
  exact leaves_settledAt done joins q roots

/-- Every join was there or comes from a lookup. -/
theorem mem_joins_resolveLeaves {leaves : List Leaf} {q : Query} {j : Join}
    (h : j ∈ (q.resolveLeaves schema type leaves).1.tables.joins) :
    j ∈ q.tables.joins ∨ ∃ l ∈ schema.lookups, j = ⟨l.key, l.toTable, l.fromCol, l.toCol, type⟩ := by
  induction leaves generalizing q with
  | nil => exact Or.inl h
  | cons leaf rest ih =>
    cases leaf with
    | field i =>
      rw [resolveLeaves, Leaf.visitAll, resolveAt_eq] at h
      cases hplace : q.unplaced? schema i with
      | some e => rw [hplace] at h; exact Or.inl h
      | none =>
        rw [hplace] at h
        rcases ih h with h | h
        · rcases Sources.mem_joins_joinAny h with h | ⟨l, hl, rfl⟩
          · exact Or.inl h
          · obtain ⟨f, -, hneeded⟩ := Option.bind_eq_some_iff.mp hl
            exact Or.inr ⟨l, Field.mem_lookups_of_needed? hneeded, rfl⟩
        · exact Or.inr h
    | broken fault => exact Or.inl h
    | value | subquery | unknown => exact ih h

theorem resolveLeaves_append (first rest : List Leaf) (q : Query) :
    q.resolveLeaves schema type (first ++ rest) =
      match q.resolveLeaves schema type first with
      | (q, none) => q.resolveLeaves schema type rest
      | failed => failed := by
  rw [resolveLeaves, Leaf.visitAll_append, ← resolveLeaves]
  rcases q.resolveLeaves schema type first with ⟨q', _ | e⟩ <;> rfl

theorem fault?_append (first rest : List Leaf) (q : Query) :
    q.fault? schema (first ++ rest) = (q.fault? schema first).or (q.fault? schema rest) := by
  induction first with
  | nil => rfl
  | cons leaf more ih => cases leaf <;> simp [fault?, ih, Option.or_assoc]

theorem resolveTrees_eq (roots : List NodeRef) (q : Query) :
    q.resolveTrees schema type roots = q.resolveLeaves schema type (q.leaves roots) := by
  induction roots generalizing q with
  | nil => rfl
  | cons root rest ih =>
    have hfirst : q.resolveTree schema type root = q.resolveLeaves schema type (q.tree root).leaves :=
      Tree.walk_eq_visitAll _ _ q
    obtain ⟨done, joins, hleaves, -⟩ := q.resolveLeaves_eq schema type (q.tree root).leaves
    rw [resolveTrees, hfirst, leaves, List.flatMap_cons, resolveLeaves_append, hleaves]
    cases q.fault? schema (q.tree root).leaves with
    | some e => rfl
    | none =>
      dsimp only
      rw [ih, leaves_settledAt]
      rfl

/-! ## Resolved fields -/

theorem resolveAt_of_resolved {q : Query} {i : Nat} (h : ∀ f, q.expr? (.index i) = some (.field f) → f.resolved) :
    q.resolveAt schema type i = .ok q := by
  rw [resolveAt]
  split
  · rename_i f hf
    have hset : q.setExpr i (.field f) = q := by
      rw [setExpr_eq_mapExprs hf (f := fun _ expr => expr) rfl fun _ _ _ => rfl]
      exact mapExprs_eq_self fun _ _ _ => rfl
    rw [Field.resolve, if_pos (h f hf)]
    dsimp only
    rw [hset]
    cases q
    rfl
  · rfl

theorem fault?_eq_none_iff {q : Query} {leaves : List Leaf} :
    q.fault? schema leaves = none ↔
      (∀ fault, .broken fault ∉ leaves) ∧ ∀ i, .field i ∈ leaves → q.unplaced? schema i = none := by
  induction leaves with
  | nil => simp [fault?]
  | cons leaf rest ih =>
    cases leaf with
    | broken fault => exact ⟨fun h => (by cases h), fun h => absurd List.mem_cons_self (h.1 fault)⟩
    | _ => simp [fault?, ih, and_left_comm]

end Query

/-! ## Replacing other expressions -/

/-- The replacement leaves fields alone and makes no new ones. -/
def Expr.KeepsFields (f : Nat → Expr → Expr) : Prop :=
  ∀ i expr field, f i expr = .field field ↔ expr = .field field

theorem Expr.KeepsFields.settled {f : Nat → Expr → Expr} (hf : KeepsFields f) (schema : Schema) (primary : String)
    (i : Nat) (expr : Expr) : f i (expr.settled schema primary) = (f i expr).settled schema primary := by
  cases hexpr : f i expr with
  | field field =>
    rw [(hf i expr field).mp hexpr]
    exact (hf i _ _).mpr rfl
  | _ =>
    have hsame : expr.settled schema primary = expr := by
      cases expr with
      | field field => rw [(hf i _ field).mpr rfl] at hexpr; cases hexpr
      | _ => rfl
    rw [hsame, hexpr]
    rfl

namespace Query

variable {schema : Schema} {type : JoinType} {f : Nat → Expr → Expr}

theorem settledAt_mapExprs (hf : Expr.KeepsFields f) (done : Nat → Bool) (joins : List Join) (q : Query) :
    (q.mapExprs f).settledAt schema done joins = (q.settledAt schema done joins).mapExprs f := by
  have hexprs : (q.mapExprs f).mapExprs (fun i expr => if done i then expr.settled schema q.tables.table else expr) =
      (q.mapExprs fun i expr => if done i then expr.settled schema q.tables.table else expr).mapExprs f := by
    rw [mapExprs_mapExprs, mapExprs_mapExprs]
    congr 1
    funext i expr
    split
    · exact (hf.settled schema q.tables.table i expr).symm
    · rfl
  exact congrArg (fun q' : Query => { q' with tables := { q.tables with joins := joins } }) hexprs

theorem fieldAt?_mapExprs (hf : Expr.KeepsFields f) (q : Query) (i : Nat) :
    (q.mapExprs f).fieldAt? i = q.fieldAt? i := by
  apply Option.ext
  intro field
  rw [fieldAt?_eq_some_iff, fieldAt?_eq_some_iff, expr?_mapExprs_index]
  cases q.expr? (.index i) with
  | none => simp
  | some expr => simp [hf i expr field]

theorem resolveAt_mapExprs (hf : Expr.KeepsFields f) (q : Query) (i : Nat) :
    (q.mapExprs f).resolveAt schema type i = (q.resolveAt schema type i).map (mapExprs f) := by
  have htables : (q.mapExprs f).tables = q.tables := rfl
  rw [resolveAt_eq, resolveAt_eq, unplaced?, unplaced?, needed?, needed?, fieldAt?_mapExprs hf, settledAt_mapExprs hf,
    htables]
  cases (q.fieldAt? i).bind (Field.unplaced? schema q.tables.table) <;> rfl

theorem resolveLeaves_mapExprs (hf : Expr.KeepsFields f) (leaves : List Leaf) (q : Query) :
    (q.mapExprs f).resolveLeaves schema type leaves =
      ((q.resolveLeaves schema type leaves).1.mapExprs f, (q.resolveLeaves schema type leaves).2) := by
  induction leaves generalizing q with
  | nil => rfl
  | cons leaf rest ih =>
    cases leaf with
    | field i =>
      rw [resolveLeaves, Leaf.visitAll, Leaf.visitAll, resolveAt_mapExprs hf]
      cases q.resolveAt schema type i with
      | error e => rfl
      | ok q' => exact ih q'
    | broken fault => rfl
    | value | subquery | unknown => exact ih q

end Query

end ArenaSql
