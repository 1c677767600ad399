import ArenaSql.Compile
import ArenaSql.Proofs.Leaves
import Mathlib.Data.List.Forall2

/-!
# Views

A view is all that the text of an expression depends on besides the expression: the dialect, the sources of the
query and the answers that its nested queries have when they are compiled. Through a view, rendering is a plain
function. Nothing is compiled on the way, no placeholder is counted, and only the alias table is passed on from
one argument of the grouping to the next.
-/

namespace ArenaSql

/-- All placeholders of the dialect are spelled alike. -/
def Dialect.Stateless (d : Dialect) : Prop :=
  ∀ n, d.placeholder n = d.placeholder 0

/-- The placeholder of a stateless dialect. -/
def Dialect.mark (d : Dialect) : String :=
  d.placeholder 0

/-- The arguments of the grouping. A query without a grouping has none. -/
def Query.groupArgs (q : Query) : Except CompileError (List NodeRef) :=
  match q.summarise with
  | none => .ok []
  | some root =>
    match q.expr? root with
    | none => .error (.arena (.outside root q.nodes.length))
    | some (.summarise args) => .ok args
    | some expr => .error (.notGrouping expr.className)

structure View where
  dialect : Dialect
  sources : Sources
  /-- The statements of nested queries, by the positions of their nodes. -/
  nested : Nat → Except CompileError Statement

namespace View

def literal (view : View) (style : Style) (v : Value) : Sql :=
  match v, style with
  | .null, _ => Sql.plain "NULL"
  | v, .inline => Sql.plain v.literal
  | v, .bound => [.bound v view.dialect.mark]

mutual

def render (view : View) (style : Style) : Tree → Except CompileError Sql
  | .field _ f => .ok (Sql.plain (f.text view.sources))
  | .value v => .ok (view.literal style v)
  | .func name args => do
    let parts ← renderAll view style args
    return Sql.plain (name ++ "(") ++ Sql.joined ", " parts ++ Sql.plain ")"
  | .calc op left right => do
    let l ← render view style (left ())
    let r ← render view style (right ())
    return (left ()).operand l ++ Sql.plain (" " ++ op.text ++ " ") ++ (right ()).operand r
  | .cmp op left right => do
    let l ← render view style (left ())
    match op.nullTest?, (right ()).isNull with
    | some test, true => return (left ()).operand l ++ Sql.plain (" " ++ test)
    | _, _ =>
      let r ← render view style (right ())
      return (left ()).operand l ++ Sql.plain (" " ++ op.spelling view.dialect ++ " ") ++ (right ()).operand r
  | .cond op args => do
    let parts ← renderAll view style args
    op.connect parts
  | .sort expr direction => do
    let sql ← render view style (expr ())
    return sql ++ Sql.plain (" " ++ direction.text)
  | .summarise args => do
    let parts ← renderAll view style args
    return Sql.joined ", " parts
  | .subquery index embedding => do
    let statement ← view.nested index
    return embedding.wrap statement.sql
  | .unknown className => .error (.unknownNode className)
  | .broken fault => .error (.arena fault)

def renderAll (view : View) (style : Style) : List (Unit → Tree) → Except CompileError (List Sql)
  | [] => .ok []
  | t :: rest => do
    let sql ← render view style (t ())
    let parts ← renderAll view style rest
    return sql :: parts

end

def canonicalText (view : View) (t : Tree) : Except CompileError String := do
  let sql ← view.render .inline t
  return sql.text

/-- The values of a leaf. -/
def leafValues (view : View) : Leaf → Except CompileError (List Value)
  | .value .null => .ok []
  | .value v => .ok [v]
  | .subquery index => do
    let statement ← view.nested index
    return statement.values
  | .field _ | .unknown _ => .ok []
  | .broken fault => .error (.arena fault)

/-- The values of several leaves, left to right. -/
def collect (view : View) : List Leaf → Except CompileError (List Value)
  | [] => .ok []
  | leaf :: rest => do
    let found ← view.leafValues leaf
    let more ← collect view rest
    return found ++ more

/-- Whether leaves have values. Nothing is read behind the first one. -/
def anyValues (view : View) : List Leaf → Except CompileError Bool
  | [] => .ok false
  | leaf :: rest => do
    let found ← view.leafValues leaf
    if found.isEmpty then anyValues view rest else return true

/-! ## Aliases -/

def isSimple (t : Tree) : Except CompileError Bool :=
  t.isSimple.mapError .arena

def aliasOf? (view : View) (table : AliasTable) (t : Tree) : Except CompileError (Option String) := do
  let text ← view.canonicalText t
  return table.find? text

def freshAlias (view : View) (config : Config) (table : AliasTable) (t : Tree) :
    Except CompileError (String × AliasTable) := do
  let text ← view.canonicalText t
  (table.assign config text).mapError .aliasNumber

/-- Renders an expression that is not simple: as its alias, or with a fresh one. -/
def renderAliased (view : View) (config : Config) (table : AliasTable) (t : Tree) :
    Except CompileError (Sql × AliasTable) := do
  match ← view.aliasOf? table t with
  | some name => return (Sql.plain name, table)
  | none =>
    let (name, table) ← view.freshAlias config table t
    let sql ← view.render .bound t
    return (sql ++ Sql.plain (" AS " ++ name), table)

/-! ## Clauses -/

def selectItem (view : View) (q : Query) (ref : NodeRef) : Except CompileError Sql := do
  let sql ← view.render .bound (q.tree ref)
  match (q.node? ref).bind (·.aliasName.filter (!·.isEmpty)) with
  | some name => return sql ++ Sql.plain (" AS " ++ name)
  | none => return sql

def selectClause (view : View) (q : Query) : Except CompileError Sql := do
  match q.select with
  | [] => return Sql.plain "SELECT *"
  | refs =>
    let items ← refs.mapM (view.selectItem q)
    return Sql.plain "SELECT " ++ Sql.joined ", " items

def whereClause (view : View) (q : Query) : Except CompileError (Option Sql) :=
  match q.head with
  | none => .ok none
  | some root => do
    let sql ← view.render .bound (q.tree root)
    if sql.isBlank then return none else return some (Sql.plain "WHERE " ++ sql)

def groupItem (view : View) (config : Config) (table : AliasTable) (t : Tree) :
    Except CompileError (Sql × AliasTable) := do
  if ← isSimple t then
    let sql ← view.render .bound t
    return (sql, table)
  else
    let known ← view.aliasOf? table t
    if known.isSome then
      if ← view.anyValues t.leaves then
        let sql ← view.render .bound t
        return (sql, table)
      else view.renderAliased config table t
    else view.renderAliased config table t

def groupItems (view : View) (config : Config) (q : Query) (table : AliasTable) :
    List NodeRef → Except CompileError (List Sql × AliasTable)
  | [] => .ok ([], table)
  | ref :: rest => do
    let (sql, table) ← view.groupItem config table (q.tree ref)
    let (items, table) ← groupItems view config q table rest
    return (sql :: items, table)

def groupByClause (view : View) (config : Config) (q : Query) : Except CompileError (Option Sql × AliasTable) := do
  let args ← q.groupArgs
  if args.isEmpty then return (none, {})
  else
    let (items, table) ← view.groupItems config q {} args
    return (some (Sql.plain "GROUP BY " ++ Sql.joined ", " items), table)

def havingClause (view : View) (q : Query) : Except CompileError (Option Sql) :=
  match q.summarise, q.having with
  | some _, some root => do
    let sql ← view.render .bound (q.tree root)
    return some (Sql.plain "HAVING " ++ sql)
  | _, _ => .ok none

def orderItem (view : View) (table : AliasTable) (t : Tree) : Except CompileError Sql :=
  match t with
  | .sort expr direction => do
    if ← isSimple (expr ()) then view.render .bound (.sort expr direction)
    else if ← view.anyValues (expr ()).leaves then view.render .bound (.sort expr direction)
    else match ← view.aliasOf? table (expr ()) with
      | some name => return Sql.plain (name ++ " " ++ direction.text)
      | none => view.render .bound (.sort expr direction)
  | t => view.render .bound t

def orderByClause (view : View) (q : Query) (table : AliasTable) : Except CompileError (Option Sql) :=
  if q.simpleAggregate || !q.ordered || q.order.isEmpty then .ok none
  else do
    let items ← q.order.mapM fun ref => view.orderItem table (q.tree ref)
    return some (Sql.plain "ORDER BY " ++ Sql.joined ", " items)

/-- All clauses, and the aliases that were given. -/
def clauses (view : View) (config : Config) (q : Query) : Except CompileError (List Sql × AliasTable) := do
  let selecting ← view.selectClause q
  let filter ← view.whereClause q
  let (grouping, table) ← view.groupByClause config q
  let having ← view.havingClause q
  let ordering ← view.orderByClause q table
  let limit := (q.limit? config.countOption).map Sql.plain
  return (selecting :: Sql.plain ("FROM " ++ q.tables.text) ::
    [filter, grouping, having, ordering, limit].filterMap id, table)

end View

/-! ## Results -/

theorem Except.map_eq_ok_iff {ε α β : Type} {f : α → β} {x : Except ε α} {b : β} :
    x.map f = .ok b ↔ ∃ a, x = .ok a ∧ f a = b := by
  cases x <;> simp [Except.map]

theorem Except.bind_eq_ok_iff {ε α β : Type} {x : Except ε α} {f : α → Except ε β} {b : β} :
    x >>= f = .ok b ↔ ∃ a, x = .ok a ∧ f a = .ok b := by
  cases x <;> simp [bind, Except.bind]

theorem Except.exists_eq_ok_of_toOption {ε α : Type} {x : Except ε α} (h : x.toOption.isSome) : ∃ a, x = .ok a := by
  cases x with
  | error e => cases h
  | ok a => exact ⟨a, rfl⟩

theorem Except.eq_ok_of_toOption {ε α : Type} {x : Except ε α} {a : α} (h : x.toOption = some a) : x = .ok a := by
  cases x with
  | error e => cases h
  | ok b => cases h; rfl

theorem Except.mapM_eq_ok_iff {ε α β : Type} {f : α → Except ε β} {items : List α} {parts : List β} :
    items.mapM f = .ok parts ↔ List.Forall₂ (fun item part => f item = .ok part) items parts := by
  induction items generalizing parts with
  | nil =>
    rw [List.mapM_nil, List.forall₂_nil_left_iff]
    exact ⟨fun h => by cases h; rfl, fun h => by rw [h]; rfl⟩
  | cons item rest ih =>
    rw [List.mapM_cons, List.forall₂_cons_left_iff]
    constructor
    · intro h
      obtain ⟨part, hpart, h⟩ := Except.bind_eq_ok_iff.mp h
      obtain ⟨more, hmore, h⟩ := Except.bind_eq_ok_iff.mp h
      cases h
      exact ⟨part, more, hpart, ih.mp hmore, rfl⟩
    · rintro ⟨part, more, hpart, hmore, rfl⟩
      rw [hpart, ih.mpr hmore]
      rfl

theorem Except.exists_mapM_eq_ok_iff {ε α β : Type} {f : α → Except ε β} {items : List α} :
    (∃ parts, items.mapM f = .ok parts) ↔ ∀ item ∈ items, ∃ part, f item = .ok part := by
  simp only [mapM_eq_ok_iff]
  constructor
  · rintro ⟨parts, h⟩
    induction h with
    | nil => exact fun _ hitem => by cases hitem
    | cons hfirst _ ih => exact List.forall_mem_cons.mpr ⟨⟨_, hfirst⟩, ih⟩
  · intro h
    induction items with
    | nil => exact ⟨[], .nil⟩
    | cons item rest ih =>
      obtain ⟨⟨part, hpart⟩, hrest⟩ := List.forall_mem_cons.mp h
      obtain ⟨parts, hparts⟩ := ih hrest
      exact ⟨part :: parts, .cons hpart hparts⟩

theorem Except.forall_mem_of_mapM {ε α β : Type} {p : β → Prop} {f : α → Except ε β}
    (hf : ∀ item part, f item = .ok part → p part) {items : List α} {parts : List β}
    (h : items.mapM f = .ok parts) : ∀ part ∈ parts, p part := by
  rw [mapM_eq_ok_iff] at h
  induction h with
  | nil => exact fun _ hpart => by cases hpart
  | cons hfirst _ ih => exact List.forall_mem_cons.mpr ⟨hf _ _ hfirst, ih⟩

namespace View

variable {view : View}

theorem eq_null_of_isNull {t : Tree} (h : t.isNull) : t = .value .null := by
  unfold Tree.isNull at h
  split at h
  · rfl
  · cases h

theorem renderAll_map {style : Style} {f : NodeRef → Tree} {refs : List NodeRef} :
    view.renderAll style (refs.map fun ref _ => f ref) = refs.mapM fun ref => view.render style (f ref) := by
  induction refs with
  | nil => rw [List.map_nil, renderAll, List.mapM_nil]; rfl
  | cons ref rest ih => rw [List.map_cons, renderAll, ih, List.mapM_cons]

/-- A comparison is written with both sides, or as a test for null. -/
theorem render_cmp_eq_ok {style : Style} {op : CmpOp} {left right : Unit → Tree} {sql : Sql}
    (h : view.render style (.cmp op left right) = .ok sql) :
    ∃ l, view.render style (left ()) = .ok l ∧
      ((∃ test, op.nullTest? = some test ∧ right () = .value .null ∧
          sql = (left ()).operand l ++ Sql.plain (" " ++ test)) ∨
        ∃ r, view.render style (right ()) = .ok r ∧
          sql = (left ()).operand l ++ Sql.plain (" " ++ op.spelling view.dialect ++ " ") ++ (right ()).operand r) := by
  rw [render] at h
  obtain ⟨l, hl, h⟩ := Except.bind_eq_ok_iff.mp h
  refine ⟨l, hl, ?_⟩
  split at h
  · rename_i test htest hnull
    cases h
    exact Or.inl ⟨test, htest, eq_null_of_isNull hnull, rfl⟩
  · obtain ⟨r, hr, h⟩ := Except.bind_eq_ok_iff.mp h
    cases h
    exact Or.inr ⟨r, hr, rfl⟩

/-- An argument of the grouping is written out, or is the alias that its text has, or is written out with a fresh
alias. -/
theorem groupItem_eq_ok {config : Config} {table table' : AliasTable} {t : Tree} {sql : Sql}
    (h : view.groupItem config table t = .ok (sql, table')) :
    (view.render .bound t = .ok sql ∧ table' = table) ∨
      (∃ text name, view.canonicalText t = .ok text ∧ table.find? text = some name ∧
        view.anyValues t.leaves = .ok false ∧ sql = Sql.plain name ∧ table' = table) ∨
      ∃ text name inside, view.canonicalText t = .ok text ∧ table.find? text = none ∧
        table.assign config text = .ok (name, table') ∧ view.render .bound t = .ok inside ∧
        sql = inside ++ Sql.plain (" AS " ++ name) := by
  rw [groupItem] at h
  obtain ⟨simple, -, h⟩ := Except.bind_eq_ok_iff.mp h
  cases simple with
  | true =>
    obtain ⟨inside, hinside, h⟩ := Except.bind_eq_ok_iff.mp h
    cases h
    exact Or.inl ⟨hinside, rfl⟩
  | false =>
    obtain ⟨known, hknown, h⟩ := Except.bind_eq_ok_iff.mp h
    have hfound := hknown
    rw [aliasOf?] at hfound
    obtain ⟨text, htext, hfound⟩ := Except.bind_eq_ok_iff.mp hfound
    cases hfound
    cases hname : table.find? text with
    | some name =>
      rw [hname] at h hknown
      obtain ⟨valued, hvalued, h⟩ := Except.bind_eq_ok_iff.mp h
      cases valued with
      | true =>
        obtain ⟨inside, hinside, h⟩ := Except.bind_eq_ok_iff.mp h
        cases h
        exact Or.inl ⟨hinside, rfl⟩
      | false =>
        have hrender : view.renderAliased config table t = .ok (sql, table') := h
        rw [renderAliased, hknown] at hrender
        cases hrender
        exact Or.inr (Or.inl ⟨text, name, htext, hname, hvalued, rfl, rfl⟩)
    | none =>
      rw [hname] at h hknown
      have hrender : view.renderAliased config table t = .ok (sql, table') := h
      rw [renderAliased, hknown] at hrender
      obtain ⟨_, hnone, hrender⟩ := Except.bind_eq_ok_iff.mp hrender
      cases hnone
      obtain ⟨⟨name, table''⟩, hfresh, hrender⟩ := Except.bind_eq_ok_iff.mp hrender
      obtain ⟨inside, hinside, hrender⟩ := Except.bind_eq_ok_iff.mp hrender
      cases hrender
      rw [freshAlias, htext] at hfresh
      obtain ⟨_, hsame, hfresh⟩ := Except.bind_eq_ok_iff.mp hfresh
      cases hsame
      refine Or.inr (Or.inr ⟨text, name, inside, htext, hname, ?_, hinside, rfl⟩)
      cases hassign : table.assign config text with
      | error e => rw [hassign] at hfresh; cases hfresh
      | ok found => rw [hassign] at hfresh; cases hfresh; rfl

/-- A term of the ordering is written out, or is the alias that its text has. -/
theorem orderItem_eq_ok {table : AliasTable} {t : Tree} {sql : Sql} (h : view.orderItem table t = .ok sql) :
    view.render .bound t = .ok sql ∨
      ∃ expr direction text name, t = .sort expr direction ∧ view.canonicalText (expr ()) = .ok text ∧
        table.find? text = some name ∧ view.anyValues (expr ()).leaves = .ok false ∧
        sql = Sql.plain (name ++ " " ++ direction.text) := by
  cases t with
  | sort expr direction =>
    rw [orderItem] at h
    obtain ⟨simple, -, h⟩ := Except.bind_eq_ok_iff.mp h
    cases simple with
    | true => exact Or.inl h
    | false =>
      obtain ⟨valued, hvalued, h⟩ := Except.bind_eq_ok_iff.mp h
      cases valued with
      | true => exact Or.inl h
      | false =>
        obtain ⟨known, hknown, h⟩ := Except.bind_eq_ok_iff.mp h
        rw [aliasOf?] at hknown
        obtain ⟨text, htext, hknown⟩ := Except.bind_eq_ok_iff.mp hknown
        cases hknown
        cases hname : table.find? text with
        | none => rw [hname] at h; exact Or.inl h
        | some name =>
          rw [hname] at h
          cases h
          exact Or.inr ⟨expr, direction, text, name, rfl, htext, hname, hvalued, rfl⟩
  | _ => exact Or.inl h

end View

end ArenaSql
