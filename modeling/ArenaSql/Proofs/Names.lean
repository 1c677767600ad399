import ArenaSql.Proofs.FreshAliases
import ArenaSql.Proofs.Synchrony
import ArenaSql.Proofs.Wording

/-!
# Names

The names of a statement stand in the query, in the lookups of the schema and in the configuration. A property of texts
that all of them have is kept while fields are resolved, and holds of the texts that are put together from names.
-/

namespace ArenaSql

open Text

/-! ## The names of a query -/

def FieldName.shown : FieldName → String
  | .text name => name
  | .other given => given.text

def Sources.names (s : Sources) : List String :=
  s.table :: s.aliasName.toList ++ s.joins.flatMap fun j => [j.table, j.fromCol, j.toCol]

mutual

/-- The names and words that a query puts into its statement, apart from the operator for remainders. -/
def Query.names : Query → List String
  | { nodes, tables, aliasName, .. } => tables.names ++ aliasName.toList ++ namesAll nodes

def Node.names : Node → List String
  | { aliasName, expr, .. } => aliasName.toList ++ expr.names

def Expr.names : Expr → List String
  | .field f => f.name.shown :: f.table.toList
  | .func name _ => [name]
  | .calc op _ _ => if op = .mod then [] else [op.text]
  | .cmp op _ _ => [op.text]
  | .cond op _ => [op.text]
  | .sort _ direction => [direction.text]
  | .subquery query _ => query.names
  | .value _ | .summarise _ | .bare | .raw _ => []

def namesAll : List Node → List String
  | [] => []
  | node :: rest => node.names ++ namesAll rest

end

/-- The names that a context puts into statements: the suffix of generated aliases, the keywords of the dialect, and
what lookups lead to. -/
def Context.names (c : Context) : List String :=
  [c.config.aliasSuffix, c.dialect.like .like, c.dialect.like .ilike] ++
    c.schema.lookups.flatMap fun l => [l.toTable, l.fromCol, l.toCol]

/-- All names of the query have the property. -/
structure Query.Clean (F : String → Prop) (q : Query) : Prop where
  sources : ∀ s ∈ q.tables.names, F s
  aliasName : ∀ s ∈ q.aliasName, F s
  aliases : ∀ node ∈ q.nodes, ∀ s ∈ node.aliasName, F s
  exprs : ∀ node ∈ q.nodes, ∀ s ∈ node.expr.names, F s

theorem mem_namesAll_iff {nodes : List Node} {s : String} :
    s ∈ namesAll nodes ↔ ∃ node ∈ nodes, s ∈ node.aliasName ∨ s ∈ node.expr.names := by
  induction nodes with
  | nil => simp [namesAll]
  | cons node rest ih =>
    have hnode : s ∈ node.names ↔ s ∈ node.aliasName ∨ s ∈ node.expr.names := by
      cases node
      simp [Node.names]
    simp [namesAll, ih, hnode]

variable {p : Char → Bool} {F : String → Prop}

namespace Query

theorem clean_iff {q : Query} : q.Clean F ↔ ∀ s ∈ q.names, F s := by
  have hnames : ∀ s, s ∈ q.names ↔ s ∈ q.tables.names ∨ s ∈ q.aliasName ∨ s ∈ namesAll q.nodes := by
    intro s
    cases q
    simp [names]
  constructor
  · intro h s hs
    rcases (hnames s).mp hs with hs | hs | hs
    · exact h.sources s hs
    · exact h.aliasName s hs
    · obtain ⟨node, hnode, hs | hs⟩ := mem_namesAll_iff.mp hs
      · exact h.aliases node hnode s hs
      · exact h.exprs node hnode s hs
  · intro h
    refine ⟨fun s hs => h s ((hnames s).mpr (Or.inl hs)), fun s hs => h s ((hnames s).mpr (Or.inr (Or.inl hs))), ?_, ?_⟩
    · exact fun node hnode s hs =>
        h s ((hnames s).mpr (Or.inr (Or.inr (mem_namesAll_iff.mpr ⟨node, hnode, Or.inl hs⟩))))
    · exact fun node hnode s hs =>
        h s ((hnames s).mpr (Or.inr (Or.inr (mem_namesAll_iff.mpr ⟨node, hnode, Or.inr hs⟩))))

theorem Clean.expr {q : Query} (h : q.Clean F) {i : Nat} {expr : Expr} (hexpr : q.expr? (.index i) = some expr) :
    ∀ s ∈ expr.names, F s := by
  rw [expr?_index] at hexpr
  obtain ⟨node, hnode, rfl⟩ := Option.map_eq_some_iff.mp hexpr
  exact h.exprs node (List.mem_of_getElem? hnode)

theorem Clean.nested {q query : Query} {embedding : Embedding} (h : q.Clean F) {i : Nat}
    (hexpr : q.expr? (.index i) = some (.subquery query embedding)) : (query.embedded embedding).Clean F := by
  have hquery := clean_iff.mpr (h.expr hexpr)
  exact ⟨hquery.sources, hquery.aliasName, hquery.aliases, hquery.exprs⟩

theorem Clean.mapExprs {q : Query} (h : q.Clean F) {f : Nat → Expr → Expr}
    (hf : ∀ i expr, (∀ s ∈ expr.names, F s) → ∀ s ∈ (f i expr).names, F s) : (q.mapExprs f).Clean F := by
  have hnode : ∀ node' ∈ (q.mapExprs f).nodes, ∃ node ∈ q.nodes, ∃ i, node' = { node with expr := f i node.expr } := by
    intro node' hnode'
    obtain ⟨i, hi⟩ := List.getElem?_of_mem hnode'
    rw [getElem?_mapExprs] at hi
    obtain ⟨node, hnode, rfl⟩ := Option.map_eq_some_iff.mp hi
    exact ⟨node, List.mem_of_getElem? hnode, i, rfl⟩
  refine ⟨h.sources, h.aliasName, fun node' hnode' => ?_, fun node' hnode' => ?_⟩
  · obtain ⟨node, hmem, i, rfl⟩ := hnode node' hnode'
    exact h.aliases node hmem
  · obtain ⟨node, hmem, i, rfl⟩ := hnode node' hnode'
    exact hf i node.expr (h.exprs node hmem)

end Query

/-! ## Resolved queries -/

theorem ColumnRef.clean_parse (hF : Wording p F) {name : String} (h : F name) :
    F (parse name).column ∧ ∀ table ∈ (parse name).table, F table := by
  rw [parse]
  split
  · exact ⟨h, fun _ htable => by cases htable⟩
  · rename_i c after hdrop
    refine ⟨hF.part name _ ?_ h, fun table htable => ?_⟩
    · rw [String.toList_ofList]
      exact (List.suffix_cons c after).isInfix.trans (hdrop ▸ (List.drop_suffix _ _).isInfix)
    · cases htable
      exact hF.part name _ (by rw [String.toList_ofList]; exact (List.takeWhile_prefix _).isInfix) h

theorem Query.Clean.settleIndex (hF : Wording p F) {q q₁ : Query} {fault : Option CompileError} (h : q.Clean F)
    (hsettled : q.settleIndex = (q₁, fault)) : q₁.Clean F := by
  obtain ⟨f, recordIndex, forms, hf, hquery⟩ := q.settleIndex_eq
  rw [hsettled] at hquery
  subst hquery
  have hmap : (q.mapExprs f).Clean F := by
    refine h.mapExprs fun i expr hexpr => ?_
    rcases hf i expr with hsame | ⟨ref, d, d', hd', rfl, hsort⟩
    · rwa [hsame]
    · rw [hsort]
      intro s hs
      rw [Expr.names, List.mem_singleton] at hs
      rcases List.mem_cons.mp hd' with rfl | hd'
      · subst hs
        exact hF.fixed rfl
      · rw [List.mem_singleton.mp hd'] at hs
        subst hs
        exact hF.fixed rfl
  exact ⟨hmap.sources, hmap.aliasName, hmap.aliases, hmap.exprs⟩

theorem Context.clean_lookup {context : Context} (hnames : ∀ s ∈ context.names, F s) {l : Lookup}
    (hl : l ∈ context.schema.lookups) : F l.toTable ∧ F l.fromCol ∧ F l.toCol := by
  have hmem : ∀ s ∈ [l.toTable, l.fromCol, l.toCol], F s := fun s hs =>
    hnames s (List.mem_append_right _ (List.mem_flatMap.mpr ⟨l, hl, hs⟩))
  exact ⟨hmem _ (by simp), hmem _ (by simp), hmem _ (by simp)⟩

theorem Expr.clean_settled (hF : Wording p F) {context : Context} (hnames : ∀ s ∈ context.names, F s) {primary : String}
    {expr : Expr} (h : ∀ s ∈ expr.names, F s) : ∀ s ∈ (expr.settled context.schema primary).names, F s := by
  cases expr with
  | field f =>
    have hname : F f.name.shown := h _ (by simp [Expr.names])
    intro s hs
    rw [Expr.settled, Expr.names, Field.name_settled, List.mem_cons, Option.mem_toList] at hs
    rcases hs with rfl | hs
    · exact hname
    · rcases Field.table_settled hs with htable | ⟨written, hwritten, htable⟩ | ⟨l, hl, rfl⟩
      · exact h s (by simp [Expr.names, htable])
      · rw [hwritten] at hname
        exact (ColumnRef.clean_parse hF hname).2 s htable
      · exact (Context.clean_lookup hnames hl).1
  | _ => exact h

theorem Query.Clean.resolveLeaves (hF : Wording p F) {context : Context} (hnames : ∀ s ∈ context.names, F s)
    {q q₂ : Query} {leaves : List Leaf} {fault : Option CompileError} (h : q.Clean F)
    (hresolved : q.resolveLeaves context.schema context.config.joinType leaves = (q₂, fault)) : q₂.Clean F := by
  have hjoins : ∀ j ∈ q₂.tables.joins, F j.table ∧ F j.fromCol ∧ F j.toCol := by
    intro j hj
    have hj : j ∈ (q.resolveLeaves context.schema context.config.joinType leaves).1.tables.joins := by rwa [hresolved]
    rcases Query.mem_joins_resolveLeaves hj with hold | ⟨l, hl, rfl⟩
    · have hmem : ∀ s ∈ [j.table, j.fromCol, j.toCol], F s := fun s hs =>
        h.sources s (List.mem_append_right _ (List.mem_flatMap.mpr ⟨j, hold, hs⟩))
      exact ⟨hmem _ (by simp), hmem _ (by simp), hmem _ (by simp)⟩
    · exact Context.clean_lookup hnames hl
  obtain ⟨done, joins, heq, -⟩ := q.resolveLeaves_eq context.schema context.config.joinType leaves
  rw [hresolved, Prod.mk.injEq] at heq
  obtain ⟨rfl, -⟩ := heq
  have hmap : (q.mapExprs fun i expr => if done i then expr.settled context.schema q.tables.table else expr).Clean F := by
    refine h.mapExprs fun i expr hexpr => ?_
    split
    · exact Expr.clean_settled hF hnames hexpr
    · exact hexpr
  refine ⟨fun s hs => ?_, hmap.aliasName, hmap.aliases, hmap.exprs⟩
  rcases List.mem_append.mp hs with hs | hs
  · exact h.sources s (List.mem_append_left _ hs)
  · obtain ⟨j, hj, hs⟩ := List.mem_flatMap.mp hs
    obtain ⟨htable, hfrom, hto⟩ := hjoins j hj
    simp only [List.mem_cons, List.not_mem_nil, or_false] at hs
    rcases hs with rfl | rfl | rfl <;> assumption

/-! ## Texts made of names -/

section

variable (hF : Wording p F)

include hF

theorem FieldName.clean_column {name : FieldName} (h : F name.shown) : F name.column := by
  cases name with
  | text name => exact (ColumnRef.clean_parse hF h).1
  | other given => exact h

/-- Names with a point between them. -/
theorem Text.Wording.qualified {table column : String} (htable : F table) (hcolumn : F column) :
    F (table ++ "." ++ column) :=
  hF.between htable hcolumn rfl rfl rfl

theorem FieldName.clean_written {name : FieldName} (h : F name.shown) : F name.written := by
  cases name with
  | text name =>
    obtain ⟨hcolumn, htable⟩ := ColumnRef.clean_parse hF h
    rw [written, ColumnRef.text]
    split
    · rename_i table hsome
      split
      · exact hcolumn
      · exact hF.qualified (htable table hsome) hcolumn
    · exact hcolumn
  | other given => exact h

omit hF in
theorem Sources.clean_qualifier {s : Sources} (h : ∀ name ∈ s.names, F name) : F s.qualifier := by
  have htable : F s.table := h _ (by simp [names])
  rw [qualifier]
  split
  · rename_i name hname
    split
    · exact htable
    · exact h name (by simp [names, hname])
  · exact htable

theorem Sources.clean_text {s : Sources} (h : ∀ name ∈ s.names, F name) : F s.text := by
  have htable : F s.table := h _ (by simp [names])
  refine hF.intercalate rfl rfl rfl fun part hpart => ?_
  rcases List.mem_cons.mp hpart with rfl | hpart
  · rw [primaryText]
    split
    · rename_i name hname
      have halias : name ∈ s.aliasName := (Option.filter_eq_some_iff.mp hname).1
      exact hF.between htable (h name (by simp [names, Option.mem_def.mp halias])) rfl rfl rfl
    · exact htable
  · obtain ⟨j, hj, rfl⟩ := List.mem_map.mp hpart
    have hjoin : ∀ name ∈ [j.table, j.fromCol, j.toCol], F name := fun name hname =>
      h name (List.mem_append_right _ (List.mem_flatMap.mpr ⟨j, hj, hname⟩))
    have htype : F j.type.text := hF.fixed (by cases j.type <;> rfl)
    have hon := hF.between (u := " ON ") (hF.between (u := " JOIN ") htype (hjoin j.table (by simp)) rfl rfl rfl)
      (clean_qualifier h) rfl rfl rfl
    have hequal := hF.between (u := " = ") (hF.qualified hon (hjoin j.fromCol (by simp)))
      (hjoin j.table (by simp)) rfl rfl rfl
    exact hF.qualified hequal (hjoin j.toCol (by simp))

theorem Field.clean_text {sources : Sources} {f : Field} (hsources : ∀ s ∈ sources.names, F s)
    (hname : F f.name.shown) (htable : ∀ table ∈ f.table, F table) : F (f.text sources) := by
  have hcolumn := FieldName.clean_column hF hname
  rw [text]
  split
  · rename_i table hsome
    exact hF.qualified (htable table (Option.filter_eq_some_iff.mp hsome).1) hcolumn
  · split
    · exact hF.qualified (Sources.clean_qualifier hsources) hcolumn
    · exact FieldName.clean_written hF hname

end

/-! ## Generated aliases -/

/-- What every configuration that is read from a document has: letters and underscores for aliases of expressions
that have none. -/
def Config.NamedBase (config : Config) : Prop :=
  config.emptyAliasBase.toList.all isNameChar

theorem isBasicChar_of_isNameChar {c : Char} (h : Config.isNameChar c) : isBasicChar c := by
  rw [Config.isNameChar, Bool.or_eq_true, beq_iff_eq] at h
  rcases h with h | rfl
  · rw [isBasicChar, Char.isAlphanum, h]
    rfl
  · rfl

namespace AliasTable

variable (hbasic : ∀ c, isBasicChar c → p c)

include hbasic

theorem madeOf_candidate {config : Config} (hbase : madeOf p config.emptyAliasBase)
    (hsuffix : madeOf p config.aliasSuffix) {text : String} {c : Char} (h : c ∈ candidate config text) : p c := by
  rw [candidate, List.mem_append] at h
  rcases h with h | h
  · split at h
    · exact List.all_eq_true.mp hbase c h
    · exact hbasic c (isBasicChar_of_isNameChar (isNameChar_of_mem_stem h))
  · exact List.all_eq_true.mp hsuffix c h

theorem madeOf_next {name other : List Char} (hname : ∀ c ∈ name, p c) (h : next name = .ok other) {c : Char}
    (hc : c ∈ other) : p c := by
  obtain ⟨-, rfl⟩ | ⟨before, digits, hsplit, rfl⟩ := next_eq_ok h
  · rcases List.mem_append.mp hc with hc | hc
    · exact hname c hc
    · simp only [List.mem_cons, List.not_mem_nil, or_false] at hc
      rcases hc with rfl | rfl <;> exact hbasic _ rfl
  · rcases List.mem_append.mp hc with hc | hc
    · exact hname c ((prefix_of_splitNumber? hsplit).subset hc)
    · rcases List.mem_cons.mp hc with rfl | hc
      · exact hbasic _ rfl
      · exact hbasic c (isBasicChar_of_mem_toDigits hc)

/-- A fresh alias is made of the same characters, and the table stays so. -/
theorem madeOf_assign {config : Config} (hbase : madeOf p config.emptyAliasBase) (hsuffix : madeOf p config.aliasSuffix)
    {t t' : AliasTable} {text name : String} (ht : ∀ other ∈ t.aliases, madeOf p other)
    (h : t.assign config text = .ok (name, t')) : madeOf p name ∧ ∀ other ∈ t'.aliases, madeOf p other := by
  obtain ⟨found, hfound, heq⟩ := Except.map_eq_ok_iff.mp h
  cases heq
  have hname : madeOf p name := List.all_eq_true.mpr <|
    (search_of_freshAlias hfound).passes_on (p := fun name => ∀ c ∈ name, p c)
      (fun hname hnext _ hc => madeOf_next hbasic hname hnext hc)
      fun _ hc => madeOf_candidate hbasic hbase hsuffix hc
  refine ⟨hname, fun other hother => ?_⟩
  rcases mem_aliases_insert hother with rfl | hother
  · exact hname
  · exact ht other hother

end AliasTable

end ArenaSql
