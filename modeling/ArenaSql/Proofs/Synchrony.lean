import ArenaSql.Proofs.Literals

/-!
# Placeholders and values

The placeholders of a statement stand for its values, one by one and in the same order, although values are
collected before anything is rendered. A part that is left out has no values, and where an alias stands for an
expression, the expression has none.
-/

namespace ArenaSql

namespace Sql

/-- The placeholders of a fragment are spelled alike, stand for values other than null, and these are the given
ones from left to right. -/
structure Binds (mark : String) (sql : Sql) (values : List Value) : Prop where
  values_eq : sql.values = values
  marked : ∀ v m, .bound v m ∈ sql → m = mark ∧ v ≠ .null

/-- The same for several fragments and the values of all of them. -/
inductive BindsAll (mark : String) : List Sql → List Value → Prop where
  | nil : BindsAll mark [] []
  | cons {sql : Sql} {rest : List Sql} {values more : List Value} :
    Binds mark sql values → BindsAll mark rest more → BindsAll mark (sql :: rest) (values ++ more)

variable {mark : String}

theorem Binds.plain (text : String) : Binds mark (plain text) [] :=
  ⟨rfl, fun v m h => by simp [Sql.plain] at h⟩

theorem Binds.append {a b : Sql} {xs ys : List Value} (ha : Binds mark a xs) (hb : Binds mark b ys) :
    Binds mark (a ++ b) (xs ++ ys) := by
  refine ⟨by rw [values_append, ha.values_eq, hb.values_eq], fun v m h => ?_⟩
  rcases List.mem_append.mp h with h | h
  · exact ha.marked v m h
  · exact hb.marked v m h

theorem Binds.plain_append {sql : Sql} {values : List Value} (text : String) (h : Binds mark sql values) :
    Binds mark (Sql.plain text ++ sql) values :=
  (Binds.plain text).append h

theorem Binds.append_plain {sql : Sql} {values : List Value} (text : String) (h : Binds mark sql values) :
    Binds mark (sql ++ Sql.plain text) values := by
  have happend := h.append (Binds.plain text)
  rwa [List.append_nil] at happend

theorem Binds.parenthesized {sql : Sql} {values : List Value} (h : Binds mark sql values) :
    Binds mark sql.parenthesized values :=
  (h.plain_append "(").append_plain ")"

theorem Binds.operand {t : Tree} {sql : Sql} {values : List Value} (h : Binds mark sql values) :
    Binds mark (t.operand sql) values := by
  rw [Tree.operand]
  split
  · exact h.parenthesized
  · exact h

theorem Binds.wrap {sql : Sql} {values : List Value} (embedding : Embedding) (h : Binds mark sql values) :
    Binds mark (embedding.wrap sql) values := by
  cases embedding with
  | presence => exact h.parenthesized.plain_append _
  | scalar | other => exact h.parenthesized

theorem BindsAll.joined {parts : List Sql} {values : List Value} (separator : String) (h : BindsAll mark parts values) :
    Binds mark (joined separator parts) values := by
  induction h with
  | nil => exact ⟨rfl, fun v m h => by cases h⟩
  | @cons sql rest values more hsql hrest ih =>
    cases rest with
    | nil =>
      cases hrest
      rwa [List.append_nil]
    | cons next others => exact (hsql.append_plain separator).append ih

theorem BindsAll.append {parts others : List Sql} {xs ys : List Value} (h : BindsAll mark parts xs)
    (hothers : BindsAll mark others ys) : BindsAll mark (parts ++ others) (xs ++ ys) := by
  induction h with
  | nil => exact hothers
  | cons hsql _ ih =>
    rw [List.append_assoc]
    exact .cons hsql ih

theorem BindsAll.insert_plain {sql : Sql} {rest : List Sql} {values : List Value} (text : String)
    (h : BindsAll mark ([sql] ++ rest) values) : BindsAll mark (sql :: Sql.plain text :: rest) values := by
  cases h with
  | cons hsql hrest => exact .cons hsql (.cons (.plain text) hrest)

theorem BindsAll.parenthesized {parts : List Sql} {values : List Value} (h : BindsAll mark parts values) :
    BindsAll mark (parts.map Sql.parenthesized) values := by
  induction h with
  | nil => exact .nil
  | cons hsql _ ih => exact .cons hsql.parenthesized ih

/-- A fragment without text has no placeholders. -/
theorem Binds.of_isBlank {sql : Sql} {values : List Value} (hmark : mark ≠ "") (h : Binds mark sql values)
    (hblank : sql.isBlank) : values = [] := by
  rw [← h.values_eq]
  have hmarked := h.marked
  clear h
  induction sql with
  | nil => rfl
  | cons piece rest ih =>
    have hrest := ih (by simp_all [isBlank]) fun v m hm => hmarked v m (List.mem_cons_of_mem _ hm)
    cases piece with
    | plain => exact hrest
    | bound v m =>
      have hm := (hmarked v m List.mem_cons_self).1
      simp [isBlank, Piece.text, hm, hmark] at hblank

theorem BindsAll.filter_blank {parts : List Sql} {values : List Value} (hmark : mark ≠ "")
    (h : BindsAll mark parts values) : BindsAll mark (parts.filter (!·.isBlank)) values := by
  induction h with
  | nil => exact .nil
  | @cons sql rest values more hsql _ ih =>
    cases hblank : sql.isBlank with
    | true =>
      rw [List.filter_cons_of_neg (by simp [hblank]), hsql.of_isBlank hmark hblank]
      exact ih
    | false =>
      rw [List.filter_cons_of_pos (by simp [hblank])]
      exact .cons hsql ih

theorem BindsAll.connect {op : CondOp} {parts : List Sql} {values : List Value} {sql : Sql} (hmark : mark ≠ "")
    (h : BindsAll mark parts values) (hsql : op.connect parts = .ok sql) : Binds mark sql values := by
  have hshown := h.filter_blank hmark
  unfold CondOp.connect at hsql
  generalize parts.filter (!·.isBlank) = shown at hshown hsql
  cases hshown with
  | nil =>
    cases hsql
    exact ⟨rfl, fun v m h => by cases h⟩
  | @cons part rest values more hpart hrest =>
    cases hrest with
    | nil =>
      rw [List.append_nil]
      cases op with
      | neg => cases hsql; exact hpart.parenthesized.plain_append _
      | conj | disj | other => cases hsql; exact hpart
    | cons hnext hothers =>
      cases op with
      | neg => cases hsql
      | conj | disj | other => cases hsql; exact (BindsAll.cons hpart (.cons hnext hothers)).parenthesized.joined _

end Sql

/-- Whether the values of a leaf have placeholders in a style: all have, or all but the literals. -/
def Style.marks : Style → Leaf → Bool
  | .inline, .value _ => false
  | _, _ => true

namespace View

variable {view : View}

/-- The placeholders of a literal other than null, or of none. -/
theorem literal_binds (style : Style) (v : Value) :
    ∃ values, view.collect ([.value v].filter style.marks) = .ok values ∧
      (view.literal style v).Binds view.dialect.mark values := by
  cases style with
  | inline =>
    refine ⟨[], rfl, ?_⟩
    cases v <;> exact Sql.Binds.plain _
  | bound =>
    cases v with
    | null => exact ⟨[], rfl, Sql.Binds.plain _⟩
    | _ =>
      refine ⟨_, rfl, rfl, fun w m h => ?_⟩
      cases List.mem_singleton.mp h
      exact ⟨rfl, by simp⟩

mutual

/-- The placeholders of an expression stand for the values of the leaves that the style leaves to placeholders. -/
theorem render_binds_marked (hmark : view.dialect.mark ≠ "")
    (hnested : ∀ i st, view.nested i = .ok st → st.sql.Binds view.dialect.mark st.values) (style : Style) :
    (t : Tree) → (sql : Sql) → view.render style t = .ok sql →
      ∃ values, view.collect (t.leaves.filter style.marks) = .ok values ∧ sql.Binds view.dialect.mark values
  | .field index f, sql, h => by
    rw [render] at h
    cases h
    exact ⟨[], by cases style <;> rfl, .plain _⟩
  | .value v, sql, h => by
    rw [render] at h
    cases h
    exact literal_binds style v
  | .func name args, sql, h => by
    rw [render] at h
    obtain ⟨parts, hparts, h⟩ := Except.bind_eq_ok_iff.mp h
    cases h
    obtain ⟨values, hvalues, hbinds⟩ := renderAll_binds_marked hmark hnested style args parts hparts
    exact ⟨values, hvalues, ((hbinds.joined ", ").plain_append _).append_plain _⟩
  | .calc op left right, sql, h => by
    rw [render] at h
    obtain ⟨l, hl, h⟩ := Except.bind_eq_ok_iff.mp h
    obtain ⟨r, hr, h⟩ := Except.bind_eq_ok_iff.mp h
    cases h
    obtain ⟨xs, hxs, hleft⟩ := render_binds_marked hmark hnested style (left ()) l hl
    obtain ⟨ys, hys, hright⟩ := render_binds_marked hmark hnested style (right ()) r hr
    refine ⟨xs ++ ys, ?_, (hleft.operand.append_plain _).append hright.operand⟩
    rw [Tree.leaves, List.filter_append, collect_append, hxs, hys]
    rfl
  | .cmp op left right, sql, h => by
    obtain ⟨l, hl, h⟩ := render_cmp_eq_ok h
    obtain ⟨xs, hxs, hleft⟩ := render_binds_marked hmark hnested style (left ()) l hl
    rcases h with ⟨test, -, hnull, rfl⟩ | ⟨r, hr, rfl⟩
    · refine ⟨xs, ?_, hleft.operand.append_plain _⟩
      rw [Tree.leaves, List.filter_append, collect_append, hxs, hnull]
      cases style <;> exact congrArg Except.ok (List.append_nil xs)
    · obtain ⟨ys, hys, hright⟩ := render_binds_marked hmark hnested style (right ()) r hr
      refine ⟨xs ++ ys, ?_, (hleft.operand.append_plain _).append hright.operand⟩
      rw [Tree.leaves, List.filter_append, collect_append, hxs, hys]
      rfl
  | .cond op args, sql, h => by
    rw [render] at h
    obtain ⟨parts, hparts, h⟩ := Except.bind_eq_ok_iff.mp h
    obtain ⟨values, hvalues, hbinds⟩ := renderAll_binds_marked hmark hnested style args parts hparts
    exact ⟨values, hvalues, hbinds.connect hmark h⟩
  | .sort expr direction, sql, h => by
    rw [render] at h
    obtain ⟨inside, hinside, h⟩ := Except.bind_eq_ok_iff.mp h
    cases h
    obtain ⟨values, hvalues, hbinds⟩ := render_binds_marked hmark hnested style (expr ()) inside hinside
    exact ⟨values, hvalues, hbinds.append_plain _⟩
  | .summarise args, sql, h => by
    rw [render] at h
    obtain ⟨parts, hparts, h⟩ := Except.bind_eq_ok_iff.mp h
    cases h
    obtain ⟨values, hvalues, hbinds⟩ := renderAll_binds_marked hmark hnested style args parts hparts
    exact ⟨values, hvalues, hbinds.joined ", "⟩
  | .subquery index embedding, sql, h => by
    rw [render] at h
    obtain ⟨statement, hstatement, h⟩ := Except.bind_eq_ok_iff.mp h
    cases h
    refine ⟨statement.values, ?_, (hnested index statement hstatement).wrap embedding⟩
    have hmarks : [Leaf.subquery index].filter style.marks = [.subquery index] := by cases style <;> rfl
    rw [Tree.leaves, hmarks]
    simp [collect, leafValues, hstatement, bind, Except.bind, pure, Except.pure]
  | .unknown className, sql, h => by
    rw [render] at h
    cases h
  | .broken fault, sql, h => by
    rw [render] at h
    cases h

theorem renderAll_binds_marked (hmark : view.dialect.mark ≠ "")
    (hnested : ∀ i st, view.nested i = .ok st → st.sql.Binds view.dialect.mark st.values) (style : Style) :
    (ts : List (Unit → Tree)) → (parts : List Sql) → view.renderAll style ts = .ok parts →
      ∃ values, view.collect ((Tree.leaves.leavesAll ts).filter style.marks) = .ok values ∧
        Sql.BindsAll view.dialect.mark parts values
  | [], parts, h => by
    rw [renderAll] at h
    cases h
    exact ⟨[], rfl, .nil⟩
  | t :: rest, parts, h => by
    rw [renderAll] at h
    obtain ⟨sql, hsql, h⟩ := Except.bind_eq_ok_iff.mp h
    obtain ⟨more, hmore, h⟩ := Except.bind_eq_ok_iff.mp h
    cases h
    obtain ⟨xs, hxs, hfirst⟩ := render_binds_marked hmark hnested style (t ()) sql hsql
    obtain ⟨ys, hys, hrest⟩ := renderAll_binds_marked hmark hnested style rest more hmore
    refine ⟨xs ++ ys, ?_, .cons hfirst hrest⟩
    rw [Tree.leaves.leavesAll, List.filter_append, collect_append, hxs, hys]
    rfl

end

/-- The placeholders of an expression stand for its values. -/
theorem render_binds (hmark : view.dialect.mark ≠ "")
    (hnested : ∀ i st, view.nested i = .ok st → st.sql.Binds view.dialect.mark st.values) (t : Tree) (sql : Sql)
    (h : view.render .bound t = .ok sql) :
    ∃ values, view.collect t.leaves = .ok values ∧ sql.Binds view.dialect.mark values := by
  have hall : t.leaves.filter (Style.marks .bound) = t.leaves :=
    List.filter_eq_self.mpr fun leaf _ => by cases leaf <;> rfl
  obtain ⟨values, hvalues, hbinds⟩ := render_binds_marked hmark hnested .bound t sql h
  exact ⟨values, hall ▸ hvalues, hbinds⟩

/-! ## Clauses -/

/-- The fragments stand for the values of the expressions that some references lead to. -/
def Shows (view : View) (q : Query) (refs : List NodeRef) (parts : List Sql) : Prop :=
  ∃ values, view.collect (q.leaves refs) = .ok values ∧ Sql.BindsAll view.dialect.mark parts values

variable {q : Query}

/-- Leaves that have no values have none to collect. -/
theorem collect_of_not_anyValues {leaves : List Leaf} (h : view.anyValues leaves = .ok false) :
    view.collect leaves = .ok [] := by
  induction leaves with
  | nil => rfl
  | cons leaf rest ih =>
    rw [anyValues] at h
    obtain ⟨found, hfound, h⟩ := Except.bind_eq_ok_iff.mp h
    cases found with
    | nil => rw [collect, hfound, ih h]; rfl
    | cons => cases h

theorem Shows.nil : view.Shows q [] [] :=
  ⟨[], rfl, .nil⟩

theorem Shows.cons {ref : NodeRef} {refs : List NodeRef} {sql : Sql} {parts : List Sql} {values : List Value}
    (hvalues : view.collect (q.tree ref).leaves = .ok values) (hsql : sql.Binds view.dialect.mark values)
    (hrest : view.Shows q refs parts) : view.Shows q (ref :: refs) (sql :: parts) := by
  obtain ⟨more, hmore, hparts⟩ := hrest
  refine ⟨values ++ more, ?_, .cons hsql hparts⟩
  have hleaves : q.leaves (ref :: refs) = (q.tree ref).leaves ++ q.leaves refs := List.flatMap_cons
  rw [hleaves, collect_append, hvalues, hmore]
  rfl

theorem Shows.append {refs more : List NodeRef} {parts others : List Sql} (h : view.Shows q refs parts)
    (hmore : view.Shows q more others) : view.Shows q (refs ++ more) (parts ++ others) := by
  obtain ⟨values, hvalues, hparts⟩ := h
  obtain ⟨values', hvalues', hothers⟩ := hmore
  refine ⟨values ++ values', ?_, hparts.append hothers⟩
  rw [Query.leaves_append, collect_append, hvalues, hvalues']
  rfl

/-- What is shown is not null. -/
theorem Shows.filter_null {refs : List NodeRef} {parts : List Sql} (h : view.Shows q refs parts) :
    refs.filter (!·.isNull) = refs := by
  obtain ⟨values, hvalues, -⟩ := h
  refine List.filter_eq_self.mpr fun ref href => ?_
  cases hnull : ref.isNull with
  | false => rfl
  | true =>
    refine absurd ?_ (unbroken_of_collect hvalues (.outside ref q.nodes.length))
    refine List.mem_flatMap.mpr ⟨ref, href, ?_⟩
    rw [Query.tree, Tree.unfold_of_none _ (locate?_of_isNull hnull)]
    exact List.mem_singleton_self _

/-- Rendering one expression after the other. -/
theorem Shows.mapM {f : NodeRef → Except CompileError Sql} {refs : List NodeRef} {parts : List Sql}
    (hf : ∀ ref sql, f ref = .ok sql →
      ∃ values, view.collect (q.tree ref).leaves = .ok values ∧ sql.Binds view.dialect.mark values)
    (h : refs.mapM f = .ok parts) : view.Shows q refs parts := by
  rw [Except.mapM_eq_ok_iff] at h
  induction h with
  | nil => exact .nil
  | cons hfirst _ ih =>
    obtain ⟨values, hvalues, hbinds⟩ := hf _ _ hfirst
    exact .cons hvalues hbinds ih

theorem Shows.clause {refs : List NodeRef} {parts : List Sql} (keyword separator : String)
    (h : view.Shows q refs parts) : view.Shows q refs [Sql.plain keyword ++ Sql.joined separator parts] := by
  obtain ⟨values, hvalues, hparts⟩ := h
  refine ⟨values, hvalues, ?_⟩
  have hone := Sql.BindsAll.cons ((hparts.joined separator).plain_append keyword) .nil
  rwa [List.append_nil] at hone

section

variable (hmark : view.dialect.mark ≠ "")
  (hnested : ∀ i st, view.nested i = .ok st → st.sql.Binds view.dialect.mark st.values)

include hmark hnested

theorem selectClause_shows {sql : Sql} (h : view.selectClause q = .ok sql) : view.Shows q q.select [sql] := by
  rw [selectClause] at h
  cases hselect : q.select with
  | nil =>
    rw [hselect] at h
    cases h
    exact ⟨[], rfl, .cons (.plain _) .nil⟩
  | cons ref rest =>
    rw [hselect] at h
    obtain ⟨items, hitems, h⟩ := Except.bind_eq_ok_iff.mp h
    cases h
    refine Shows.clause _ _ (Shows.mapM (fun ref sql hsql => ?_) hitems)
    rw [selectItem] at hsql
    obtain ⟨inside, hinside, hsql⟩ := Except.bind_eq_ok_iff.mp hsql
    obtain ⟨values, hvalues, hbinds⟩ := render_binds hmark hnested _ inside hinside
    refine ⟨values, hvalues, ?_⟩
    split at hsql
    · cases hsql
      exact hbinds.append_plain _
    · cases hsql
      exact hbinds

theorem whereClause_shows {clause : Option Sql} (h : view.whereClause q = .ok clause) :
    view.Shows q q.head.toList clause.toList := by
  rw [whereClause] at h
  cases hhead : q.head with
  | none =>
    rw [hhead] at h
    cases h
    exact .nil
  | some root =>
    rw [hhead] at h
    obtain ⟨sql, hsql, h⟩ := Except.bind_eq_ok_iff.mp h
    obtain ⟨values, hvalues, hbinds⟩ := render_binds hmark hnested _ sql hsql
    cases hblank : sql.isBlank with
    | true =>
      rw [hblank] at h
      cases h
      have hnone := hbinds.of_isBlank hmark hblank
      subst hnone
      exact ⟨[], by simpa [Query.leaves] using hvalues, .nil⟩
    | false =>
      rw [hblank] at h
      cases h
      exact .cons hvalues (hbinds.plain_append _) .nil

theorem havingClause_shows {clause : Option Sql} (h : view.havingClause q = .ok clause) :
    view.Shows q (Scope.shownHaving q) clause.toList := by
  rw [havingClause] at h
  rw [Scope.shownHaving]
  cases hsum : q.summarise with
  | none =>
    rw [hsum] at h
    cases h
    exact .nil
  | some root =>
    cases hhaving : q.having with
    | none =>
      rw [hsum, hhaving] at h
      cases h
      exact .nil
    | some ref =>
      rw [hsum, hhaving] at h
      obtain ⟨sql, hsql, h⟩ := Except.bind_eq_ok_iff.mp h
      cases h
      obtain ⟨values, hvalues, hbinds⟩ := render_binds hmark hnested _ sql hsql
      exact .cons hvalues (hbinds.plain_append _) .nil

theorem groupItems_shows {config : Config} {table table' : AliasTable} {refs : List NodeRef} {parts : List Sql}
    (h : view.groupItems config q table refs = .ok (parts, table')) : view.Shows q refs parts := by
  induction refs generalizing table parts with
  | nil => cases h; exact .nil
  | cons ref rest ih =>
    rw [groupItems] at h
    obtain ⟨⟨sql, table₁⟩, hsql, h⟩ := Except.bind_eq_ok_iff.mp h
    obtain ⟨⟨more, table₂⟩, hmore, h⟩ := Except.bind_eq_ok_iff.mp h
    cases h
    rcases groupItem_eq_ok hsql with ⟨hinside, -⟩ | ⟨_, _, -, -, hvalued, rfl, -⟩ | ⟨_, _, inside, -, -, -, hinside, rfl⟩
    · obtain ⟨values, hvalues, hbinds⟩ := render_binds hmark hnested _ sql hinside
      exact .cons hvalues hbinds (ih hmore)
    · exact .cons (collect_of_not_anyValues hvalued) (.plain _) (ih hmore)
    · obtain ⟨values, hvalues, hbinds⟩ := render_binds hmark hnested _ inside hinside
      exact .cons hvalues (hbinds.append_plain _) (ih hmore)

theorem groupByClause_shows {config : Config} {table : AliasTable} {clause : Option Sql}
    (h : view.groupByClause config q = .ok (clause, table)) :
    ∃ args, q.groupArgs = .ok args ∧ view.Shows q args clause.toList := by
  rw [groupByClause] at h
  obtain ⟨args, hargs, h⟩ := Except.bind_eq_ok_iff.mp h
  refine ⟨args, hargs, ?_⟩
  cases args with
  | nil => cases h; exact .nil
  | cons ref rest =>
    obtain ⟨⟨items, table'⟩, hitems, h⟩ := Except.bind_eq_ok_iff.mp h
    cases h
    exact (groupItems_shows hmark hnested hitems).clause _ _

theorem orderByClause_shows {table : AliasTable} {clause : Option Sql} (h : view.orderByClause q table = .ok clause) :
    view.Shows q (Scope.shownOrder q) clause.toList := by
  rw [orderByClause] at h
  split at h
  · rename_i hhidden
    have hnone : Scope.shownOrder q = [] := by
      rw [Scope.shownOrder]
      cases hordered : q.ordered <;> cases hsimple : q.simpleAggregate <;> simp_all
    cases h
    rw [hnone]
    exact .nil
  · rename_i hshown
    have hall : Scope.shownOrder q = q.order := by
      rw [Scope.shownOrder]
      cases hordered : q.ordered <;> cases hsimple : q.simpleAggregate <;> simp_all
    obtain ⟨items, hitems, h⟩ := Except.bind_eq_ok_iff.mp h
    cases h
    rw [hall]
    refine Shows.clause _ _ (Shows.mapM (fun ref sql hsql => ?_) hitems)
    rcases orderItem_eq_ok hsql with hinside | ⟨expr, direction, _, _, htree, -, -, hvalued, rfl⟩
    · exact render_binds hmark hnested _ sql hinside
    · rw [htree]
      exact ⟨[], collect_of_not_anyValues hvalued, .plain _⟩

/-- The clauses stand for the values of the live expressions. -/
theorem clauses_binds {config : Config} {clauses : List Sql} {table : AliasTable}
    (hunbroken : ∀ fault, .broken fault ∉ q.leaves q.liveRoots) (h : view.clauses config q = .ok (clauses, table)) :
    ∃ values, view.collect (q.leaves q.liveRoots) = .ok values ∧
      (Sql.joined " " clauses).Binds view.dialect.mark values := by
  rw [View.clauses] at h
  obtain ⟨selecting, hselect, h⟩ := Except.bind_eq_ok_iff.mp h
  obtain ⟨filter, hwhere, h⟩ := Except.bind_eq_ok_iff.mp h
  obtain ⟨⟨grouping, table'⟩, hgroup, h⟩ := Except.bind_eq_ok_iff.mp h
  obtain ⟨having, hhaving, h⟩ := Except.bind_eq_ok_iff.mp h
  obtain ⟨ordering, horder, h⟩ := Except.bind_eq_ok_iff.mp h
  cases h
  obtain ⟨args, hargs, hgrouping⟩ := groupByClause_shows hmark hnested hgroup
  have hgrouping : view.Shows q q.summarise.toList grouping.toList := by
    rwa [Shows, Scope.leaves_groupArgs_of_live hargs hunbroken] at hgrouping
  have hall := (selectClause_shows hmark hnested hselect).append ((whereClause_shows hmark hnested hwhere).append
    (hgrouping.append ((havingClause_shows hmark hnested hhaving).append (orderByClause_shows hmark hnested horder))))
  have hlive := hall.filter_null
  rw [← Query.liveRoots_eq] at hlive
  obtain ⟨values, hvalues, hparts⟩ := hall
  refine ⟨values, by rw [hlive]; exact hvalues, Sql.BindsAll.joined " " ?_⟩
  -- the FROM and LIMIT clauses hold no placeholders
  have hsources := hparts.insert_plain ("FROM " ++ q.tables.text)
  cases q.limit? config.countOption with
  | none => cases filter <;> cases grouping <;> cases having <;> cases ordering <;> exact hsources
  | some limit =>
    have hlimit := Sql.BindsAll.append hsources (.cons (.plain limit) .nil)
    rw [List.append_nil, List.append_nil] at hlimit
    cases filter <;> cases grouping <;> cases having <;> cases ordering <;> exact hlimit

end

end View

theorem Sql.Binds.derived {mark : String} {q : Query} {sql : Sql} {values : List Value} (h : sql.Binds mark values) :
    (q.derived sql).Binds mark values := by
  rw [Query.derived]
  split
  · exact h.parenthesized.append_plain _
  · exact h

/-- The placeholders of a statement stand for its values. -/
theorem Context.sql_binds {context : Context} (hd : context.dialect.Stateless) (hmark : context.dialect.mark ≠ "")
    {depth : Nat} {q : Query} {statement : Statement} (h : ((context.scope depth).outline q).2 = .ok statement) :
    statement.sql.Binds context.dialect.mark statement.values := by
  refine outline_induction hd (p := fun _ statement => statement.sql.Binds context.dialect.mark statement.values)
    (fun scope q statement hcontext hnested houtline => ?_) h
  clear h
  subst hcontext
  obtain ⟨q₁, q₂, clauses, table, hs⟩ := Scope.outline_eq_ok_iff.mp houtline
  have hcollect := hs.collect_eq
  have hnested₂ : ∀ i nested, (scope.view q₂).nested i = .ok nested →
      nested.sql.Binds (scope.view q₂).dialect.mark nested.values := by
    intro i nested hstatement
    have hstatement : scope.nestedAt q i = .ok nested := by rw [← hs.nestedAt_eq]; exact hstatement
    obtain ⟨query, embedding, hexpr⟩ := Scope.nestedAt_eq_ok hstatement
    exact hnested i query embedding nested hexpr hstatement
  obtain ⟨values, hvalues, hbinds⟩ :=
    View.clauses_binds hmark hnested₂ (View.unbroken_of_collect hcollect) hs.rendered
  rw [hcollect] at hvalues
  cases hvalues
  rw [hs.sql_eq]
  exact hbinds.derived

end ArenaSql
