import ArenaSql.Proofs.AliasUse

/-!
# Expressions laid out

How an expression is written, given what stands for each of its fields and nested queries. Wherever an expression is
rendered while the clauses are made, it is laid out in this way; and as no clause changes the sources, what stands for a
field may be read off the last draft.
-/

namespace ArenaSql

open DraftM

/-! ## Layouts of expressions -/

/-- Predicates under a connective, of which only those are given that have a text. -/
inductive CondOp.Connects : CondOp → List Sql → Sql → Prop where
  | none {op : CondOp} : op.Connects [] []
  | negated {part : Sql} : CondOp.neg.Connects [part] (Sql.plain "NOT " ++ part.parenthesized)
  | alone {op : CondOp} {part : Sql} (hop : op ≠ .neg) : op.Connects [part] part
  | chain {op : CondOp} {first second : Sql} {rest : List Sql} (hop : op ≠ .neg) :
    op.Connects (first :: second :: rest)
      (Sql.joined (" " ++ op.text ++ " ") ((first :: second :: rest).map Sql.parenthesized))

theorem CondOp.connects_of_connect {op : CondOp} {parts : List Sql} {sql : Sql} (h : op.connect parts = .ok sql) :
    op.Connects (parts.filter (!·.isBlank)) sql := by
  unfold connect at h
  generalize parts.filter (!·.isBlank) = shown at h ⊢
  rcases shown with _ | ⟨first, _ | ⟨second, rest⟩⟩
  · cases h
    exact .none
  · cases op with
    | neg => cases h; exact .negated
    | conj | disj | other => cases h; exact .alone (by simp)
  · cases op with
    | neg => cases h
    | conj | disj | other => cases h; exact .chain (by simp)

namespace Tree

/-- The tree has a literal other than null, apart from nested queries. -/
def HasLiteral (t : Tree) : Prop :=
  ∃ v, v ≠ .null ∧ .value v ∈ t.leaves

theorem not_hasLiteral_iff {t : Tree} : ¬ t.HasLiteral ↔ ∀ v, .value v ∈ t.leaves → v = .null := by
  simp only [HasLiteral, not_exists, not_and, ne_eq, not_imp_not]

/-- The expression that a term of the ordering sorts by. -/
def sorted : Tree → Tree
  | .sort expr _ => expr ()
  | t => t

theorem leaves_sorted (t : Tree) : t.sorted.leaves = t.leaves := by
  cases t <;> simp [sorted, leaves]

end Tree

section

variable (dialect : Dialect) (column : Nat → String → Prop) (nested : Nat → Option Statement)

/-- An expression and what is written for it. What may stand for the field at a position is said by `column`, and which
statements nested queries have is said by `nested`. -/
inductive Tree.LaidOut : Tree → Sql → Prop where
  | field {i : Nat} {f : Field} {written : String} (hcolumn : column i written) :
    LaidOut (.field i f) (Sql.plain written)
  | null : LaidOut (.value .null) (Sql.plain "NULL")
  | literal {v : Value} {number : Nat} (hv : v ≠ .null) :
    LaidOut (.value v) [.bound v (dialect.placeholder number)]
  | func {name : String} {args : List (Unit → Tree)} {parts : List Sql}
    (hargs : List.Forall₂ (fun t part => LaidOut (t ()) part) args parts) :
    LaidOut (.func name args) (Sql.plain (name ++ "(") ++ Sql.joined ", " parts ++ Sql.plain ")")
  | calc {op : CalcOp} {left right : Unit → Tree} {l r : Sql} (hleft : LaidOut (left ()) l)
    (hright : LaidOut (right ()) r) :
    LaidOut (.calc op left right)
      ((left ()).operand l ++ Sql.plain (" " ++ op.text ++ " ") ++ (right ()).operand r)
  | nullTest {op : CmpOp} {left right : Unit → Tree} {l : Sql} {test : String} (hleft : LaidOut (left ()) l)
    (htest : op.nullTest? = some test) (hright : right () = .value .null) :
    LaidOut (.cmp op left right) ((left ()).operand l ++ Sql.plain (" " ++ test))
  | cmp {op : CmpOp} {left right : Unit → Tree} {l r : Sql} (hleft : LaidOut (left ()) l)
    (hright : LaidOut (right ()) r) (hother : op.nullTest? = none ∨ (right ()).isNull = false) :
    LaidOut (.cmp op left right)
      ((left ()).operand l ++ Sql.plain (" " ++ op.spelling dialect ++ " ") ++ (right ()).operand r)
  | cond {op : CondOp} {args : List (Unit → Tree)} {parts : List Sql} {sql : Sql}
    (hargs : List.Forall₂ (fun t part => LaidOut (t ()) part) args parts)
    (hsql : op.Connects (parts.filter (!·.isBlank)) sql) : LaidOut (.cond op args) sql
  | sort {expr : Unit → Tree} {direction : Direction} {sql : Sql} (hexpr : LaidOut (expr ()) sql) :
    LaidOut (.sort expr direction) (sql ++ Sql.plain (" " ++ direction.text))
  | summarise {args : List (Unit → Tree)} {parts : List Sql}
    (hargs : List.Forall₂ (fun t part => LaidOut (t ()) part) args parts) :
    LaidOut (.summarise args) (Sql.joined ", " parts)
  | subquery {i : Nat} {embedding : Embedding} {statement : Statement} (hstatement : nested i = some statement) :
    LaidOut (.subquery i embedding) (embedding.wrap statement.sql)

end

/-! ## Texts inside fragments -/

namespace Sql

variable {sql : Sql} {s : String}

/-- The text stands somewhere in the fragment. -/
def Mentions (sql : Sql) (s : String) : Prop :=
  s.toList <:+: sql.text.toList

theorem mentions_plain (s : String) : (plain s).Mentions s := by
  simp only [Mentions, text_plain]
  exact List.infix_rfl

theorem Mentions.append_left (h : sql.Mentions s) (other : Sql) : (other ++ sql).Mentions s := by
  rw [Mentions, text_append, String.toList_append]
  exact h.trans (List.suffix_append _ _).isInfix

theorem Mentions.append_right (h : sql.Mentions s) (other : Sql) : (sql ++ other).Mentions s := by
  rw [Mentions, text_append, String.toList_append]
  exact h.trans (List.prefix_append _ _).isInfix

/-- Without text, nothing but the empty text is mentioned. -/
theorem Mentions.of_isBlank (h : sql.Mentions s) (hblank : sql.isBlank) (other : Sql) : other.Mentions s := by
  rw [Mentions, (isBlank_iff sql).mp hblank] at h
  rw [Mentions, List.infix_nil.mp h]
  exact List.nil_infix

theorem Mentions.parenthesized (h : sql.Mentions s) : sql.parenthesized.Mentions s :=
  (h.append_left _).append_right _

theorem Mentions.operand (h : sql.Mentions s) (t : Tree) : (t.operand sql).Mentions s := by
  rw [Tree.operand]
  split
  · exact h.parenthesized
  · exact h

theorem Mentions.joined {parts : List Sql} (h : sql.Mentions s) (separator : String) (hpart : sql ∈ parts) :
    (joined separator parts).Mentions s := by
  induction parts with
  | nil => cases hpart
  | cons first rest ih =>
    cases rest with
    | nil =>
      cases List.mem_singleton.mp hpart
      exact h
    | cons next more =>
      rcases List.mem_cons.mp hpart with rfl | hpart
      · exact (h.append_right _).append_right _
      · exact (ih hpart).append_left _

/-- A part that a connective leaves out has no text. -/
theorem Mentions.connects {parts : List Sql} {op : CondOp} {whole : Sql} (h : sql.Mentions s) (hpart : sql ∈ parts)
    (hwhole : op.Connects (parts.filter (!·.isBlank)) whole) : whole.Mentions s := by
  cases hblank : sql.isBlank with
  | true => exact h.of_isBlank hblank whole
  | false =>
    have hshown : sql ∈ parts.filter (!·.isBlank) := List.mem_filter.mpr ⟨hpart, by simp [hblank]⟩
    generalize parts.filter (!·.isBlank) = shown at hshown hwhole
    cases hwhole with
    | none => cases hshown
    | negated =>
      cases List.mem_singleton.mp hshown
      exact h.parenthesized.append_left _
    | alone =>
      cases List.mem_singleton.mp hshown
      exact h
    | chain => exact h.parenthesized.joined _ (List.mem_map_of_mem hshown)

end Sql

namespace Tree.LaidOut

variable {dialect : Dialect} {column : Nat → String → Prop} {nested : Nat → Option Statement} {i : Nat}

mutual

/-- What is laid out for an expression mentions all its fields. -/
theorem mentions : {t : Tree} → {sql : Sql} → t.LaidOut dialect column nested sql → .field i ∈ t.leaves →
    ∃ written, column i written ∧ sql.Mentions written
  | _, _, .field hcolumn, hi => by
    cases List.mem_singleton.mp hi
    exact ⟨_, hcolumn, Sql.mentions_plain _⟩
  | _, _, .func hargs, hi => by
    obtain ⟨part, hpart, written, hcolumn, hwritten⟩ := mentionsAll hargs hi
    exact ⟨written, hcolumn, ((hwritten.joined _ hpart).append_left _).append_right _⟩
  | _, _, .calc hleft hright, hi => by
    rcases List.mem_append.mp hi with hi | hi
    · obtain ⟨written, hcolumn, hwritten⟩ := mentions hleft hi
      exact ⟨written, hcolumn, ((hwritten.operand _).append_right _).append_right _⟩
    · obtain ⟨written, hcolumn, hwritten⟩ := mentions hright hi
      exact ⟨written, hcolumn, (hwritten.operand _).append_left _⟩
  | _, _, .nullTest hleft htest hright, hi => by
    rw [Tree.leaves, hright] at hi
    obtain ⟨written, hcolumn, hwritten⟩ := mentions hleft (by simpa [Tree.leaves] using hi)
    exact ⟨written, hcolumn, (hwritten.operand _).append_right _⟩
  | _, _, .cmp hleft hright hother, hi => by
    rcases List.mem_append.mp hi with hi | hi
    · obtain ⟨written, hcolumn, hwritten⟩ := mentions hleft hi
      exact ⟨written, hcolumn, ((hwritten.operand _).append_right _).append_right _⟩
    · obtain ⟨written, hcolumn, hwritten⟩ := mentions hright hi
      exact ⟨written, hcolumn, (hwritten.operand _).append_left _⟩
  | _, _, .cond hargs hsql, hi => by
    obtain ⟨part, hpart, written, hcolumn, hwritten⟩ := mentionsAll hargs hi
    exact ⟨written, hcolumn, hwritten.connects hpart hsql⟩
  | _, _, .sort hexpr, hi => by
    obtain ⟨written, hcolumn, hwritten⟩ := mentions hexpr hi
    exact ⟨written, hcolumn, hwritten.append_right _⟩
  | _, _, .summarise hargs, hi => by
    obtain ⟨part, hpart, written, hcolumn, hwritten⟩ := mentionsAll hargs hi
    exact ⟨written, hcolumn, hwritten.joined _ hpart⟩
  | _, _, .null, hi | _, _, .literal _, hi | _, _, .subquery _, hi => by
    cases List.mem_singleton.mp hi

theorem mentionsAll : {ts : List (Unit → Tree)} → {parts : List Sql} →
    List.Forall₂ (fun t part => (t ()).LaidOut dialect column nested part) ts parts →
    .field i ∈ Tree.leaves.leavesAll ts → ∃ part ∈ parts, ∃ written, column i written ∧ part.Mentions written
  | _, _, .nil, hi => by cases hi
  | _, _, .cons hfirst hrest, hi => by
    rcases List.mem_append.mp hi with hi | hi
    · obtain ⟨written, hcolumn, hwritten⟩ := mentions hfirst hi
      exact ⟨_, List.mem_cons_self, written, hcolumn, hwritten⟩
    · obtain ⟨part, hpart, hwritten⟩ := mentionsAll hrest hi
      exact ⟨part, List.mem_cons_of_mem _ hpart, hwritten⟩

end

end Tree.LaidOut

/-! ## Rendering -/

namespace Scope

variable {scope : Scope} {column : Nat → String → Prop} {last d d' : Draft} {sql : Sql}

/-- Wherever the expression is rendered on the way to the last draft, it is laid out. -/
def LaysOut (scope : Scope) (column : Nat → String → Prop) (last : Draft) (t : Tree) : Prop :=
  ∀ ⦃d d' : Draft⦄ ⦃sql : Sql⦄, (scope.render .bound t).run d = (.ok sql, d') → d'.Grows last →
    t.LaidOut scope.dialect column last.statement? sql

theorem laidOut_of_renderAll {sub : NodeRef → Tree} {refs : List NodeRef} {parts : List Sql}
    (hrefs : ∀ ref ∈ refs, scope.LaysOut column last (sub ref))
    (h : (scope.renderAll .bound (refs.map fun ref _ => sub ref)).run d = (.ok parts, d')) (hlast : d'.Grows last) :
    List.Forall₂ (fun t part => (t ()).LaidOut scope.dialect column last.statement? part)
      (refs.map fun ref _ => sub ref) parts := by
  induction refs generalizing d parts with
  | nil =>
    rw [List.map_nil, renderAll] at h
    cases h
    exact .nil
  | cons ref rest ih =>
    rw [List.map_cons, renderAll] at h
    obtain ⟨part, d₁, hpart, h⟩ := run_bind_eq_ok_iff.mp h
    obtain ⟨more, _, hmore, hend⟩ := run_bind_eq_ok_iff.mp h
    cases hend
    obtain ⟨hfirst, hrest⟩ := List.forall_mem_cons.mp hrefs
    have hgrows := ((moves_renderAll scope .bound _).of_run hmore).toGrows
    exact .cons (hfirst hpart (hgrows.trans hlast)) (ih hrest hmore)

theorem laidOut_literal {v : Value} (h : (scope.literal .bound v).run d = (.ok sql, d')) :
    (Tree.value v).LaidOut scope.dialect column last.statement? sql := by
  cases v with
  | null =>
    cases h
    exact .null
  | _ =>
    cases h
    exact .literal (by simp)

/-- A node is laid out if what it refers to is, and if its own text is allowed where it is a field. -/
theorem laysOut_treeWith (i : Nat) {sub : NodeRef → Tree} :
    (expr : Expr) → (∀ f, expr = .field f → column i (f.text last.query.tables)) →
      (∀ child ∈ expr.children, scope.LaysOut column last (sub child)) →
      scope.LaysOut column last (expr.treeWith i sub)
  | .field f, hfield, _, d, d', sql, h, hlast => by
    rw [Expr.treeWith, render] at h
    cases h
    rw [← hlast.query.tables]
    exact .field (hfield f rfl)
  | .value v, _, _, d, d', sql, h, hlast => by
    rw [Expr.treeWith, render] at h
    exact laidOut_literal h
  | .func name args, _, hchildren, d, d', sql, h, hlast => by
    rw [Expr.treeWith, render] at h
    obtain ⟨parts, _, hparts, hend⟩ := run_bind_eq_ok_iff.mp h
    cases hend
    exact .func (laidOut_of_renderAll hchildren hparts hlast)
  | .calc op left right, _, hchildren, d, d', sql, h, hlast => by
    rw [Expr.treeWith, render] at h
    obtain ⟨l, d₁, hl, h⟩ := run_bind_eq_ok_iff.mp h
    obtain ⟨r, _, hr, hend⟩ := run_bind_eq_ok_iff.mp h
    cases hend
    have hgrows := ((moves_render scope .bound _).of_run hr).toGrows
    exact .calc (hchildren left List.mem_cons_self hl (hgrows.trans hlast))
      (hchildren right (List.mem_cons_of_mem _ List.mem_cons_self) hr hlast)
  | .cmp op left right, _, hchildren, d, d', sql, h, hlast => by
    rw [Expr.treeWith, render] at h
    obtain ⟨l, d₁, hl, h⟩ := run_bind_eq_ok_iff.mp h
    split at h
    · rename_i test htest hnull
      cases h
      exact .nullTest (hchildren left List.mem_cons_self hl hlast) htest (View.eq_null_of_isNull hnull)
    · rename_i hother
      obtain ⟨r, _, hr, hend⟩ := run_bind_eq_ok_iff.mp h
      cases hend
      have hgrows := ((moves_render scope .bound _).of_run hr).toGrows
      refine .cmp (hchildren left List.mem_cons_self hl (hgrows.trans hlast))
        (hchildren right (List.mem_cons_of_mem _ List.mem_cons_self) hr hlast) ?_
      cases htest : op.nullTest? with
      | none => exact Or.inl rfl
      | some test => exact Or.inr (Bool.eq_false_iff.mpr (hother test htest))
  | .cond op args, _, hchildren, d, d', sql, h, hlast => by
    rw [Expr.treeWith, render] at h
    obtain ⟨parts, _, hparts, h⟩ := run_bind_eq_ok_iff.mp h
    cases hconnect : op.connect parts with
    | error e => rw [hconnect] at h; cases h
    | ok whole =>
      rw [hconnect] at h
      cases h
      exact .cond (laidOut_of_renderAll hchildren hparts hlast) (CondOp.connects_of_connect hconnect)
  | .sort expr direction, _, hchildren, d, d', sql, h, hlast => by
    rw [Expr.treeWith, render] at h
    obtain ⟨inside, _, hinside, hend⟩ := run_bind_eq_ok_iff.mp h
    cases hend
    exact .sort (hchildren expr List.mem_cons_self hinside hlast)
  | .summarise args, _, hchildren, d, d', sql, h, hlast => by
    rw [Expr.treeWith, render] at h
    obtain ⟨parts, _, hparts, hend⟩ := run_bind_eq_ok_iff.mp h
    cases hend
    exact .summarise (laidOut_of_renderAll hchildren hparts hlast)
  | .subquery query embedding, _, _, d, d', sql, h, hlast => by
    rw [Expr.treeWith, render] at h
    obtain ⟨statement, _, hstatement, hend⟩ := run_bind_eq_ok_iff.mp h
    cases hend
    exact .subquery (hlast.statements i statement (statement?_of_run hstatement))
  | .bare, _, _, d, d', sql, h, _ | .raw _, _, _, d, d', sql, h, _ => by
    rw [Expr.treeWith, render] at h
    cases h

/-- The tree of a reference is laid out if the texts of its fields are allowed. -/
theorem laysOut_tree {q : Query} (ref : NodeRef)
    (hfields : ∀ i f, .field i ∈ (q.tree ref).leaves → q.fieldAt? i = some f → column i (f.text last.query.tables)) :
    scope.LaysOut column last (q.tree ref) := by
  have hunfold : ∀ n ref, (∀ i f, .field i ∈ (Tree.unfold q.nodes n ref).leaves → q.fieldAt? i = some f →
      column i (f.text last.query.tables)) → scope.LaysOut column last (Tree.unfold q.nodes n ref) := by
    intro n
    induction n with
    | zero =>
      intro ref _ d d' sql h _
      rw [Tree.unfold, render] at h
      cases h
    | succ n ih =>
      intro ref hfields
      cases hlocate : locate? q.nodes ref with
      | none =>
        rw [Tree.unfold_of_none n hlocate]
        intro d d' sql h _
        rw [render] at h
        cases h
      | some found =>
        obtain ⟨i, node⟩ := found
        have hexpr := Query.expr?_index_of_locate? hlocate
        rw [Tree.unfold_of_some n hlocate, Expr.leaves_treeWith] at hfields
        rw [Tree.unfold_of_some n hlocate]
        refine laysOut_treeWith i node.expr (fun f hf => ?_) fun child hchild => ih child fun j f hj hf => ?_
        · rw [hf] at hexpr hfields
          exact hfields i f (by simp [Expr.leaf?]) (Query.fieldAt?_eq_some_iff.mpr hexpr)
        · exact hfields j f (List.mem_append_right _ (List.mem_flatMap.mpr ⟨child, hchild, hj⟩)) hf
  exact hunfold _ ref hfields

/-- What a term of the ordering sorts by is laid out if the term is. -/
theorem LaysOut.sorted {t : Tree} (h : scope.LaysOut column last t) : scope.LaysOut column last t.sorted := by
  cases t with
  | sort expr direction =>
    intro d d' sql hrun hlast
    have hterm : (scope.render .bound (.sort expr direction)).run d =
        (.ok (sql ++ Sql.plain (" " ++ direction.text)), d') := by
      rw [render]
      exact run_bind_eq_ok_iff.mpr ⟨sql, d', hrun, rfl⟩
    generalize hwhole : sql ++ Sql.plain (" " ++ direction.text) = whole at hterm
    cases h hterm hlast with
    | sort hexpr =>
      rw [← List.append_cancel_right hwhole] at hexpr
      exact hexpr
  | _ => exact h

/-- From a stocked draft, an expression that is written out is laid out. -/
theorem LaysOut.of_writesOut {t : Tree} (h : scope.LaysOut column d t) (hd : d.Stocked)
    (hleaves : ∀ i, .subquery i ∈ t.leaves → (d.statement? i).isSome) (hsql : scope.WritesOut d t sql) :
    t.LaidOut scope.dialect column d.statement? sql := by
  obtain ⟨requested, hsql⟩ := hsql
  have hkeeps := keeps_render (scope.invariant_agrees hd fun _ => True) .bound t hleaves
  have hrun : (scope.render .bound t).run { d with requested := requested } = (.ok sql, _) := Prod.ext hsql rfl
  have hstart : d.Agrees { d with requested := requested } := ⟨rfl, rfl⟩
  exact h hrun (hkeeps.of_ok ⟨hstart, trivial⟩ hrun).1.symm.grows

/-! ## Expressions without literals -/

mutual

/-- Without literals other than null, both styles are the same. -/
theorem render_bound_eq_inline (scope : Scope) :
    (t : Tree) → (∀ v, .value v ∈ t.leaves → v = .null) → scope.render .bound t = scope.render .inline t
  | .value v, h => by
    cases h v (List.mem_singleton_self _)
    rw [render, render, literal, literal]
  | .func _ args, h | .cond _ args, h | .summarise args, h => by
    rw [render, render, renderAll_bound_eq_inline scope args h]
  | .calc _ left right, h | .cmp _ left right, h => by
    rw [render, render, render_bound_eq_inline scope (left ()) fun v hv => h v (List.mem_append_left _ hv),
      render_bound_eq_inline scope (right ()) fun v hv => h v (List.mem_append_right _ hv)]
  | .sort expr _, h => by
    rw [render, render, render_bound_eq_inline scope (expr ()) h]
  | .field .., _ | .subquery .., _ | .unknown _, _ | .broken _, _ => by rw [render, render]

theorem renderAll_bound_eq_inline (scope : Scope) : (ts : List (Unit → Tree)) →
    (∀ v, .value v ∈ Tree.leaves.leavesAll ts → v = .null) → scope.renderAll .bound ts = scope.renderAll .inline ts
  | [], _ => by rw [renderAll, renderAll]
  | t :: rest, h => by
    rw [renderAll, renderAll, render_bound_eq_inline scope (t ()) fun v hv => h v (List.mem_append_left _ hv),
      renderAll_bound_eq_inline scope rest fun v hv => h v (List.mem_append_right _ hv)]

end

/-- An expression without literals is written out with its canonical text. -/
theorem exists_writesOut_of_canonicalText {t : Tree} {text : String} (hliteral : ¬ t.HasLiteral)
    (htext : (scope.canonicalText t).run d = (.ok text, d)) : ∃ sql, scope.WritesOut d t sql ∧ sql.text = text := by
  obtain ⟨sql, d₁, hsql, hlast⟩ := run_bind_eq_ok_iff.mp htext
  cases hlast
  rw [← render_bound_eq_inline scope t (Tree.not_hasLiteral_iff.mp hliteral)] at hsql
  exact ⟨sql, ⟨d.requested, congrArg Prod.fst hsql⟩, rfl⟩

theorem WritesOut.text_eq {t : Tree} {text : String} (h : scope.WritesOut d t sql) (hliteral : ¬ t.HasLiteral)
    (htext : (scope.canonicalText t).run d = (.ok text, d)) : sql.text = text := by
  obtain ⟨requested, hsql⟩ := h
  have hagain := (replays_canonicalText scope t).again htext { d with requested := requested } ⟨.refl _, fun _ _ => id⟩
  obtain ⟨inline, d₁, hinline, hlast⟩ := run_bind_eq_ok_iff.mp hagain
  cases hlast
  rw [render_bound_eq_inline scope t (Tree.not_hasLiteral_iff.mp hliteral), hinline] at hsql
  rw [Except.ok.inj hsql]

end Scope

end ArenaSql
