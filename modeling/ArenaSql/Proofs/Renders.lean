import ArenaSql.Proofs.Outline
import ArenaSql.Proofs.Reach

/-!
# When expressions can be rendered

An unbroken expression can be rendered unless it has a node that no clause can show, a nested query without a
statement, or a negation with more than one predicate that has a text. Which predicates have a text does not depend
on how nested queries are written, nor on the values of literals.
-/

namespace ArenaSql

open Relation

/-! ## Fragments without text -/

namespace Sql

@[simp] theorem isBlank_plain (s : String) : (plain s).isBlank = s.isEmpty := by
  simp [plain, isBlank, Piece.text]

@[simp] theorem isBlank_append (a b : Sql) : isBlank (a ++ b) = (a.isBlank && b.isBlank) :=
  List.all_append

@[simp] theorem isBlank_parenthesized (sql : Sql) : sql.parenthesized.isBlank = false := by
  simp [parenthesized]

@[simp] theorem isBlank_wrap (embedding : Embedding) (sql : Sql) : (embedding.wrap sql).isBlank = false := by
  cases embedding <;> simp [Embedding.wrap]

theorem isBlank_joined {separator : String} (hseparator : separator.isEmpty = false) (parts : List Sql) :
    (joined separator parts).isBlank = (decide (parts.length ≤ 1) && parts.all isBlank) := by
  rcases parts with _ | ⟨sql, _ | ⟨next, rest⟩⟩
  · rfl
  · simp [joined]
  · simp [joined, hseparator]

end Sql

theorem Sql.all_isBlank (parts : List Sql) : parts.all isBlank = (parts.filter (!·.isBlank)).isEmpty := by
  induction parts with
  | nil => rfl
  | cons part rest ih => cases hpart : part.isBlank <;> simp [hpart, ih]

/-- Connecting fails for a negation with several predicates, and the result has a text if a predicate has one. -/
theorem CondOp.connect_eq_ok {op : CondOp} {parts : List Sql} {sql : Sql} (h : op.connect parts = .ok sql) :
    (op = .neg → (parts.filter (!·.isBlank)).length ≤ 1) ∧ sql.isBlank = parts.all Sql.isBlank := by
  have hshown : ∀ part ∈ parts.filter (!·.isBlank), part.isBlank = false :=
    fun part hpart => by simpa using (List.mem_filter.mp hpart).2
  rw [Sql.all_isBlank]
  unfold connect at h
  generalize parts.filter (!·.isBlank) = shown at h hshown ⊢
  rcases shown with _ | ⟨part, _ | ⟨next, rest⟩⟩
  · cases h
    exact ⟨fun _ => Nat.zero_le _, rfl⟩
  · refine ⟨fun _ => Nat.le_refl _, ?_⟩
    cases op with
    | neg => cases h; simp
    | conj | disj | other => cases h; exact hshown _ List.mem_cons_self
  · cases op with
    | neg => cases h
    | conj | disj | other =>
      cases h
      exact ⟨fun hneg => (by cases hneg), by simp [Sql.joined]⟩

theorem CondOp.exists_connect {op : CondOp} {parts : List Sql}
    (h : op = .neg → (parts.filter (!·.isBlank)).length ≤ 1) : ∃ sql, op.connect parts = .ok sql := by
  unfold connect
  generalize parts.filter (!·.isBlank) = shown at h ⊢
  rcases shown with _ | ⟨part, _ | ⟨next, rest⟩⟩
  · exact ⟨_, rfl⟩
  · cases op <;> exact ⟨_, rfl⟩
  · cases op with
    | neg => exact absurd (h rfl) (by simp)
    | conj | disj | other => exact ⟨_, rfl⟩

/-! ## Expressions that have a text -/

mutual

/-- Whether an expression has a text once it is rendered. -/
def Tree.hasText (sources : Sources) : Tree → Bool
  | .field _ f => !(f.text sources).isEmpty
  | .cond _ args => anyHasText sources args
  | .summarise args => 1 < args.length || anyHasText sources args
  | _ => true

def Tree.anyHasText (sources : Sources) : List (Unit → Tree) → Bool
  | [] => false
  | t :: rest => (t ()).hasText sources || anyHasText sources rest

end

theorem Tree.anyHasText_map (sources : Sources) (f : NodeRef → Tree) (refs : List NodeRef) :
    anyHasText sources (refs.map fun ref _ => f ref) = refs.any fun ref => (f ref).hasText sources := by
  induction refs with
  | nil => simp [anyHasText]
  | cons ref rest ih => simp [anyHasText, ih]

namespace View

variable {view : View} {style : Style}

theorem exists_of_renderAll {f : NodeRef → Tree} {refs : List NodeRef} {parts : List Sql}
    (h : view.renderAll style (refs.map fun ref _ => f ref) = .ok parts) :
    ∀ ref ∈ refs, ∃ sql, view.render style (f ref) = .ok sql :=
  Except.exists_mapM_eq_ok_iff.mp ⟨parts, renderAll_map ▸ h⟩

theorem forall₂_of_renderAll {p : NodeRef → Sql → Prop} {f : NodeRef → Tree} {refs : List NodeRef} {parts : List Sql}
    (h : view.renderAll style (refs.map fun ref _ => f ref) = .ok parts)
    (hp : ∀ ref ∈ refs, ∀ sql, view.render style (f ref) = .ok sql → p ref sql) : List.Forall₂ p refs parts := by
  have hself : ∀ ref ∈ refs, ref ∈ refs := fun _ href => href
  rw [renderAll_map, Except.mapM_eq_ok_iff] at h
  have hboth := (List.forall₂_and_left refs parts).mpr ⟨hself, h⟩
  exact hboth.imp fun ref sql hpair => hp ref hpair.1 sql hpair.2

/-- The parts that have a text belong to references whose expressions have one. -/
theorem length_shown_le {hasText : NodeRef → Bool} {refs : List NodeRef} {parts : List Sql}
    (h : List.Forall₂ (fun ref sql => Sql.isBlank sql = false → hasText ref) refs parts) :
    (parts.filter (!·.isBlank)).length ≤ (refs.filter hasText).length := by
  induction h with
  | nil => exact Nat.le_refl _
  | @cons ref sql refs parts hfirst _ ih =>
    cases hblank : sql.isBlank with
    | true =>
      cases htext : hasText ref with
      | true => simpa [hblank, htext] using Nat.le_succ_of_le ih
      | false => simpa [hblank, htext] using ih
    | false => simpa [hblank, hfirst hblank] using ih

theorem length_le_shown {hasText : NodeRef → Bool} {refs : List NodeRef} {parts : List Sql}
    (h : List.Forall₂ (fun ref sql => hasText ref → Sql.isBlank sql = false) refs parts) :
    (refs.filter hasText).length ≤ (parts.filter (!·.isBlank)).length := by
  induction h with
  | nil => exact Nat.le_refl _
  | @cons ref sql refs parts hfirst _ ih =>
    cases htext : hasText ref with
    | false =>
      cases hblank : sql.isBlank with
      | true => simpa [hblank, htext] using ih
      | false => simpa [hblank, htext] using Nat.le_succ_of_le ih
    | true => simpa [htext, hfirst htext] using ih

theorem any_of_shown {hasText : NodeRef → Bool} {refs : List NodeRef} {parts : List Sql}
    (h : List.Forall₂ (fun ref sql => Sql.isBlank sql = false → hasText ref) refs parts)
    (hshown : parts.all Sql.isBlank = false) : refs.any hasText := by
  have hle := length_shown_le h
  rw [Sql.all_isBlank, List.isEmpty_eq_false_iff_exists_mem] at hshown
  obtain ⟨part, hpart⟩ := hshown
  have hpos := List.length_pos_of_mem hpart
  obtain ⟨ref, href⟩ := List.exists_mem_of_length_pos (Nat.lt_of_lt_of_le hpos hle)
  exact List.any_eq_true.mpr ⟨ref, List.mem_filter.mp href⟩

theorem shown_of_any {hasText : NodeRef → Bool} {refs : List NodeRef} {parts : List Sql}
    (h : List.Forall₂ (fun ref sql => hasText ref → Sql.isBlank sql = false) refs parts)
    (hany : refs.any hasText) : parts.all Sql.isBlank = false := by
  have hle := length_le_shown h
  obtain ⟨ref, href⟩ := List.any_eq_true.mp hany
  have hpos := List.length_pos_of_mem (List.mem_filter.mpr href)
  rw [Sql.all_isBlank, List.isEmpty_eq_false_iff_exists_mem]
  exact List.exists_mem_of_length_pos (Nat.lt_of_lt_of_le hpos hle)

/-! ## What rendering needs -/

/-- What the node at a position needs to be rendered, besides what it refers to. -/
def Admits (view : View) (i : Nat) (sub : NodeRef → Tree) : Expr → Prop
  | .cond .neg args => (args.filter fun arg => (sub arg).hasText view.sources).length ≤ 1
  | .subquery .. => ∃ statement, view.nested i = .ok statement
  | .bare | .raw _ => False
  | _ => True

theorem exists_renderAll_map {p : NodeRef → Sql → Prop} {f : NodeRef → Tree} {refs : List NodeRef}
    (h : ∀ ref ∈ refs, ∃ sql, view.render style (f ref) = .ok sql ∧ p ref sql) :
    ∃ parts, view.renderAll style (refs.map fun ref _ => f ref) = .ok parts ∧ List.Forall₂ p refs parts := by
  have hrendered : ∀ ref ∈ refs, ∃ sql, view.render style (f ref) = .ok sql :=
    fun ref href => (h ref href).imp fun _ => And.left
  obtain ⟨parts, hparts⟩ := Except.exists_mapM_eq_ok_iff.mpr hrendered
  rw [← renderAll_map] at hparts
  refine ⟨parts, hparts, forall₂_of_renderAll hparts fun ref href sql hsql => ?_⟩
  obtain ⟨sql', hsql', hp⟩ := h ref href
  cases hsql.symm.trans hsql'
  exact hp

theorem exists_render_of_hasText {t : Tree} (htext : t.hasText view.sources)
    (h : ∃ sql, view.render style t = .ok sql) :
    ∃ sql, view.render style t = .ok sql ∧ (sql.isBlank = false → t.hasText view.sources) :=
  h.imp fun _ hsql => ⟨hsql, fun _ => htext⟩

/-- A node is rendered if all it refers to can be. -/
theorem exists_render_treeWith (i : Nat) {sub : NodeRef → Tree} :
    (expr : Expr) → view.Admits i sub expr →
      (∀ child ∈ expr.children, ∃ sql, view.render style (sub child) = .ok sql ∧
        (sql.isBlank = false → (sub child).hasText view.sources)) →
      ∃ sql, view.render style (expr.treeWith i sub) = .ok sql ∧
        (sql.isBlank = false → (expr.treeWith i sub).hasText view.sources)
  | .field f, _, _ => by
    refine ⟨_, by rw [Expr.treeWith, render], fun hblank => ?_⟩
    rw [Sql.isBlank_plain] at hblank
    rw [Expr.treeWith, Tree.hasText, hblank]
    rfl
  | .value v, _, _ => exists_render_of_hasText (by simp [Expr.treeWith, Tree.hasText]) ⟨_, by rw [Expr.treeWith, render]⟩
  | .func name args, _, h => by
    have h : ∀ arg ∈ args, _ := h
    obtain ⟨parts, hparts, -⟩ := exists_renderAll_map h
    exact exists_render_of_hasText (by simp [Expr.treeWith, Tree.hasText])
      ⟨_, by rw [Expr.treeWith, render, hparts]; rfl⟩
  | .calc op left right, _, h => by
    obtain ⟨l, hl, -⟩ := h left List.mem_cons_self
    obtain ⟨r, hr, -⟩ := h right (List.mem_cons_of_mem _ List.mem_cons_self)
    exact exists_render_of_hasText (by simp [Expr.treeWith, Tree.hasText])
      ⟨_, by rw [Expr.treeWith, render, hl, hr]; rfl⟩
  | .cmp op left right, _, h => by
    obtain ⟨l, hl, -⟩ := h left List.mem_cons_self
    obtain ⟨r, hr, -⟩ := h right (List.mem_cons_of_mem _ List.mem_cons_self)
    refine exists_render_of_hasText (by simp [Expr.treeWith, Tree.hasText]) ?_
    rw [Expr.treeWith, render, hl]
    cases op.nullTest? with
    | none => exact ⟨_, by rw [hr]; rfl⟩
    | some test =>
      cases (sub right).isNull with
      | true => exact ⟨_, rfl⟩
      | false => exact ⟨_, by rw [hr]; rfl⟩
  | .cond op args, hadmits, h => by
    have h : ∀ arg ∈ args, _ := h
    obtain ⟨parts, hparts, hall⟩ := exists_renderAll_map h
    have hneg : op = .neg → (parts.filter (!·.isBlank)).length ≤ 1 := by
      rintro rfl
      exact Nat.le_trans (length_shown_le hall) hadmits
    obtain ⟨sql, hsql⟩ := CondOp.exists_connect hneg
    refine ⟨sql, ?_, fun hblank => ?_⟩
    · rw [Expr.treeWith, render, hparts]
      exact hsql
    · rw [(CondOp.connect_eq_ok hsql).2] at hblank
      rw [Expr.treeWith, Tree.hasText, Tree.anyHasText_map]
      exact any_of_shown hall hblank
  | .sort expr direction, _, h => by
    obtain ⟨sql, hsql, -⟩ := h expr List.mem_cons_self
    exact exists_render_of_hasText (by simp [Expr.treeWith, Tree.hasText])
      ⟨_, by rw [Expr.treeWith, render, hsql]; rfl⟩
  | .summarise args, _, h => by
    have h : ∀ arg ∈ args, _ := h
    obtain ⟨parts, hparts, hall⟩ := exists_renderAll_map h
    refine ⟨Sql.joined ", " parts, ?_, fun hblank => ?_⟩
    · rw [Expr.treeWith, render, hparts]
      rfl
    · rw [Sql.isBlank_joined rfl, Bool.and_eq_false_iff] at hblank
      rw [Expr.treeWith, Tree.hasText, Tree.anyHasText_map, List.length_map, hall.length_eq, Bool.or_eq_true]
      rcases hblank with hlength | hblank
      · left
        simpa using hlength
      · exact Or.inr (any_of_shown hall hblank)
  | .subquery query embedding, hadmits, _ => by
    obtain ⟨statement, hstatement⟩ := hadmits
    exact exists_render_of_hasText (by simp [Expr.treeWith, Tree.hasText])
      ⟨_, by rw [Expr.treeWith, render, hstatement]; rfl⟩
  | .bare, hadmits, _ => hadmits.elim
  | .raw _, hadmits, _ => hadmits.elim

/-- A node that was rendered has what it needs, and so has all it refers to. In a text without placeholders, a
literal must not be left out of account. -/
theorem admits_of_render_treeWith (hmark : view.dialect.mark ≠ "") (i : Nat) {sub : NodeRef → Tree} :
    (expr : Expr) → (sql : Sql) → view.render style (expr.treeWith i sub) = .ok sql →
      (style = .bound ∨ ∀ v, expr = .value v → v = .null) →
      (∀ child ∈ expr.children, ∀ part, view.render style (sub child) = .ok part →
        (sub child).hasText view.sources → part.isBlank = false) →
      view.Admits i sub expr ∧ ((expr.treeWith i sub).hasText view.sources → sql.isBlank = false) ∧
        ∀ child ∈ expr.children, ∃ part, view.render style (sub child) = .ok part
  | .field f, sql, h, _, _ => by
    rw [Expr.treeWith, render] at h
    cases h
    refine ⟨trivial, fun htext => ?_, fun _ hchild => by cases hchild⟩
    rw [Expr.treeWith, Tree.hasText, Bool.not_eq_true'] at htext
    rw [Sql.isBlank_plain, htext]
  | .value v, sql, h, hvisible, _ => by
    rw [Expr.treeWith, render] at h
    cases h
    refine ⟨trivial, fun _ => ?_, fun _ hchild => by cases hchild⟩
    rcases hvisible with rfl | hnull
    · cases v with
      | null => rfl
      | _ => simpa [literal, Sql.isBlank, Piece.text] using hmark
    · rw [hnull v rfl]
      cases style <;> rfl
  | .func name args, sql, h, _, _ => by
    rw [Expr.treeWith, render] at h
    obtain ⟨parts, hparts, h⟩ := Except.bind_eq_ok_iff.mp h
    cases h
    exact ⟨trivial, fun _ => by simp, exists_of_renderAll hparts⟩
  | .calc op left right, sql, h, _, _ => by
    rw [Expr.treeWith, render] at h
    obtain ⟨l, hl, h⟩ := Except.bind_eq_ok_iff.mp h
    obtain ⟨r, hr, h⟩ := Except.bind_eq_ok_iff.mp h
    cases h
    exact ⟨trivial, fun _ => by simp, by simp [Expr.children, hl, hr]⟩
  | .cmp op left right, sql, h, _, _ => by
    rw [Expr.treeWith] at h
    obtain ⟨l, hl, h⟩ := render_cmp_eq_ok h
    rcases h with ⟨test, -, hnull, rfl⟩ | ⟨r, hr, rfl⟩
    · exact ⟨trivial, fun _ => by simp, by simp [Expr.children, hl, hnull, render]⟩
    · exact ⟨trivial, fun _ => by simp, by simp [Expr.children, hl, hr]⟩
  | .cond op args, sql, h, _, hchildren => by
    rw [Expr.treeWith, render] at h
    obtain ⟨parts, hparts, h⟩ := Except.bind_eq_ok_iff.mp h
    have htexts := forall₂_of_renderAll hparts hchildren
    obtain ⟨hneg, hblank⟩ := CondOp.connect_eq_ok h
    refine ⟨?_, fun htext => ?_, exists_of_renderAll hparts⟩
    · cases op with
      | neg => exact Nat.le_trans (length_le_shown htexts) (hneg rfl)
      | conj | disj | other => trivial
    · rw [Expr.treeWith, Tree.hasText, Tree.anyHasText_map] at htext
      rw [hblank]
      exact shown_of_any htexts htext
  | .sort expr direction, sql, h, _, _ => by
    rw [Expr.treeWith, render] at h
    obtain ⟨inside, hinside, h⟩ := Except.bind_eq_ok_iff.mp h
    cases h
    exact ⟨trivial, fun _ => by simp, by simp [Expr.children, hinside]⟩
  | .summarise args, sql, h, _, hchildren => by
    rw [Expr.treeWith, render] at h
    obtain ⟨parts, hparts, h⟩ := Except.bind_eq_ok_iff.mp h
    cases h
    have htexts := forall₂_of_renderAll hparts hchildren
    refine ⟨trivial, fun htext => ?_, exists_of_renderAll hparts⟩
    rw [Expr.treeWith, Tree.hasText, Tree.anyHasText_map, List.length_map, htexts.length_eq, Bool.or_eq_true] at htext
    rw [Sql.isBlank_joined rfl, Bool.and_eq_false_iff]
    rcases htext with hlength | htext
    · left
      simpa using hlength
    · exact Or.inr (shown_of_any htexts htext)
  | .subquery query embedding, sql, h, _, _ => by
    rw [Expr.treeWith, render] at h
    obtain ⟨statement, hstatement, h⟩ := Except.bind_eq_ok_iff.mp h
    cases h
    exact ⟨⟨statement, hstatement⟩, fun _ => by simp, fun _ hchild => by cases hchild⟩
  | .bare, sql, h, _, _ | .raw _, sql, h, _, _ => by
    rw [Expr.treeWith, render] at h
    cases h

/-! ## Whole expressions -/

/-- The node that a reference leads to has what it needs to be rendered. -/
def AdmitsAt (view : View) (q : Query) (ref : NodeRef) : Prop :=
  ∀ i node, locate? q.nodes ref = some (i, node) → view.Admits i q.tree node.expr

variable {q : Query} {ref : NodeRef}

theorem exists_render (hunbroken : (q.tree ref).Unbroken)
    (h : ∀ other, ReflTransGen q.Refers ref other → view.AdmitsAt q other) :
    ∃ sql, view.render style (q.tree ref) = .ok sql ∧ (sql.isBlank = false → (q.tree ref).hasText view.sources) := by
  revert h
  refine Query.tree_induction (p := fun ref => (∀ other, ReflTransGen q.Refers ref other → view.AdmitsAt q other) →
      ∃ sql, view.render style (q.tree ref) = .ok sql ∧ (sql.isBlank = false → (q.tree ref).hasText view.sources))
    (fun ref i node hlocate htree _ ih h => ?_) hunbroken
  rw [htree]
  refine exists_render_treeWith i node.expr (h ref .refl i node hlocate) fun child hchild => ?_
  exact ih child hchild fun other hreach => h other (.head ⟨node.expr, Query.expr?_of_locate? hlocate, hchild⟩ hreach)

theorem admits_of_render (hmark : view.dialect.mark ≠ "") (hunbroken : (q.tree ref).Unbroken)
    (hvisible : style = .bound ∨ ∀ v, .value v ∈ (q.tree ref).leaves → v = .null) {sql : Sql}
    (h : view.render style (q.tree ref) = .ok sql) :
    (∀ other, ReflTransGen q.Refers ref other → view.AdmitsAt q other) ∧
      ((q.tree ref).hasText view.sources → sql.isBlank = false) := by
  revert sql hvisible
  refine Query.tree_induction (p := fun ref =>
      (style = .bound ∨ ∀ v, .value v ∈ (q.tree ref).leaves → v = .null) → ∀ {sql : Sql},
        view.render style (q.tree ref) = .ok sql →
          (∀ other, ReflTransGen q.Refers ref other → view.AdmitsAt q other) ∧
            ((q.tree ref).hasText view.sources → sql.isBlank = false))
    (fun ref i node hlocate htree _ ih hvisible sql h => ?_) hunbroken
  rw [htree, Expr.leaves_treeWith] at hvisible
  rw [htree] at h ⊢
  -- the literals of the node are its own or those of the expressions it refers to
  have hbelow : ∀ child ∈ node.expr.children, style = .bound ∨ ∀ v, .value v ∈ (q.tree child).leaves → v = .null :=
    fun child hchild => hvisible.imp_right fun hnull v hv =>
      hnull v (List.mem_append_right _ (List.mem_flatMap.mpr ⟨child, hchild, hv⟩))
  have hhere : style = .bound ∨ ∀ v, node.expr = .value v → v = .null :=
    hvisible.imp_right fun hnull v hv => hnull v (List.mem_append_left _ (by rw [hv]; exact List.mem_singleton_self _))
  obtain ⟨hadmits, htext, hchildren⟩ := admits_of_render_treeWith hmark i node.expr sql h hhere
    fun child hchild part hpart => (ih child hchild (hbelow child hchild) hpart).2
  refine ⟨fun other hreach => ?_, htext⟩
  rcases hreach.cases_head with rfl | ⟨child, ⟨expr, hexpr, hchild⟩, hreach⟩
  · intro j node' hlocate'
    rw [hlocate] at hlocate'
    cases hlocate'
    exact hadmits
  · rw [Query.expr?_of_locate? hlocate] at hexpr
    cases hexpr
    obtain ⟨part, hpart⟩ := hchildren child hchild
    exact (ih child hchild (hbelow child hchild) hpart).1 other hreach

end View

end ArenaSql
