import ArenaSql.Proofs.Growth
import ArenaSql.Proofs.Outline

/-!
# Numbered placeholders

Where a query has no nested queries, a dialect that spells its placeholders by their numbers is followed by one that
spells them all alike: both take the same way, and request their placeholders at the same moments. In the fragment that
comes out of it, the placeholders have the numbers in which they were requested, from left to right and without a gap,
since each fragment that is rendered is written once or has no text.
-/

namespace ArenaSql

/-- Two lists correspond item by item, while a count goes on from `n` to `m`. -/
inductive Counted {α β : Type} (r : Nat → Nat → α → β → Prop) : Nat → Nat → List α → List β → Prop
  | nil (n : Nat) : Counted r n n [] []
  | cons {n k m : Nat} {a : α} {b : β} {as : List α} {bs : List β} :
    r n k a b → Counted r k m as bs → Counted r n m (a :: as) (b :: bs)

namespace Counted

variable {α β : Type} {r : Nat → Nat → α → β → Prop} {n k m : Nat}

theorem append {as as' : List α} {bs bs' : List β} (h : Counted r n k as bs) (h' : Counted r k m as' bs') :
    Counted r n m (as ++ as') (bs ++ bs') := by
  induction h with
  | nil => exact h'
  | cons hfirst _ ih => exact .cons hfirst (ih h')

theorem singleton {a : α} {b : β} (h : r n m a b) : Counted r n m [a] [b] :=
  .cons h (.nil m)

end Counted

/-! ## Fragments -/

/-- A piece with the next placeholder, and the piece with another one in its place. There are no placeholders where
literals are written out. -/
inductive Piece.Spells (style : Style) (spell : Nat → String) : Nat → Nat → Piece → Piece → Prop
  | plain (n : Nat) (s : String) : Spells style spell n n (.plain s) (.plain s)
  | bound (n : Nat) (v : Value) {mark : String} (hstyle : style = .bound) (hspell : spell (n + 1) ≠ "")
    (hmark : mark ≠ "") :
    Spells style spell n (n + 1) (.bound v (spell (n + 1))) (.bound v mark)

/-- In the first fragment, the placeholders have the numbers from `n + 1` to `m`. -/
def Sql.Spells (style : Style) (spell : Nat → String) : Nat → Nat → Sql → Sql → Prop :=
  Counted (Piece.Spells style spell)

namespace Sql.Spells

variable {style : Style} {spell : Nat → String} {n k m : Nat} {a b : Sql}

theorem nil (n : Nat) : Spells style spell n n [] [] :=
  Counted.nil n

theorem append {a' b' : Sql} (h : Spells style spell n k a b) (h' : Spells style spell k m a' b') :
    Spells style spell n m (a ++ a') (b ++ b') :=
  Counted.append h h'

theorem plain (n : Nat) (s : String) : Spells style spell n n (Sql.plain s) (Sql.plain s) :=
  Counted.singleton (.plain n s)

theorem parenthesized (h : Spells style spell n m a b) : Spells style spell n m a.parenthesized b.parenthesized :=
  ((plain n "(").append h).append (plain m ")")

theorem operand (t : Tree) (h : Spells style spell n m a b) : Spells style spell n m (t.operand a) (t.operand b) := by
  rw [Tree.operand, Tree.operand]
  split
  · exact h.parenthesized
  · exact h

theorem joined (separator : String) {parts parts' : List Sql} (h : Counted (Spells style spell) n m parts parts') :
    Spells style spell n m (Sql.joined separator parts) (Sql.joined separator parts') := by
  induction h with
  | nil n => exact .nil n
  | @cons n k m a b rest rest' hfirst hrest ih =>
    cases hrest with
    | nil => exact hfirst
    | cons hnext hmore => exact (hfirst.append (plain k separator)).append ih

theorem derived (q : Query) (h : Spells style spell n m a b) : Spells style spell n m (q.derived a) (q.derived b) := by
  rw [Query.derived, Query.derived]
  split
  · exact h.parenthesized.append (plain m _)
  · exact h

/-- Both fragments have a text, or none of them. -/
theorem isBlank_eq (h : Spells style spell n m a b) : a.isBlank = b.isBlank := by
  induction h with
  | nil => rfl
  | cons hfirst _ ih =>
    rw [isBlank, isBlank] at ih
    rw [isBlank, isBlank, List.all_cons, List.all_cons, ih]
    cases hfirst with
    | plain => rfl
    | bound v hstyle hspell hmark =>
      have hshown : ∀ s : String, s ≠ "" → s.isEmpty = false := fun s hs => by simpa using hs
      rw [Piece.text, Piece.text, hshown _ hspell, hshown _ hmark]

/-- A fragment without a text has no placeholders. -/
theorem eq_of_isBlank (h : Spells style spell n m a b) (hblank : a.isBlank) : m = n := by
  induction h with
  | nil => rfl
  | cons hfirst _ ih =>
    rw [isBlank, List.all_cons, Bool.and_eq_true] at hblank
    cases hfirst with
    | plain => exact ih hblank.2
    | bound v hstyle hspell hmark => exact absurd (by simpa [Piece.text] using hblank.1) hspell

/-- Where literals are written out, both fragments are the same. -/
theorem eq_of_inline (h : Spells .inline spell n m a b) : m = n ∧ a = b := by
  induction h with
  | nil => exact ⟨rfl, rfl⟩
  | cons hfirst _ ih =>
    cases hfirst with
    | plain => exact ⟨ih.1, congrArg _ ih.2⟩
    | bound v hstyle => cases hstyle

theorem shown {parts parts' : List Sql} (h : Counted (Spells style spell) n m parts parts') :
    Counted (Spells style spell) n m (parts.filter (!·.isBlank)) (parts'.filter (!·.isBlank)) := by
  induction h with
  | nil n => exact .nil n
  | @cons n k m a b rest rest' hfirst _ ih =>
    rw [List.filter_cons, List.filter_cons, ← hfirst.isBlank_eq]
    cases hblank : a.isBlank with
    | true =>
      cases hfirst.eq_of_isBlank hblank
      exact ih
    | false => exact .cons hfirst ih

theorem map_parenthesized {parts parts' : List Sql} (h : Counted (Spells style spell) n m parts parts') :
    Counted (Spells style spell) n m (parts.map Sql.parenthesized) (parts'.map Sql.parenthesized) := by
  induction h with
  | nil n => exact .nil n
  | cons hfirst _ ih => exact .cons hfirst.parenthesized ih

/-- Predicates without a text are left out on both sides. -/
theorem connect {op : CondOp} {parts parts' : List Sql} (h : Counted (Spells style spell) n m parts parts')
    {sql : Sql} (hsql : op.connect parts = .ok sql) :
    ∃ sql', op.connect parts' = .ok sql' ∧ Spells style spell n m sql sql' := by
  have hshown := shown h
  unfold CondOp.connect at hsql ⊢
  generalize parts.filter (!·.isBlank) = first at hsql hshown
  generalize parts'.filter (!·.isBlank) = second at hshown ⊢
  cases hshown with
  | nil =>
    cases hsql
    exact ⟨[], rfl, .nil n⟩
  | @cons _ k _ a b rest rest' hfirst hrest =>
    cases hrest with
    | nil =>
      cases op with
      | neg =>
        cases hsql
        exact ⟨_, rfl, (plain n "NOT ").append hfirst.parenthesized⟩
      | conj | disj | other =>
        cases hsql
        exact ⟨b, rfl, hfirst⟩
    | cons hnext hmore =>
      cases op with
      | neg => cases hsql
      | conj | disj | other =>
        cases hsql
        exact ⟨_, rfl, joined _ (map_parenthesized (.cons hfirst (.cons hnext hmore)))⟩

end Sql.Spells

/-- Both are there, and then the placeholders of the first one have these numbers, or both are not. -/
def Option.Spells (spell : Nat → String) (n m : Nat) (a b : Option Sql) : Prop :=
  Counted (Sql.Spells .bound spell) n m a.toList b.toList

/-! ## Work on drafts -/

namespace DraftM

variable {α β : Type} {q : Query} {n : Nat} {r : Nat → α → α → Prop} {r' : Nat → β → β → Prop} {work work' : DraftM α}
  {next next' : α → DraftM β}

/-- From every draft of the query with `n` requested placeholders, if the work succeeds then so does `work'`, with the
same draft of the query and with an answer that is related, given how many placeholders are requested now. -/
def Echoes (q : Query) (n : Nat) (r : Nat → α → α → Prop) (work work' : DraftM α) : Prop :=
  ∀ d d' a, d.query = q → d.requested = n → work.run d = (.ok a, d') →
    d'.query = q ∧ ∃ a', work'.run d = (.ok a', d') ∧ r d'.requested a a'

theorem Echoes.pure {a a' : α} (h : r n a a') : Echoes q n r (pure a) (Pure.pure a') := by
  intro d d' _ hquery hn hrun
  cases hrun
  exact ⟨hquery, a', rfl, hn ▸ h⟩

theorem Echoes.throw (e : CompileError) : Echoes q n r (throw e) work' := by
  intro d d' _ _ _ hrun
  cases hrun

theorem Echoes.bind (h : Echoes q n r work work')
    (hnext : ∀ m a a', r m a a' → Echoes q m r' (next a) (next' a')) :
    Echoes q n r' (work >>= next) (work' >>= next') := by
  intro d d' b hquery hn hrun
  obtain ⟨a, d₁, hfirst, hsecond⟩ := run_bind_eq_ok_iff.mp hrun
  obtain ⟨hquery₁, a', hfirst', hr⟩ := h d d₁ a hquery hn hfirst
  obtain ⟨hquery', b', hsecond', hr'⟩ := hnext d₁.requested a a' hr d₁ d' b hquery₁ rfl hsecond
  exact ⟨hquery', b', run_bind_eq_ok_iff.mpr ⟨a', d₁, hfirst', hsecond'⟩, hr'⟩

theorem Echoes.get_bind {next next' : Draft → DraftM β}
    (h : ∀ d, d.query = q → Echoes q n r' (next d) (next' d)) : Echoes q n r' (get >>= next) (get >>= next') :=
  fun d d' b hquery hn hrun => h d hquery d d' b hquery hn hrun

theorem Echoes.tree_bind {ref : NodeRef} {next next' : Tree → DraftM β}
    (h : Echoes q n r' (next (q.tree ref)) (next' (q.tree ref))) :
    Echoes q n r' (tree ref >>= next) (tree ref >>= next') := by
  intro d d' b hquery hn hrun
  subst hquery
  exact h d d' b rfl hn hrun

/-- The same answer, and no placeholder requested. -/
def Same (n m : Nat) (a a' : α) : Prop :=
  m = n ∧ a = a'

/-- After work that requests nothing and gives the same answer, work goes on from the same number. -/
theorem Echoes.same_bind (h : Echoes q n (Same n) work work')
    (hnext : ∀ a, Echoes q n r' (next a) (next' a)) : Echoes q n r' (work >>= next) (work' >>= next') := by
  refine h.bind fun m a a' hsame => ?_
  obtain ⟨rfl, rfl⟩ := hsame
  exact hnext a

end DraftM

open DraftM

/-- Two scopes that differ in the spelling of placeholders and in what becomes of nested queries. -/
structure Scope.Twins (scope scope' : Scope) : Prop where
  like : scope'.dialect.like = scope.dialect.like
  schema : scope'.schema = scope.schema
  config : scope'.config = scope.config
  spelled : ∀ k, scope.dialect.placeholder (k + 1) ≠ ""
  spelled' : ∀ k, scope'.dialect.placeholder (k + 1) ≠ ""

namespace Scope

variable {scope scope' : Scope} {q : Query} {n : Nat}

/-! ## Expressions -/

theorem echoes_literal (h : scope.Twins scope') (style : Style) (v : Value) (n : Nat) :
    Echoes q n (Sql.Spells style scope.dialect.placeholder n) (scope.literal style v) (scope'.literal style v) := by
  have hbound : Echoes q n (Sql.Spells .bound scope.dialect.placeholder n)
      (do return [.bound v (← placeholder scope.dialect)]) (do return [.bound v (← placeholder scope'.dialect)]) := by
    intro d d' sql hquery hn hrun
    subst hn
    cases hrun
    exact ⟨hquery, _, rfl, Counted.singleton (.bound _ v rfl (h.spelled _) (h.spelled' _))⟩
  cases v with
  | null => exact .pure (.plain n "NULL")
  | _ =>
    cases style with
    | inline => exact .pure (.plain n _)
    | bound => exact hbound

mutual

theorem echoes_render (h : scope.Twins scope') (style : Style) :
    (t : Tree) → (∀ i, .subquery i ∉ t.leaves) → (n : Nat) →
      Echoes q n (Sql.Spells style scope.dialect.placeholder n) (scope.render style t) (scope'.render style t)
  | .field _ f, _, n => by
    rw [render, render]
    refine .get_bind fun d hquery => ?_
    exact .pure (.plain n _)
  | .value v, _, n => by
    rw [render, render]
    exact echoes_literal h style v n
  | .func name args, ht, n => by
    rw [render, render]
    exact (echoes_renderAll h style args ht n).bind fun m _ _ hparts =>
      .pure (((Sql.Spells.plain n _).append (.joined ", " hparts)).append (.plain m ")"))
  | .calc op left right, ht, n => by
    rw [render, render]
    refine (echoes_render h style (left ()) (fun i hi => ht i (List.mem_append_left _ hi)) n).bind fun k _ _ hl => ?_
    refine (echoes_render h style (right ()) (fun i hi => ht i (List.mem_append_right _ hi)) k).bind fun m _ _ hr => ?_
    exact .pure ((hl.operand _).append (.plain k _) |>.append (hr.operand _))
  | .cmp op left right, ht, n => by
    have hspelling : op.spelling scope'.dialect = op.spelling scope.dialect := by
      cases op <;> simp only [CmpOp.spelling, h.like]
    rw [render, render, hspelling]
    refine (echoes_render h style (left ()) (fun i hi => ht i (List.mem_append_left _ hi)) n).bind fun k _ _ hl => ?_
    split
    · exact .pure ((hl.operand _).append (.plain k _))
    · refine (echoes_render h style (right ()) (fun i hi => ht i (List.mem_append_right _ hi)) k).bind fun m _ _ hr => ?_
      exact .pure ((hl.operand _).append (.plain k _) |>.append (hr.operand _))
  | .cond op args, ht, n => by
    rw [render, render]
    refine (echoes_renderAll h style args ht n).bind fun m parts parts' hparts => ?_
    cases hsql : op.connect parts with
    | error e => exact .throw e
    | ok sql =>
      obtain ⟨sql', hsql', hspells⟩ := Sql.Spells.connect hparts hsql
      rw [hsql']
      exact .pure hspells
  | .sort expr direction, ht, n => by
    rw [render, render]
    exact (echoes_render h style (expr ()) ht n).bind fun m _ _ hsql => .pure (hsql.append (.plain m _))
  | .summarise args, ht, n => by
    rw [render, render]
    exact (echoes_renderAll h style args ht n).bind fun m _ _ hparts => .pure (.joined ", " hparts)
  | .subquery index embedding, ht, n => absurd (List.mem_singleton_self _) (ht index)
  | .unknown className, _, n => by
    rw [render]
    exact .throw _
  | .broken fault, _, n => by
    rw [render]
    exact .throw _

theorem echoes_renderAll (h : scope.Twins scope') (style : Style) :
    (ts : List (Unit → Tree)) → (∀ i, .subquery i ∉ Tree.leaves.leavesAll ts) → (n : Nat) →
      Echoes q n (Counted (Sql.Spells style scope.dialect.placeholder) n) (scope.renderAll style ts)
        (scope'.renderAll style ts)
  | [], _, n => by
    rw [renderAll, renderAll]
    exact .pure (.nil n)
  | t :: rest, ht, n => by
    rw [renderAll, renderAll]
    refine (echoes_render h style (t ()) (fun i hi => ht i (List.mem_append_left _ hi)) n).bind fun k _ _ hsql => ?_
    exact (echoes_renderAll h style rest (fun i hi => ht i (List.mem_append_right _ hi)) k).bind fun m _ _ hparts =>
      .pure (.cons hsql hparts)

end

theorem echoes_leafValues (leaf : Leaf) (hleaf : ∀ i, leaf ≠ .subquery i) :
    Echoes q n (Same n) (scope.leafValues leaf) (scope'.leafValues leaf) := by
  cases leaf with
  | value v => cases v <;> exact .pure ⟨rfl, rfl⟩
  | subquery i => exact absurd rfl (hleaf i)
  | field | unknown => exact .pure ⟨rfl, rfl⟩
  | broken fault => exact .throw _

theorem echoes_collect (leaves : List Leaf) (hleaves : ∀ i, .subquery i ∉ leaves) :
    Echoes q n (Same n) (scope.collect leaves) (scope'.collect leaves) := by
  induction leaves with
  | nil => exact .pure ⟨rfl, rfl⟩
  | cons leaf rest ih =>
    refine (echoes_leafValues leaf fun i hi => hleaves i (hi ▸ List.mem_cons_self)).same_bind fun _ => ?_
    exact (ih fun i hi => hleaves i (List.mem_cons_of_mem _ hi)).same_bind fun _ => .pure ⟨rfl, rfl⟩

theorem echoes_hasValues (t : Tree) (ht : ∀ i, .subquery i ∉ t.leaves) :
    Echoes q n (Same n) (scope.hasValues t) (scope'.hasValues t) := by
  rw [hasValues_eq_anyValues, hasValues_eq_anyValues]
  generalize t.leaves = leaves at ht
  induction leaves with
  | nil => exact .pure ⟨rfl, rfl⟩
  | cons leaf rest ih =>
    refine (echoes_leafValues leaf fun i hi => ht i (hi ▸ List.mem_cons_self)).same_bind fun found => ?_
    cases found with
    | nil => exact ih fun i hi => ht i (List.mem_cons_of_mem _ hi)
    | cons => exact .pure ⟨rfl, rfl⟩

theorem echoes_valuesOfRoots (roots : List NodeRef) (hroots : ∀ i, .subquery i ∉ q.leaves roots) :
    Echoes q n (Same n) (scope.valuesOfRoots roots) (scope'.valuesOfRoots roots) := by
  induction roots with
  | nil => exact .pure ⟨rfl, rfl⟩
  | cons root rest ih =>
    rw [valuesOfRoots, valuesOfRoots]
    refine .tree_bind ?_
    rw [valuesOf_eq_collect, valuesOf_eq_collect]
    refine (echoes_collect _ fun i hi => hroots i (List.mem_append_left _ hi)).same_bind fun _ => ?_
    exact (ih fun i hi => hroots i (List.mem_append_right _ hi)).same_bind fun _ => .pure ⟨rfl, rfl⟩

theorem echoes_isSimple (t : Tree) : Echoes q n (Same n) (Scope.isSimple t) (Scope.isSimple t) := by
  rw [Scope.isSimple]
  cases t.isSimple with
  | ok b => exact .pure ⟨rfl, rfl⟩
  | error fault => exact .throw _

section

variable (h : scope.Twins scope')

include h

/-! ## Aliases -/

theorem echoes_canonicalText (t : Tree) (ht : ∀ i, .subquery i ∉ t.leaves) :
    Echoes q n (Same n) (scope.canonicalText t) (scope'.canonicalText t) := by
  refine (echoes_render h .inline t ht n).bind fun m _ _ hsql => ?_
  obtain ⟨rfl, rfl⟩ := hsql.eq_of_inline
  exact .pure ⟨rfl, rfl⟩

theorem echoes_aliasOf? (t : Tree) (ht : ∀ i, .subquery i ∉ t.leaves) :
    Echoes q n (Same n) (scope.aliasOf? t) (scope'.aliasOf? t) :=
  (echoes_canonicalText h t ht).same_bind fun _ => .get_bind fun _ _ => .pure ⟨rfl, rfl⟩

theorem echoes_freshAlias (t : Tree) (ht : ∀ i, .subquery i ∉ t.leaves) :
    Echoes q n (Same n) (scope.freshAlias t) (scope'.freshAlias t) := by
  refine (echoes_canonicalText h t ht).same_bind fun text => .get_bind fun d _ => ?_
  rw [h.config]
  cases d.aliases.assign scope.config text with
  | error e => exact .throw _
  | ok found =>
    intro d d' name hquery hn hrun
    cases hrun
    exact ⟨hquery, _, rfl, hn, rfl⟩

theorem echoes_renderAliased (t : Tree) (ht : ∀ i, .subquery i ∉ t.leaves) :
    Echoes q n (Sql.Spells .bound scope.dialect.placeholder n) (scope.renderAliased t) (scope'.renderAliased t) := by
  refine (echoes_isSimple t).same_bind fun simple => ?_
  cases simple with
  | true => exact echoes_render h .bound t ht n
  | false =>
    refine (echoes_aliasOf? h t ht).same_bind fun found => ?_
    cases found with
    | some name => exact .pure (.plain n name)
    | none =>
      refine (echoes_freshAlias h t ht).same_bind fun name => ?_
      exact (echoes_render h .bound t ht n).bind fun m _ _ hsql => .pure (hsql.append (.plain m _))

/-! ## Clauses -/

theorem echoes_selectItem (ref : NodeRef) (href : ∀ i, .subquery i ∉ (q.tree ref).leaves) :
    Echoes q n (Sql.Spells .bound scope.dialect.placeholder n) (scope.selectItem ref) (scope'.selectItem ref) := by
  refine .tree_bind ((echoes_render h .bound _ href n).bind fun m _ _ hsql => .get_bind fun d _ => ?_)
  cases (d.query.node? ref).bind (·.aliasName.filter (!·.isEmpty)) with
  | some name => exact .pure (hsql.append (.plain m _))
  | none => exact .pure hsql

theorem echoes_selectItems (refs : List NodeRef) (hrefs : ∀ ref ∈ refs, ∀ i, .subquery i ∉ (q.tree ref).leaves) :
    Echoes q n (Counted (Sql.Spells .bound scope.dialect.placeholder) n) (scope.selectItems refs)
      (scope'.selectItems refs) := by
  induction refs generalizing n with
  | nil => exact .pure (.nil n)
  | cons ref rest ih =>
    obtain ⟨href, hrest⟩ := List.forall_mem_cons.mp hrefs
    exact (echoes_selectItem h ref href).bind fun _ _ _ hsql => (ih hrest).bind fun _ _ _ hparts =>
      .pure (.cons hsql hparts)

theorem echoes_selectClause (hselect : ∀ ref ∈ q.select, ∀ i, .subquery i ∉ (q.tree ref).leaves) :
    Echoes q n (Sql.Spells .bound scope.dialect.placeholder n) scope.selectClause scope'.selectClause := by
  refine .get_bind fun d hquery => ?_
  rw [hquery]
  cases hrefs : q.select with
  | nil => exact .pure (.plain n _)
  | cons ref rest =>
    rw [hrefs] at hselect
    exact (echoes_selectItems h (ref :: rest) hselect).bind fun _ _ _ hparts =>
      .pure ((Sql.Spells.plain n _).append (.joined _ hparts))

theorem echoes_whereClause (hhead : ∀ ref ∈ q.head, ∀ i, .subquery i ∉ (q.tree ref).leaves) :
    Echoes q n (Option.Spells scope.dialect.placeholder n) scope.whereClause scope'.whereClause := by
  refine .get_bind fun d hquery => ?_
  rw [hquery]
  cases hroot : q.head with
  | none => exact .pure (.nil n)
  | some root =>
    refine .tree_bind ((echoes_render h .bound _ (hhead root hroot) n).bind fun m sql sql' hsql => ?_)
    rw [← hsql.isBlank_eq]
    cases hblank : sql.isBlank with
    | true =>
      cases hsql.eq_of_isBlank hblank
      exact .pure (.nil _)
    | false => exact .pure (.singleton ((Sql.Spells.plain n _).append hsql))

theorem echoes_havingClause (hhaving : ∀ ref ∈ shownHaving q, ∀ i, .subquery i ∉ (q.tree ref).leaves) :
    Echoes q n (Option.Spells scope.dialect.placeholder n) scope.havingClause scope'.havingClause := by
  refine .get_bind fun d hquery => ?_
  dsimp only
  rw [hquery]
  rw [shownHaving] at hhaving
  cases hsummarise : q.summarise with
  | none => exact .pure (.nil n)
  | some root =>
    cases hroot : q.having with
    | none => exact .pure (.nil n)
    | some ref =>
      have href := hhaving ref (by simp [hsummarise, hroot])
      exact .tree_bind ((echoes_render h .bound _ href n).bind fun _ _ _ hsql =>
        .pure (.singleton ((Sql.Spells.plain n _).append hsql)))

theorem echoes_groupItem (ref : NodeRef) (href : ∀ i, .subquery i ∉ (q.tree ref).leaves) :
    Echoes q n (Sql.Spells .bound scope.dialect.placeholder n) (scope.groupItem ref) (scope'.groupItem ref) := by
  refine .tree_bind ((echoes_isSimple _).same_bind fun simple => ?_)
  cases simple with
  | true => exact echoes_render h .bound _ href n
  | false =>
    refine (echoes_aliasOf? h _ href).same_bind fun found => ?_
    cases found with
    | none => exact echoes_renderAliased h _ href
    | some name =>
      refine (echoes_hasValues _ href).same_bind fun valued => ?_
      cases valued with
      | true => exact echoes_render h .bound _ href n
      | false => exact echoes_renderAliased h _ href

theorem echoes_groupItems (refs : List NodeRef) (hrefs : ∀ ref ∈ refs, ∀ i, .subquery i ∉ (q.tree ref).leaves) :
    Echoes q n (Counted (Sql.Spells .bound scope.dialect.placeholder) n) (scope.groupItems refs)
      (scope'.groupItems refs) := by
  induction refs generalizing n with
  | nil => exact .pure (.nil n)
  | cons ref rest ih =>
    obtain ⟨href, hrest⟩ := List.forall_mem_cons.mp hrefs
    exact (echoes_groupItem h ref href).bind fun _ _ _ hsql => (ih hrest).bind fun _ _ _ hparts =>
      .pure (.cons hsql hparts)

theorem echoes_groupByClause
    (hgroups : ∀ args, q.groupArgs = .ok args → ∀ ref ∈ args, ∀ i, .subquery i ∉ (q.tree ref).leaves) :
    Echoes q n (Option.Spells scope.dialect.placeholder n) scope.groupByClause scope'.groupByClause := by
  intro d d' clause hquery hn hrun
  rw [run_groupByClause, hquery] at hrun
  rw [run_groupByClause, hquery]
  cases hargs : q.groupArgs with
  | error e =>
    rw [hargs] at hrun
    cases hrun
  | ok args =>
    rw [hargs] at hrun
    have hitems := echoes_groupItems (n := n) h args (hgroups args hargs)
    cases args with
    | nil =>
      cases hrun
      exact ⟨hquery, none, rfl, hn ▸ .nil _⟩
    | cons ref rest =>
      refine Echoes.bind hitems (fun _ _ _ hparts => ?_) d d' clause hquery hn hrun
      exact .pure (.singleton ((Sql.Spells.plain n _).append (.joined _ hparts)))

theorem echoes_orderItem (ref : NodeRef) (href : ∀ i, .subquery i ∉ (q.tree ref).leaves) :
    Echoes q n (Sql.Spells .bound scope.dialect.placeholder n) (scope.orderItem ref) (scope'.orderItem ref) := by
  refine .tree_bind ?_
  generalize q.tree ref = t at href
  cases t with
  | sort expr direction =>
    have hexpr : ∀ i, .subquery i ∉ (expr ()).leaves := href
    refine (echoes_isSimple (expr ())).same_bind fun simple => ?_
    cases simple with
    | true => exact echoes_render h .bound _ href n
    | false =>
      refine (echoes_hasValues (expr ()) hexpr).same_bind fun valued => ?_
      cases valued with
      | true => exact echoes_render h .bound _ href n
      | false =>
        refine (echoes_aliasOf? h (expr ()) hexpr).same_bind fun found => ?_
        cases found with
        | some name => exact .pure (.plain n _)
        | none => exact echoes_render h .bound _ href n
  | _ => exact echoes_render h .bound _ href n

theorem echoes_orderItems (refs : List NodeRef) (hrefs : ∀ ref ∈ refs, ∀ i, .subquery i ∉ (q.tree ref).leaves) :
    Echoes q n (Counted (Sql.Spells .bound scope.dialect.placeholder) n) (scope.orderItems refs)
      (scope'.orderItems refs) := by
  induction refs generalizing n with
  | nil => exact .pure (.nil n)
  | cons ref rest ih =>
    obtain ⟨href, hrest⟩ := List.forall_mem_cons.mp hrefs
    exact (echoes_orderItem h ref href).bind fun _ _ _ hsql => (ih hrest).bind fun _ _ _ hparts =>
      .pure (.cons hsql hparts)

theorem echoes_orderByClause (horder : ∀ ref ∈ shownOrder q, ∀ i, .subquery i ∉ (q.tree ref).leaves) :
    Echoes q n (Option.Spells scope.dialect.placeholder n) scope.orderByClause scope'.orderByClause := by
  refine .get_bind fun d hquery => ?_
  dsimp only
  rw [hquery]
  split
  · exact .pure (.nil n)
  · rename_i hshown
    simp only [Bool.or_eq_true, not_or, Bool.not_eq_true, Bool.not_eq_false'] at hshown
    have hall : shownOrder q = q.order := by
      rw [shownOrder, hshown.1.1, hshown.1.2]
      rfl
    rw [hall] at horder
    exact (echoes_orderItems h q.order horder).bind fun _ _ _ hparts =>
      .pure (.singleton ((Sql.Spells.plain n _).append (.joined _ hparts)))

theorem echoes_clauses (hmeets : Meets q fun _ => False) :
    Echoes q n (Counted (Sql.Spells .bound scope.dialect.placeholder) n) scope.clauses scope'.clauses := by
  refine (echoes_selectClause h hmeets.select).bind fun k₁ _ _ hselect => ?_
  refine Echoes.bind (r := Sql.Spells .bound scope.dialect.placeholder k₁) (.get_bind fun _ _ => .pure (.plain k₁ _))
    fun k₂ _ _ hfrom => ?_
  refine (echoes_whereClause h hmeets.head).bind fun k₃ _ _ hwhere => ?_
  refine (echoes_groupByClause h hmeets.groups).bind fun k₄ _ _ hgroup => ?_
  refine (echoes_havingClause h hmeets.having).bind fun k₅ _ _ hhaving => ?_
  refine (echoes_orderByClause h hmeets.order).bind fun k₆ _ _ horder => ?_
  refine Echoes.bind (r := Option.Spells scope.dialect.placeholder k₆) (.get_bind fun d _ => ?_) fun k₇ _ _ hlimit => ?_
  · rw [h.config]
    cases d.query.limit? scope.config.countOption with
    | none => exact .pure (.nil k₆)
    | some text => exact .pure (.singleton (.plain k₆ text))
  · refine .pure (.cons hselect (.cons hfrom ?_))
    have hrest := hwhere.append (hgroup.append (hhaving.append (horder.append hlimit)))
    simpa only [List.filterMap_eq_flatMap_toList, List.flatMap_cons, List.flatMap_nil, List.append_nil, id] using hrest

/-! ## Passes -/

/-- A pass that meets no nested queries does the same, and requests nothing. -/
theorem run_pass_twin {refs : List NodeRef} {d d' : Draft} {found : List Value}
    (hplain : ∀ i, .subquery i ∉ d.query.leaves (refs.filter (!·.isNull)))
    (hrun : (scope.pass refs).run d = (.ok found, d')) :
    (scope'.pass refs).run d = (.ok found, d') ∧ d'.requested = d.requested ∧
      ∀ roots, d'.query.leaves roots = d.query.leaves roots := by
  rw [pass] at hrun ⊢
  obtain ⟨_, d₁, hresolve, hvalues⟩ := run_bind_eq_ok_iff.mp hrun
  have hd₁ : d₁.requested = d.requested ∧ ∀ roots, d₁.query.leaves roots = d.query.leaves roots := by
    obtain ⟨settled, joins, heq, -⟩ := d.query.resolveLeaves_eq scope.schema scope.config.joinType
      (d.query.leaves (refs.filter (!·.isNull)))
    rw [run_onQuery, Query.resolveTrees_eq, heq] at hresolve
    cases hfault : d.query.fault? scope.schema (d.query.leaves (refs.filter (!·.isNull))) with
    | some e =>
      rw [hfault] at hresolve
      cases hresolve
    | none =>
      rw [hfault] at hresolve
      cases hresolve
      exact ⟨rfl, fun roots => d.query.leaves_settledAt settled joins roots⟩
  have hroots : ∀ i, .subquery i ∉ d₁.query.leaves (refs.filter (!·.isNull)) := by
    rw [hd₁.2]
    exact hplain
  obtain ⟨hquery', _, hvalues', hsame, rfl⟩ := echoes_valuesOfRoots _ hroots d₁ d' found rfl rfl hvalues
  rw [h.schema, h.config]
  exact ⟨run_bind_eq_ok_iff.mpr ⟨(), d₁, hresolve, hvalues'⟩, hsame.trans hd₁.1, by rw [hquery']; exact hd₁.2⟩

theorem run_passAll_twin {parts : List (List NodeRef)} {d d' : Draft} {found : List Value}
    (hplain : ∀ refs ∈ parts, ∀ i, .subquery i ∉ d.query.leaves (refs.filter (!·.isNull)))
    (hrun : (scope.passAll parts).run d = (.ok found, d')) :
    (scope'.passAll parts).run d = (.ok found, d') ∧ d'.requested = d.requested := by
  induction parts generalizing d found with
  | nil =>
    cases hrun
    exact ⟨rfl, rfl⟩
  | cons refs rest ih =>
    obtain ⟨hrefs, hrest⟩ := List.forall_mem_cons.mp hplain
    obtain ⟨first, d₁, hfirst, hmore⟩ := run_bind_eq_ok_iff.mp hrun
    obtain ⟨more, d₂, hmore, hdone⟩ := run_bind_eq_ok_iff.mp hmore
    cases hdone
    obtain ⟨hfirst', hcount, hleaves⟩ := run_pass_twin h hrefs hfirst
    obtain ⟨hmore', hcount'⟩ := ih (d := d₁) (fun refs href i => by rw [hleaves]; exact hrest refs href i) hmore
    refine ⟨?_, hcount'.trans hcount⟩
    rw [passAll]
    exact run_bind_eq_ok_iff.mpr ⟨first, d₁, hfirst', run_bind_eq_ok_iff.mpr ⟨more, d', hmore', rfl⟩⟩

/-! ## Statements -/

omit h in
/-- Passes that succeed do so from the query with its index settled. -/
theorem run_passes_eq_ok_iff {scope : Scope} {d d' : Draft} {values : List Value} :
    scope.passes.run d = (.ok values, d') ↔ ∃ q₁, d.query.settleIndex = (q₁, none) ∧
      (scope.passAll [q₁.select, q₁.head.toList, q₁.summarise.toList, shownHaving q₁, shownOrder q₁]).run
        { d with query := q₁ } = (.ok values, d') := by
  rw [passes_eq, run_bind, run_onQuery]
  dsimp only
  rcases d.query.settleIndex with ⟨q₁, _ | e⟩
  · dsimp only
    rw [run_bind, run_get]
    dsimp only
    constructor
    · exact fun hrun => ⟨q₁, rfl, hrun⟩
    · rintro ⟨_, heq, hrun⟩
      cases heq
      exact hrun
  · constructor
    · exact fun hrun => by cases hrun
    · rintro ⟨_, heq, -⟩
      cases heq

/-- What the passes leave to the clauses has no nested queries if there are none below the live roots. -/
theorem run_passes_twin (hsteady : scope'.Steady) {n : Nat} {d : Draft} {values : List Value}
    (hplain : ∀ i, .subquery i ∉ q.leaves q.liveRoots)
    (hrun : scope.passes.run { query := q, requested := n } = (.ok values, d)) :
    scope'.passes.run { query := q, requested := n } = (.ok values, d) ∧ d.requested = n ∧
      Meets d.query fun _ => False := by
  obtain ⟨q₁, hsettled, hpasses⟩ := run_passes_eq_ok_iff.mp hrun
  have hplain₁ : ∀ i, .subquery i ∉ q₁.leaves q₁.parts.flatten := by
    have hleaves := (scope.leaves_settleIndex hsettled).1
    rw [Query.liveRoots] at hleaves
    rw [hleaves]
    exact hplain
  have hparts : ∀ refs ∈ [q₁.select, q₁.head.toList, q₁.summarise.toList, shownHaving q₁, shownOrder q₁],
      ∀ i, .subquery i ∉ q₁.leaves (refs.filter (!·.isNull)) := by
    intro refs hrefs i hi
    obtain ⟨ref, href, hi⟩ := List.mem_flatMap.mp hi
    refine hplain₁ i (List.mem_flatMap.mpr ⟨ref, ?_, hi⟩)
    exact List.mem_flatten.mpr ⟨_, List.mem_map_of_mem hrefs, href⟩
  obtain ⟨hpasses', hcount⟩ := run_passAll_twin h hparts hpasses
  refine ⟨run_passes_eq_ok_iff.mpr ⟨q₁, hsettled, hpasses'⟩, hcount, ?_⟩
  -- the passes of the steady scope are known to leave the query as it was gathered
  obtain ⟨d₁, hrun₁, -, hquery₁, -⟩ := run_passAll hsteady
    [q₁.select, q₁.head.toList, q₁.summarise.toList, shownHaving q₁, shownOrder q₁]
    (Draft.tracks_fresh scope' q₁ n)
  rw [← Query.parts] at hrun₁ hquery₁
  obtain ⟨hvalues, rfl⟩ := Prod.mk.inj (hrun₁.symm.trans hpasses')
  have hdone : (scope'.gather q₁.parts (fun _ => false) q₁).done = fun _ => false := by
    funext i
    have hi := (gather_of_ok hvalues).2 i
    simpa [hplain₁ i] using hi
  have hmeets := meets_of_gather hvalues
  rw [hdone] at hmeets hquery₁
  rw [hquery₁, overlay_none]
  exact hmeets.mono fun i hi => (by cases hi)

/-- A query without nested queries that compiles does so where placeholders are spelled alike, with the same values; and
its own placeholders are numbered in the order of the text. -/
theorem compile_twin (hsteady : scope'.Steady) {n : Nat} {statement : Statement}
    (hplain : ∀ i, .subquery i ∉ q.leaves q.liveRoots) (hresult : (scope.compile q n).result = .ok statement) :
    ∃ statement', (scope'.compile q n).result = .ok statement' ∧ statement'.values = statement.values ∧
      Sql.Spells .bound scope.dialect.placeholder n (scope.compile q n).requested statement.sql statement'.sql := by
  rw [compile] at hresult ⊢
  rw [compile]
  rcases hrun : scope.statement.run { query := q, requested := n } with ⟨_ | answer, d⟩
  · rw [hrun] at hresult
    cases hresult
  · rw [hrun] at hresult
    cases hresult
    dsimp only
    rw [Scope.statement] at hrun
    obtain ⟨values, d₁, hpasses, hrun⟩ := run_bind_eq_ok_iff.mp hrun
    obtain ⟨clauses, d₂, hclauses, hrun⟩ := run_bind_eq_ok_iff.mp hrun
    cases hrun
    obtain ⟨hpasses', hcount, hmeets⟩ := run_passes_twin h hsteady hplain hpasses
    obtain ⟨hquery, clauses', hclauses', hspells⟩ := echoes_clauses h hmeets d₁ d clauses rfl hcount hclauses
    have hrun' : scope'.statement.run { query := q, requested := n } =
        (.ok ⟨d.query.derived (Sql.joined " " clauses'), values, scope'.dialect.name⟩, d) := by
      rw [Scope.statement]
      exact run_bind_eq_ok_iff.mpr ⟨values, d₁, hpasses', run_bind_eq_ok_iff.mpr ⟨clauses', d, hclauses', rfl⟩⟩
    rw [hrun']
    exact ⟨_, rfl, rfl, .derived d.query (.joined " " hspells)⟩

end

end Scope

end ArenaSql
