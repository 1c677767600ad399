import ArenaSql.Proofs.Clauses
import ArenaSql.Proofs.FreshAliases

/-!
# Expressions in two dialects

Through the views of two dialects an expression is rendered to fragments of which both or none have a text, so the
same predicates are connected and the same errors come up. The values of an expression do not depend on a dialect at
all.

Aliases do, as they are made from texts. What becomes of an argument of the grouping or a term of the ordering is
nevertheless decided by its values: without values, the text by which an alias is found is the text that is written
out. Only the number of an alias may get too long for one dialect and not for the other.
-/

namespace ArenaSql

/-! ## Results for two dialects -/

/-- The number of a generated alias got too long. -/
def Overruns {α : Type} (x : Except CompileError α) : Prop :=
  ∃ e, x = .error (.aliasNumber e)

/-- Two results are related, or the same error, or an alias number got too long for one of them. -/
inductive Concurs {α β : Type} (r : α → β → Prop) : Except CompileError α → Except CompileError β → Prop
  | ok {a : α} {b : β} : r a b → Concurs r (.ok a) (.ok b)
  | error (e : CompileError) : Concurs r (.error e) (.error e)
  | left {x : Except CompileError α} {y : Except CompileError β} : Overruns x → Concurs r x y
  | right {x : Except CompileError α} {y : Except CompileError β} : Overruns y → Concurs r x y

theorem Overruns.bind {α β : Type} {x : Except CompileError α} (h : Overruns x) (f : α → Except CompileError β) :
    Overruns (x >>= f) := by
  obtain ⟨e, rfl⟩ := h
  exact ⟨e, rfl⟩

theorem Overruns.map {α β : Type} {x : Except CompileError α} (h : Overruns x) (f : α → β) : Overruns (x.map f) := by
  obtain ⟨e, rfl⟩ := h
  exact ⟨e, rfl⟩

namespace Concurs

variable {α β γ δ : Type} {r : α → β → Prop} {s : γ → δ → Prop} {x : Except CompileError α} {y : Except CompileError β}

theorem refl (x : Except CompileError α) : Concurs Eq x x := by
  cases x with
  | ok a => exact .ok rfl
  | error e => exact .error e

theorem bind {f : α → Except CompileError γ} {g : β → Except CompileError δ} (h : Concurs r x y)
    (hnext : ∀ a b, r a b → Concurs s (f a) (g b)) : Concurs s (x >>= f) (y >>= g) := by
  cases h with
  | ok hr => exact hnext _ _ hr
  | error e => exact .error e
  | left hx => exact .left (hx.bind f)
  | right hy => exact .right (hy.bind g)

/-- Work that starts from the same result may go on differently. -/
theorem bind_refl {x : Except CompileError α} {f : α → Except CompileError γ} {g : α → Except CompileError δ}
    (hnext : ∀ a, Concurs s (f a) (g a)) : Concurs s (x >>= f) (x >>= g) :=
  (refl x).bind fun a _ h => h ▸ hnext a

theorem cases (h : Concurs r x y) :
    Overruns x ∨ Overruns y ∨ (∃ e, x = .error e ∧ y = .error e) ∨ ∃ a b, x = .ok a ∧ y = .ok b ∧ r a b := by
  cases h with
  | ok hr => exact Or.inr (Or.inr (Or.inr ⟨_, _, rfl, rfl, hr⟩))
  | error e => exact Or.inr (Or.inr (Or.inl ⟨e, rfl, rfl⟩))
  | left hx => exact Or.inl hx
  | right hy => exact Or.inr (Or.inl hy)

theorem mapM {ι : Type} {f : ι → Except CompileError α} {g : ι → Except CompileError β} {items : List ι}
    (h : ∀ item, Concurs r (f item) (g item)) : Concurs (List.Forall₂ r) (items.mapM f) (items.mapM g) := by
  induction items with
  | nil => exact .ok .nil
  | cons item rest ih =>
    rw [List.mapM_cons, List.mapM_cons]
    exact (h item).bind fun _ _ hfirst => ih.bind fun _ _ hrest => .ok (.cons hfirst hrest)

theorem imp {r' : α → β → Prop} (h : Concurs r x y) (hr : ∀ a b, r a b → r' a b) : Concurs r' x y := by
  cases h with
  | ok h => exact .ok (hr _ _ h)
  | error e => exact .error e
  | left hx => exact .left hx
  | right hy => exact .right hy

/-- Only the ways in which two results end matter if nothing is asked of them. -/
theorem of_map {x' : Except CompileError γ} {y' : Except CompileError δ} (h : Concurs s x' y')
    (hx : Overruns x ∨ x.map (fun _ => ()) = x'.map (fun _ => ()))
    (hy : Overruns y ∨ y.map (fun _ => ()) = y'.map (fun _ => ())) : Concurs (fun _ _ => True) x y := by
  rcases hx with hx | hx
  · exact .left hx
  rcases hy with hy | hy
  · exact .right hy
  cases h with
  | ok =>
    cases x <;> cases y <;> cases hx <;> cases hy
    exact .ok trivial
  | error e =>
    cases x <;> cases y <;> cases hx <;> cases hy
    exact .error e
  | left hx' =>
    obtain ⟨e, rfl⟩ := hx'
    cases x <;> cases hx
    exact .left ⟨e, rfl⟩
  | right hy' =>
    obtain ⟨e, rfl⟩ := hy'
    cases y <;> cases hy
    exact .right ⟨e, rfl⟩

end Concurs

/-! ## Fragments that both have a text, or both have none -/

def Sql.BothBlank (a b : Sql) : Prop :=
  a.isBlank = b.isBlank

theorem Sql.BothBlank.of_shown {a b : Sql} (ha : a.isBlank = false) (hb : b.isBlank = false) : a.BothBlank b :=
  ha.trans hb.symm

theorem Sql.length_shown_eq {parts parts' : List Sql} (h : List.Forall₂ Sql.BothBlank parts parts') :
    (parts.filter (!·.isBlank)).length = (parts'.filter (!·.isBlank)).length := by
  induction h with
  | nil => rfl
  | @cons a b _ _ hfirst _ ih =>
    have hblank : a.isBlank = b.isBlank := hfirst
    cases hb : b.isBlank <;> simp [hblank, hb, ih]

theorem Sql.all_isBlank_eq {parts parts' : List Sql} (h : List.Forall₂ Sql.BothBlank parts parts') :
    parts.all isBlank = parts'.all isBlank := by
  induction h with
  | nil => rfl
  | cons hfirst _ ih => rw [List.all_cons, List.all_cons, hfirst, ih]

theorem CondOp.connect_neg_of_lt {parts : List Sql} (h : 1 < (parts.filter (!·.isBlank)).length) :
    CondOp.neg.connect parts = .error .negation := by
  unfold connect
  generalize parts.filter (!·.isBlank) = shown at h ⊢
  rcases shown with _ | ⟨part, _ | ⟨next, rest⟩⟩
  · cases h
  · exact absurd h (Nat.lt_irrefl 1)
  · rfl

theorem CondOp.concurs_connect (op : CondOp) {parts parts' : List Sql} (h : List.Forall₂ Sql.BothBlank parts parts') :
    Concurs Sql.BothBlank (op.connect parts) (op.connect parts') := by
  have hlength := Sql.length_shown_eq h
  by_cases hneg : op = .neg ∧ 1 < (parts.filter (!·.isBlank)).length
  · obtain ⟨rfl, hlt⟩ := hneg
    rw [connect_neg_of_lt hlt, connect_neg_of_lt (hlength ▸ hlt)]
    exact .error _
  · have hle : op = .neg → (parts.filter (!·.isBlank)).length ≤ 1 := fun hop => Nat.le_of_not_lt fun h => hneg ⟨hop, h⟩
    obtain ⟨sql, hsql⟩ := exists_connect hle
    obtain ⟨sql', hsql'⟩ := exists_connect (hlength ▸ hle)
    rw [hsql, hsql']
    refine .ok ?_
    rw [Sql.BothBlank, (connect_eq_ok hsql).2, (connect_eq_ok hsql').2, Sql.all_isBlank_eq h]

/-! ## Expressions through two views -/

/-- The views of one query for two dialects. -/
structure View.Respells (view view' : View) : Prop where
  mark : view.dialect.mark ≠ ""
  mark' : view'.dialect.mark ≠ ""
  sources : view.sources = view'.sources
  nested : ∀ i, Concurs (fun s s' => s.values = s'.values) (view.nested i) (view'.nested i)

namespace View

variable {view view' : View} {style : Style}

theorem Respells.literal (h : view.Respells view') (style : Style) (v : Value) :
    Sql.BothBlank (view.literal style v) (view'.literal style v) := by
  cases style with
  | inline => cases v <;> rfl
  | bound =>
    cases v with
    | null => rfl
    | _ =>
      refine .of_shown ?_ ?_
      · simpa [View.literal, Sql.isBlank, Piece.text] using h.mark
      · simpa [View.literal, Sql.isBlank, Piece.text] using h.mark'

theorem bothBlank_joined {parts parts' : List Sql} (h : List.Forall₂ Sql.BothBlank parts parts') :
    Sql.BothBlank (Sql.joined ", " parts) (Sql.joined ", " parts') := by
  rw [Sql.BothBlank, Sql.isBlank_joined rfl, Sql.isBlank_joined rfl, h.length_eq, Sql.all_isBlank_eq h]

mutual

/-- For both dialects an expression is rendered to a fragment with a text, or to one without, or not at all. -/
theorem Respells.render (h : view.Respells view') (style : Style) :
    (t : Tree) → Concurs Sql.BothBlank (view.render style t) (view'.render style t)
  | .field _ f => by
    rw [View.render, View.render, h.sources]
    exact .ok rfl
  | .value v => by
    rw [View.render, View.render]
    exact .ok (h.literal style v)
  | .func name args => by
    rw [View.render, View.render]
    exact (h.renderAll style args).bind fun _ _ _ => .ok (.of_shown (by simp) (by simp))
  | .calc op left right => by
    rw [View.render, View.render]
    exact (h.render style (left ())).bind fun _ _ _ => (h.render style (right ())).bind fun _ _ _ =>
      .ok (.of_shown (by simp) (by simp))
  | .cmp op left right => by
    rw [View.render, View.render]
    refine (h.render style (left ())).bind fun _ _ _ => ?_
    split
    · exact .ok (.of_shown (by simp) (by simp))
    · exact (h.render style (right ())).bind fun _ _ _ => .ok (.of_shown (by simp) (by simp))
  | .cond op args => by
    rw [View.render, View.render]
    exact (h.renderAll style args).bind fun _ _ hparts => op.concurs_connect hparts
  | .sort expr direction => by
    rw [View.render, View.render]
    exact (h.render style (expr ())).bind fun _ _ _ => .ok (.of_shown (by simp) (by simp))
  | .summarise args => by
    rw [View.render, View.render]
    exact (h.renderAll style args).bind fun _ _ hparts => .ok (bothBlank_joined hparts)
  | .subquery i embedding => by
    rw [View.render, View.render]
    exact (h.nested i).bind fun _ _ _ => .ok (.of_shown (by simp) (by simp))
  | .unknown className => by
    rw [View.render, View.render]
    exact .error _
  | .broken fault => by
    rw [View.render, View.render]
    exact .error _

theorem Respells.renderAll (h : view.Respells view') (style : Style) :
    (ts : List (Unit → Tree)) →
      Concurs (List.Forall₂ Sql.BothBlank) (view.renderAll style ts) (view'.renderAll style ts)
  | [] => by
    rw [View.renderAll, View.renderAll]
    exact .ok .nil
  | t :: rest => by
    rw [View.renderAll, View.renderAll]
    exact (h.render style (t ())).bind fun _ _ hfirst => (h.renderAll style rest).bind fun _ _ hrest =>
      .ok (.cons hfirst hrest)

end

theorem Respells.leafValues (h : view.Respells view') (leaf : Leaf) :
    Concurs Eq (view.leafValues leaf) (view'.leafValues leaf) := by
  cases leaf with
  | subquery i => exact (h.nested i).bind fun _ _ hvalues => .ok hvalues
  | value v => cases v <;> exact .ok rfl
  | field | unknown => exact .ok rfl
  | broken fault => exact .error _

theorem Respells.anyValues (h : view.Respells view') (leaves : List Leaf) :
    Concurs Eq (view.anyValues leaves) (view'.anyValues leaves) := by
  induction leaves with
  | nil => exact .ok rfl
  | cons leaf rest ih =>
    rw [View.anyValues, View.anyValues]
    refine (h.leafValues leaf).bind fun found _ hsame => ?_
    subst hsame
    split
    · exact ih
    · exact .ok rfl

/-- From both views the same values are collected, and the same nested queries met on the way. -/
theorem Respells.collect (h : view.Respells view') (leaves : List Leaf) :
    Overruns (view.collect leaves) ∨ Overruns (view'.collect leaves) ∨
      (view.collect leaves = view'.collect leaves ∧ view.met leaves = view'.met leaves) := by
  induction leaves with
  | nil => exact Or.inr (Or.inr ⟨rfl, rfl⟩)
  | cons leaf rest ih =>
    have hcons : ∀ found, view.leafValues leaf = .ok found → view'.leafValues leaf = .ok found →
        (view.met rest = view'.met rest → view.met (leaf :: rest) = view'.met (leaf :: rest)) →
        Overruns (view.collect (leaf :: rest)) ∨ Overruns (view'.collect (leaf :: rest)) ∨
          (view.collect (leaf :: rest) = view'.collect (leaf :: rest) ∧
            view.met (leaf :: rest) = view'.met (leaf :: rest)) := by
      intro found hfound hfound' hmet
      rw [View.collect, View.collect, hfound, hfound']
      rcases ih with hx | hy | ⟨hsame, hmets⟩
      · exact Or.inl (hx.bind _)
      · exact Or.inr (Or.inl (hy.bind _))
      · exact Or.inr (Or.inr ⟨by rw [hsame], hmet hmets⟩)
    cases leaf with
    | subquery i =>
      rcases (h.nested i).cases with ⟨e, he⟩ | ⟨e, he⟩ | ⟨e, he, he'⟩ | ⟨s, s', hs, hs', hvalues⟩
      · exact Or.inl ⟨e, by rw [View.collect, View.leafValues, he]; rfl⟩
      · exact Or.inr (Or.inl ⟨e, by rw [View.collect, View.leafValues, he]; rfl⟩)
      · refine Or.inr (Or.inr ⟨?_, ?_⟩)
        · rw [View.collect, View.collect, View.leafValues, View.leafValues, he, he']
          rfl
        · rw [met, met, he, he']
      · refine hcons s.values (by rw [View.leafValues, hs]; rfl) (by rw [View.leafValues, hs', hvalues]; rfl) ?_
        intro hmets
        rw [met, met, hs, hs', hmets]
    | broken fault => exact Or.inr (Or.inr ⟨rfl, rfl⟩)
    | value v => cases v <;> exact hcons _ rfl rfl id
    | field | unknown => exact hcons _ rfl rfl id

/-! ## Expressions that may have an alias -/

mutual

/-- If an expression was rendered, the values of its leaves are known. -/
theorem exists_leafValues_of_render : (t : Tree) → (sql : Sql) → view.render style t = .ok sql →
    ∀ leaf ∈ t.leaves, ∃ values, view.leafValues leaf = .ok values
  | .field .., _, _, leaf, hleaf => by
    rw [List.mem_singleton.mp hleaf]
    exact ⟨_, rfl⟩
  | .value v, _, _, leaf, hleaf => by
    rw [List.mem_singleton.mp hleaf]
    cases v <;> exact ⟨_, rfl⟩
  | .func _ args, _, h, leaf, hleaf | .cond _ args, _, h, leaf, hleaf | .summarise args, _, h, leaf, hleaf => by
    rw [render] at h
    obtain ⟨parts, hparts, -⟩ := Except.bind_eq_ok_iff.mp h
    exact exists_leafValues_of_renderAll args parts hparts leaf hleaf
  | .calc _ left right, _, h, leaf, hleaf => by
    rw [render] at h
    obtain ⟨l, hl, h⟩ := Except.bind_eq_ok_iff.mp h
    obtain ⟨r, hr, -⟩ := Except.bind_eq_ok_iff.mp h
    rcases List.mem_append.mp hleaf with hleaf | hleaf
    · exact exists_leafValues_of_render (left ()) l hl leaf hleaf
    · exact exists_leafValues_of_render (right ()) r hr leaf hleaf
  | .cmp _ left right, _, h, leaf, hleaf => by
    obtain ⟨l, hl, h⟩ := render_cmp_eq_ok h
    rcases List.mem_append.mp hleaf with hleaf | hleaf
    · exact exists_leafValues_of_render (left ()) l hl leaf hleaf
    · rcases h with ⟨_, -, hnull, -⟩ | ⟨r, hr, -⟩
      · rw [hnull] at hleaf
        rw [List.mem_singleton.mp hleaf]
        exact ⟨_, rfl⟩
      · exact exists_leafValues_of_render (right ()) r hr leaf hleaf
  | .sort expr _, _, h, leaf, hleaf => by
    rw [render] at h
    obtain ⟨sql, hsql, -⟩ := Except.bind_eq_ok_iff.mp h
    exact exists_leafValues_of_render (expr ()) sql hsql leaf hleaf
  | .subquery i _, _, h, leaf, hleaf => by
    rw [render] at h
    obtain ⟨statement, hstatement, -⟩ := Except.bind_eq_ok_iff.mp h
    rw [List.mem_singleton.mp hleaf, leafValues, hstatement]
    exact ⟨_, rfl⟩
  | .unknown _, _, h, _, _ | .broken _, _, h, _, _ => by
    rw [render] at h
    cases h

theorem exists_leafValues_of_renderAll : (ts : List (Unit → Tree)) → (parts : List Sql) →
    view.renderAll style ts = .ok parts →
    ∀ leaf ∈ Tree.leaves.leavesAll ts, ∃ values, view.leafValues leaf = .ok values
  | [], _, _, _, hleaf => by cases hleaf
  | t :: rest, _, h, leaf, hleaf => by
    rw [renderAll] at h
    obtain ⟨sql, hsql, h⟩ := Except.bind_eq_ok_iff.mp h
    obtain ⟨parts, hparts, -⟩ := Except.bind_eq_ok_iff.mp h
    rcases List.mem_append.mp hleaf with hleaf | hleaf
    · exact exists_leafValues_of_render (t ()) sql hsql leaf hleaf
    · exact exists_leafValues_of_renderAll rest parts hparts leaf hleaf

end

mutual

/-- Without literals other than null, both styles are the same. -/
theorem render_bound_eq_inline (view : View) :
    (t : Tree) → (∀ v, .value v ∈ t.leaves → v = .null) → view.render .bound t = view.render .inline t
  | .value v, h => by
    cases h v (List.mem_singleton_self _)
    rw [render, render, literal, literal]
  | .func _ args, h | .cond _ args, h | .summarise args, h => by
    rw [render, render, renderAll_bound_eq_inline view args h]
  | .calc _ left right, h | .cmp _ left right, h => by
    rw [render, render, render_bound_eq_inline view (left ()) fun v hv => h v (List.mem_append_left _ hv),
      render_bound_eq_inline view (right ()) fun v hv => h v (List.mem_append_right _ hv)]
  | .sort expr _, h => by
    rw [render, render, render_bound_eq_inline view (expr ()) h]
  | .field .., _ | .subquery .., _ | .unknown _, _ | .broken _, _ => by rw [render, render]

theorem renderAll_bound_eq_inline (view : View) : (ts : List (Unit → Tree)) →
    (∀ v, .value v ∈ Tree.leaves.leavesAll ts → v = .null) → view.renderAll .bound ts = view.renderAll .inline ts
  | [], _ => by rw [renderAll, renderAll]
  | t :: rest, h => by
    rw [renderAll, renderAll, render_bound_eq_inline view (t ()) fun v hv => h v (List.mem_append_left _ hv),
      renderAll_bound_eq_inline view rest fun v hv => h v (List.mem_append_right _ hv)]

end

/-- An expression that an alias may stand for, as it is written out where it has none. -/
def attempt (view : View) (t : Tree) : Except CompileError Sql := do
  if ← isSimple t then view.render .bound t
  else
    let _ ← view.render .inline t
    view.render .bound t

theorem aliasOf?_eq_ok {table : AliasTable} {t : Tree} {inline : Sql} (h : view.render .inline t = .ok inline) :
    view.aliasOf? table t = .ok (table.find? inline.text) := by
  rw [aliasOf?, canonicalText, h]
  rfl

/-- An expression without an alias is written out with a fresh one. -/
theorem renderAliased_of_none {config : Config} {table : AliasTable} {t : Tree} {inline : Sql}
    (h : view.render .inline t = .ok inline) (hname : table.find? inline.text = none) :
    view.renderAliased config table t = (do
      let (name, table) ← (table.assign config inline.text).mapError .aliasNumber
      let sql ← view.render .bound t
      return (sql ++ Sql.plain (" AS " ++ name), table)) := by
  rw [renderAliased, aliasOf?_eq_ok h, hname, freshAlias, canonicalText, h]
  rfl

/-- Where an alias may stand for the expression, writing it out would have succeeded. -/
theorem renderAliased_ending {config : Config} {table : AliasTable} {t : Tree} {inline : Sql}
    (h : view.render .inline t = .ok inline)
    (hvalued : (table.find? inline.text).isSome → view.anyValues t.leaves = .ok false) :
    Overruns (view.renderAliased config table t) ∨
      (view.renderAliased config table t).map (fun _ => ()) = (view.render .bound t).map fun _ => () := by
  cases hname : table.find? inline.text with
  | some name =>
    right
    rw [render_bound_eq_inline view t fun v hv => null_of_not_anyValues (hvalued (by rw [hname]; rfl)) hv, h,
      renderAliased, aliasOf?_eq_ok h, hname]
    rfl
  | none =>
    rw [renderAliased_of_none h hname]
    cases table.assign config inline.text with
    | error e => exact Or.inl ⟨e, rfl⟩
    | ok entry =>
      right
      cases view.render .bound t <;> rfl

theorem groupItem_of_none {config : Config} {table : AliasTable} {t : Tree} {inline : Sql}
    (hsimple : isSimple t = .ok false) (h : view.render .inline t = .ok inline)
    (hname : table.find? inline.text = none) : view.groupItem config table t = view.renderAliased config table t := by
  rw [groupItem, hsimple, aliasOf?_eq_ok h, hname]
  rfl

theorem groupItem_ending (view : View) (config : Config) (table : AliasTable) (t : Tree) :
    Overruns (view.groupItem config table t) ∨
      (view.groupItem config table t).map (fun _ => ()) = (view.attempt t).map fun _ => () := by
  rw [attempt]
  rcases hsimple : isSimple t with e | _ | _
  · rw [groupItem, hsimple]
    exact Or.inr rfl
  · cases hinline : view.render .inline t with
    | error e =>
      rw [groupItem, hsimple, aliasOf?, canonicalText, hinline]
      exact Or.inr rfl
    | ok inline =>
      cases hname : table.find? inline.text with
      | none =>
        rw [groupItem_of_none hsimple hinline hname]
        exact renderAliased_ending hinline fun hsome => by rw [hname] at hsome; cases hsome
      | some name =>
        rw [groupItem, hsimple, aliasOf?_eq_ok hinline, hname]
        obtain ⟨valued, hvalued⟩ := exists_anyValues (exists_leafValues_of_render t inline hinline)
        rw [hvalued]
        cases valued with
        | true =>
          right
          cases view.render .bound t <;> rfl
        | false => exact renderAliased_ending hinline fun _ => hvalued
  · rw [groupItem, hsimple]
    right
    cases view.render .bound t <;> rfl

/-! ### Fresh aliases -/

section

variable {config : Config} {table : AliasTable} {t : Tree} {text : String}

theorem groupItem_of_free (hsimple : isSimple t = .ok false) (htext : view.canonicalText t = .ok text)
    (hname : table.find? text = none) (hfree : String.ofList (AliasTable.candidate config text) ∉ table.aliases)
    {sql : Sql} (hsql : view.render .bound t = .ok sql) :
    view.groupItem config table t =
      .ok (sql ++ Sql.plain (" AS " ++ String.ofList (AliasTable.candidate config text)),
        table.insert text (String.ofList (AliasTable.candidate config text))) := by
  obtain ⟨inline, hinline, rfl⟩ := Except.map_eq_ok_iff.mp htext
  rw [groupItem_of_none hsimple hinline hname, renderAliased_of_none hinline hname, AliasTable.assign_of_free hfree, hsql]
  rfl

theorem groupItem_of_overlong {before digits : List Char} (hsimple : isSimple t = .ok false)
    (htext : view.canonicalText t = .ok text) (hname : table.find? text = none)
    (htaken : String.ofList (AliasTable.candidate config text) ∈ table.aliases)
    (hsplit : AliasTable.splitNumber? (AliasTable.candidate config text) = some (before, digits))
    (hlong : Text.maxDigits < digits.length) :
    view.groupItem config table t = .error (.aliasNumber (.reading digits.length)) := by
  obtain ⟨inline, hinline, rfl⟩ := Except.map_eq_ok_iff.mp htext
  rw [groupItem_of_none hsimple hinline hname, renderAliased_of_none hinline hname,
    AliasTable.assign_of_overlong htaken hsplit hlong]
  rfl

end

/-- A sorted expression, as it is written out where it has no alias. -/
def attemptSorted (view : View) (expr : Unit → Tree) (direction : Direction) : Except CompileError Sql := do
  if ← isSimple (expr ()) then view.render .bound (.sort expr direction)
  else
    let _ ← view.anyValues (expr ()).leaves
    view.render .bound (.sort expr direction)

theorem orderItem_ending (view : View) (table : AliasTable) (expr : Unit → Tree) (direction : Direction) :
    (view.orderItem table (.sort expr direction)).map (fun _ => ()) =
      (view.attemptSorted expr direction).map fun _ => () := by
  rw [orderItem, attemptSorted]
  rcases isSimple (expr ()) with e | _ | _
  · rfl
  · cases hvalued : view.anyValues (expr ()).leaves with
    | error e => rfl
    | ok valued =>
      cases valued with
      | true => rfl
      | false =>
        have hsame := render_bound_eq_inline view (expr ()) fun v hv => null_of_not_anyValues hvalued hv
        simp only [bind, Except.bind, render, hsame]
        cases hinline : view.render .inline (expr ()) with
        | error e =>
          rw [aliasOf?, canonicalText, hinline]
          rfl
        | ok inline =>
          rw [aliasOf?_eq_ok hinline]
          cases table.find? inline.text <;> rfl
  · rfl

/-! ## Clauses -/

variable {q : Query}

theorem Respells.groupItem (h : view.Respells view') {config config' : Config} (table table' : AliasTable) (t : Tree) :
    Concurs (fun _ _ => True) (view.groupItem config table t) (view'.groupItem config' table' t) := by
  have hattempt : Concurs Sql.BothBlank (view.attempt t) (view'.attempt t) := by
    refine .bind_refl fun simple => ?_
    cases simple with
    | true => exact h.render .bound t
    | false => exact (h.render .inline t).bind fun _ _ _ => h.render .bound t
  exact hattempt.of_map (view.groupItem_ending config table t) (view'.groupItem_ending config' table' t)

theorem Respells.groupItems (h : view.Respells view') {config config' : Config} (table table' : AliasTable)
    (refs : List NodeRef) :
    Concurs (fun _ _ => True) (view.groupItems config q table refs) (view'.groupItems config' q table' refs) := by
  induction refs generalizing table table' with
  | nil => exact .ok trivial
  | cons ref rest ih =>
    rw [View.groupItems, View.groupItems]
    exact (h.groupItem table table' (q.tree ref)).bind fun item item' _ =>
      (ih item.2 item'.2).bind fun _ _ _ => .ok trivial

theorem Respells.orderItem (h : view.Respells view') (table table' : AliasTable) (t : Tree) :
    Concurs (fun _ _ => True) (view.orderItem table t) (view'.orderItem table' t) := by
  cases t with
  | sort expr direction =>
    have hattempt : Concurs Sql.BothBlank (view.attemptSorted expr direction) (view'.attemptSorted expr direction) := by
      refine .bind_refl fun simple => ?_
      cases simple with
      | true => exact h.render .bound _
      | false => exact (h.anyValues (expr ()).leaves).bind fun _ _ _ => h.render .bound _
    exact hattempt.of_map (Or.inr (view.orderItem_ending table expr direction))
      (Or.inr (view'.orderItem_ending table' expr direction))
  | _ => exact (h.render .bound _).imp fun _ _ _ => trivial

theorem Respells.selectClause (h : view.Respells view') :
    Concurs (fun _ _ => True) (view.selectClause q) (view'.selectClause q) := by
  have hitem : ∀ ref, Concurs (fun _ _ => True) (view.selectItem q ref) (view'.selectItem q ref) := by
    intro ref
    refine (h.render .bound (q.tree ref)).bind fun _ _ _ => ?_
    split <;> exact .ok trivial
  rw [View.selectClause, View.selectClause]
  split
  · exact .ok trivial
  · exact (Concurs.mapM hitem).bind fun _ _ _ => .ok trivial

theorem Respells.whereClause (h : view.Respells view') :
    Concurs (fun _ _ => True) (view.whereClause q) (view'.whereClause q) := by
  rw [View.whereClause, View.whereClause]
  split
  · exact .ok trivial
  · refine (h.render .bound _).bind fun _ _ _ => ?_
    split <;> split <;> exact .ok trivial

theorem Respells.groupByClause (h : view.Respells view') {config config' : Config} :
    Concurs (fun _ _ => True) (view.groupByClause config q) (view'.groupByClause config' q) := by
  refine .bind_refl fun args => ?_
  split
  · exact .ok trivial
  · exact (h.groupItems {} {} args).bind fun _ _ _ => .ok trivial

theorem Respells.havingClause (h : view.Respells view') :
    Concurs (fun _ _ => True) (view.havingClause q) (view'.havingClause q) := by
  rw [View.havingClause, View.havingClause]
  split
  · exact (h.render .bound _).bind fun _ _ _ => .ok trivial
  · exact .ok trivial

theorem Respells.orderByClause (h : view.Respells view') (table table' : AliasTable) :
    Concurs (fun _ _ => True) (view.orderByClause q table) (view'.orderByClause q table') := by
  rw [View.orderByClause, View.orderByClause]
  split
  · exact .ok trivial
  · exact (Concurs.mapM fun ref => h.orderItem table table' (q.tree ref)).bind fun _ _ _ => .ok trivial

theorem Respells.clauses (h : view.Respells view') {config config' : Config} :
    Concurs (fun _ _ => True) (view.clauses config q) (view'.clauses config' q) :=
  h.selectClause.bind fun _ _ _ => h.whereClause.bind fun _ _ _ => h.groupByClause.bind fun grouping grouping' _ =>
    h.havingClause.bind fun _ _ _ => (h.orderByClause grouping.2 grouping'.2).bind fun _ _ _ => .ok trivial

end View

end ArenaSql
