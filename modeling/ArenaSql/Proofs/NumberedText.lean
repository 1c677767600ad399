import ArenaSql.Proofs.Numbering
import ArenaSql.Proofs.Placeholders

/-!
# Reading numbered placeholders

Between the breaks of a statement's text stand its words, and where no name has a placeholder in it, the words that are
placeholders are those that were requested. They stand in the text in the order in which they were requested, and each
of them stands for the value with its number.
-/

namespace ArenaSql

/-! ## Words -/

namespace Text

/-- What stands between the breaks of a text. -/
def words (s : String) : List String :=
  (s.toList.splitOnP isBreak).map String.ofList

variable {α : Type} {f : String → Option α} {s t : String}

theorem infix_of_mem_splitOnP {p : Char → Bool} {word cs : List Char} (h : word ∈ cs.splitOnP p) : word <:+: cs := by
  by_cases hbreak : ∃ c ∈ cs, p c
  · obtain ⟨c, hc, hp⟩ := hbreak
    obtain ⟨front, rest, rfl⟩ := List.append_of_mem hc
    rw [List.splitOnP_append_cons front rest hp, List.mem_append] at h
    rcases h with h | h
    · exact (infix_of_mem_splitOnP h).trans (List.prefix_append _ _).isInfix
    · exact (infix_of_mem_splitOnP h).trans ⟨front ++ [c], [], by simp⟩
  · rw [List.splitOnP_eq_singleton fun c hc => Bool.eq_false_iff.mpr fun hp => hbreak ⟨c, hc, hp⟩] at h
    cases List.mem_singleton.mp h
    exact List.infix_refl _
termination_by cs.length

theorem infix_of_mem_words {word : String} (h : word ∈ words s) : word.toList <:+: s.toList := by
  obtain ⟨cs, hcs, rfl⟩ := List.mem_map.mp h
  rw [String.toList_ofList]
  exact infix_of_mem_splitOnP hcs

theorem words_eq_singleton (h : ∀ c ∈ s.toList, isBreak c = false) : words s = [s] := by
  rw [words, List.splitOnP_eq_singleton h, List.map_singleton, String.ofList_toList]

/-- Texts with a break between them are read one after the other. -/
theorem filterMap_words_append (hf : f "" = none) (hbreak : isOpening s ∨ isClosing t) :
    (words (s ++ t)).filterMap f = (words s).filterMap f ++ (words t).filterMap f := by
  -- the break itself has an empty word on its outer side
  have hempty : ([[]].map String.ofList).filterMap f = [] := by
    rw [List.map_singleton, List.filterMap_cons_none hf, List.filterMap_nil]
  rcases hbreak with hopening | hclosing
  · obtain ⟨front, c, hc, hfront⟩ := exists_of_isOpening hopening
    rw [words, words, words, String.toList_append, hfront, List.append_assoc, List.singleton_append,
      List.splitOnP_append_cons _ _ hc, List.splitOnP_append_cons _ _ hc, List.splitOnP_nil, List.map_append,
      List.map_append, List.filterMap_append, List.filterMap_append, hempty, List.append_nil]
  · obtain ⟨c, rest, hc, hrest⟩ := exists_of_isClosing hclosing
    have ht : (c :: rest).splitOnP isBreak = [] :: rest.splitOnP isBreak :=
      List.splitOnP_append_cons [] rest hc
    rw [words, words, words, String.toList_append, hrest, List.splitOnP_append_cons _ _ hc, ht, List.map_append,
      List.filterMap_append, List.map_cons, List.filterMap_cons_none hf]

/-- A word without a break stands on one side of it. -/
theorem infix_or_infix_of_break {word front rest : List Char} {c : Char} (hc : c ∉ word)
    (h : word <:+: front ++ c :: rest) : word <:+: front ∨ word <:+: rest := by
  have hbegin : ∀ part, part <+: c :: rest → c ∉ part → part = [] := by
    intro part hpart hnot
    cases part with
    | nil => rfl
    | cons d more => exact absurd ((List.cons_prefix_cons.mp hpart).1 ▸ List.mem_cons_self) hnot
  rcases List.infix_append_iff.mp h with h | h | ⟨left, right, rfl, hleft, hright⟩
  · exact .inl h
  · rcases List.infix_cons_iff.mp h with h | h
    · rw [hbegin word h hc]
      exact .inl (List.nil_infix)
    · exact .inr h
  · rw [hbegin right hright fun hmem => hc (List.mem_append_right _ hmem), List.append_nil]
    exact .inl hleft.isInfix

end Text

open Text

/-! ## Fragments -/

namespace Piece

variable {style : Style} {spell : Nat → String} {n m : Nat} {a b : Piece}

theorem Spells.isOpening_eq (h : Spells style spell n m a b) : a.isOpening = b.isOpening := by
  cases h <;> rfl

theorem Spells.isClosing_eq (h : Spells style spell n m a b) : a.isClosing = b.isClosing := by
  cases h <;> rfl

theorem isOpening_text (h : a.isOpening) : Text.isOpening a.text := by
  cases a with
  | plain => exact h
  | bound => cases h

theorem isClosing_text (h : a.isClosing) : Text.isClosing a.text := by
  cases a with
  | plain => exact h
  | bound => cases h

end Piece

namespace Sql

/-- The placeholders from left to right, with the value that each one stands for. -/
def bindings : Sql → List (Value × String)
  | [] => []
  | .plain _ :: rest => bindings rest
  | .bound value mark :: rest => (value, mark) :: bindings rest

theorem Spells.bindings_eq {style : Style} {spell : Nat → String} {n m : Nat} {a b : Sql}
    (h : Spells style spell n m a b) :
    m = n + b.values.length ∧ a.bindings = b.values.mapIdx fun i v => (v, spell (n + i + 1)) := by
  induction h with
  | nil => exact ⟨rfl, rfl⟩
  | cons hfirst _ ih =>
    cases hfirst with
    | plain => exact ih
    | bound v =>
      obtain ⟨hcount, hbindings⟩ := ih
      rw [bindings, values, hbindings, List.mapIdx_cons, List.length_cons]
      refine ⟨by omega, congrArg _ (congrArg (List.mapIdx · _) ?_)⟩
      funext i v
      rw [Nat.add_right_comm _ 1 i, Nat.add_assoc _ i 1]

/-- The numbers of the placeholders, if they can be told. -/
theorem Spells.filterMap_bindings {style : Style} {spell : Nat → String} {n m : Nat} {a b : Sql}
    {number : String → Option Nat} (hnumber : ∀ k, number (spell (k + 1)) = some (k + 1))
    (h : Spells style spell n m a b) :
    a.bindings.filterMap (fun binding => number binding.2) = List.range' (n + 1) b.values.length := by
  induction h with
  | nil => rfl
  | cons hfirst _ ih =>
    cases hfirst with
    | plain => exact ih
    | bound v => rw [bindings, values, List.filterMap_cons, hnumber, ih, List.length_cons, List.range'_succ]

theorem Spells.exists_of_bound {style : Style} {spell : Nat → String} {n m : Nat} {a b : Sql} {v : Value}
    {mark : String} (h : Spells style spell n m a b) (hmark : .bound v mark ∈ a) : ∃ k, mark = spell (k + 1) := by
  induction h with
  | nil => cases hmark
  | cons hfirst _ ih =>
    rcases List.mem_cons.mp hmark with rfl | hmark
    · cases hfirst
      exact ⟨_, rfl⟩
    · exact ih hmark

theorem Spells.quiet {F : String → Prop} {style : Style} {spell : Nat → String} {n m : Nat} {a b : Sql}
    (h : Spells style spell n m a b) (hb : b.Quiet F) : a.Quiet F := by
  induction h with
  | nil => exact .nil
  | cons hfirst hrest ih =>
    have htail := ih ⟨fun s hs => hb.plain s (List.mem_cons_of_mem _ hs), hb.apart.tail⟩
    refine ⟨fun s hs => ?_, List.isChain_cons.mpr ⟨fun second hsecond => ?_, htail.apart⟩⟩
    · rcases List.mem_cons.mp hs with rfl | hs
      · cases hfirst
        exact hb.plain s List.mem_cons_self
      · exact htail.plain s hs
    · cases hrest with
      | nil => cases hsecond
      | cons hnext =>
        cases Option.mem_some_iff.mp hsecond
        rw [Piece.Apart, hfirst.isOpening_eq, hnext.isClosing_eq]
        exact (List.isChain_cons_cons.mp hb.apart).1

/-- In a fragment whose pieces are set off against each other, only the placeholders are read. -/
theorem Quiet.filterMap_words {α : Type} {F : String → Prop} {f : String → Option α} {sql : Sql} (hf : f "" = none)
    (hplain : ∀ s, F s ∨ s = " % " → (words s).filterMap f = []) (h : sql.Quiet F)
    (hmarks : ∀ v mark, .bound v mark ∈ sql → words mark = [mark]) :
    (words sql.text).filterMap f = sql.bindings.filterMap fun binding => f binding.2 := by
  have hempty : (words "").filterMap f = [] := List.filterMap_cons_none hf
  induction sql with
  | nil => exact hempty
  | cons piece rest ih =>
    have htail := ih ⟨fun s hs => h.plain s (List.mem_cons_of_mem _ hs), h.apart.tail⟩
      fun v mark hmark => hmarks v mark (List.mem_cons_of_mem _ hmark)
    have hread : (words (Sql.text (piece :: rest))).filterMap f =
        (words piece.text).filterMap f ++ (words (Sql.text rest)).filterMap f := by
      rw [text_cons]
      cases rest with
      | nil => rw [text_nil, String.append_empty, hempty, List.append_nil]
      | cons next more =>
        refine filterMap_words_append hf ((List.isChain_cons_cons.mp h.apart).1.imp Piece.isOpening_text fun hnext => ?_)
        rw [text_cons]
        exact isClosing_append (Piece.isClosing_text hnext) _
    rw [hread, htail]
    cases piece with
    | plain s => rw [Piece.text, hplain s (h.plain s List.mem_cons_self), List.nil_append, bindings]
    | bound v mark =>
      rw [Piece.text, hmarks v mark List.mem_cons_self, bindings, List.filterMap_cons, List.filterMap_cons]
      cases f mark <;> rfl

end Sql

/-! ## Statements -/

/-- The characters of fixed words, of numbers and of generated aliases. -/
def Context.isOrdinary (context : Context) (c : Char) : Bool :=
  isBasicChar c || context.config.emptyAliasBase.toList.contains c || context.config.aliasSuffix.toList.contains c

/-- The text has no placeholder of the dialect in it. -/
def Dialect.Avoids (d : Dialect) (s : String) : Prop :=
  ∀ k, 0 < k → ¬ (d.placeholder k).toList <:+: s.toList

/-- The number of a placeholder can be read off it, and no placeholder can be taken for other words of the statement or
for a part of them. -/
structure Query.Legible (q : Query) (context : Context) (number : String → Option Nat) : Prop where
  numbered : ∀ word k, number word = some k ↔ 0 < k ∧ context.dialect.placeholder k = word
  unbroken : ∀ k, 0 < k → ∀ c ∈ (context.dialect.placeholder k).toList, isBreak c = false
  marked : ∀ k, 0 < k → ∃ c ∈ (context.dialect.placeholder k).toList, context.isOrdinary c = false
  named : ∀ s ∈ "%" :: (context.names ++ q.names), context.dialect.Avoids s

/-- The context with the same placeholder for all numbers. -/
def Context.steady (context : Context) : Context :=
  { context with dialect := { context.dialect with placeholder := fun _ => "?" } }

namespace Query.Legible

variable {q : Query} {context : Context} {number : String → Option Nat} (h : q.Legible context number)

include h

theorem wording : Wording context.isOrdinary context.dialect.Avoids where
  basic c hc := by rw [Context.isOrdinary, hc, Bool.true_or, Bool.true_or]
  chars s hs k hk hmark := by
    obtain ⟨c, hc, hordinary⟩ := h.marked k hk
    exact absurd (List.all_eq_true.mp hs c (hmark.subset hc)) (Bool.eq_false_iff.mp hordinary)
  part s t hpart hs k hk hmark := hs k hk (hmark.trans hpart)
  across s t c hc hs ht k hk hmark := by
    rw [Dialect.Avoids, String.toList_ofList] at hs ht
    rw [String.toList_ofList] at hmark
    have hnot : c ∉ (context.dialect.placeholder k).toList :=
      fun hmem => Bool.eq_false_iff.mp (h.unbroken k hk c hmem) hc
    exact (infix_or_infix_of_break hnot hmark).elim (hs k hk) (ht k hk)

theorem number_empty : number "" = none := by
  cases hnumber : number "" with
  | none => rfl
  | some k =>
    obtain ⟨hk, hempty⟩ := (h.numbered "" k).mp hnumber
    obtain ⟨c, hc, -⟩ := h.marked k hk
    rw [hempty] at hc
    cases hc

/-- Nothing is read in a text without placeholders. -/
theorem filterMap_words {s : String} (hs : context.dialect.Avoids s ∨ s = " % ") :
    (words s).filterMap number = [] := by
  have hword : ∀ word, context.dialect.Avoids word → number word = none := by
    intro word hword
    refine Option.eq_none_iff_forall_ne_some.mpr fun k hk => ?_
    obtain ⟨hpos, hmark⟩ := (h.numbered word k).mp hk
    exact hword k hpos (hmark ▸ List.infix_refl _)
  rcases hs with hs | rfl
  · refine List.filterMap_eq_nil_iff.mpr fun word hmem => hword word fun k hk hmark => ?_
    exact hs k hk (hmark.trans (infix_of_mem_words hmem))
  · have hwords : words " % " = ["", "%", ""] := by decide
    rw [hwords, List.filterMap_cons_none h.number_empty,
      List.filterMap_cons_none (hword "%" (h.named "%" List.mem_cons_self)),
      List.filterMap_cons_none h.number_empty, List.filterMap_nil]

/-- Where all placeholders are spelled alike, the plain text has none of those that are numbered. -/
theorem quiet_sql {depth : Nat} {statement : Statement}
    (hstatement : ((context.steady.scope depth).outline q).2 = .ok statement) :
    statement.sql.Quiet context.dialect.Avoids := by
  obtain ⟨hcontext, hquery⟩ := List.forall_mem_append.mp (List.forall_mem_cons.mp h.named).2
  have hd : context.steady.dialect.Stateless := fun _ => rfl
  have hbase : madeOf context.isOrdinary context.config.emptyAliasBase := by
    refine List.all_eq_true.mpr fun c hc => ?_
    rw [Context.isOrdinary, List.contains_iff_mem.mpr hc, Bool.or_true, Bool.true_or]
  have hsuffix : madeOf context.isOrdinary context.config.aliasSuffix := by
    refine List.all_eq_true.mpr fun c hc => ?_
    rw [Context.isOrdinary, List.contains_iff_mem.mpr hc, Bool.or_true]
  exact Context.quiet_sql_of_wording h.wording hd hbase hsuffix hcontext (clean_iff.mpr hquery) hstatement

end Query.Legible

/-! ## Marks with numbers -/

/-- The number in decimal digits after a mark. -/
def Text.marked (mark : Char) (number : Nat) : String :=
  String.ofList (mark :: Nat.toDigits 10 number)

/-- Reads the number after a mark. -/
def Text.markedNumber? (mark : Char) (word : String) : Option Nat :=
  (some (Nat.ofDigitChars 10 word.toList.tail 0)).filter fun k => 0 < k ∧ marked mark k = word

theorem Text.markedNumber?_eq_some_iff {mark : Char} {word : String} {k : Nat} :
    markedNumber? mark word = some k ↔ 0 < k ∧ marked mark k = word := by
  rw [markedNumber?, Option.filter_eq_some_iff, Option.some_inj, decide_eq_true_iff]
  refine and_iff_right_of_imp fun h => ?_
  rw [← h.2, marked, String.toList_ofList, List.tail_cons, Nat.ofDigitChars_toDigits (by decide) (by decide)]

/-- Placeholders are legible if they are numbers after a mark that is in no name. -/
theorem Query.legible_of_marked {q : Query} {context : Context} {mark : Char}
    (hdialect : ∀ k, context.dialect.placeholder k = marked mark k) (hordinary : context.isOrdinary mark = false)
    (hnames : ∀ s ∈ "%" :: (context.names ++ q.names), mark ∉ s.toList) :
    q.Legible context (markedNumber? mark) := by
  have hchars : ∀ k, (context.dialect.placeholder k).toList = mark :: Nat.toDigits 10 k := by
    intro k
    rw [hdialect, marked, String.toList_ofList]
  refine ⟨fun word k => ?_, fun k _ c hc => ?_, fun k _ => ⟨mark, ?_, hordinary⟩, fun s hs k _ hmark => ?_⟩
  · rw [hdialect]
    exact markedNumber?_eq_some_iff
  · rw [hchars] at hc
    refine Bool.eq_false_iff.mpr fun hbreak => ?_
    rcases List.mem_cons.mp hc with rfl | hc
    · rw [Context.isOrdinary, isBasicChar_of_isBreak hbreak] at hordinary
      cases hordinary
    · have hdigit : c.isDigit := Nat.isDigit_of_mem_toDigits (by decide) (by decide) hc
      have hbreaks : breaks.all (!·.isDigit) := by decide
      have hother := List.all_eq_true.mp hbreaks c (List.contains_iff_mem.mp hbreak)
      rw [hdigit] at hother
      cases hother
  · rw [hchars]
    exact List.mem_cons_self
  · rw [hchars] at hmark
    exact hnames s hs (hmark.subset List.mem_cons_self)

/-! ## Numbered statements -/

/-- The statement of a query without nested queries is that of a stateless dialect, with the placeholders numbered. -/
theorem Query.exists_spells {context inner : Context} {q : Query} {statement : Statement}
    (hplain : ∀ i, .subquery i ∉ q.leaves q.liveRoots) (hspelled : ∀ k, context.dialect.placeholder (k + 1) ≠ "")
    (h : (q.compileWith context inner).result = .ok statement) :
    ∃ statement', ((context.steady.scope q.nesting).outline q).2 = .ok statement' ∧
      statement'.sql.values = statement.values ∧
      Sql.Spells .bound context.dialect.placeholder 0 (q.compileWith context inner).requested statement.sql
        statement'.sql := by
  have hd : context.steady.dialect.Stateless := fun _ => rfl
  have hmark : "?" ≠ "" := by decide
  have htwins : (context.scopeWith inner q).Twins (context.steady.scope q.nesting) :=
    ⟨rfl, rfl, rfl, hspelled, fun _ => hmark⟩
  obtain ⟨statement', hresult, hvalues, hspells⟩ :=
    Scope.compile_twin htwins (Context.steady_scope hd q.nesting) hplain h
  have houtline := (compile_eq_outline hd q).2.symm.trans hresult
  exact ⟨statement', houtline, (Context.sql_binds hd hmark houtline).values_eq.trans hvalues, hspells⟩

/-- If no nested query is below the live roots of a query, then each placeholder is requested once and in the order of
the text, whatever the dialect: the first stands for the first value, the second for the second, and so on. If the
placeholders can be read, then their numbers in the text count the values from one. -/
theorem Query.placeholders_numbered {context inner : Context} {q : Query} {statement : Statement}
    (hplain : ∀ i, .subquery i ∉ q.leaves q.liveRoots) (hspelled : ∀ k, context.dialect.placeholder (k + 1) ≠ "")
    (h : (q.compileWith context inner).result = .ok statement) :
    (q.compileWith context inner).requested = statement.values.length ∧
      statement.sql.bindings = statement.values.mapIdx (fun i v => (v, context.dialect.placeholder (i + 1))) ∧
      ∀ number, q.Legible context number →
        (words statement.text).filterMap number = List.range' 1 statement.values.length := by
  obtain ⟨statement', houtline, hvalues, hspells⟩ := exists_spells hplain hspelled h
  obtain ⟨hcount, hbindings⟩ := hspells.bindings_eq
  simp only [hvalues, Nat.zero_add] at hcount hbindings
  refine ⟨hcount, hbindings, fun number hnumber => ?_⟩
  have hquiet := hspells.quiet (hnumber.quiet_sql houtline)
  have hread : ∀ k, number (context.dialect.placeholder (k + 1)) = some (k + 1) :=
    fun k => (hnumber.numbered _ _).mpr ⟨Nat.succ_pos k, rfl⟩
  rw [Statement.text, hquiet.filterMap_words hnumber.number_empty (fun _ => hnumber.filterMap_words) ?_,
    hspells.filterMap_bindings hread, hvalues]
  intro v mark hmark
  obtain ⟨k, rfl⟩ := hspells.exists_of_bound hmark
  exact words_eq_singleton (hnumber.unbroken (k + 1) (Nat.succ_pos k))

/-- Orders in a dialect whose placeholders are numbers after a dollar sign. -/
def Context.dollarOrders : Context :=
  { Context.orders with dialect := .custom "dollar" "$#" fun _ => none }

/-- The remainders of the totals above a hundred, with large sums only, from the largest to the smallest. -/
def Query.largeRemainders : Query where
  nodes :=
    [{ expr := .field { name := .text "total" } }, { expr := .value (.int 10) },
     { expr := .calc .mod (.index 0) (.index 1) }, { expr := .summarise [.index 2, .index 2] },
     { expr := .value (.int 100) }, { expr := .cmp .gt (.index 0) (.index 4) },
     { expr := .func "SUM" [.index 0] }, { expr := .value (.int 1000) },
     { expr := .cmp .gt (.index 6) (.index 7) }, { expr := .sort (.index 2) .desc }]
  select := [.index 2]
  head := some (.index 5)
  summarise := some (.index 3)
  having := some (.index 8)
  order := [.index 9]
  ordered := true
  tables := { table := "orders" }

theorem Query.placeholders_largeRemainders :
    ∃ statement, (largeRemainders.compileWith .dollarOrders .orders).result = .ok statement ∧
      statement.text = "SELECT total % $1 FROM orders WHERE total > $2 GROUP BY total % $3 AS total_alias, total % $4 " ++
        "HAVING SUM(total) > $5 ORDER BY total % $6 DESC" ∧
      (largeRemainders.compileWith .dollarOrders .orders).requested = 6 ∧
      statement.sql.bindings = [(.int 10, "$1"), (.int 100, "$2"), (.int 10, "$3"), (.int 10, "$4"), (.int 1000, "$5"),
        (.int 10, "$6")] ∧
      (words statement.text).filterMap (markedNumber? '$') = [1, 2, 3, 4, 5, 6] := by
  have heval : (largeRemainders.compileWith .dollarOrders .orders).result.toOption.map (fun s => (s.text, s.values)) =
      some ("SELECT total % $1 FROM orders WHERE total > $2 GROUP BY total % $3 AS total_alias, total % $4 " ++
        "HAVING SUM(total) > $5 ORDER BY total % $6 DESC",
        [.int 10, .int 100, .int 10, .int 10, .int 1000, .int 10]) := by decide +kernel
  obtain ⟨statement, hresult, hstatement⟩ := Option.map_eq_some_iff.mp heval
  obtain ⟨htext, hvalues⟩ := Prod.mk.inj hstatement
  have hresult := Except.eq_ok_of_toOption hresult
  have hdialect : ∀ k, Context.dollarOrders.dialect.placeholder k = marked '$' k :=
    fun k => congrArg (fun digits => String.ofList ('$' :: digits)) (List.append_nil _)
  have hspelled : ∀ k, Context.dollarOrders.dialect.placeholder (k + 1) ≠ "" := by
    intro k hempty
    rw [hdialect] at hempty
    exact absurd (congrArg String.toList hempty) (by rw [marked, String.toList_ofList]; exact nofun)
  have hleaves : ∀ leaf ∈ largeRemainders.leaves largeRemainders.liveRoots, (leaf matches .subquery _) = false := by
    decide +kernel
  have hplain : ∀ i, .subquery i ∉ largeRemainders.leaves largeRemainders.liveRoots :=
    fun i hi => Bool.noConfusion (hleaves _ hi)
  obtain ⟨hcount, hbindings, hread⟩ := placeholders_numbered hplain hspelled hresult
  have hnumbers := hread _ (legible_of_marked hdialect (by decide) (by decide +kernel))
  rw [hvalues] at hcount hbindings hnumbers
  exact ⟨statement, hresult, htext, hcount, hbindings, hnumbers⟩

end ArenaSql
