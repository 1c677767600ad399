import ArenaSql.Draft.Rendering
import Mathlib.Data.List.Forall2

/-!
# Spelled expressions

Expressions of fields, literals, functions, operators and connectives, with names that are identifiers: such an
expression always has a canonical text, which is spelled here character by character. Its parentheses follow the kinds
of operands and the number of predicates, and no strength of operators is asked for.
-/

namespace ArenaSql

/-! ## Names -/

namespace Text

/-- A letter of an identifier. All characters beyond ASCII count as letters. -/
def isLetter (c : Char) : Bool :=
  c.isAlpha || c == '_' || 128 ≤ c.toNat

def isIdentifier (s : String) : Bool :=
  match s.toList with
  | [] => false
  | c :: rest => isLetter c && rest.all fun d => isLetter d || d.isDigit

/-- The words that the text of an expression may hold besides its names. -/
def reserved : List String :=
  ["NULL", "TRUE", "FALSE", "NOT", "AND", "OR", "IS", "LIKE", "ILIKE"]

/-- Whether a text may name a column or a function: an identifier or the star, alone or behind a table. -/
def isName (s : String) : Bool :=
  let ref := ColumnRef.parse s
  ref.table.all isIdentifier && (isIdentifier ref.column || ref.column == "*") && !reserved.contains s

def isWordChar (c : Char) : Bool :=
  isLetter c || c.isDigit || c == '.' || c == '*'

/-- A name as it stands in a text. -/
structure IsWord (cs : List Char) : Prop where
  starts : ∃ c rest, cs = c :: rest ∧ (isLetter c ∨ c = '*')
  chars : ∀ c ∈ cs, isWordChar c
  free : ∀ word ∈ reserved, cs ≠ word.toList

theorem exists_of_isIdentifier {s : String} (h : isIdentifier s) :
    ∃ c rest, s.toList = c :: rest ∧ isLetter c ∧ ∀ d ∈ s.toList, isWordChar d := by
  rw [isIdentifier] at h
  split at h
  · cases h
  · rename_i c rest hs
    rw [Bool.and_eq_true, List.all_eq_true] at h
    refine ⟨c, rest, hs, h.1, ?_⟩
    rw [hs, List.forall_mem_cons]
    refine ⟨by simp [isWordChar, h.1], fun d hd => ?_⟩
    have hd := h.2 d hd
    simp only [Bool.or_eq_true] at hd
    rcases hd with hd | hd <;> simp [isWordChar, hd]

/-- A column is an identifier or the star. -/
theorem exists_of_isColumn {s : String} (h : isIdentifier s ∨ s = "*") :
    ∃ c rest, s.toList = c :: rest ∧ (isLetter c ∨ c = '*') ∧ ∀ d ∈ s.toList, isWordChar d := by
  rcases h with h | rfl
  · obtain ⟨c, rest, hs, hc, hchars⟩ := exists_of_isIdentifier h
    exact ⟨c, rest, hs, Or.inl hc, hchars⟩
  · exact ⟨'*', [], rfl, Or.inr rfl, List.forall_mem_singleton.mpr (by decide)⟩

theorem isWord_column {s : String} (h : isIdentifier s ∨ s = "*") (hfree : s ∉ reserved) : IsWord s.toList := by
  obtain ⟨c, rest, hs, hc, hchars⟩ := exists_of_isColumn h
  refine ⟨⟨c, rest, hs, hc⟩, hchars, fun word hword heq => hfree ?_⟩
  rwa [String.toList_inj.mp heq]

theorem isWord_qualified {table column : String} (htable : isIdentifier table)
    (hcolumn : isIdentifier column ∨ column = "*") : IsWord (table ++ "." ++ column).toList := by
  obtain ⟨c, rest, hs, hc, hchars⟩ := exists_of_isIdentifier htable
  obtain ⟨-, -, -, -, hchars'⟩ := exists_of_isColumn hcolumn
  have htext : (table ++ "." ++ column).toList = table.toList ++ '.' :: column.toList := by simp
  refine ⟨⟨c, rest ++ '.' :: column.toList, by rw [htext, hs]; rfl, Or.inl hc⟩, ?_, fun word hword heq => ?_⟩
  · rw [htext]
    simp only [List.mem_append, List.mem_cons]
    rintro d (hd | rfl | hd)
    · exact hchars d hd
    · rfl
    · exact hchars' d hd
  · have hpoint : ∀ word ∈ reserved, '.' ∉ word.toList := by decide
    refine hpoint word hword ?_
    rw [← heq, htext]
    simp

theorem isWord_of_isName {s : String} (h : isName s) : IsWord s.toList := by
  simp only [isName, Bool.and_eq_true, Bool.or_eq_true, beq_iff_eq, Bool.not_eq_true', List.contains_eq_mem,
    decide_eq_false_iff_not] at h
  obtain ⟨⟨htable, hcolumn⟩, hfree⟩ := h
  cases hparse : (ColumnRef.parse s).table with
  | none =>
    rw [ColumnRef.parse_of_table_eq_none hparse] at hcolumn
    exact isWord_column hcolumn hfree
  | some table =>
    rw [hparse] at htable
    rw [ColumnRef.eq_of_table_parse hparse]
    exact isWord_qualified htable hcolumn

end Text

/-- A field whose name and tables are named in this way. -/
structure Field.Named (sources : Sources) (f : Field) : Prop where
  name : ∃ written, f.name = .text written ∧ Text.isName written
  table : ∀ table ∈ f.table, table = "" ∨ Text.isIdentifier table
  qualifier : sources.joins ≠ [] → Text.isIdentifier sources.qualifier

theorem Field.Named.isWord {sources : Sources} {f : Field} (h : f.Named sources) :
    Text.IsWord (f.text sources).toList := by
  obtain ⟨written, hname, hwritten⟩ := h.name
  have hword := Text.isWord_of_isName hwritten
  have hparts := hwritten
  simp only [Text.isName, Bool.and_eq_true, Bool.or_eq_true, beq_iff_eq] at hparts
  obtain ⟨⟨hbefore, hcolumn⟩, -⟩ := hparts
  rw [Field.text, hname]
  split
  · rename_i table htable
    obtain ⟨hmem, hne⟩ := Option.filter_eq_some_iff.mp htable
    have hidentifier := (h.table table hmem).resolve_left (by simpa using hne)
    exact Text.isWord_qualified hidentifier hcolumn
  · split
    · rename_i hjoins
      refine Text.isWord_qualified (h.qualifier fun hnone => ?_) hcolumn
      simp [hnone] at hjoins
    · rw [FieldName.written, ColumnRef.text]
      cases hparse : (ColumnRef.parse written).table with
      | none =>
        rw [ColumnRef.parse_of_table_eq_none hparse]
        exact hword
      | some table =>
        rw [hparse] at hbefore
        have hne : table.isEmpty = false := by
          obtain ⟨c, rest, hs, -⟩ := Text.exists_of_isIdentifier hbefore
          simp [← String.toList_eq_nil_iff, hs]
        simp only [hne, Bool.false_eq_true, if_false]
        exact Text.isWord_qualified hbefore hcolumn

/-! ## Expressions -/

/-- Null, truth values, integers and texts. -/
def Value.isBasic : Value → Bool
  | .null | .bool _ | .int _ | .str _ => true
  | _ => false

/-- Expressions whose canonical text can be read back. -/
inductive Tree.Readable (sources : Sources) : Tree → Prop
  | field (i : Nat) {f : Field} : f.Named sources → Readable sources (.field i f)
  | value {v : Value} : v.isBasic → Readable sources (.value v)
  | func {name : String} {args : List (Unit → Tree)} :
      Text.isName name → (∀ t ∈ args, Readable sources (t ())) → Readable sources (.func name args)
  | arith {op : CalcOp} {left right : Unit → Tree} : op ∈ CalcOp.all →
      Readable sources (left ()) → Readable sources (right ()) → Readable sources (.calc op left right)
  | cmp {op : CmpOp} {left right : Unit → Tree} : op ∈ CmpOp.all →
      Readable sources (left ()) → Readable sources (right ()) → Readable sources (.cmp op left right)
  | cond {op : CondOp} {args : List (Unit → Tree)} : op = .conj ∨ op = .disj → args ≠ [] →
      (∀ t ∈ args, Readable sources (t ())) → Readable sources (.cond op args)
  | neg {arg : Unit → Tree} : Readable sources (arg ()) → Readable sources (.cond .neg [arg])

/-- Predicates under a connective, where one predicate alone needs none. -/
def Tree.connected : CondOp → List (Unit → Tree) → Tree
  | .neg, parts => .cond .neg parts
  | _, [part] => part ()
  | op, parts => .cond op parts

mutual

/-- The tree without connectives of one predicate, and with every field replaced by the column that it is shown as. -/
def Tree.collapsed (sources : Sources) : Tree → Tree
  | .field _ f => .field 0 { name := .text (f.text sources) }
  | .func name args => .func name (collapsedAll sources args)
  | .calc op left right => .calc op (fun _ => (left ()).collapsed sources) (fun _ => (right ()).collapsed sources)
  | .cmp op left right => .cmp op (fun _ => (left ()).collapsed sources) (fun _ => (right ()).collapsed sources)
  | .cond op args => .connected op (collapsedAll sources args)
  | t => t

def Tree.collapsedAll (sources : Sources) : List (Unit → Tree) → List (Unit → Tree)
  | [] => []
  | t :: rest => (fun _ => (t ()).collapsed sources) :: collapsedAll sources rest

end

/-! ## Spelling -/

/-- An operand in parentheses if it is compound. -/
def Tree.enclosed (t : Tree) (cs : List Char) : List Char :=
  if t.isCompound then '(' :: cs ++ [')'] else cs

mutual

/-- The canonical text of a readable expression. -/
def Tree.spelling (sources : Sources) : Tree → List Char
  | .field _ f => (f.text sources).toList
  | .value v => v.literal.toList
  | .func name args => name.toList ++ '(' :: spellingArgs sources args
  | .calc op left right =>
    (left ()).enclosed ((left ()).spelling sources) ++ ' ' :: op.text.toList ++
      ' ' :: (right ()).enclosed ((right ()).spelling sources)
  | .cmp op left right =>
    match op.nullTest?, (right ()).isNull with
    | some test, true => (left ()).enclosed ((left ()).spelling sources) ++ ' ' :: test.toList
    | _, _ =>
      (left ()).enclosed ((left ()).spelling sources) ++ ' ' :: op.text.toList ++
        ' ' :: (right ()).enclosed ((right ()).spelling sources)
  | .cond .neg args => "NOT ".toList ++ spellingChain sources .neg args
  | .cond _ [arg] => (arg ()).spelling sources
  | .cond op args => spellingChain sources op args
  | _ => []

/-- Arguments with commas between them, up to the closing parenthesis. -/
def Tree.spellingArgs (sources : Sources) : List (Unit → Tree) → List Char
  | [] => [')']
  | [t] => (t ()).spelling sources ++ [')']
  | t :: rest => (t ()).spelling sources ++ ',' :: ' ' :: spellingArgs sources rest

/-- Predicates in parentheses with a connective between them. -/
def Tree.spellingChain (sources : Sources) (op : CondOp) : List (Unit → Tree) → List Char
  | [] => []
  | [t] => '(' :: (t ()).spelling sources ++ [')']
  | t :: rest => '(' :: (t ()).spelling sources ++ ')' :: ' ' :: op.text.toList ++ ' ' :: spellingChain sources op rest

end

theorem Tree.spellingArgs_cons_cons (sources : Sources) (t next : Unit → Tree) (rest : List (Unit → Tree)) :
    spellingArgs sources (t :: next :: rest) =
      (t ()).spelling sources ++ ',' :: ' ' :: spellingArgs sources (next :: rest) := by
  rw [spellingArgs]
  exact List.cons_ne_nil _ _

theorem Tree.spellingChain_cons_cons (sources : Sources) (op : CondOp) (t next : Unit → Tree)
    (rest : List (Unit → Tree)) :
    spellingChain sources op (t :: next :: rest) =
      '(' :: (t ()).spelling sources ++ ')' :: ' ' :: op.text.toList ++ ' ' :: spellingChain sources op (next :: rest) := by
  rw [spellingChain]
  exact List.cons_ne_nil _ _

theorem Text.toList_intText (n : Int) :
    (toString n).toList = match n with
      | .ofNat n => Nat.toDigits 10 n
      | .negSucc n => '-' :: Nat.toDigits 10 (n + 1) := by
  cases n with
  | ofNat n => exact String.toList_ofList
  | negSucc n =>
    change ("-" ++ toString (n + 1)).toList = _
    rw [String.toList_append]
    exact congrArg _ String.toList_ofList

theorem Value.literal_eq_cons {v : Value} (h : v.isBasic) : ∃ c rest, v.literal.toList = c :: rest ∧ c ≠ ')' := by
  have hdigits : ∀ n, ∃ c rest, Nat.toDigits 10 n = c :: rest ∧ c ≠ ')' := by
    intro n
    obtain ⟨c, rest, hcons⟩ := List.exists_cons_of_ne_nil (Nat.toDigits_ne_nil (n := n) (b := 10))
    refine ⟨c, rest, hcons, ?_⟩
    rintro rfl
    have hdigit := Nat.isDigit_of_mem_toDigits (by decide) (by decide) (hcons ▸ List.mem_cons_self)
    exact absurd hdigit (by decide)
  cases v with
  | null => exact ⟨_, _, rfl, by decide⟩
  | bool b => cases b <;> exact ⟨_, _, rfl, by decide⟩
  | int n =>
    rw [show (Value.int n).literal = toString n from rfl, Text.toList_intText]
    cases n with
    | ofNat n => exact hdigits n
    | negSucc n => exact ⟨_, _, rfl, by decide⟩
  | str s => exact ⟨'\'', Text.doubleQuotes s.toList ++ ['\''], String.toList_ofList, by decide⟩
  | float | list | object => cases h

namespace Tree

variable {sources : Sources}

theorem enclosed_append_eq_cons {t : Tree} {cs : List Char} (h : ∃ c rest, cs = c :: rest ∧ c ≠ ')') (more : List Char) :
    ∃ c rest, t.enclosed cs ++ more = c :: rest ∧ c ≠ ')' := by
  obtain ⟨c, rest, rfl, hc⟩ := h
  rw [enclosed]
  split
  · exact ⟨'(', _, rfl, by decide⟩
  · exact ⟨c, _, rfl, hc⟩

/-- The spelling of an expression is not empty, and no parenthesis closes at its start. -/
theorem Readable.spelling_eq_cons {t : Tree} (h : t.Readable sources) :
    ∃ c rest, t.spelling sources = c :: rest ∧ c ≠ ')' := by
  have hword : ∀ {cs}, Text.IsWord cs → ∀ more, ∃ c rest, cs ++ more = c :: rest ∧ c ≠ ')' := by
    rintro cs hcs more
    obtain ⟨c, rest, rfl, hc⟩ := hcs.starts
    refine ⟨c, rest ++ more, rfl, ?_⟩
    rintro rfl
    exact absurd hc (by decide)
  induction h with
  | field i hnamed =>
    rw [spelling, ← List.append_nil (Field.text sources _).toList]
    exact hword hnamed.isWord []
  | value hv => exact Value.literal_eq_cons hv
  | func hname =>
    rw [spelling]
    exact hword (Text.isWord_of_isName hname) _
  | arith _ _ _ ih =>
    rw [spelling, List.append_assoc]
    exact enclosed_append_eq_cons ih _
  | cmp _ _ _ ih =>
    rw [spelling]
    split
    · exact enclosed_append_eq_cons ih _
    · rw [List.append_assoc]
      exact enclosed_append_eq_cons ih _
  | @cond op args hop hne _ ih =>
    match args, hne with
    | [arg], _ => rcases hop with rfl | rfl <;> exact ih arg List.mem_cons_self
    | first :: second :: rest, _ => rcases hop with rfl | rfl <;> exact ⟨'(', _, rfl, by decide⟩
  | neg => exact ⟨'N', _, rfl, by decide⟩

theorem Readable.spelling_ne_nil {t : Tree} (h : t.Readable sources) : t.spelling sources ≠ [] := by
  obtain ⟨c, rest, hcons, -⟩ := h.spelling_eq_cons
  rw [hcons]
  exact List.cons_ne_nil _ _

end Tree

/-! ## Canonical texts -/

theorem DraftM.run_bind_of_ok {α β : Type} {work : DraftM α} {next : α → DraftM β} {d d' : Draft} {a : α}
    (h : work.run d = (.ok a, d')) : (work >>= next).run d = (next a).run d' := by
  rw [run_bind, h]

section Rendering

variable {scope : Scope} {d : Draft} {sources : Sources}

/-- The fragments spell expressions, one by one. -/
def Tree.SpelledBy (sources : Sources) : List (Unit → Tree) → List Sql → Prop :=
  List.Forall₂ fun t sql => sql.text.toList = (t ()).spelling sources

theorem Tree.SpelledBy.args {args : List (Unit → Tree)} {parts : List Sql} (h : SpelledBy sources args parts) :
    (Sql.joined ", " parts).text.toList ++ [')'] = spellingArgs sources args := by
  induction h with
  | nil => simp [Sql.joined, spellingArgs]
  | cons hfirst hrest ih =>
    cases hrest with
    | nil => simp [Sql.joined, spellingArgs, hfirst]
    | cons => simp [Sql.joined, spellingArgs, hfirst, ← ih]

theorem Tree.SpelledBy.chain {args : List (Unit → Tree)} {parts : List Sql} (h : SpelledBy sources args parts)
    (op : CondOp) : (Sql.joined (" " ++ op.text ++ " ") (parts.map Sql.parenthesized)).text.toList =
      spellingChain sources op args := by
  induction h with
  | nil => simp [Sql.joined, spellingChain]
  | cons hfirst hrest ih =>
    cases hrest with
    | nil => simp [Sql.joined, spellingChain, Sql.parenthesized, hfirst]
    | cons => simp [Sql.joined, spellingChain, Sql.parenthesized, hfirst, ← ih]

/-- Predicates that have a text are all connected. -/
theorem Tree.SpelledBy.filter {args : List (Unit → Tree)} {parts : List Sql} (h : SpelledBy sources args parts)
    (hne : ∀ t ∈ args, (t ()).spelling sources ≠ []) : parts.filter (!·.isBlank) = parts := by
  induction h with
  | nil => rfl
  | @cons t sql _ _ hfirst _ ih =>
    rw [List.forall_mem_cons] at hne
    have hblank : sql.isBlank = false := by
      rw [Bool.eq_false_iff, ne_eq, Sql.isBlank_iff, ← String.toList_eq_nil_iff, hfirst]
      exact hne.1
    rw [List.filter_cons_of_pos (by simp [hblank]), ih hne.2]

theorem Tree.SpelledBy.connect {args : List (Unit → Tree)} {parts : List Sql} (h : SpelledBy sources args parts)
    {op : CondOp} (hop : op = .conj ∨ op = .disj) (hargs : args ≠ [])
    (hne : ∀ t ∈ args, (t ()).spelling sources ≠ []) :
    ∃ sql, op.connect parts = .ok sql ∧ sql.text.toList = (Tree.cond op args).spelling sources := by
  have hchain := h.chain op
  unfold CondOp.connect
  rw [h.filter hne]
  cases h with
  | nil => exact absurd rfl hargs
  | cons hfirst hrest =>
    cases hrest with
    | nil => rcases hop with rfl | rfl <;> exact ⟨_, rfl, hfirst⟩
    | cons => rcases hop with rfl | rfl <;> exact ⟨_, rfl, hchain⟩

theorem Tree.operand_text (t : Tree) (sql : Sql) : (t.operand sql).text.toList = t.enclosed sql.text.toList := by
  rw [operand, enclosed]
  split <;> simp [Sql.parenthesized]

theorem Scope.run_renderAll_inline {args : List (Unit → Tree)}
    (h : ∀ t ∈ args, ∃ sql, (scope.render .inline (t ())).run d = (.ok sql, d) ∧
      sql.text.toList = (t ()).spelling sources) :
    ∃ parts, (scope.renderAll .inline args).run d = (.ok parts, d) ∧ Tree.SpelledBy sources args parts := by
  induction args with
  | nil => exact ⟨[], by rw [renderAll]; rfl, .nil⟩
  | cons t rest ih =>
    obtain ⟨sql, hsql, hspelled⟩ := h t List.mem_cons_self
    obtain ⟨parts, hparts, hrest⟩ := ih fun t ht => h t (List.mem_cons_of_mem _ ht)
    refine ⟨sql :: parts, ?_, .cons hspelled hrest⟩
    rw [renderAll, DraftM.run_bind_of_ok hsql, DraftM.run_bind_of_ok hparts]
    rfl

/-- The canonical text of a readable expression is its spelling. No draft is touched on the way. -/
theorem Scope.run_render_inline (hlike : ∀ op, scope.dialect.like op = op.text) {t : Tree}
    (h : t.Readable d.query.tables) :
    ∃ sql, (scope.render .inline t).run d = (.ok sql, d) ∧ sql.text.toList = t.spelling d.query.tables := by
  induction h with
  | field i hnamed =>
    refine ⟨_, by rw [render, DraftM.run_bind, DraftM.run_get]; rfl, ?_⟩
    simp [Tree.spelling]
  | value hv =>
    rename_i v
    refine ⟨Sql.plain v.literal, ?_, by simp [Tree.spelling]⟩
    rw [render]
    cases v <;> rfl
  | func hname _ ih =>
    obtain ⟨parts, hparts, hspelled⟩ := run_renderAll_inline ih
    refine ⟨_, by rw [render, DraftM.run_bind_of_ok hparts]; rfl, ?_⟩
    rw [Tree.spelling, ← hspelled.args]
    simp
  | arith hop _ _ ihleft ihright =>
    obtain ⟨l, hl, hleft⟩ := ihleft
    obtain ⟨r, hr, hright⟩ := ihright
    refine ⟨_, by rw [render, DraftM.run_bind_of_ok hl, DraftM.run_bind_of_ok hr]; rfl, ?_⟩
    simp [Tree.spelling, Tree.operand_text, hleft, hright]
  | cmp hop _ _ ihleft ihright =>
    rename_i op left right _ _
    obtain ⟨l, hl, hleft⟩ := ihleft
    obtain ⟨r, hr, hright⟩ := ihright
    have hspelling : op.spelling scope.dialect = op.text := by
      cases op with
      | like word => exact hlike word
      | _ => rfl
    rw [render, Tree.spelling, DraftM.run_bind_of_ok hl]
    -- both sides of the goal look at the null test
    cases op.nullTest? with
    | none =>
      refine ⟨_, DraftM.run_bind_of_ok hr, ?_⟩
      simp [Tree.operand_text, hleft, hright, hspelling]
    | some test =>
      cases (right ()).isNull with
      | true => exact ⟨_, rfl, by simp [Tree.operand_text, hleft]⟩
      | false =>
        refine ⟨_, DraftM.run_bind_of_ok hr, ?_⟩
        simp [Tree.operand_text, hleft, hright, hspelling]
  | cond hop hne hargs ih =>
    obtain ⟨parts, hparts, hspelled⟩ := run_renderAll_inline ih
    obtain ⟨sql, hsql, htext⟩ := hspelled.connect hop hne fun t ht => (hargs t ht).spelling_ne_nil
    refine ⟨sql, ?_, htext⟩
    rw [render, DraftM.run_bind_of_ok hparts, hsql]
    rfl
  | @neg arg harg ih =>
    obtain ⟨parts, hparts, hspelled⟩ := run_renderAll_inline (List.forall_mem_singleton.mpr ih)
    have hfilter := hspelled.filter (List.forall_mem_singleton.mpr harg.spelling_ne_nil)
    rw [render, DraftM.run_bind_of_ok hparts]
    unfold CondOp.connect
    rw [hfilter]
    cases hspelled with
    | cons hfirst hrest =>
      cases hrest
      exact ⟨_, rfl, by simp [Tree.spelling, Tree.spellingChain, Sql.parenthesized, hfirst]⟩

theorem Scope.run_canonicalText (hlike : ∀ op, scope.dialect.like op = op.text) {t : Tree}
    (h : t.Readable d.query.tables) :
    (scope.canonicalText t).run d = (.ok (String.ofList (t.spelling d.query.tables)), d) := by
  obtain ⟨sql, hsql, htext⟩ := run_render_inline hlike h
  rw [canonicalText, DraftM.run_bind_of_ok hsql, ← htext, String.ofList_toList]
  rfl

end Rendering

end ArenaSql
