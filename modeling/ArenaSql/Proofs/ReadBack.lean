import ArenaSql.Proofs.Outline
import ArenaSql.Proofs.Spelling

/-!
# Reading canonical texts

A reader for canonical texts. It knows no strength of operators: an operation has two operands, each of them a single
word, a literal, a function or something in parentheses, and predicates under a connective all stand in parentheses.
The reader finds back every readable expression, up to connectives of one predicate and fields that are shown as the
same column, so expressions with the same text differ in no more than that.
-/

namespace ArenaSql

namespace Reader

/-! ## Words -/

def isDelimiter (c : Char) : Bool :=
  c == ' ' || c == '(' || c == ')' || c == ','

def isUndivided (cs : List Char) : Bool :=
  cs.all (!isDelimiter ·)

/-- The characters up to a delimiter, and what follows. -/
def word (cs : List Char) : List Char × List Char :=
  (cs.takeWhile (!isDelimiter ·), cs.dropWhile (!isDelimiter ·))

/-- What follows a character that has to be there. -/
def after (c : Char) : List Char → Option (List Char)
  | [] => none
  | d :: rest => if d = c then some rest else none

/-- A literal text up to its closing quote, and what follows. -/
def quoted : List Char → Option (List Char × List Char)
  | [] => none
  | '\'' :: '\'' :: rest => (quoted rest).map fun (cs, rest) => ('\'' :: cs, rest)
  | c :: rest => if c = '\'' then some ([], rest) else (quoted rest).map fun (cs, rest) => (c :: cs, rest)

def natural? (cs : List Char) : Option Nat :=
  if !cs.isEmpty && cs.all Char.isDigit then some (Nat.ofDigitChars 10 cs 0) else none

def integer? (cs : List Char) : Option Int :=
  match after '-' cs with
  | some digits => (natural? digits).map fun n => -(n : Int)
  | none => (natural? cs).map Int.ofNat

/-- What a word alone stands for. -/
def atom (cs : List Char) : Tree :=
  if cs = "NULL".toList then .value .null
  else if cs = "TRUE".toList then .value (.bool true)
  else if cs = "FALSE".toList then .value (.bool false)
  else match integer? cs with
    | some n => .value (.int n)
    | none => .field 0 { name := .text (String.ofList cs) }

def calcOp? (cs : List Char) : Option CalcOp :=
  CalcOp.all.find? (·.text.toList = cs)

def cmpOp? (cs : List Char) : Option CmpOp :=
  CmpOp.all.find? (·.text.toList = cs)

def connective? (cs : List Char) : Option CondOp :=
  [.conj, .disj].find? (·.text.toList = cs)

/-- A test for null, behind its first word. -/
def nullTest (left : Tree) (cs : List Char) : Option (Tree × List Char) := do
  let rest ← after ' ' cs
  if (word rest).1 = "NULL".toList then
    return (.cmp .eq (fun _ => left) fun _ => .value .null, (word rest).2)
  else if (word rest).1 = "NOT".toList then
    let rest ← after ' ' (word rest).2
    if (word rest).1 = "NULL".toList then
      return (.cmp .ne (fun _ => left) fun _ => .value .null, (word rest).2)
    else none
  else none

/-! ## Expressions -/

mutual

def expr : Nat → List Char → Option (Tree × List Char)
  | 0, _ => none
  | n + 1, cs =>
    if (word cs).1 = "NOT".toList then do
      let rest ← after ' ' (word cs).2
      let (t, rest) ← group n rest
      return (.cond .neg [fun _ => t], rest)
    else do
      let (left, rest) ← operand n cs
      match after ' ' rest with
      | some rest => operation n left rest
      | none => return (left, rest)

/-- An operator behind an operand, and what follows it. -/
def operation : Nat → Tree → List Char → Option (Tree × List Char)
  | 0, _, _ => none
  | n + 1, left, cs =>
    if (word cs).1 = "IS".toList then nullTest left (word cs).2
    else do
      let rest ← after ' ' (word cs).2
      match connective? (word cs).1 with
      | some op => do
        let (parts, rest) ← chain n op rest
        return (.cond op ((fun _ => left) :: parts), rest)
      | none => do
        let (right, rest) ← operand n rest
        match calcOp? (word cs).1, cmpOp? (word cs).1 with
        | some op, _ => return (.calc op (fun _ => left) fun _ => right, rest)
        | none, some op => return (.cmp op (fun _ => left) fun _ => right, rest)
        | none, none => none

/-- Something in parentheses, a literal text, a function or a word. -/
def operand : Nat → List Char → Option (Tree × List Char)
  | 0, _ => none
  | n + 1, cs =>
    match after '(' cs, after '\'' cs with
    | some _, _ => group n cs
    | none, some rest => (quoted rest).map fun (cs, rest) => (.value (.str (String.ofList cs)), rest)
    | none, none =>
      match after '(' (word cs).2 with
      | some rest => do
        let (args, rest) ← arguments n rest
        return (.func (String.ofList (word cs).1) args, rest)
      | none => some (atom (word cs).1, (word cs).2)

/-- An expression in parentheses. -/
def group : Nat → List Char → Option (Tree × List Char)
  | 0, _ => none
  | n + 1, cs => do
    let rest ← after '(' cs
    let (t, rest) ← expr n rest
    let rest ← after ')' rest
    return (t, rest)

/-- The arguments of a function, up to the closing parenthesis. -/
def arguments : Nat → List Char → Option (List (Unit → Tree) × List Char)
  | 0, _ => none
  | n + 1, cs =>
    match after ')' cs with
    | some rest => some ([], rest)
    | none => do
      let (t, rest) ← expr n cs
      match after ',' rest with
      | some rest => do
        let rest ← after ' ' rest
        let (more, rest) ← arguments n rest
        return ((fun _ => t) :: more, rest)
      | none => do
        let rest ← after ')' rest
        return ([fun _ => t], rest)

/-- The predicates that a connective joins to the first one. -/
def chain : Nat → CondOp → List Char → Option (List (Unit → Tree) × List Char)
  | 0, _, _ => none
  | n + 1, op, cs => do
    let (t, rest) ← group n cs
    match after ' ' rest with
    | some rest =>
      if (word rest).1 = op.text.toList then do
        let rest ← after ' ' (word rest).2
        let (more, rest) ← chain n op rest
        return ((fun _ => t) :: more, rest)
      else none
    | none => return ([fun _ => t], rest)

end

/-- The expression that a text spells. -/
def read (text : String) : Option Tree := do
  let (t, rest) ← expr (3 * text.toList.length + 1) text.toList
  if rest.isEmpty then return t else none

/-! ## Reading words -/

/-- An expression ends here. -/
def Stops (rest : List Char) : Prop :=
  ∀ c ∈ rest.head?, c = ')' ∨ c = ','

/-- An operand ends here. -/
def Pauses (rest : List Char) : Prop :=
  ∀ c ∈ rest.head?, c = ' ' ∨ c = ')' ∨ c = ','

theorem Stops.pauses {rest : List Char} (h : Stops rest) : Pauses rest :=
  fun c hc => Or.inr (h c hc)

theorem stops_nil : Stops [] := fun _ h => by cases h

theorem stops_close (rest : List Char) : Stops (')' :: rest) := fun _ h => by cases h; exact Or.inl rfl

theorem stops_comma (rest : List Char) : Stops (',' :: rest) := fun _ h => by cases h; exact Or.inr rfl

theorem pauses_blank (rest : List Char) : Pauses (' ' :: rest) := fun _ h => by cases h; exact Or.inl rfl

@[simp] theorem after_self (c : Char) (rest : List Char) : after c (c :: rest) = some rest := if_pos rfl

theorem after_of_ne {c d : Char} (h : d ≠ c) (rest : List Char) : after c (d :: rest) = none := if_neg h

theorem Stops.after_blank {rest : List Char} (h : Stops rest) : after ' ' rest = none := by
  cases rest with
  | nil => rfl
  | cons c rest => rcases h c rfl with rfl | rfl <;> rfl

theorem Pauses.after_open {rest : List Char} (h : Pauses rest) : after '(' rest = none := by
  cases rest with
  | nil => rfl
  | cons c rest => rcases h c rfl with rfl | rfl | rfl <;> rfl

theorem Pauses.isDelimiter {rest : List Char} (h : Pauses rest) : ∀ c ∈ rest.head?, isDelimiter c := by
  intro c hc
  rcases h c hc with rfl | rfl | rfl <;> rfl

theorem word_append {cs rest : List Char} (hcs : isUndivided cs) (hrest : ∀ c ∈ rest.head?, isDelimiter c) :
    word (cs ++ rest) = (cs, rest) := by
  have hpos := List.all_eq_true.mp hcs
  rw [word, List.takeWhile_append_of_pos hpos, List.dropWhile_append_of_pos hpos]
  cases rest with
  | nil => simp
  | cons c rest => simp [hrest c rfl]

theorem isUndivided_iff {cs : List Char} : isUndivided cs ↔ ∀ c ∈ cs, isDelimiter c = false := by
  simp [isUndivided]

theorem isDelimiter_of_isWordChar {c : Char} (h : Text.isWordChar c) : isDelimiter c = false := by
  rw [Bool.eq_false_iff]
  intro hdelimiter
  simp only [isDelimiter, Bool.or_eq_true, beq_iff_eq] at hdelimiter
  rcases hdelimiter with ((rfl | rfl) | rfl) | rfl <;> exact absurd h (by decide)

theorem isDelimiter_of_isDigit {c : Char} (h : c.isDigit) : isDelimiter c = false :=
  isDelimiter_of_isWordChar (by simp [Text.isWordChar, h])

/-- A literal text ends at the first quote that is not written twice. -/
theorem quoted_doubleQuotes (cs : List Char) {rest : List Char} (hrest : ∀ c ∈ rest.head?, c ≠ '\'') :
    quoted (Text.doubleQuotes cs ++ '\'' :: rest) = some (cs, rest) := by
  induction cs with
  | nil =>
    rw [Text.doubleQuotes, List.nil_append]
    cases rest with
    | nil => rfl
    | cons c rest => simp [quoted, hrest c rfl]
  | cons c cs ih =>
    rw [Text.doubleQuotes]
    split
    · simp_all [quoted]
    · rename_i hc
      simp [quoted, hc, ih]

theorem isDigit_of_isLetter {c : Char} (h : Text.isLetter c) : c.isDigit = false := by
  unfold Text.isLetter Char.isAlpha Char.isUpper Char.isLower at h
  simp only [Bool.or_eq_true, Bool.and_eq_true, decide_eq_true_eq, beq_iff_eq, ge_iff_le,
    UInt32.le_iff_toNat_le] at h
  simp only [Char.isDigit, Bool.and_eq_false_iff, decide_eq_false_iff_not, ge_iff_le, UInt32.le_iff_toNat_le]
  have hnat : c.toNat = c.val.toNat := rfl
  have hdigits : '0'.val.toNat = 48 ∧ '9'.val.toNat = 57 := ⟨rfl, rfl⟩
  have hletters : 'A'.val.toNat = 65 ∧ 'a'.val.toNat = 97 := ⟨rfl, rfl⟩
  rcases h with (h | rfl) | h
  · omega
  · decide
  · omega

theorem natural?_toDigits (n : Nat) : natural? (Nat.toDigits 10 n) = some n := by
  have hdigits : (Nat.toDigits 10 n).all Char.isDigit := by
    rw [List.all_eq_true]
    exact fun c hc => Nat.isDigit_of_mem_toDigits (by decide) (by decide) hc
  rw [natural?, hdigits, Nat.ofDigitChars_ten_toDigits]
  simp [Nat.toDigits_ne_nil]

theorem integer?_intText (n : Int) : integer? (toString n).toList = some n := by
  rw [Text.toList_intText, integer?]
  cases n with
  | ofNat n =>
    have hsign : after '-' (Nat.toDigits 10 n) = none := by
      obtain ⟨c, rest, hcons⟩ := List.exists_cons_of_ne_nil (Nat.toDigits_ne_nil (n := n) (b := 10))
      rw [hcons]
      refine after_of_ne ?_ rest
      rintro rfl
      have hdigit := Nat.isDigit_of_mem_toDigits (by decide) (by decide) (hcons ▸ List.mem_cons_self)
      exact absurd hdigit (by decide)
    simp [hsign, natural?_toDigits]
  | negSucc n =>
    simp only [after_self, natural?_toDigits]
    rfl

/-- A name alone stands for a field. -/
theorem atom_of_isWord {cs : List Char} (h : Text.IsWord cs) :
    atom cs = .field 0 { name := .text (String.ofList cs) } := by
  have hinteger : integer? cs = none := by
    obtain ⟨c, rest, rfl, hc⟩ := h.starts
    have hsign : c ≠ '-' := by rintro rfl; exact absurd hc (by decide)
    have hdigit : c.isDigit = false := by
      rcases hc with hc | rfl
      · exact isDigit_of_isLetter hc
      · decide
    rw [integer?, after_of_ne hsign, natural?]
    simp [hdigit]
  have hnull := h.free "NULL" (by decide)
  have htrue := h.free "TRUE" (by decide)
  have hfalse := h.free "FALSE" (by decide)
  rw [atom, if_neg hnull, if_neg htrue, if_neg hfalse, hinteger]

/-! ## Reading expressions -/

section Reading

variable {sources : Sources} {t : Tree}

/-- The expression is read back, given enough depth. -/
def ReadsExpr (sources : Sources) (t : Tree) : Prop :=
  ∀ n rest, Stops rest → 3 * (t.spelling sources).length + 1 ≤ n →
    expr n (t.spelling sources ++ rest) = some (t.collapsed sources, rest)

/-- The expression is read back as an operand, and no negation starts there. -/
def ReadsOperand (sources : Sources) (t : Tree) : Prop :=
  ∀ n rest, Pauses rest → 3 * (t.enclosed (t.spelling sources)).length ≤ n →
    (word (t.enclosed (t.spelling sources) ++ rest)).1 ≠ "NOT".toList ∧
      operand n (t.enclosed (t.spelling sources) ++ rest) = some (t.collapsed sources, rest)

theorem ReadsExpr.group (h : ReadsExpr sources t) {n : Nat} (hn : 3 * (t.spelling sources).length + 2 ≤ n)
    (rest : List Char) :
    Reader.group n ('(' :: (t.spelling sources ++ ')' :: rest)) = some (t.collapsed sources, rest) := by
  obtain ⟨m, rfl⟩ := Nat.exists_eq_add_of_le' (show 1 ≤ n by omega)
  simp [Reader.group, h m _ (stops_close rest) (by omega)]

/-- What is compound stands in parentheses as an operand. -/
theorem ReadsExpr.operand (h : ReadsExpr sources t) (hcompound : t.isCompound) : ReadsOperand sources t := by
  intro n rest _ hn
  rw [Tree.enclosed, if_pos hcompound] at hn ⊢
  simp only [List.length_append, List.length_cons, List.length_nil] at hn
  obtain ⟨m, rfl⟩ := Nat.exists_eq_add_of_le' (show 1 ≤ n by omega)
  refine ⟨by simp [word, isDelimiter], ?_⟩
  have hgroup := h.group (show 3 * (t.spelling sources).length + 2 ≤ m by omega) rest
  simp [Reader.operand, hgroup]

theorem expr_of_operand {n : Nat} {cs rest : List Char} {left : Tree} (hword : (word cs).1 ≠ "NOT".toList)
    (hoperand : operand n cs = some (left, rest)) :
    expr (n + 1) cs = match after ' ' rest with
      | some rest => operation n left rest
      | none => some (left, rest) := by
  rw [expr, if_neg hword, hoperand]
  rfl

/-- What is not compound is an expression of its own. -/
theorem ReadsOperand.expr (h : ReadsOperand sources t) (hsimple : t.isCompound = false) : ReadsExpr sources t := by
  intro n rest hrest hn
  obtain ⟨m, rfl⟩ := Nat.exists_eq_add_of_le' (show 1 ≤ n by omega)
  have henclosed : t.enclosed (t.spelling sources) = t.spelling sources := by simp [Tree.enclosed, hsimple]
  obtain ⟨hword, hoperand⟩ := h m rest hrest.pauses (by rw [henclosed]; omega)
  rw [henclosed] at hword hoperand
  rw [expr_of_operand hword hoperand, hrest.after_blank]

/-- Behind an operand and a blank, an operation goes on. -/
theorem ReadsOperand.operation (h : ReadsOperand sources t) {n : Nat}
    (hn : 3 * (t.enclosed (t.spelling sources)).length ≤ n) (rest : List Char) :
    Reader.expr (n + 1) (t.enclosed (t.spelling sources) ++ ' ' :: rest) =
      Reader.operation n (t.collapsed sources) rest := by
  obtain ⟨hword, hoperand⟩ := h n _ (pauses_blank rest) hn
  rw [expr_of_operand hword hoperand, after_self]

/-! ### Operators -/

theorem word_operator {op rest : List Char} (hop : isUndivided op) :
    word (op ++ ' ' :: rest) = (op, ' ' :: rest) :=
  word_append hop fun c hc => by cases hc; rfl

theorem ReadsOperand.arith (h : ReadsOperand sources t) {op : CalcOp} (hop : op ∈ CalcOp.all) (left : Tree) {n : Nat}
    (hn : 3 * (t.enclosed (t.spelling sources)).length + 1 ≤ n) {rest : List Char} (hrest : Pauses rest) :
    Reader.operation n left (op.text.toList ++ ' ' :: (t.enclosed (t.spelling sources) ++ rest)) =
      some (.calc op (fun _ => left) fun _ => t.collapsed sources, rest) := by
  obtain ⟨m, rfl⟩ := Nat.exists_eq_add_of_le' (show 1 ≤ n by omega)
  have hchars : ∀ op ∈ CalcOp.all, isUndivided op.text.toList := by decide
  have hwords : ∀ op ∈ CalcOp.all, op.text.toList ≠ "IS".toList ∧ (connective? op.text.toList) = none ∧
      calcOp? op.text.toList = some op := by decide
  obtain ⟨hnull, hconnective, hcalc⟩ := hwords op hop
  rw [Reader.operation, word_operator (hchars op hop), if_neg hnull]
  simp [hconnective, hcalc, (h m rest hrest (by omega)).2]

theorem ReadsOperand.cmp (h : ReadsOperand sources t) {op : CmpOp} (hop : op ∈ CmpOp.all) (left : Tree) {n : Nat}
    (hn : 3 * (t.enclosed (t.spelling sources)).length + 1 ≤ n) {rest : List Char} (hrest : Pauses rest) :
    Reader.operation n left (op.text.toList ++ ' ' :: (t.enclosed (t.spelling sources) ++ rest)) =
      some (.cmp op (fun _ => left) fun _ => t.collapsed sources, rest) := by
  obtain ⟨m, rfl⟩ := Nat.exists_eq_add_of_le' (show 1 ≤ n by omega)
  have hchars : ∀ op ∈ CmpOp.all, isUndivided op.text.toList := by decide
  have hwords : ∀ op ∈ CmpOp.all, op.text.toList ≠ "IS".toList ∧ (connective? op.text.toList) = none ∧
      calcOp? op.text.toList = none ∧ cmpOp? op.text.toList = some op := by decide
  obtain ⟨hnull, hconnective, hcalc, hcmp⟩ := hwords op hop
  rw [Reader.operation, word_operator (hchars op hop), if_neg hnull]
  simp [hconnective, hcalc, hcmp, (h m rest hrest (by omega)).2]

theorem operation_nullTest {op : CmpOp} {test : String} (htest : op.nullTest? = some test) (left : Tree) (n : Nat)
    {rest : List Char} (hrest : Pauses rest) :
    operation (n + 1) left (test.toList ++ rest) = some (.cmp op (fun _ => left) fun _ => .value .null, rest) := by
  have hword : word ("NULL".toList ++ rest) = ("NULL".toList, rest) := word_append (by decide) hrest.isDelimiter
  have his : word ("IS".toList ++ ' ' :: ("NULL".toList ++ rest)) = ("IS".toList, ' ' :: ("NULL".toList ++ rest)) :=
    word_operator (by decide)
  have hisnot : word ("IS".toList ++ ' ' :: ("NOT".toList ++ ' ' :: ("NULL".toList ++ rest))) =
      ("IS".toList, ' ' :: ("NOT".toList ++ ' ' :: ("NULL".toList ++ rest))) := word_operator (by decide)
  have hnot : word ("NOT".toList ++ ' ' :: ("NULL".toList ++ rest)) = ("NOT".toList, ' ' :: ("NULL".toList ++ rest)) :=
    word_operator (by decide)
  cases op with
  | eq =>
    cases htest
    change operation (n + 1) left ("IS".toList ++ ' ' :: ("NULL".toList ++ rest)) = _
    rw [operation, his, if_pos rfl, nullTest, after_self]
    simp only [Option.bind_eq_bind, Option.bind_some, hword, if_true]
    rfl
  | ne =>
    cases htest
    change operation (n + 1) left ("IS".toList ++ ' ' :: ("NOT".toList ++ ' ' :: ("NULL".toList ++ rest))) = _
    rw [operation, hisnot, if_pos rfl, nullTest, after_self]
    simp only [Option.bind_eq_bind, Option.bind_some, hnot, hword, after_self, if_true]
    rfl
  | _ => cases htest

/-! ### Lists -/

theorem arguments_spelling {args : List (Unit → Tree)} (hread : ∀ t ∈ args, ReadsExpr sources (t ()))
    (hcons : ∀ t ∈ args, ∃ c rest, (t ()).spelling sources = c :: rest ∧ c ≠ ')') {n : Nat}
    (hn : 3 * (Tree.spellingArgs sources args).length ≤ n) (rest : List Char) :
    arguments n (Tree.spellingArgs sources args ++ rest) = some (Tree.collapsedAll sources args, rest) := by
  induction args generalizing n with
  | nil =>
    rw [Tree.spellingArgs] at hn ⊢
    obtain ⟨m, rfl⟩ := Nat.exists_eq_add_of_le' (show 1 ≤ n from Nat.le_trans (by decide) hn)
    simp [arguments, Tree.collapsedAll]
  | cons t more ih =>
    rw [List.forall_mem_cons] at hread hcons
    obtain ⟨c, cs, hc, hclose⟩ := hcons.1
    have hstart : ∀ tail, after ')' ((t ()).spelling sources ++ tail) = none := by
      intro tail
      rw [hc]
      exact after_of_ne hclose _
    cases more with
    | nil =>
      rw [Tree.spellingArgs] at hn ⊢
      simp only [List.length_append, List.length_cons, List.length_nil] at hn
      obtain ⟨m, rfl⟩ := Nat.exists_eq_add_of_le' (show 1 ≤ n by omega)
      rw [List.append_assoc, arguments, hstart]
      simp [hread.1 m _ (stops_close rest) (by omega), after_of_ne, Tree.collapsedAll]
    | cons next others =>
      rw [Tree.spellingArgs_cons_cons] at hn ⊢
      simp only [List.length_append, List.length_cons] at hn
      obtain ⟨m, rfl⟩ := Nat.exists_eq_add_of_le' (show 1 ≤ n by omega)
      have hmore := ih hread.2 hcons.2 (show 3 * (Tree.spellingArgs sources (next :: others)).length ≤ m by omega)
      rw [List.append_assoc, arguments, hstart]
      simp [hread.1 m _ (stops_comma _) (by omega), hmore, Tree.collapsedAll]

theorem chain_spelling {args : List (Unit → Tree)} (hread : ∀ t ∈ args, ReadsExpr sources (t ())) (hne : args ≠ [])
    {op : CondOp} (hop : op = .conj ∨ op = .disj) {n : Nat} (hn : 3 * (Tree.spellingChain sources op args).length ≤ n)
    {rest : List Char} (hrest : Stops rest) :
    chain n op (Tree.spellingChain sources op args ++ rest) = some (Tree.collapsedAll sources args, rest) := by
  have hchars : isUndivided op.text.toList := by
    rcases hop with rfl | rfl <;> decide
  induction args generalizing n with
  | nil => exact absurd rfl hne
  | cons t more ih =>
    rw [List.forall_mem_cons] at hread
    cases more with
    | nil =>
      rw [Tree.spellingChain] at hn ⊢
      simp only [List.length_append, List.length_cons, List.length_nil] at hn
      obtain ⟨m, rfl⟩ := Nat.exists_eq_add_of_le' (show 1 ≤ n by omega)
      have hgroup := hread.1.group (show 3 * ((t ()).spelling sources).length + 2 ≤ m by omega) rest
      simp [chain, hgroup, hrest.after_blank, Tree.collapsedAll]
    | cons next others =>
      rw [Tree.spellingChain_cons_cons] at hn ⊢
      simp only [List.length_append, List.length_cons] at hn
      obtain ⟨m, rfl⟩ := Nat.exists_eq_add_of_le' (show 1 ≤ n by omega)
      have hmore := ih hread.2 (List.cons_ne_nil _ _)
        (show 3 * (Tree.spellingChain sources op (next :: others)).length ≤ m by omega)
      have hgroup := hread.1.group (show 3 * ((t ()).spelling sources).length + 2 ≤ m by omega)
      simp [chain, hgroup, word_operator hchars, hmore, Tree.collapsedAll]

/-! ### Leaves and functions -/

/-- A word that is no literal text is read as one operand. -/
theorem operand_word {cs : List Char} (hstart : ∃ c more, cs = c :: more ∧ c ≠ '(' ∧ c ≠ '\'')
    (hchars : isUndivided cs) (n : Nat) {rest : List Char} (hrest : Pauses rest) :
    operand (n + 1) (cs ++ rest) = some (atom cs, rest) := by
  obtain ⟨c, more, rfl, hopen, hquote⟩ := hstart
  have hword := word_append hchars hrest.isDelimiter
  rw [List.cons_append] at hword ⊢
  rw [operand, after_of_ne hopen, after_of_ne hquote, hword]
  simp [hrest.after_open]

theorem isWord_start {cs : List Char} (h : Text.IsWord cs) :
    (∃ c more, cs = c :: more ∧ c ≠ '(' ∧ c ≠ '\'') ∧ isUndivided cs := by
  obtain ⟨c, more, rfl, hc⟩ := h.starts
  refine ⟨⟨c, more, rfl, ?_, ?_⟩, isUndivided_iff.mpr fun d hd => isDelimiter_of_isWordChar (h.chars d hd)⟩
  · rintro rfl
    exact absurd hc (by decide)
  · rintro rfl
    exact absurd hc (by decide)

/-- An expression that is spelled as one word is read back as an operand, if the word stands for it. -/
theorem readsOperand_word {cs : List Char} (hspelling : t.spelling sources = cs) (hsimple : t.isCompound = false)
    (hstart : ∃ c more, cs = c :: more ∧ c ≠ '(' ∧ c ≠ '\'') (hchars : isUndivided cs)
    (hnegation : cs ≠ "NOT".toList) (hatom : atom cs = t.collapsed sources) : ReadsOperand sources t := by
  intro n rest hrest hn
  have henclosed : t.enclosed (t.spelling sources) = cs := by simp [Tree.enclosed, hsimple, hspelling]
  have hpos : 1 ≤ n := by
    obtain ⟨c, more, hcons, -⟩ := hstart
    rw [henclosed, hcons, List.length_cons] at hn
    omega
  obtain ⟨m, rfl⟩ := Nat.exists_eq_add_of_le' hpos
  rw [henclosed, word_append hchars hrest.isDelimiter, operand_word hstart hchars m hrest, hatom]
  exact ⟨hnegation, rfl⟩

theorem readsOperand_field {f : Field} (h : f.Named sources) (i : Nat) : ReadsOperand sources (.field i f) := by
  obtain ⟨hstart, hchars⟩ := isWord_start h.isWord
  refine readsOperand_word (by rw [Tree.spelling]) rfl hstart hchars (h.isWord.free "NOT" (by decide)) ?_
  rw [atom_of_isWord h.isWord, String.ofList_toList, Tree.collapsed]

theorem intText_chars (n : Int) :
    ∃ c more, (toString n).toList = c :: more ∧ ∀ d ∈ c :: more, d.isDigit ∨ d = '-' := by
  have hdigits : ∀ n, ∀ d ∈ Nat.toDigits 10 n, d.isDigit := fun n d hd =>
    Nat.isDigit_of_mem_toDigits (by decide) (by decide) hd
  rw [Text.toList_intText]
  cases n with
  | ofNat n =>
    obtain ⟨c, more, hcons⟩ := List.exists_cons_of_ne_nil (Nat.toDigits_ne_nil (n := n) (b := 10))
    exact ⟨c, more, hcons, fun d hd => Or.inl (hdigits n d (hcons ▸ hd))⟩
  | negSucc n =>
    refine ⟨'-', _, rfl, fun d hd => ?_⟩
    rcases List.mem_cons.mp hd with rfl | hd
    · exact Or.inr rfl
    · exact Or.inl (hdigits _ d hd)

theorem readsOperand_int (n : Int) : ReadsOperand sources (.value (.int n)) := by
  obtain ⟨c, more, hcons, hchars⟩ := intText_chars n
  have hstart : ∀ d, ¬ (d.isDigit ∨ d = '-') → c ≠ d := by
    rintro d hd rfl
    exact hd (hchars c List.mem_cons_self)
  have hfree : ∀ word ∈ Text.reserved, (toString n).toList ≠ word.toList := by
    intro word hword heq
    have hletters : ∀ word ∈ Text.reserved, word.toList.all fun d => !(d.isDigit || d == '-') := by decide
    have hc := List.all_eq_true.mp (hletters word hword) c (by rw [← heq, hcons]; exact List.mem_cons_self)
    simp only [Bool.not_eq_true', Bool.or_eq_false_iff, beq_eq_false_iff_ne] at hc
    rcases hchars c List.mem_cons_self with hdigit | hsign
    · exact Bool.false_ne_true (hc.1.symm.trans hdigit)
    · exact hc.2 hsign
  have hspelling : (Tree.value (.int n)).spelling sources = (toString n).toList := by
    rw [Tree.spelling]
    rfl
  refine readsOperand_word hspelling rfl ⟨c, more, hcons, hstart _ (by decide), hstart _ (by decide)⟩
    (isUndivided_iff.mpr fun d hd => ?_) (hfree "NOT" (by decide)) ?_
  · rw [hcons] at hd
    rcases hchars d hd with hdigit | rfl
    · exact isDelimiter_of_isDigit hdigit
    · rfl
  · rw [atom, if_neg (hfree "NULL" (by decide)), if_neg (hfree "TRUE" (by decide)), if_neg (hfree "FALSE" (by decide)),
      integer?_intText]
    simp [Tree.collapsed]

theorem readsOperand_str (s : String) : ReadsOperand sources (.value (.str s)) := by
  intro n rest hrest hn
  have hquote : ∀ c ∈ rest.head?, c ≠ '\'' := by
    intro c hc
    rcases hrest c hc with rfl | rfl | rfl <;> decide
  have henclosed : (Tree.value (.str s)).enclosed ((Tree.value (.str s)).spelling sources) =
      '\'' :: (Text.doubleQuotes s.toList ++ ['\'']) := by
    rw [Tree.enclosed, if_neg (by simp [Tree.isCompound]), Tree.spelling]
    exact String.toList_ofList
  rw [henclosed] at hn ⊢
  simp only [List.length_cons, List.length_append, List.length_nil] at hn
  obtain ⟨m, rfl⟩ := Nat.exists_eq_add_of_le' (show 1 ≤ n by omega)
  refine ⟨by simp [word, isDelimiter], ?_⟩
  rw [List.cons_append, List.append_assoc, List.singleton_append, operand, after_of_ne (by decide), after_self]
  simp [quoted_doubleQuotes _ hquote, Tree.collapsed]

theorem readsOperand_value {v : Value} (h : v.isBasic) : ReadsOperand sources (.value v) := by
  have hspelling : (Tree.value v).spelling sources = v.literal.toList := by rw [Tree.spelling]
  have hcollapsed : (Tree.value v).collapsed sources = .value v := by simp [Tree.collapsed]
  cases v with
  | null =>
    refine readsOperand_word hspelling rfl ⟨'N', "ULL".toList, rfl, by decide⟩ (by decide) (by decide) ?_
    rw [hcollapsed]
    rfl
  | bool b =>
    cases b with
    | false =>
      refine readsOperand_word hspelling rfl ⟨'F', "ALSE".toList, rfl, by decide⟩ (by decide) (by decide) ?_
      rw [hcollapsed]
      rfl
    | true =>
      refine readsOperand_word hspelling rfl ⟨'T', "RUE".toList, rfl, by decide⟩ (by decide) (by decide) ?_
      rw [hcollapsed]
      rfl
  | int n => exact readsOperand_int n
  | str s => exact readsOperand_str s
  | float | list | object => cases h

theorem readsOperand_func {name : String} (hname : Text.isName name) {args : List (Unit → Tree)}
    (hread : ∀ t ∈ args, ReadsExpr sources (t ()))
    (hcons : ∀ t ∈ args, ∃ c rest, (t ()).spelling sources = c :: rest ∧ c ≠ ')') :
    ReadsOperand sources (.func name args) := by
  intro n rest hrest hn
  have hword := Text.isWord_of_isName hname
  obtain ⟨⟨c, more, hstart, hopen, hquote⟩, hchars⟩ := isWord_start hword
  have henclosed : (Tree.func name args).enclosed ((Tree.func name args).spelling sources) =
      name.toList ++ '(' :: Tree.spellingArgs sources args := by
    rw [Tree.enclosed, if_neg (by simp [Tree.isCompound]), Tree.spelling]
  rw [henclosed] at hn ⊢
  simp only [List.length_append, List.length_cons] at hn
  obtain ⟨m, rfl⟩ := Nat.exists_eq_add_of_le' (show 1 ≤ n by omega)
  have hargs := arguments_spelling hread hcons (show 3 * (Tree.spellingArgs sources args).length ≤ m by omega) rest
  have hsplit : word (name.toList ++ '(' :: (Tree.spellingArgs sources args ++ rest)) =
      (name.toList, '(' :: (Tree.spellingArgs sources args ++ rest)) := word_append hchars fun c hc => by cases hc; rfl
  rw [List.append_assoc, List.cons_append, hsplit]
  refine ⟨hword.free "NOT" (by decide), ?_⟩
  have hnone : ∀ tail, after '(' (name.toList ++ tail) = none ∧ after '\'' (name.toList ++ tail) = none := by
    intro tail
    rw [hstart]
    exact ⟨after_of_ne hopen _, after_of_ne hquote _⟩
  rw [operand, (hnone _).1, (hnone _).2, hsplit]
  simp [hargs, Tree.collapsed]

/-! ### All expressions -/

theorem readsExpr_arith {op : CalcOp} {left right : Unit → Tree} (hop : op ∈ CalcOp.all)
    (hleft : ReadsOperand sources (left ())) (hright : ReadsOperand sources (right ())) :
    ReadsExpr sources (.calc op left right) := by
  intro n rest hrest hn
  rw [Tree.spelling] at hn ⊢
  simp only [List.length_append, List.length_cons] at hn
  obtain ⟨m, rfl⟩ := Nat.exists_eq_add_of_le' (show 1 ≤ n by omega)
  simp only [List.append_assoc, List.cons_append]
  rw [hleft.operation (by omega), hright.arith hop _ (by omega) hrest.pauses, Tree.collapsed]

theorem readsExpr_cmp {op : CmpOp} {left right : Unit → Tree} (hop : op ∈ CmpOp.all)
    (hleft : ReadsOperand sources (left ())) (hright : ReadsOperand sources (right ())) :
    ReadsExpr sources (.cmp op left right) := by
  intro n rest hrest hn
  rw [Tree.spelling] at hn ⊢
  rw [Tree.collapsed]
  split at hn
  · rename_i test htest hnull
    simp only [List.length_append, List.length_cons] at hn
    obtain ⟨m, rfl⟩ := Nat.exists_eq_add_of_le' (show 2 ≤ n by omega)
    simp only [List.append_assoc, List.cons_append]
    rw [hleft.operation (by omega), operation_nullTest htest _ _ hrest.pauses, View.eq_null_of_isNull hnull]
    simp [Tree.collapsed]
  · simp only [List.length_append, List.length_cons] at hn
    obtain ⟨m, rfl⟩ := Nat.exists_eq_add_of_le' (show 1 ≤ n by omega)
    simp only [List.append_assoc, List.cons_append]
    rw [hleft.operation (by omega), hright.cmp hop _ (by omega) hrest.pauses]

theorem readsExpr_cond {op : CondOp} (hop : op = .conj ∨ op = .disj) {args : List (Unit → Tree)} (hne : args ≠ [])
    (hread : ∀ t ∈ args, ReadsExpr sources (t ())) : ReadsExpr sources (.cond op args) := by
  match args, hne with
  | [arg], _ => rcases hop with rfl | rfl <;> exact hread arg List.mem_cons_self
  | first :: second :: others, _ =>
    intro n rest hrest hn
    have hspelling : (Tree.cond op (first :: second :: others)).spelling sources =
        Tree.spellingChain sources op (first :: second :: others) := by
      rcases hop with rfl | rfl <;> rfl
    have hcollapsed : (Tree.cond op (first :: second :: others)).collapsed sources =
        .cond op (Tree.collapsedAll sources (first :: second :: others)) := by
      rcases hop with rfl | rfl <;> rfl
    have hconnective : op.text.toList ≠ "IS".toList ∧ connective? op.text.toList = some op := by
      rcases hop with rfl | rfl <;> decide
    have hchars : isUndivided op.text.toList := by
      rcases hop with rfl | rfl <;> decide
    rw [List.forall_mem_cons] at hread
    rw [hspelling, Tree.spellingChain_cons_cons] at hn ⊢
    simp only [List.length_append, List.length_cons] at hn
    obtain ⟨m, rfl⟩ := Nat.exists_eq_add_of_le' (show 3 ≤ n by omega)
    have hmore := chain_spelling hread.2 (List.cons_ne_nil _ _) hop
      (show 3 * (Tree.spellingChain sources op (second :: others)).length ≤ m + 1 by omega) hrest
    have hgroup := hread.1.group (show 3 * ((first ()).spelling sources).length + 2 ≤ m + 1 by omega)
    have hoperand : operand (m + 2) ('(' :: ((first ()).spelling sources ++ ')' :: ' ' :: (op.text.toList ++
        ' ' :: (Tree.spellingChain sources op (second :: others) ++ rest)))) =
        some ((first ()).collapsed sources, ' ' :: (op.text.toList ++
          ' ' :: (Tree.spellingChain sources op (second :: others) ++ rest))) := by
      simp [operand, hgroup]
    simp only [List.cons_append, List.append_assoc]
    rw [expr_of_operand (by simp [word, isDelimiter]) hoperand, after_self]
    simp only
    rw [operation, word_operator hchars, if_neg hconnective.1]
    simp [hconnective.2, hmore, hcollapsed, Tree.collapsedAll]

theorem readsExpr_neg {arg : Unit → Tree} (hread : ReadsExpr sources (arg ())) :
    ReadsExpr sources (.cond .neg [arg]) := by
  intro n rest hrest hn
  have hspelling : (Tree.cond .neg [arg]).spelling sources =
      "NOT".toList ++ ' ' :: '(' :: ((arg ()).spelling sources ++ [')']) := rfl
  rw [hspelling] at hn ⊢
  simp only [List.length_append, List.length_cons, List.length_nil] at hn
  obtain ⟨m, rfl⟩ := Nat.exists_eq_add_of_le' (show 1 ≤ n by omega)
  have hgroup := hread.group (show 3 * ((arg ()).spelling sources).length + 2 ≤ m by omega) rest
  have hword : word ("NOT".toList ++ ' ' :: '(' :: ((arg ()).spelling sources ++ ')' :: rest)) =
      ("NOT".toList, ' ' :: '(' :: ((arg ()).spelling sources ++ ')' :: rest)) := word_operator (by decide)
  simp only [List.cons_append, List.append_assoc, List.nil_append]
  rw [expr, hword, if_pos rfl, after_self]
  simp [hgroup, Tree.collapsed, Tree.collapsedAll, Tree.connected]

theorem reads_of_readable (h : t.Readable sources) : ReadsExpr sources t ∧ ReadsOperand sources t := by
  have hsimple : ∀ {t : Tree}, t.isCompound = false → ReadsOperand sources t →
      ReadsExpr sources t ∧ ReadsOperand sources t := fun hsimple hoperand => ⟨hoperand.expr hsimple, hoperand⟩
  have hcompound : ∀ {t : Tree}, t.isCompound → ReadsExpr sources t → ReadsExpr sources t ∧ ReadsOperand sources t :=
    fun hcompound hexpr => ⟨hexpr, hexpr.operand hcompound⟩
  induction h with
  | field i hnamed => exact hsimple rfl (readsOperand_field hnamed i)
  | value hv => exact hsimple rfl (readsOperand_value hv)
  | func hname hargs ih =>
    exact hsimple rfl (readsOperand_func hname (fun t ht => (ih t ht).1) fun t ht => (hargs t ht).spelling_eq_cons)
  | arith hop _ _ ihleft ihright => exact hcompound rfl (readsExpr_arith hop ihleft.2 ihright.2)
  | cmp hop _ _ ihleft ihright => exact hcompound rfl (readsExpr_cmp hop ihleft.2 ihright.2)
  | cond hop hne _ ih => exact hcompound rfl (readsExpr_cond hop hne fun t ht => (ih t ht).1)
  | neg _ ih => exact hcompound rfl (readsExpr_neg ih.1)

theorem read_spelling (h : t.Readable sources) :
    read (String.ofList (t.spelling sources)) = some (t.collapsed sources) := by
  have hexpr := (reads_of_readable h).1 _ [] stops_nil (Nat.le_refl _)
  rw [List.append_nil] at hexpr
  rw [read, String.toList_ofList, hexpr]
  rfl

end Reading

end Reader

/-! ## Texts identify expressions -/

/-- Readable expressions have a canonical text, from which they are read back. If two of them have the same text, they
are the same but for connectives of one predicate and fields that are shown as the same column. -/
theorem Scope.canonicalText_identifies {scope : Scope} {d : Draft} (hlike : ∀ op, scope.dialect.like op = op.text)
    {t t' : Tree} (h : t.Readable d.query.tables) (h' : t'.Readable d.query.tables) :
    ∃ text text', (scope.canonicalText t).run d = (.ok text, d) ∧ (scope.canonicalText t').run d = (.ok text', d) ∧
      Reader.read text = some (t.collapsed d.query.tables) ∧
      (text = text' → t.collapsed d.query.tables = t'.collapsed d.query.tables) := by
  refine ⟨_, _, run_canonicalText hlike h, run_canonicalText hlike h', Reader.read_spelling h, fun htext => ?_⟩
  have hread := congrArg Reader.read htext
  rw [Reader.read_spelling h, Reader.read_spelling h'] at hread
  exact Option.some.inj hread

/-- Both conditions test a name against a text that looks like SQL, and a total for null. The second one has connectives
of one predicate, and its name is behind a table that is kept apart. -/
def Query.lookalikes : Query where
  nodes := [{ expr := .field { name := .text "orders.name" } }, { expr := .value (.str "it's') OR (1, NULL") },
    { expr := .cmp .eq (.index 0) (.index 1) }, { expr := .field { name := .text "total" } }, { expr := .value .null },
    { expr := .cmp .ne (.index 3) (.index 4) }, { expr := .cond .neg [.index 5] },
    { expr := .cond .conj [.index 2, .index 6] },
    { expr := .field { name := .text "name", table := some "orders", resolved := true } },
    { expr := .cmp .eq (.index 8) (.index 1) }, { expr := .cond .disj [.index 9] }, { expr := .cond .conj [.index 10] },
    { expr := .cond .conj [.index 11, .index 6] }]
  tables := { table := "orders" }

theorem Query.canonicalText_lookalikes :
    let scope : Scope := (Context.mk .postgres { tables := [] } {}).scope 0
    let d : Draft := { query := lookalikes }
    let text := "(orders.name = 'it''s'') OR (1, NULL') AND (NOT (total IS NOT NULL))"
    (scope.canonicalText (lookalikes.tree (.index 7))).run d = (.ok text, d) ∧
      (scope.canonicalText (lookalikes.tree (.index 12))).run d = (.ok text, d) ∧
      Reader.read text = some ((lookalikes.tree (.index 7)).collapsed lookalikes.tables) ∧
      (lookalikes.tree (.index 7)).collapsed lookalikes.tables =
        (lookalikes.tree (.index 12)).collapsed lookalikes.tables := by
  intro scope d text
  have hname : Field.Named lookalikes.tables { name := .text "orders.name" } :=
    ⟨⟨_, rfl, by decide⟩, (fun _ h => by cases h), fun h => absurd rfl h⟩
  have hapart : Field.Named lookalikes.tables { name := .text "name", table := some "orders", resolved := true } :=
    ⟨⟨_, rfl, by decide⟩, (fun _ h => by cases h; exact Or.inr (by decide)), fun h => absurd rfl h⟩
  have htotal : Field.Named lookalikes.tables { name := .text "total" } :=
    ⟨⟨_, rfl, by decide⟩, (fun _ h => by cases h), fun h => absurd rfl h⟩
  have hfirst : Tree.Readable lookalikes.tables (lookalikes.tree (.index 7)) :=
    .cond (Or.inl rfl) (List.cons_ne_nil _ _) (List.forall_mem_cons.mpr
      ⟨.cmp (by decide) (.field _ hname) (.value rfl),
        List.forall_mem_singleton.mpr (.neg (.cmp (by decide) (.field _ htotal) (.value rfl)))⟩)
  have hsecond : Tree.Readable lookalikes.tables (lookalikes.tree (.index 12)) :=
    .cond (Or.inl rfl) (List.cons_ne_nil _ _) (List.forall_mem_cons.mpr
      ⟨.cond (Or.inl rfl) (List.cons_ne_nil _ _) (List.forall_mem_singleton.mpr
        (.cond (Or.inr rfl) (List.cons_ne_nil _ _) (List.forall_mem_singleton.mpr
          (.cmp (by decide) (.field _ hapart) (.value rfl))))),
        List.forall_mem_singleton.mpr (.neg (.cmp (by decide) (.field _ htotal) (.value rfl)))⟩)
  have heval : ((scope.canonicalText (lookalikes.tree (.index 7))).run d).1.toOption = some text ∧
      ((scope.canonicalText (lookalikes.tree (.index 12))).run d).1.toOption = some text := by decide +kernel
  obtain ⟨shown, shown', hshown, hshown', hread, hsame⟩ :=
    Scope.canonicalText_identifies (show ∀ op, scope.dialect.like op = op.text from fun _ => rfl)
      (show (lookalikes.tree (.index 7)).Readable d.query.tables from hfirst) hsecond
  rw [hshown, hshown'] at heval
  obtain ⟨rfl, rfl⟩ : shown = text ∧ shown' = text := ⟨Option.some.inj heval.1, Option.some.inj heval.2⟩
  exact ⟨hshown, hshown', hread, hsame rfl⟩

end ArenaSql
