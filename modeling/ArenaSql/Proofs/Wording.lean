import ArenaSql.Proofs.View
import Mathlib.Data.List.Chain

/-!
# The wording of statements

The plain text of a statement is made of fixed words, of numbers and of names, and its parts are set off against each
other by blanks, commas, points and parentheses. So a property of texts that all fixed words have, and that does not
look across such a break, holds of all plain text if it holds of the names.
-/

namespace ArenaSql

namespace Text

/-- The characters of fixed words, numbers and generated aliases. -/
def isBasicChar (c : Char) : Bool :=
  c.isAlphanum || "_ ,().*=+-".toList.contains c

/-- The characters that set words off against each other. -/
def breaks : List Char :=
  [' ', ',', '.', '(', ')']

def isBreak (c : Char) : Bool :=
  breaks.contains c

theorem isBasicChar_of_isBreak {c : Char} (h : isBreak c) : isBasicChar c := by
  have hbasic : breaks.all isBasicChar := by decide
  exact List.all_eq_true.mp hbasic c (List.contains_iff_mem.mp h)

/-- All characters of the text have the property. -/
def madeOf (p : Char → Bool) (s : String) : Bool :=
  s.toList.all p

/-- The text begins with a break. -/
def isClosing (s : String) : Bool :=
  s.toList.head?.any isBreak

/-- The text ends with a break. -/
def isOpening (s : String) : Bool :=
  s.toList.getLast?.any isBreak

theorem madeOf_ofList {p : Char → Bool} {cs : List Char} : madeOf p (String.ofList cs) ↔ ∀ c ∈ cs, p c := by
  rw [madeOf, String.toList_ofList, List.all_eq_true]

theorem madeOf_append {p : Char → Bool} {s t : String} (hs : madeOf p s) (ht : madeOf p t) : madeOf p (s ++ t) := by
  rw [madeOf, String.toList_append, List.all_append, Bool.and_eq_true]
  exact ⟨hs, ht⟩

theorem exists_of_isClosing {s : String} (h : isClosing s) : ∃ c rest, isBreak c ∧ s.toList = c :: rest := by
  rw [isClosing] at h
  cases hs : s.toList with
  | nil => rw [hs] at h; cases h
  | cons c rest =>
    rw [hs] at h
    exact ⟨c, rest, h, rfl⟩

theorem exists_of_isOpening {s : String} (h : isOpening s) : ∃ front c, isBreak c ∧ s.toList = front ++ [c] := by
  rw [isOpening] at h
  cases hs : s.toList.getLast? with
  | none => rw [hs] at h; cases h
  | some c =>
    rw [hs] at h
    obtain ⟨front, hfront⟩ := List.getLast?_eq_some_iff.mp hs
    exact ⟨front, c, h, hfront⟩

theorem isClosing_append {s : String} (h : isClosing s) (t : String) : isClosing (s ++ t) := by
  obtain ⟨c, rest, hc, hrest⟩ := exists_of_isClosing h
  rw [isClosing, String.toList_append, hrest]
  exact hc

theorem isOpening_append (s : String) {t : String} (h : isOpening t) : isOpening (s ++ t) := by
  obtain ⟨front, c, hc, hfront⟩ := exists_of_isOpening h
  rw [isOpening, String.toList_append, hfront, ← List.append_assoc, List.getLast?_concat]
  exact hc

theorem isClosing_spaced (s : String) : isClosing (" " ++ s ++ " ") :=
  isClosing_append (isClosing_append rfl s) " "

/-- A property of texts that those have which are made of the characters `p`, that parts inherit, and that does not look
across breaks. -/
structure Wording (p : Char → Bool) (F : String → Prop) : Prop where
  basic : ∀ c, isBasicChar c → p c
  chars : ∀ s, madeOf p s → F s
  part : ∀ s t, t.toList <:+: s.toList → F s → F t
  across : ∀ (s t : List Char) c, isBreak c → F (String.ofList s) → F (String.ofList t) → F (String.ofList (s ++ c :: t))

namespace Wording

variable {p : Char → Bool} {F : String → Prop} (h : Wording p F) {s t : String}

include h

theorem fixed (hs : madeOf isBasicChar s) : F s :=
  h.chars s (List.all_eq_true.mpr fun c hc => h.basic c (List.all_eq_true.mp hs c hc))

/-- Texts with a break between them. -/
theorem append (hs : F s) (ht : F t) (hbreak : isOpening s ∨ isClosing t) : F (s ++ t) := by
  rcases hbreak with hopening | hclosing
  · obtain ⟨front, c, hc, hfront⟩ := exists_of_isOpening hopening
    have hpart : F (String.ofList front) := h.part s _ (by rw [String.toList_ofList, hfront]; exact ⟨[], [c], rfl⟩) hs
    have hall := h.across front t.toList c hc hpart (by rwa [String.ofList_toList])
    rwa [← String.ofList_toList (s := s ++ t), String.toList_append, hfront, List.append_assoc]
  · obtain ⟨c, rest, hc, hrest⟩ := exists_of_isClosing hclosing
    have hpart : F (String.ofList rest) :=
      h.part t _ (by rw [String.toList_ofList, hrest]; exact ⟨[c], [], List.append_nil _⟩) ht
    have hall := h.across s.toList rest c hc (by rwa [String.ofList_toList]) hpart
    rwa [← String.ofList_toList (s := s ++ t), String.toList_append, hrest]

/-- Texts with a fixed text between them that begins and ends with a break. -/
theorem between (hs : F s) (ht : F t) {u : String} (hu : madeOf isBasicChar u) (hclosing : isClosing u)
    (hopening : isOpening u) : F (s ++ u ++ t) :=
  h.append (h.append hs (h.fixed hu) (.inr hclosing)) ht (.inl (isOpening_append s hopening))

theorem spaced (hs : F s) : F (" " ++ s ++ " ") :=
  h.append (h.append (h.fixed rfl) hs (.inl rfl)) (h.fixed rfl) (.inr rfl)

theorem intercalate {separator : String} {parts : List String} (hseparator : madeOf isBasicChar separator)
    (hclosing : isClosing separator) (hopening : isOpening separator) (hparts : ∀ part ∈ parts, F part) :
    F (separator.intercalate parts) := by
  induction parts with
  | nil => exact h.fixed rfl
  | cons part rest ih =>
    have hpart := hparts part List.mem_cons_self
    have hrest := ih fun other hother => hparts other (List.mem_cons_of_mem _ hother)
    cases rest with
    | nil => exact hpart
    | cons next more =>
      rw [String.intercalate_cons_cons]
      exact h.between hpart hrest hseparator hclosing hopening

end Wording

end Text

/-! ## Numbers -/

namespace Text

theorem isBasicChar_of_mem_toDigits {c : Char} {n : Nat} (h : c ∈ Nat.toDigits 10 n) : isBasicChar c := by
  have hdigit := Nat.isDigit_of_mem_toDigits (by decide) (by decide) h
  rw [isBasicChar, Char.isAlphanum, hdigit, Bool.or_true]
  rfl

theorem isBasic_natText (n : Nat) : madeOf isBasicChar (toString n) :=
  madeOf_ofList.mpr fun _ h => isBasicChar_of_mem_toDigits h

theorem isBasic_intText (n : Int) : madeOf isBasicChar (toString n) := by
  cases n with
  | ofNat n => exact isBasic_natText n
  | negSucc n => exact madeOf_append (t := toString (n + 1)) rfl (isBasic_natText (n + 1))

end Text

namespace Decimal

open Text

variable {digits : List Char}

theorem isBasicChar_of_mem_padding {n : Nat} {c : Char} (h : c ∈ List.replicate n '0') : isBasicChar c := by
  rw [(List.mem_replicate.mp h).2]
  rfl

theorem isBasicChar_of_mem_exponent {l : Layout} {e : Int} {c : Char} (h : c ∈ l.exponent e) : isBasicChar c := by
  rw [Layout.exponent, padLeft, List.mem_cons, List.mem_cons, List.mem_append] at h
  rcases h with rfl | rfl | h | h
  · rfl
  · split <;> rfl
  · exact isBasicChar_of_mem_padding h
  · exact isBasicChar_of_mem_toDigits h

theorem isBasicChar_of_mem_positional (hdigits : ∀ c ∈ digits, isBasicChar c) {e : Int} {c : Char}
    (h : c ∈ positional digits e) : isBasicChar c := by
  rw [positional] at h
  split at h
  · rw [List.cons_append, List.cons_append, List.mem_cons, List.mem_cons, List.mem_append] at h
    rcases h with rfl | rfl | h | h
    · rfl
    · rfl
    · exact isBasicChar_of_mem_padding h
    · exact hdigits c h
  · simp only [List.mem_append, List.mem_cons] at h
    rcases h with (h | h) | rfl | h
    · exact hdigits c (List.mem_of_mem_take h)
    · exact isBasicChar_of_mem_padding h
    · rfl
    · split at h
      · rw [List.mem_singleton.mp h]
        rfl
      · exact hdigits c (List.mem_of_mem_drop h)

theorem isBasicChar_of_mem_scientific (hdigits : ∀ c ∈ digits, isBasicChar c) {l : Layout} {e : Int} {c : Char}
    (h : c ∈ l.scientific digits e) : isBasicChar c := by
  rw [Layout.scientific.eq_def] at h
  split at h
  · cases h
  · rcases List.mem_cons.mp h with rfl | h
    · exact hdigits c List.mem_cons_self
    · exact isBasicChar_of_mem_exponent h
  · rename_i d rest _
    rw [List.cons_append, List.cons_append, List.mem_cons, List.mem_cons, List.mem_append] at h
    rcases h with rfl | rfl | h | h
    · exact hdigits c List.mem_cons_self
    · rfl
    · exact hdigits c (List.mem_cons_of_mem _ h)
    · exact isBasicChar_of_mem_exponent h

/-- The text of a number has digits, points, signs, exponents and a few letters. -/
theorem isBasic_text (x : Binary64) : madeOf isBasicChar (standard.text x) := by
  have hsign : madeOf isBasicChar (if x.isNegative then "-" else "") := by split <;> rfl
  rw [Layout.text]
  split
  · rfl
  · exact madeOf_append hsign rfl
  · exact madeOf_append hsign rfl
  · refine madeOf_append hsign (madeOf_ofList.mpr fun c hc => ?_)
    have hdigits : ∀ n, ∀ c ∈ stripZeros (Nat.toDigits 10 n), isBasicChar c := by
      intro n c hc
      rw [stripZeros, List.mem_reverse] at hc
      exact isBasicChar_of_mem_toDigits (List.mem_reverse.mp ((List.dropWhile_sublist _).subset hc))
    rw [Layout.magnitude] at hc
    split at hc
    · exact isBasicChar_of_mem_positional (hdigits _) hc
    · exact isBasicChar_of_mem_scientific (hdigits _) hc

end Decimal

theorem RecordIndex.isBasic_offset {index : RecordIndex} {text : String} (h : index.offset? = some text) :
    Text.madeOf Text.isBasicChar text := by
  unfold offset? at h
  split at h <;> split at h <;> cases h
  · exact Text.isBasic_intText _
  · exact Decimal.isBasic_text _

theorem Query.isBasic_limit {q : Query} {option text : String} (h : q.limit? option = some text) :
    Text.madeOf Text.isBasicChar text := by
  have hcount : ∀ count : Int, Text.madeOf Text.isBasicChar s!"LIMIT {count}" :=
    fun count => Text.madeOf_append rfl (Text.isBasic_intText count)
  unfold limit? at h
  split at h
  · cases h
  · cases h
    exact hcount _
  · dsimp only at h
    split at h
    · rename_i offset hoffset
      cases h
      exact Text.madeOf_append (Text.madeOf_append (hcount _) rfl) (RecordIndex.isBasic_offset hoffset)
    · cases h
      exact hcount _

/-! ## Fragments -/

/-- The piece is a plain text that ends with a break. -/
def Piece.isOpening : Piece → Bool
  | .plain s => Text.isOpening s
  | .bound _ _ => false

/-- The piece is a plain text that begins with a break. -/
def Piece.isClosing : Piece → Bool
  | .plain s => Text.isClosing s
  | .bound _ _ => false

/-- There is a break between two pieces that follow each other. -/
def Piece.Apart (first second : Piece) : Prop :=
  first.isOpening ∨ second.isClosing

namespace Sql

open Text

variable {F : String → Prop} {a b sql : Sql} {s : String}

/-- The plain pieces of a fragment have the property, apart from operators for remainders, and there are breaks between
all pieces. -/
structure Quiet (F : String → Prop) (sql : Sql) : Prop where
  plain : ∀ s, .plain s ∈ sql → F s ∨ s = " % "
  apart : sql.IsChain Piece.Apart

theorem Quiet.nil : Quiet F [] :=
  ⟨fun _ hs => (by cases hs), .nil⟩

theorem Quiet.piece {v : Value} {mark : String} : Quiet F [.bound v mark] :=
  ⟨fun _ hs => (by cases List.mem_singleton.mp hs), .singleton _⟩

theorem Quiet.text (hs : F s ∨ s = " % ") : Quiet F (Sql.plain s) := by
  refine ⟨fun t ht => ?_, .singleton _⟩
  cases List.mem_singleton.mp ht
  exact hs

theorem Quiet.append (ha : a.Quiet F) (hb : b.Quiet F)
    (hapart : ∀ first ∈ a.getLast?, ∀ second ∈ b.head?, first.Apart second) : Quiet F (a ++ b) := by
  refine ⟨fun s hs => ?_, List.isChain_append.mpr ⟨ha.apart, hb.apart, hapart⟩⟩
  rcases List.mem_append.mp hs with hs | hs
  · exact ha.plain s hs
  · exact hb.plain s hs

/-- A fragment after a plain text that ends with a break. -/
theorem Quiet.after (hs : F s) (hopening : isOpening s) (hb : b.Quiet F) : Quiet F (Sql.plain s ++ b) := by
  refine (Quiet.text (.inl hs)).append hb fun first hfirst _ _ => .inl ?_
  cases Option.mem_some_iff.mp hfirst
  exact hopening

/-- A fragment before a plain text that begins with a break. -/
theorem Quiet.before (ha : a.Quiet F) (hs : F s) (hclosing : isClosing s) : Quiet F (a ++ Sql.plain s) := by
  refine ha.append (.text (.inl hs)) fun _ _ second hsecond => .inr ?_
  cases Option.mem_some_iff.mp hsecond
  exact hclosing

/-- Fragments around a plain text that begins and ends with breaks. -/
theorem Quiet.around (ha : a.Quiet F) (hs : F s ∨ s = " % ") (hclosing : isClosing s) (hopening : isOpening s)
    (hb : b.Quiet F) : Quiet F (a ++ Sql.plain s ++ b) := by
  have hleft : Quiet F (a ++ Sql.plain s) := by
    refine ha.append (.text hs) fun _ _ second hsecond => .inr ?_
    cases Option.mem_some_iff.mp hsecond
    exact hclosing
  refine hleft.append hb fun first hfirst _ _ => .inl ?_
  rw [Sql.plain, List.getLast?_concat] at hfirst
  cases Option.mem_some_iff.mp hfirst
  exact hopening

/-- Fragments that are joined by a text which begins and ends with a break. -/
theorem Quiet.joined {separator : String} {parts : List Sql} (hseparator : F separator)
    (hclosing : isClosing separator) (hopening : isOpening separator) (h : ∀ part ∈ parts, part.Quiet F) :
    (joined separator parts).Quiet F := by
  induction parts with
  | nil => exact .nil
  | cons part rest ih =>
    have hpart := h part List.mem_cons_self
    cases rest with
    | nil => exact hpart
    | cons next more =>
      have hrest := ih fun other hother => h other (List.mem_cons_of_mem _ hother)
      exact hpart.around (.inl hseparator) hclosing hopening hrest

section

variable {p : Char → Bool} (hF : Wording p F)

include hF

theorem Quiet.parenthesized (h : sql.Quiet F) : sql.parenthesized.Quiet F :=
  (Quiet.after (hF.fixed rfl) rfl h).before (hF.fixed rfl) rfl

theorem Quiet.operand {t : Tree} (h : sql.Quiet F) : (t.operand sql).Quiet F := by
  rw [Tree.operand]
  split
  · exact h.parenthesized hF
  · exact h

theorem Quiet.wrap (embedding : Embedding) (h : sql.Quiet F) : (embedding.wrap sql).Quiet F := by
  cases embedding with
  | presence => exact .after (hF.fixed rfl) rfl (h.parenthesized hF)
  | scalar | other => exact h.parenthesized hF

theorem Quiet.listed {parts : List Sql} (h : ∀ part ∈ parts, part.Quiet F) : (Sql.joined ", " parts).Quiet F :=
  .joined (hF.fixed rfl) rfl rfl h

theorem Quiet.connect {op : CondOp} {parts : List Sql} (hop : F op.text) (h : ∀ part ∈ parts, part.Quiet F)
    (hsql : op.connect parts = .ok sql) : sql.Quiet F := by
  have hshown : ∀ part ∈ parts.filter (!·.isBlank), part.Quiet F :=
    fun part hpart => h part (List.mem_of_mem_filter hpart)
  have hjoined : (Sql.joined (" " ++ op.text ++ " ") ((parts.filter (!·.isBlank)).map Sql.parenthesized)).Quiet F := by
    refine Quiet.joined (hF.spaced hop) (isClosing_spaced _) (isOpening_append _ rfl) fun part hpart => ?_
    obtain ⟨inside, hinside, rfl⟩ := List.mem_map.mp hpart
    exact (hshown inside hinside).parenthesized hF
  unfold CondOp.connect at hsql
  split at hsql
  · cases hsql
    exact .nil
  · rename_i part hparts
    cases hsql
    exact .after (hF.fixed rfl) rfl ((hshown part (hparts ▸ List.mem_singleton_self _)).parenthesized hF)
  · cases hsql
  · rename_i _ hparts _
    cases hsql
    exact hshown _ (hparts ▸ List.mem_singleton_self _)
  · cases hsql
    exact hjoined

end

end Sql

end ArenaSql
