import ArenaSql.Text.Numeral
import Mathlib.Data.List.Basic
import Mathlib.Data.List.TakeWhile
import Mathlib.Data.Nat.Digits.Defs

/-!
# Which texts spell integers

An integer is spelled by a sign, which may be missing, and groups of digits with single underscores between them. Blanks
may stand around it. The texts that are read as an integer are those that spell it with at most `maxDigits` digits.
-/

namespace ArenaSql.Text

/-! ## Groups of digits -/

/-- The digits come in groups, none of them empty, with a single underscore between two groups. -/
def Grouped (isDigit : Char → Bool) (cs digits : List Char) : Prop :=
  ∃ groups : List (List Char), groups ≠ [] ∧ (∀ group ∈ groups, group ≠ [] ∧ ∀ c ∈ group, isDigit c) ∧
    cs = ['_'].intercalate groups ∧ digits = groups.flatten

section Groups

variable {isDigit : Char → Bool} {cs digits : List Char}

theorem Grouped.digit {c : Char} (hc : isDigit c) : Grouped isDigit [c] [c] :=
  ⟨[[c]], List.cons_ne_nil _ _, by simpa using hc, by simp, by simp⟩

/-- A digit in front of a digit goes to its group. -/
theorem Grouped.cons {c : Char} (hc : isDigit c) (h : Grouped isDigit cs digits) :
    Grouped isDigit (c :: cs) (c :: digits) := by
  obtain ⟨groups, hne, hgroups, rfl, rfl⟩ := h
  cases groups with
  | nil => exact absurd rfl hne
  | cons group rest =>
    obtain ⟨hgroup, hrest⟩ := List.forall_mem_cons.mp hgroups
    refine ⟨(c :: group) :: rest, List.cons_ne_nil _ _, List.forall_mem_cons.mpr ⟨⟨List.cons_ne_nil _ _, ?_⟩, hrest⟩,
      ?_, rfl⟩
    · exact List.forall_mem_cons.mpr ⟨hc, hgroup.2⟩
    · cases rest <;> simp

/-- A digit in front of an underscore is a group of its own. -/
theorem Grouped.cons_underscore {c : Char} (hc : isDigit c) (h : Grouped isDigit cs digits) :
    Grouped isDigit (c :: '_' :: cs) (c :: digits) := by
  obtain ⟨groups, hne, hgroups, rfl, rfl⟩ := h
  cases groups with
  | nil => exact absurd rfl hne
  | cons group rest =>
    refine ⟨[c] :: group :: rest, List.cons_ne_nil _ _, List.forall_mem_cons.mpr ⟨?_, hgroups⟩, ?_, rfl⟩
    · exact ⟨List.cons_ne_nil _ _, List.forall_mem_singleton.mpr hc⟩
    · simp

theorem grouped_of_groupedDigits? (h : groupedDigits? isDigit cs = some digits) : Grouped isDigit cs digits := by
  fun_induction groupedDigits? isDigit cs generalizing digits with
  | case1 => cases h
  | case2 c hc => cases h; exact .digit hc
  | case3 => cases h
  | case4 c rest hc ih =>
    obtain ⟨more, hmore, rfl⟩ := Option.map_eq_some_iff.mp h
    exact (ih hmore).cons_underscore hc
  | case5 => cases h
  | case6 c rest _ _ hc ih =>
    obtain ⟨more, hmore, rfl⟩ := Option.map_eq_some_iff.mp h
    exact (ih hmore).cons hc
  | case7 => cases h

theorem ends_of_groupedDigits? (h : groupedDigits? isDigit cs = some digits) :
    ∃ hne : cs ≠ [], isDigit (cs.head hne) ∧ isDigit (cs.getLast hne) := by
  fun_induction groupedDigits? isDigit cs generalizing digits with
  | case1 => cases h
  | case2 c hc => exact ⟨List.cons_ne_nil _ _, hc, hc⟩
  | case3 => cases h
  | case4 c rest hc ih =>
    obtain ⟨more, hmore, -⟩ := Option.map_eq_some_iff.mp h
    obtain ⟨hne, -, hlast⟩ := ih hmore
    exact ⟨List.cons_ne_nil _ _, hc, by rwa [List.getLast_cons (List.cons_ne_nil _ _), List.getLast_cons hne]⟩
  | case5 => cases h
  | case6 c rest _ _ hc ih =>
    obtain ⟨more, hmore, -⟩ := Option.map_eq_some_iff.mp h
    obtain ⟨hne, -, hlast⟩ := ih hmore
    exact ⟨List.cons_ne_nil _ _, hc, by rwa [List.getLast_cons hne]⟩
  | case7 => cases h

variable (hunderscore : isDigit '_' = false)

include hunderscore

theorem groupedDigits?_cons_digit {c d : Char} (hc : isDigit c) (hd : isDigit d) (rest : List Char) :
    groupedDigits? isDigit (c :: d :: rest) = (groupedDigits? isDigit (d :: rest)).map (c :: ·) := by
  have hne : d ≠ '_' := by
    rintro rfl
    rw [hunderscore] at hd
    cases hd
  rw [groupedDigits?, if_pos hc]
  · intro h
    cases h
  · intro _ h
    exact hne (List.cons.inj h).1

/-- A group is read to its end, or to the underscore behind it. -/
theorem groupedDigits?_group {group : List Char} (hne : group ≠ []) (hgroup : ∀ c ∈ group, isDigit c) :
    groupedDigits? isDigit group = some group ∧
      ∀ rest, groupedDigits? isDigit (group ++ '_' :: rest) = (groupedDigits? isDigit rest).map (group ++ ·) := by
  induction group with
  | nil => exact absurd rfl hne
  | cons c more ih =>
    obtain ⟨hc, hmore⟩ := List.forall_mem_cons.mp hgroup
    cases more with
    | nil => exact ⟨by simp [groupedDigits?, hc], fun rest => by simp [groupedDigits?, hc]⟩
    | cons d more =>
      obtain ⟨hwhole, hbefore⟩ := ih (List.cons_ne_nil _ _) hmore
      have hd := hmore d List.mem_cons_self
      refine ⟨?_, fun rest => ?_⟩
      · rw [groupedDigits?_cons_digit hunderscore hc hd, hwhole, Option.map_some]
      · rw [List.cons_append, List.cons_append, groupedDigits?_cons_digit hunderscore hc hd, ← List.cons_append,
          hbefore, Option.map_map]
        rfl

theorem groupedDigits?_eq_some_iff : groupedDigits? isDigit cs = some digits ↔ Grouped isDigit cs digits := by
  refine ⟨grouped_of_groupedDigits?, ?_⟩
  rintro ⟨groups, hne, hgroups, rfl, rfl⟩
  induction groups with
  | nil => exact absurd rfl hne
  | cons group rest ih =>
    obtain ⟨⟨hgroup, hdigits⟩, hrest⟩ := List.forall_mem_cons.mp hgroups
    obtain ⟨hwhole, hbefore⟩ := groupedDigits?_group hunderscore hgroup hdigits
    cases rest with
    | nil => simpa using hwhole
    | cons next rest =>
      have hmore := ih (List.cons_ne_nil _ _) hrest
      rw [List.intercalate_cons_cons, List.append_assoc, List.singleton_append, hbefore, hmore]
      rfl

end Groups

/-! ## Blanks -/

theorem trim_eq (cs : List Char) :
    ∃ before after, cs = before ++ trim cs ++ after ∧ (∀ c ∈ before, isBlank c) ∧ ∀ c ∈ after, isBlank c := by
  refine ⟨cs.takeWhile isBlank, ((cs.dropWhile isBlank).reverse.takeWhile isBlank).reverse, ?_, ?_, ?_⟩
  · rw [trim, List.append_assoc, ← List.reverse_append, List.takeWhile_append_dropWhile, List.reverse_reverse,
      List.takeWhile_append_dropWhile]
  · exact fun c hc => List.mem_takeWhile_imp hc
  · exact fun c hc => List.mem_takeWhile_imp (List.mem_reverse.mp hc)

theorem dropWhile_blanks {before : List Char} {c : Char} (hbefore : ∀ c ∈ before, isBlank c) (hc : isBlank c = false)
    (rest : List Char) : (before ++ c :: rest).dropWhile isBlank = c :: rest := by
  rw [List.dropWhile_append_of_pos hbefore, List.dropWhile_cons_of_neg (by simp [hc])]

/-- What starts and ends with characters other than blanks is found between blanks. -/
theorem trim_append {before after core : List Char} (hbefore : ∀ c ∈ before, isBlank c)
    (hafter : ∀ c ∈ after, isBlank c) (hne : core ≠ []) (hhead : isBlank (core.head hne) = false)
    (hlast : isBlank (core.getLast hne) = false) : trim (before ++ core ++ after) = core := by
  have hfront : (before ++ (core ++ after)).dropWhile isBlank = core ++ after := by
    rw [← List.cons_head_tail hne, List.cons_append]
    exact dropWhile_blanks hbefore hhead _
  have hback : (after.reverse ++ core.reverse).dropWhile isBlank = core.reverse := by
    rw [← List.dropLast_append_getLast hne, List.reverse_append, List.reverse_singleton, List.singleton_append]
    exact dropWhile_blanks (fun c hc => hafter c (List.mem_reverse.mp hc)) hlast _
  rw [trim, List.append_assoc, hfront, List.reverse_append, hback, List.reverse_reverse]

/-- The code points of blanks. -/
def blanks : List Nat :=
  [0x9, 0xA, 0xB, 0xC, 0xD, 0x20, 0x85, 0xA0, 0x1680, 0x2000, 0x2001, 0x2002, 0x2003, 0x2004, 0x2005, 0x2006, 0x2007,
    0x2008, 0x2009, 0x200A, 0x2028, 0x2029, 0x202F, 0x205F, 0x3000]

theorem mem_blanks_of_isBlank {c : Char} (h : isBlank c) : c.toNat ∈ blanks := by
  simp only [isBlank, Bool.or_eq_true, Bool.and_eq_true, decide_eq_true_eq, beq_iff_eq] at h
  simp only [blanks, List.mem_cons, List.not_mem_nil, or_false]
  omega

theorem isBlank_of_isDecimalDigit {c : Char} (h : isDecimalDigit c) : isBlank c = false := by
  have hnone : ∀ n ∈ blanks, (digitZeros.find? fun base => base ≤ n && n ≤ base + 9) = none := by decide +kernel
  refine Bool.eq_false_iff.mpr fun hblank => ?_
  rw [isDecimalDigit, digitValue?, hnone c.toNat (mem_blanks_of_isBlank hblank)] at h
  cases h

/-! ## Integers -/

/-- The number that digits of any script spell in base ten, the last one being the unit. -/
def decimalValue (digits : List Char) : Nat :=
  Nat.ofDigits 10 (digits.reverse.map fun c => (digitValue? c).getD 0)

theorem digitsValue_eq (digits : List Char) : digitsValue digits = decimalValue digits := by
  rw [decimalValue, Nat.ofDigits_eq_foldr, List.foldr_map, List.foldr_reverse, digitsValue]
  congr 1
  funext n c
  simp only [Nat.cast_id]
  omega

/-- The text spells the integer: a sign and digits in groups, with blanks around them. -/
def Spells (s : String) (n : Int) : Prop :=
  ∃ before sign body after digits : List Char, s.toList = before ++ (sign ++ body) ++ after ∧
    (∀ c ∈ before, isBlank c) ∧ (∀ c ∈ after, isBlank c) ∧ sign ∈ [[], ['+'], ['-']] ∧
    Grouped isDecimalDigit body digits ∧ digits.length ≤ maxDigits ∧
    n = if sign = ['-'] then -(decimalValue digits : Int) else decimalValue digits

theorem splitSign_eq (cs : List Char) :
    ∃ sign ∈ [[], ['+'], ['-']], cs = sign ++ (splitSign cs).2 ∧ (splitSign cs).1 = decide (sign = ['-']) := by
  unfold splitSign
  split
  · exact ⟨['-'], by simp, rfl, rfl⟩
  · exact ⟨['+'], by simp, rfl, rfl⟩
  · exact ⟨[], by simp, rfl, rfl⟩

/-- A sign is split off in front of what does not start with another one. -/
theorem splitSign_append {sign body : List Char} (hsign : sign ∈ [[], ['+'], ['-']]) (hne : body ≠ [])
    (hdigit : isDecimalDigit (body.head hne)) : splitSign (sign ++ body) = (decide (sign = ['-']), body) := by
  simp only [List.mem_cons, List.not_mem_nil, or_false] at hsign
  rcases hsign with rfl | rfl | rfl
  · have hsigns : isDecimalDigit '-' = false ∧ isDecimalDigit '+' = false := by decide +kernel
    unfold splitSign
    split
    · rename_i rest hrest
      simp only [List.nil_append] at hrest
      simp [hrest, hsigns] at hdigit
    · rename_i rest hrest
      simp only [List.nil_append] at hrest
      simp [hrest, hsigns] at hdigit
    · rfl
  · rfl
  · rfl

theorem signed_eq (sign : List Char) (n : Nat) :
    signed (decide (sign = ['-'])) n = if sign = ['-'] then -(n : Int) else n := by
  simp [signed]

/-- A text is read as the integer that it spells. -/
theorem integer?_eq_some_iff {s : String} {n : Int} : integer? s = some n ↔ Spells s n := by
  have hunderscore : isDecimalDigit '_' = false := by decide +kernel
  have hread : integer? s = some n ↔ ∃ digits, groupedDigits? isDecimalDigit (splitSign (trim s.toList)).2 = some digits ∧
      digits.length ≤ maxDigits ∧ n = signed (splitSign (trim s.toList)).1 (decimalValue digits) := by
    rw [integer?]
    dsimp only
    split
    · rename_i digits hdigits
      simp [digitsValue_eq, hdigits, eq_comm]
    · rename_i hnone
      simp [hnone]
  rw [hread]
  constructor
  · rintro ⟨digits, hdigits, hlength, rfl⟩
    obtain ⟨before, after, hs, hbefore, hafter⟩ := trim_eq s.toList
    obtain ⟨sign, hsign, hcore, hnegative⟩ := splitSign_eq (trim s.toList)
    rw [hcore] at hs
    exact ⟨before, sign, _, after, digits, hs, hbefore, hafter, hsign, grouped_of_groupedDigits? hdigits, hlength,
      hnegative ▸ signed_eq sign _⟩
  · rintro ⟨before, sign, body, after, digits, hs, hbefore, hafter, hsign, hgrouped, hlength, rfl⟩
    have hdigits := (groupedDigits?_eq_some_iff hunderscore).mpr hgrouped
    obtain ⟨hne, hhead, hlast⟩ := ends_of_groupedDigits? hdigits
    have hblank : isBlank ((sign ++ body).head (List.append_ne_nil_of_right_ne_nil _ hne)) = false := by
      simp only [List.mem_cons, List.not_mem_nil, or_false] at hsign
      rcases hsign with rfl | rfl | rfl
      · exact isBlank_of_isDecimalDigit hhead
      · rfl
      · rfl
    have hcore : trim s.toList = sign ++ body := by
      rw [hs]
      refine trim_append hbefore hafter (List.append_ne_nil_of_right_ne_nil _ hne) hblank ?_
      rw [List.getLast_append_of_ne_nil _ hne]
      exact isBlank_of_isDecimalDigit hlast
    rw [hcore, splitSign_append hsign hne hhead]
    exact ⟨digits, hdigits, hlength, (signed_eq sign _).symm⟩

end ArenaSql.Text
