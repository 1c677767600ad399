import ArenaSql.Config
import ArenaSql.Text.Numeral

/-!
# Generated aliases

Expressions that need a name get an alias made from their text: letters stay, all else becomes underscores,
and a suffix follows. An alias that is taken gets a number, and the number grows until the alias is free or the
number too long. The table maps texts to aliases in the order in which the texts first came up.
-/

namespace ArenaSql

structure AliasTable where
  entries : List (String × String) := []

namespace AliasTable

def find? (t : AliasTable) (text : String) : Option String :=
  (t.entries.find? (·.1 == text)).map (·.2)

def aliases (t : AliasTable) : List String :=
  t.entries.map (·.2)

def insertEntry (text name : String) : List (String × String) → List (String × String)
  | [] => [(text, name)]
  | (key, old) :: rest =>
    if key == text then (key, name) :: rest else (key, old) :: insertEntry text name rest

/-- Maps a text to an alias. A text that is already there keeps its place. -/
def insert (t : AliasTable) (text name : String) : AliasTable :=
  ⟨insertEntry text name t.entries⟩

theorem find?_insert_self (t : AliasTable) (text name : String) :
    (t.insert text name).find? text = some name := by
  obtain ⟨entries⟩ := t
  simp only [insert, find?]
  induction entries with
  | nil => simp [insertEntry]
  | cons entry rest ih =>
    obtain ⟨key, old⟩ := entry
    by_cases h : key = text
    · simp [insertEntry, h]
    · simpa [insertEntry, h] using ih

theorem find?_insert_of_ne (t : AliasTable) {text other : String} (name : String) (h : other ≠ text) :
    (t.insert text name).find? other = t.find? other := by
  obtain ⟨entries⟩ := t
  simp only [insert, find?]
  induction entries with
  | nil => simp [insertEntry, Ne.symm h]
  | cons entry rest ih =>
    obtain ⟨key, old⟩ := entry
    by_cases hk : key = text
    · simp [insertEntry, hk, Ne.symm h]
    · by_cases ho : key = other
      · subst ho
        simp [insertEntry, hk]
      · simpa [insertEntry, hk, ho] using ih

/-! ## Making aliases -/

/-- The text with all but ASCII letters made underscores, and without underscores at the end. -/
def stem (text : String) : List Char :=
  ((text.toList.map fun c => if c.isAlpha then c else '_').reverse.dropWhile (· == '_')).reverse

/-- The alias an expression gets if no other has it. -/
def candidate (config : Config) (text : String) : List Char :=
  let letters := stem text
  (if letters.isEmpty then config.emptyAliasBase.toList else letters) ++ config.aliasSuffix.toList

/-- What stands before the last underscore and the digits behind it, if an alias ends so. One line break after
the digits does not count. -/
def splitNumber? (name : List Char) : Option (List Char × List Char) :=
  let body := if name.getLast? = some '\n' then name.dropLast else name
  let digits := (body.reverse.takeWhile Text.isDecimalDigit).reverse
  let before := body.take (body.length - digits.length)
  if digits.isEmpty || before.getLast? != some '_' then none
  else some (before.dropLast, digits)

/-- The number after the one that some digits spell. -/
def nextNumber (digits : List Char) : Except Text.LengthError (List Char) :=
  if Text.maxDigits < digits.length then .error (.reading digits.length)
  else
    let number := Nat.toDigits 10 (Text.digitsValue digits + 1)
    if Text.maxDigits < number.length then .error .writing else .ok number

/-- The alias to try after one that is taken. -/
def next (name : List Char) : Except Text.LengthError (List Char) :=
  match splitNumber? name with
  | some (before, digits) => (nextNumber digits).map fun number => before ++ '_' :: number
  | none => .ok (name ++ ['_', '1'])

/-- The first free alias from `name` on, after at most `n` tries. No alias is tried twice, so one that was
found to be taken need not be looked at again. -/
def freeFrom : Nat → List String → List Char → Except Text.LengthError (List Char)
  | 0, _, name => .ok name
  | n + 1, taken, name =>
    if taken.contains (String.ofList name) then
      match next name with
      | .ok other => freeFrom n (taken.erase (String.ofList name)) other
      | .error e => .error e
    else .ok name

/-- A free alias for a text. The tries have growing numbers, so as many as there are aliases suffice. -/
def freshAlias (t : AliasTable) (config : Config) (text : String) : Except Text.LengthError String :=
  (freeFrom t.aliases.length t.aliases (candidate config text)).map String.ofList

/-- Gives a text a fresh alias. -/
def assign (t : AliasTable) (config : Config) (text : String) : Except Text.LengthError (String × AliasTable) :=
  (t.freshAlias config text).map fun name => (name, t.insert text name)

end AliasTable

end ArenaSql
