import ArenaSql.Decode.Checked
import ArenaSql.Decode.Numeral

/-!
# Decoding scalars

Texts and choices are taken as they are. Integers and truth values are read leniently: an integer may also be
a truth value, a floating-point number without fraction or a numeral; a truth value may also be zero, one or
one of the usual words.
-/

namespace ArenaSql.Decode

def text : Value → Checked String
  | .str s => .ok s
  | _ => .issue .notText

/-- One of the texts that stand for the elements of `all`. -/
def choice {α : Type} (all : List α) (spelling : α → String) : Value → Checked α
  | .str s =>
    match all.find? (spelling · == s) with
    | some a => .ok a
    | none => .issue .notChoice
  | _ => .issue .notChoice

/-- Null, or what `decode` accepts. -/
def nullable {α : Type} (decode : Value → Checked α) : Value → Checked (Option α)
  | .null => .ok none
  | v => some <$> decode v

/-! ## Integers -/

def integerText (s : String) : Checked Int :=
  if startsOversized s.toList then .issue .integerSize
  else match integer? s.toList with
    | some n => .ok n
    | none => .issue .integerText

/-- The first positive integer beyond a signed word of 64 bits. -/
def wordBound : Int := 9223372036854775808

/-- Strictly between the bounds of a word. -/
def fitsWord (n : Int) : Bool :=
  -wordBound < n && n < wordBound

def integerFloat (x : Binary64) : Checked Int :=
  if !x.isFinite then .issue .notFinite
  else match x.toInt? with
    | none => .issue .integerFraction
    | some n => if fitsWord n then .ok n else .issue .integerSize

def integer : Value → Checked Int
  | .int n => .ok n
  | .bool b => .ok (if b then 1 else 0)
  | .float x => integerFloat x
  | .str s => integerText s
  | _ => .issue .notInteger

/-! ## Truth values -/

def falseWords : List String := ["0", "off", "f", "false", "n", "no"]

def trueWords : List String := ["1", "on", "t", "true", "y", "yes"]

def boolInteger (n : Int) : Checked Bool :=
  if n = 0 then .ok false
  else if n = 1 then .ok true
  else .issue .boolText

def boolText (s : String) : Checked Bool :=
  let word := String.ofList (s.toList.map Char.toLower)
  if falseWords.contains word then .ok false
  else if trueWords.contains word then .ok true
  else .issue .boolText

def bool : Value → Checked Bool
  | .bool b => .ok b
  | .int n => if -wordBound ≤ n && n < wordBound then boolInteger n else .issue .notBool
  | .float x =>
    match x.toInt? with
    | some n => if fitsWord n then boolInteger n else .issue .notBool
    | none => .issue .notBool
  | .str s => boolText s
  | _ => .issue .notBool

end ArenaSql.Decode
