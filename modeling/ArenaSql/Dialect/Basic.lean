/-!
# Dialects

A dialect decides how a placeholder is spelled and which keyword stands for a pattern match. Placeholders are
requested one after another and counted from one; all standard dialects spell every placeholder alike.
-/

namespace ArenaSql

inductive LikeOp where
  | like
  | ilike
  deriving DecidableEq

def LikeOp.text : LikeOp → String
  | .like => "LIKE"
  | .ilike => "ILIKE"

structure Dialect where
  name : String
  /-- The spelling of the placeholder with a given number. -/
  placeholder : Nat → String
  like : LikeOp → String

namespace Dialect

def generic : Dialect := ⟨"generic", fun _ => "?", LikeOp.text⟩

/-- Knows no match without regard to case other than its plain one. -/
def sqlite : Dialect := ⟨"sqlite", fun _ => "?", fun _ => "LIKE"⟩

def postgres : Dialect := ⟨"postgres", fun _ => "%s", LikeOp.text⟩

def mysql : Dialect := ⟨"mysql", fun _ => "%s", fun _ => "LIKE"⟩

/-- Every `#` of the template becomes the number of the placeholder. -/
def fillTemplate (template : String) (number : Nat) : String :=
  String.ofList (template.toList.flatMap fun c => if c = '#' then Nat.toDigits 10 number else [c])

/-- A dialect given by a placeholder template and by the keywords that differ from the usual ones. -/
def custom (name template : String) (keywords : LikeOp → Option String) : Dialect :=
  ⟨name, fillTemplate template, fun op => (keywords op).getD op.text⟩

end Dialect

end ArenaSql
