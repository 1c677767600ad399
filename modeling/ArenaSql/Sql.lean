import ArenaSql.Value.Basic

/-!
# SQL fragments

A fragment is a sequence of pieces: plain text, and placeholders together with the value each one stands for.
Its text and its bound values are two views of it.
-/

namespace ArenaSql

inductive Piece where
  | plain (text : String)
  | bound (value : Value) (mark : String)

def Piece.text : Piece → String
  | .plain text => text
  | .bound _ mark => mark

abbrev Sql := List Piece

namespace Sql

def plain (text : String) : Sql :=
  [.plain text]

def text (sql : Sql) : String :=
  String.join (sql.map Piece.text)

/-- The values of the placeholders, left to right. -/
def values : Sql → List Value
  | [] => []
  | .plain _ :: rest => values rest
  | .bound value _ :: rest => value :: values rest

/-- Whether a fragment has no text. -/
def isBlank (sql : Sql) : Bool :=
  sql.all (·.text.isEmpty)

def parenthesized (sql : Sql) : Sql :=
  plain "(" ++ sql ++ plain ")"

/-- The fragments with a separator between each two of them. -/
def joined (separator : String) : List Sql → Sql
  | [] => []
  | [sql] => sql
  | sql :: rest => sql ++ plain separator ++ joined separator rest

/-! ## Views of composed fragments -/

@[simp] theorem text_nil : text [] = "" := rfl

@[simp] theorem text_cons (piece : Piece) (rest : Sql) : text (piece :: rest) = piece.text ++ text rest := by
  simp [text]

@[simp] theorem text_plain (s : String) : text (plain s) = s := by
  simp [plain, Piece.text]

@[simp] theorem values_plain (s : String) : values (plain s) = [] := rfl

@[simp] theorem text_append (a b : Sql) : text (a ++ b) = text a ++ text b := by
  induction a with
  | nil => simp
  | cons piece rest ih => simp [ih, String.append_assoc]

theorem isBlank_iff (sql : Sql) : sql.isBlank ↔ sql.text = "" := by
  induction sql with
  | nil => simp [isBlank]
  | cons piece rest ih => simp_all [isBlank]

@[simp] theorem values_append (a b : Sql) : values (a ++ b) = values a ++ values b := by
  induction a with
  | nil => rfl
  | cons piece rest ih => cases piece <;> simp [values, ih]

@[simp] theorem values_parenthesized (sql : Sql) : values sql.parenthesized = values sql := by
  simp [parenthesized]

theorem values_joined (separator : String) (parts : List Sql) :
    values (joined separator parts) = parts.flatMap values := by
  induction parts with
  | nil => rfl
  | cons sql rest ih =>
    cases rest with
    | nil => simp [joined]
    | cons next more => simp [joined, ih]

end Sql

/-- A compiled query: its fragment, the values to bind in the order of the placeholders, and the name of the
dialect it is written in. -/
structure Statement where
  sql : Sql
  values : List Value
  dialect : String

def Statement.text (s : Statement) : String :=
  s.sql.text

end ArenaSql
