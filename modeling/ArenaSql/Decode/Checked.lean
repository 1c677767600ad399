import ArenaSql.Value.Basic

/-!
# Checked decoding

Decoding a document gives a value of the wanted type or all the issues of the document. An issue has a kind
and the path to the place it was found at. Two decoders side by side report the issues of both, the left one's
first.
-/

namespace ArenaSql

/-! ## Issues -/

inductive IssueKind where
  | notRecord
  | missing
  | unknownField
  | notText
  | textTooShort
  | textPattern
  | notChoice
  | notList
  | notMapping
  | notInteger
  | integerText
  | integerSize
  | integerFraction
  | notFinite
  | notBool
  | boolText
  | notNode
  | kindMissing
  | kindUnknown
  deriving DecidableEq

def IssueKind.code : IssueKind → String
  | .notRecord => "model_type"
  | .missing => "missing"
  | .unknownField => "extra_forbidden"
  | .notText => "string_type"
  | .textTooShort => "string_too_short"
  | .textPattern => "string_pattern_mismatch"
  | .notChoice => "literal_error"
  | .notList => "list_type"
  | .notMapping => "dict_type"
  | .notInteger => "int_type"
  | .integerText => "int_parsing"
  | .integerSize => "int_parsing_size"
  | .integerFraction => "int_from_float"
  | .notFinite => "finite_number"
  | .notBool => "bool_type"
  | .boolText => "bool_parsing"
  | .notNode => "model_attributes_type"
  | .kindMissing => "union_tag_not_found"
  | .kindUnknown => "union_tag_invalid"

inductive PathStep where
  | field (name : String)
  | item (index : Nat)
  deriving DecidableEq

structure Issue where
  kind : IssueKind
  path : List PathStep
  deriving DecidableEq

/-! ## Checked results -/

inductive Checked (α : Type) where
  | ok (value : α)
  | bad (issues : List Issue)

namespace Checked

variable {α β : Type}

def issue (kind : IssueKind) : Checked α :=
  .bad [⟨kind, []⟩]

def map (f : α → β) : Checked α → Checked β
  | .ok a => .ok (f a)
  | .bad issues => .bad issues

/-- Applies a checked function. Issues of the function come before issues of its argument. -/
def apply : Checked (α → β) → Checked α → Checked β
  | .ok f, .ok a => .ok (f a)
  | .ok _, .bad issues => .bad issues
  | .bad issues, .ok _ => .bad issues
  | .bad issues, .bad more => .bad (issues ++ more)

instance : Applicative Checked where
  pure := .ok
  map := map
  seq f x := apply f (x ())

/-- Moves all issues one step down. -/
def under (step : PathStep) : Checked α → Checked α
  | .ok a => .ok a
  | .bad issues => .bad (issues.map fun i => { i with path := step :: i.path })

def toExcept : Checked α → Except (List Issue) α
  | .ok a => .ok a
  | .bad issues => .error issues

end Checked

end ArenaSql
