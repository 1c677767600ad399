/-!
# Code point order

Texts are ordered character by character, by code point; a proper beginning of a text comes before it.
-/

namespace ArenaSql.Text

def leChars : List Char → List Char → Bool
  | [], _ => true
  | _ :: _, [] => false
  | c :: cs, d :: ds => c.toNat < d.toNat || (c.toNat == d.toNat && leChars cs ds)

def le (s t : String) : Bool :=
  leChars s.toList t.toList

/-- Sorts texts by code points. -/
def sort (texts : List String) : List String :=
  texts.mergeSort le

end ArenaSql.Text
