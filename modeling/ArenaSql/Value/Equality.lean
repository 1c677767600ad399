import ArenaSql.Value.Basic

/-!
# Equality of values

Values are compared by their structure: the order of fields counts, and floating-point numbers are equal if
their bits are.
-/

namespace ArenaSql

namespace Value

mutual

def decEq : (a b : Value) → Decidable (a = b)
  | .null, .null => isTrue rfl
  | .bool a, .bool b => decidable_of_iff (a = b) (by simp)
  | .int a, .int b => decidable_of_iff (a = b) (by simp)
  | .float a, .float b => decidable_of_iff (a = b) (by simp)
  | .str a, .str b => decidable_of_iff (a = b) (by simp)
  | .list a, .list b => @decidable_of_iff _ (a = b) (by simp) (decEqItems a b)
  | .object a, .object b => @decidable_of_iff _ (a = b) (by simp) (decEqFields a b)
  | .null, .bool _ | .null, .int _ | .null, .float _ | .null, .str _ | .null, .list _ | .null, .object _
  | .bool _, .null | .bool _, .int _ | .bool _, .float _ | .bool _, .str _ | .bool _, .list _
  | .bool _, .object _ | .int _, .null | .int _, .bool _ | .int _, .float _ | .int _, .str _
  | .int _, .list _ | .int _, .object _ | .float _, .null | .float _, .bool _ | .float _, .int _
  | .float _, .str _ | .float _, .list _ | .float _, .object _ | .str _, .null | .str _, .bool _
  | .str _, .int _ | .str _, .float _ | .str _, .list _ | .str _, .object _ | .list _, .null
  | .list _, .bool _ | .list _, .int _ | .list _, .float _ | .list _, .str _ | .list _, .object _
  | .object _, .null | .object _, .bool _ | .object _, .int _ | .object _, .float _ | .object _, .str _
  | .object _, .list _ => isFalse (by simp)

def decEqItems : (a b : List Value) → Decidable (a = b)
  | [], [] => isTrue rfl
  | v :: vs, w :: ws =>
    match decEq v w, decEqItems vs ws with
    | isTrue h, isTrue k => isTrue (by rw [h, k])
    | isFalse h, _ => isFalse (by simp [h])
    | _, isFalse k => isFalse (by simp [k])
  | [], _ :: _ | _ :: _, [] => isFalse (by simp)

def decEqFields : (a b : List (String × Value)) → Decidable (a = b)
  | [], [] => isTrue rfl
  | (k, v) :: vs, (l, w) :: ws =>
    match decEq v w, decEqFields vs ws with
    | isTrue h, isTrue i => decidable_of_iff (k = l) (by simp [h, i])
    | isFalse h, _ => isFalse (by simp [h])
    | _, isFalse i => isFalse (by simp [i])
  | [], _ :: _ | _ :: _, [] => isFalse (by simp)

end

instance : DecidableEq Value := decEq

end Value

end ArenaSql
