import ArenaSql.Decode.Checked

/-!
# Decoding records, lists and mappings

A record has named fields, each required or with a default, and no others. Its issues come field by field in
the order of the record, then for every unknown field in the order of the document.
-/

namespace ArenaSql.Decode

variable {α : Type}

def record (decode : Fields → Checked α) : Value → Checked α
  | .object fields => decode fields
  | _ => .issue .notRecord

def required (fields : Fields) (name : String) (decode : Value → Checked α) : Checked α :=
  match fields.get? name with
  | some v => (decode v).under (.field name)
  | none => .bad [⟨.missing, [.field name]⟩]

def optional (fields : Fields) (name : String) (default : α) (decode : Value → Checked α) : Checked α :=
  match fields.get? name with
  | some v => (decode v).under (.field name)
  | none => .ok default

/-- Reports the fields that are not among the known ones. -/
def noOthers (known : List String) (fields : Fields) : Checked Unit :=
  match fields.filter fun (name, _) => !known.contains name with
  | [] => .ok ()
  | unknown => .bad (unknown.map fun (name, _) => ⟨.unknownField, [.field name]⟩)

/-- Decodes items from position `index` on. -/
def items (decode : Value → Checked α) : Nat → List Value → Checked (List α)
  | _, [] => .ok []
  | index, v :: rest => List.cons <$> (decode v).under (.item index) <*> items decode (index + 1) rest

def list (decode : Value → Checked α) : Value → Checked (List α)
  | .list vs => items decode 0 vs
  | _ => .issue .notList

def entries (decode : Value → Checked α) : Fields → Checked (List (String × α))
  | [] => .ok []
  | (key, v) :: rest =>
    (fun a more => (key, a) :: more) <$> (decode v).under (.field key) <*> entries decode rest

/-- A mapping from arbitrary names. -/
def mapping (decode : Value → Checked α) : Value → Checked (List (String × α))
  | .object fields => entries decode fields
  | _ => .issue .notMapping

end ArenaSql.Decode
