import CodeIndex.Json.Reader

/-!
Records as written in a data format: the fields of a record stand under their names, or in their
order in a list. Names that the record does not know are passed over.
-/
namespace CodeIndex

/-- The fields of a record that have been written down, as values of a format. -/
structure Record (β : Type) where
  /-- Whether the fields stand under their names. -/
  named : Bool
  fields : List (String × β)

namespace Record

variable {α β : Type}

/-- What is written for a field, last if it is written twice. -/
def get? (r : Record β) (name : String) : Option β :=
  (r.fields.reverse.find? (·.1 == name)).map (·.2)

/-- A field that has to be there. -/
def required (r : Record β) (name : String) (read : β → Option α) : Option α :=
  (r.get? name).bind read

/-- A field that takes a default when it is left out. -/
def defaulted (r : Record β) (name : String) (default : α) (read : β → Option α) : Option α :=
  match r.get? name with
  | none => some default
  | some b => read b

/-- A field whose value may be `null`, and which may be left out where fields have names. -/
def nullable (r : Record Json) (name : String) (read : Json → Option α) : Option (Option α) :=
  match r.get? name with
  | none => if r.named then some none else none
  | some .null => some none
  | some j => (read j).map some

/-- Reads a record with the given field names from JSON. -/
def ofJson? (names : List String) : Json → Option (Record Json)
  | .obj members => some ⟨true, members⟩
  | .arr items => if items.length ≤ names.length then some ⟨false, names.zip items⟩ else none
  | _ => none

end Record

namespace Json

/-- A string. -/
def str? : Json → Option String
  | str s => some s
  | _ => none

/-- A truth value. -/
def bool? : Json → Option Bool
  | bool b => some b
  | _ => none

/-- A whole number below a bound and not below zero. -/
def natBelow? (bound : Nat) : Json → Option Nat
  | int n => if 0 ≤ n && n < bound then some n.toNat else none
  | _ => none

/-- A word of 64 bits. -/
def size? : Json → Option Nat := natBelow? (Nat.pow 2 64)

/-- A line number: a word of 32 bits. -/
def line? : Json → Option Nat := natBelow? (Nat.pow 2 32)

/-- A number, whole or not. -/
def real? : Json → Option Float
  | int n => some (Float.ofInt n)
  | real x => some x
  | _ => none

/-- An array with its items read. -/
def list? {α : Type} (read : Json → Option α) : Json → Option (List α)
  | arr items => items.mapM read
  | _ => none

end Json

end CodeIndex
