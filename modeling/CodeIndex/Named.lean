import CodeIndex.Json.Reader

/-!
Closed sets of things with written names, such as the languages or the kinds of a chunk.

* `Named` lists the things and names each; `Named.find?` looks one up by its name, exactly;
* `Named.read` does the same and says what was not found;
* `Named.ofJson?` reads a name in JSON, also as the one key of an object whose value is `null`.
-/
namespace CodeIndex

/-- A closed set of named things; `what` is what one of them is called in messages. -/
class Named (α : Type) where
  what : String
  all : List α
  name : α → String

namespace Named

variable {α : Type} [Named α]

/-- The thing with a name. -/
def find? (text : String) : Option α := (all (α := α)).find? fun a => name a == text

/-- The thing with a name, or what to say when there is none. -/
def read (text : String) : Except String α :=
  match find? text with
  | some a => .ok a
  | none => .error ("unknown " ++ what α ++ ": " ++ text)

/-- A name in JSON. -/
def toJson (a : α) : Json := .str (name a)

/-- The thing that JSON names. -/
def ofJson? : Json → Option α
  | .str text => find? text
  | .obj [(text, .null)] => find? text
  | _ => none

end Named

end CodeIndex
