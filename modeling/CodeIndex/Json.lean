import CodeIndex.Decimal

/-!
JSON values and their written forms.

* `Json` keeps whole numbers apart from numbers with a point or an exponent;
* `Json.compact` writes a value without blanks and `Json.indented` one member a line.
-/
namespace CodeIndex

/-- A JSON value. The members of an object stand in written order. -/
inductive Json where
  | null
  | bool (b : Bool)
  | int (n : Int)
  | real (x : Float)
  | str (s : String)
  | arr (items : List Json)
  | obj (members : List (String × Json))

namespace Json

instance : Inhabited Json := ⟨null⟩

/-- The member of an object under a key; the last one where a key comes twice. -/
def get? (j : Json) (key : String) : Option Json :=
  match j with
  | obj members => (members.reverse.find? (·.1 == key)).map (·.2)
  | _ => none

/-- The member of an object under a key, if it is there and not `null`. -/
def present? (j : Json) (key : String) : Option Json :=
  match j.get? key with
  | some null => none
  | member => member

/-- A text, or `null` where there is none. -/
def ofText? (s : Option String) : Json := s.elim null str

/-- A natural number. -/
def nat (n : Nat) : Json := int n

/-- The members of a list that are there. -/
def objOf (members : List (String × Option Json)) : Json :=
  obj (members.filterMap fun (key, value) => value.map (key, ·))

/-! ## Written forms -/

/-- A hexadecimal digit. -/
def hexDigit (n : Nat) : Char :=
  if n < 10 then Char.ofNat (48 + n) else Char.ofNat (87 + n)

/-- A character inside quotes: quotes, backslashes and control characters are escaped. -/
def escapeChar (c : Char) : List Char :=
  if c == '"' then ['\\', '"']
  else if c == '\\' then ['\\', '\\']
  else if c == '\n' then ['\\', 'n']
  else if c == '\r' then ['\\', 'r']
  else if c == '\t' then ['\\', 't']
  else if c.toNat == 8 then ['\\', 'b']
  else if c.toNat == 12 then ['\\', 'f']
  else if c.toNat < 32 then
    ['\\', 'u', '0', '0', hexDigit (c.toNat / 16), hexDigit (c.toNat % 16)]
  else [c]

/-- A string in quotes. -/
def quoted (s : String) : String :=
  "\"" ++ String.ofList (s.toList.flatMap escapeChar) ++ "\""

/-- The text of a number; what is no number is `null`. -/
def realText (x : Float) : String :=
  if x.isNaN || x.isInf then "null" else exponentText x

mutual
/-- A value without blanks. -/
def compact : Json → String
  | null => "null"
  | bool b => if b then "true" else "false"
  | int n => toString n
  | real x => realText x
  | str s => quoted s
  | arr items => "[" ++ compactItems items ++ "]"
  | obj members => "\x7b" ++ compactMembers members ++ "\x7d"

/-- The items of an array, with commas between them. -/
def compactItems : List Json → String
  | [] => ""
  | [j] => j.compact
  | j :: rest => j.compact ++ "," ++ compactItems rest

/-- The members of an object, with commas between them. -/
def compactMembers : List (String × Json) → String
  | [] => ""
  | [(key, j)] => quoted key ++ ":" ++ j.compact
  | (key, j) :: rest => quoted key ++ ":" ++ j.compact ++ "," ++ compactMembers rest
end

/-- A new line with two blanks for each level of nesting. -/
def newline (depth : Nat) : String := "\n" ++ String.ofList (List.replicate (2 * depth) ' ')

mutual
/-- A value at a level of nesting, with every item and member on a line of its own. -/
def indentedAt (depth : Nat) : Json → String
  | arr [] => "[]"
  | obj [] => "\x7b\x7d"
  | arr items => "[" ++ indentedItems (depth + 1) items ++ newline depth ++ "]"
  | obj members => "\x7b" ++ indentedMembers (depth + 1) members ++ newline depth ++ "\x7d"
  | null => "null"
  | bool b => if b then "true" else "false"
  | int n => toString n
  | real x => realText x
  | str s => quoted s

/-- The items of an array, each on a new line. -/
def indentedItems (depth : Nat) : List Json → String
  | [] => ""
  | [j] => newline depth ++ j.indentedAt depth
  | j :: rest => newline depth ++ j.indentedAt depth ++ "," ++ indentedItems depth rest

/-- The members of an object, each on a new line. -/
def indentedMembers (depth : Nat) : List (String × Json) → String
  | [] => ""
  | [(key, j)] => newline depth ++ quoted key ++ ": " ++ j.indentedAt depth
  | (key, j) :: rest =>
    newline depth ++ quoted key ++ ": " ++ j.indentedAt depth ++ "," ++
      indentedMembers depth rest
end

/-- A value with every item and member on a line of its own. -/
def indented (j : Json) : String := j.indentedAt 0

end Json

end CodeIndex
