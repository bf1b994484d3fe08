import CodeIndex.Text.Lowercase
import CodeIndex.Text.Occurrence

/-!
Patterns of the comparison LIKE.

In a pattern `%` stands for any text, `_` for any character, and a backslash takes away what the next
character means; all else stands for itself, with the letters of ASCII in either case. Texts end
before their first character of code zero, and the two noncharacters that end the first plane are
read as the replacement character.

* `Like.accepts` is the comparison;
* `Like.containing` writes the pattern of the texts that contain a given one.
-/
namespace CodeIndex.Text

namespace Like

/-- An item of a pattern. -/
inductive Item where
  | anyText
  | anyChar
  | char (c : Char)
deriving Repr, DecidableEq

/-- The items of a pattern; nothing if a backslash ends it. -/
def items : List Char → Option (List Item)
  | [] => some []
  | '\\' :: c :: s => (items s).map (.char c :: ·)
  | ['\\'] => none
  | c :: s => (items s).map ((if c = '%' then .anyText else if c = '_' then .anyChar else .char c) :: ·)

/-- A character as it is compared, one for all that are not told apart. -/
def compared (c : Char) : Char :=
  if c.toNat == 0xFFFE || c.toNat == 0xFFFF then Char.ofNat 0xFFFD else asciiLower c

/-- Whether items match a text as a whole. -/
def matchItems : List Item → List Char → Bool
  | [], s => s.isEmpty
  | .anyText :: is, s => someSuffix (matchItems is) s
  | .anyChar :: is, _ :: s => matchItems is s
  | .char c :: is, d :: s => compared c == compared d && matchItems is s
  | _ :: _, [] => false

/-- Whether a text matches a pattern. -/
def accepts (pattern text : List Char) : Bool :=
  match items (untilNul pattern) with
  | some is => matchItems is (untilNul text)
  | none => false

/-- A character as a pattern that stands for itself. -/
def escape (c : Char) : List Char := if c = '\\' || c = '%' || c = '_' then ['\\', c] else [c]

/-- The pattern of the texts that contain a given one. -/
def containing (s : List Char) : List Char := '%' :: s.flatMap escape ++ ['%']

/-- The bytes a pattern may have. -/
def maxBytes : Nat := 50000

/-- Whether a pattern is too long to be compared with. -/
def tooComplex (pattern : List Char) : Bool := maxBytes < (String.ofList pattern).utf8ByteSize

end Like

end CodeIndex.Text
