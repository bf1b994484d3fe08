import CodeIndex.Text.Lowercase

/-!
Occurrences of one text in another.

* `indexOf?` is the place of the first occurrence and `occurs` says whether there is one;
* `untilNul` is a text as far as readers go that take a character of code zero for its end;
* `previewAt` is a piece of a text from an occurrence on, letters of ASCII in either case.
-/
namespace CodeIndex.Text

/-- Whether a test holds of some end of a text. -/
def someSuffix (test : List Char → Bool) : List Char → Bool
  | [] => test []
  | c :: s => test (c :: s) || someSuffix test s

/-- The place, in characters, where a text first occurs in another. -/
def indexOf? (word : List Char) : List Char → Option Nat
  | [] => if word.isEmpty then some 0 else none
  | c :: s => if word.isPrefixOf (c :: s) then some 0 else (indexOf? word s).map (· + 1)

/-- Whether a text occurs in another. -/
def occurs (word s : List Char) : Bool := (indexOf? word s).isSome

/-- A text up to its first character of code zero. -/
def untilNul (s : List Char) : List Char := s.takeWhile (·.toNat != 0)

/-- Up to `count` characters from the first occurrence of a text, letters of ASCII in either case, or
from the start if it does not occur. -/
def previewAt (content query : List Char) (count : Nat) : List Char :=
  let start := (indexOf? (query.map asciiLower) (content.map asciiLower)).getD 0
  (content.drop start).take count

end CodeIndex.Text
