/-!
Blank characters: the Unicode property White_Space, and what is done with it.

* `isBlank` is the property, `trim` takes blanks off both ends of a text, `words` are the maximal
  runs of other characters;
* `indentWidth` counts the blanks a line starts with, in characters, not in columns.
-/
namespace CodeIndex.Text

/-- The characters with the property White_Space. -/
def isBlank (c : Char) : Bool :=
  let n := c.toNat
  (9 ≤ n && n ≤ 13) || n == 0x20 || n == 0x85 || n == 0xA0 || n == 0x1680 ||
    (0x2000 ≤ n && n ≤ 0x200A) || n == 0x2028 || n == 0x2029 || n == 0x202F || n == 0x205F ||
    n == 0x3000

/-- A text without the blanks at its start. -/
def trimStart (s : List Char) : List Char := s.dropWhile isBlank

/-- A text without the blanks at its end. -/
def trimEnd (s : List Char) : List Char := (s.reverse.dropWhile isBlank).reverse

/-- A text without the blanks at either end. -/
def trim (s : List Char) : List Char := trimEnd (trimStart s)

/-- Whether a text holds blanks only. -/
def allBlank (s : List Char) : Bool := s.all isBlank

/-- The number of blanks a line starts with. -/
def indentWidth (line : List Char) : Nat := (line.takeWhile isBlank).length

/-- The words of a text when `word` are the characters, last first, of the word being read. -/
def wordsFrom (word : List Char) : List Char → List (List Char)
  | [] => if word.isEmpty then [] else [word.reverse]
  | c :: s =>
    if isBlank c then
      if word.isEmpty then wordsFrom [] s else word.reverse :: wordsFrom [] s
    else wordsFrom (c :: word) s

/-- The maximal runs of characters that are not blank, in order. -/
def words (s : List Char) : List (List Char) := wordsFrom [] s

end CodeIndex.Text
