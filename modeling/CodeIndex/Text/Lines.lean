/-!
Lines of a text.

A line ends at a newline; a carriage return just before that newline belongs to the line end. What
follows the last newline is a line only if it is not empty.

* `lines` are the texts of the lines and `joinLines` puts lines together again with newlines;
* `lineStarts` are the places, counted in bytes of UTF-8, where a line starts, and `lineOf` finds the
  line that holds a place.
-/
namespace CodeIndex.Text

/-- A line without the carriage return at its end. -/
def dropReturn (line : List Char) : List Char :=
  if line.getLast? = some '\r' then line.dropLast else line

/-- The lines of the rest of a text when `line` are the characters, last first, of the line being
read. -/
def linesFrom (line : List Char) : List Char → List (List Char)
  | [] => if line.isEmpty then [] else [line.reverse]
  | c :: s =>
    if c = '\n' then dropReturn line.reverse :: linesFrom [] s
    else linesFrom (c :: line) s

/-- The lines of a text. -/
def lines (s : List Char) : List (List Char) := linesFrom [] s

/-- Lines joined by newlines. -/
def joinLines (ls : List (List Char)) : List Char := ['\n'].intercalate ls

/-- The lines from `first` to `last`, both counted from zero and both included. -/
def lineRange (ls : List (List Char)) (first last : Nat) : List (List Char) :=
  (ls.drop first).take (last + 1 - first)

/-- The places after the newlines of a text that starts at byte `offset`. -/
def newlineEnds (offset : Nat) : List Char → List Nat
  | [] => []
  | c :: s =>
    let next := offset + c.utf8Size
    if c = '\n' then next :: newlineEnds next s else newlineEnds next s

/-- The byte offsets at which lines start: the start of the text and the places after newlines. -/
def lineStarts (s : List Char) : List Nat := 0 :: newlineEnds 0 s

/-- The line, counted from zero, that holds the byte at `offset`: the last one that starts at or
before it. -/
def lineOf (starts : List Nat) (offset : Nat) : Nat :=
  (starts.takeWhile (· ≤ offset)).length - 1

end CodeIndex.Text
