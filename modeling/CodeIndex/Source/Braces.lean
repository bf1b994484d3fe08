import CodeIndex.Text.Blank

/-!
Blocks in braces.

A block is found by counting braces line by line, with comments, strings and templates passed over.
A comment or a template may go over several lines, a string ends with its line.

* `Braces.scanLine` counts the braces of one line and says how the next one starts;
* `blockEnd` is the last line of the block that a declaration opens, and `blockEnd?` says where it cannot be
  found because the limit is too great for the numbers of lines.
-/
namespace CodeIndex

open Text

namespace Braces

/-- Where the next character of a source text stands. -/
inductive Mode where
  | code
  /-- In code, after a slash. -/
  | slash
  /-- In a comment that ends with the line. -/
  | lineComment
  | comment
  /-- In a comment, after a star. -/
  | commentStar
  | template
  /-- In a template, after a backslash. -/
  | templateEscape
  | quoted (mark : Char)
  /-- In a string, after a backslash. -/
  | quotedEscape (mark : Char)
deriving Repr, DecidableEq

/-- How the next line starts: comments and templates go on, all else ends with the line. -/
def Mode.nextLine : Mode → Mode
  | comment | commentStar => comment
  | template | templateEscape => template
  | code | slash | lineComment | quoted _ | quotedEscape _ => code

/-- What has been counted: the opening braces less the closing ones, whether there was an opening
one, and the mode. -/
structure Count where
  depth : Int
  opened : Bool
  mode : Mode
deriving Repr, DecidableEq

/-- The count before any text. -/
def Count.start : Count := ⟨0, false, .code⟩

/-- A count in another mode. -/
def Count.enter (n : Count) (mode : Mode) : Count := { n with mode := mode }

/-- The count after a character of code. -/
def stepCode (n : Count) (c : Char) : Count :=
  if c == '/' then n.enter .slash
  else if c == '"' || c == '\'' then n.enter (.quoted c)
  else if c == '\x60' then n.enter .template
  else if c == '\x7b' then ⟨n.depth + 1, true, .code⟩
  else if c == '\x7d' then ⟨n.depth - 1, n.opened, .code⟩
  else n.enter .code

/-- The count after one more character of a line. -/
def step (n : Count) (c : Char) : Count :=
  match n.mode with
  | .code => stepCode n c
  | .slash =>
    if c == '/' then n.enter .lineComment
    else if c == '*' then n.enter .comment
    else stepCode n c
  | .lineComment => n
  | .comment => if c == '*' then n.enter .commentStar else n
  | .commentStar =>
    if c == '/' then n.enter .code
    else if c == '*' then n
    else n.enter .comment
  | .template =>
    if c == '\\' then n.enter .templateEscape
    else if c == '\x60' then n.enter .code
    else n
  | .templateEscape => n.enter .template
  | .quoted mark =>
    if c == '\\' then n.enter (.quotedEscape mark)
    else if c == mark then n.enter .code
    else n
  | .quotedEscape mark => n.enter (.quoted mark)

/-- The count after a line, ready for the next one. -/
def scanLine (n : Count) (line : List Char) : Count :=
  let n := line.foldl step n
  n.enter n.mode.nextLine

end Braces

/-! ## Ends of blocks -/

/-- How many lines are kept after a declaration whose braces never balance. -/
def unbalancedExtent : Nat := 50

/-- The characters with which a line goes on with the declaration before it. -/
def continuationMarks : List Char :=
  ['\x7b', ')', ']', '.', ':', '=', '|', '&', '>', '?', ',']

/-- Whether a line with text on it goes on with a declaration indented by `indent` that has not
opened a brace yet. -/
def continues (indent : Nat) (line : List Char) : Bool :=
  indent < indentWidth line ||
    match trimStart line with
    | [] => true
    | c :: _ => continuationMarks.contains c

/-- The end of a block, when the lines from `line` on are left, `n` counts the braces before them and
`text` is the last line so far that is not blank. The scan stops after line `stop` and then answers
`cap`. -/
def blockEndFrom (start stop cap indent : Nat) (n : Braces.Count) (text line : Nat) :
    List (List Char) → Nat
  | [] => cap
  | l :: rest =>
    if stop < line then cap
    else if !n.opened && start < line && !allBlank l && !continues indent l then text
    else
      let n := Braces.scanLine n l
      if n.opened && n.depth == 0 then line
      else if !n.opened && (trimEnd l).getLast? == some ';' then line
      else blockEndFrom start stop cap indent n (if allBlank l then text else line) (line + 1) rest

/-- The last line that is looked at for a block from line `start`, when `limit` lines may be. -/
def scanStop (last start limit : Nat) : Nat := min last (start + (limit - 1))

/-- The last line of the block that is declared on line `start`, all counted from zero.

The block ends where its braces balance. Before the first brace it ends on a line with a semicolon
at its end, or before a line that is not indented further and does not go on with the declaration.
When `limit` lines do not end it, it goes on for a fixed number of lines. -/
def blockEnd (lines : List (List Char)) (start limit : Nat) : Nat :=
  let last := lines.length - 1
  match lines.drop start with
  | [] => min (start + unbalancedExtent) last
  | l :: rest =>
    blockEndFrom start (scanStop last start limit) (min (start + unbalancedExtent) last)
      (indentWidth l) .start start start (l :: rest)

/-- The end of a block as the program finds it. Line numbers are words of 64 bits, and the program stops
where the limit, less one, cannot be added to that of the first line: there is no end then. -/
def blockEnd? (lines : List (List Char)) (start limit : Nat) : Option Nat :=
  if start + (limit - 1) < Nat.pow 2 64 then some (blockEnd lines start limit) else none

end CodeIndex
