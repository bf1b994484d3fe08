import CodeIndex.Source.Span
import CodeIndex.Text.Blank

/-!
Blocks by indentation.

* `Indent.blockEnd` is the last line of the block that a line opens: the lines after it belong to the
  block up to the first line of code that is not indented further;
* `Indent.decoratorStart` is the first of the decorators above a line;
* `Indent.enclosingClass` is the class that a line stands in.
-/
namespace CodeIndex.Indent

open Text

/-- Whether a line holds code: it is neither blank nor a comment. -/
def isCode (line : List Char) : Bool :=
  match trimStart line with
  | [] => false
  | c :: _ => c != '#'

/-- The end of a block indented by `base`, when the lines from `line` on are left and `last` is the
last line so far that belongs to it. -/
def blockEndFrom (base last line : Nat) : List (List Char) → Nat
  | [] => last
  | l :: rest =>
    if allBlank l then blockEndFrom base last (line + 1) rest
    else if isCode l && indentWidth l ≤ base then last
    else blockEndFrom base (if base < indentWidth l then line else last) (line + 1) rest

/-- The last line of the block that line `start` opens. Blank lines and comments never end a block,
and it never ends on a blank line. -/
def blockEnd (lines : List (List Char)) (start : Nat) : Nat :=
  match lines.drop start with
  | [] => start
  | l :: rest => blockEndFrom (indentWidth l) start (start + 1) rest

/-- Whether a line is a decorator. -/
def isDecorator (line : List Char) : Bool := (trimStart line).head? == some '@'

/-- The first of the decorators indented by `indent` that stand directly above a line. -/
def decoratorStartFrom (lines : List (List Char)) (indent : Nat) : Nat → Nat
  | 0 => 0
  | line + 1 =>
    let above := lines.getD line []
    if isDecorator above && indentWidth above == indent then decoratorStartFrom lines indent line
    else line + 1

/-- The first line of a definition with the decorators directly above it. -/
def decoratorStart (lines : List (List Char)) (line : Nat) : Nat :=
  decoratorStartFrom lines (indentWidth (lines.getD line [])) line

/-- Whether a line stands in a class: among its lines, after its first one and indented further. -/
def encloses (lines : List (List Char)) (line : Nat) (s : Span) : Bool :=
  s.first < line && line ≤ s.last &&
    indentWidth (lines.getD s.first []) < indentWidth (lines.getD line [])

/-- The later of two spans, the second one if they start on one line. -/
def later (best : Option Span) (s : Span) : Option Span :=
  match best with
  | none => some s
  | some t => if t.first ≤ s.first then some s else some t

/-- The name of the class that a line stands in: of those that enclose it, the one that starts
last. -/
def enclosingClass (lines : List (List Char)) (line : Nat) (classes : List Span) :
    Option String :=
  ((classes.filter (encloses lines line)).foldl later none).map (·.name)

end CodeIndex.Indent
