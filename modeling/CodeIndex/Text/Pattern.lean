import CodeIndex.Text.Word

/-!
Patterns of text with priorities.

A pattern matches at a cursor in several ways, and the ways stand in order of preference: the first
alternative before the second, a longer repetition before a shorter one. The match at a place is the
most preferred way, and the matches in a text are the leftmost ones that do not overlap.

* `Pattern.ends` are the cursors at which the matches from a cursor end, most preferred first;
* `Pattern.findAll` are the matches in a text, each with the places where it starts and ends, in
  bytes of UTF-8, and the text that the named part of the pattern matched.
-/
namespace CodeIndex.Text

/-- A class of characters. -/
inductive CharClass where
  | char (c : Char)
  | between (low high : Char)
  | word
  | noneOf (cs : List Char)
  | oneOf (cs : List Char)
deriving Repr, DecidableEq

/-- Whether a character is in a class. -/
def CharClass.accepts : CharClass → Char → Bool
  | char d, c => c == d
  | between low high, c => low ≤ c && c ≤ high
  | word, c => isWord c
  | noneOf cs, c => !cs.contains c
  | oneOf cs, c => cs.contains c

/-- A pattern of text. -/
inductive Pattern where
  /-- Matches nowhere. -/
  | fail
  /-- Matches the empty text. -/
  | empty
  /-- One character of a class. -/
  | one (cls : CharClass)
  /-- As many characters of a class as possible, or fewer. -/
  | run (cls : CharClass)
  /-- The start of a line. -/
  | lineStart
  /-- An edge of a word. -/
  | wordEdge
  /-- One pattern, then another. -/
  | seq (p q : Pattern)
  /-- One pattern or, failing that, another. -/
  | alt (p q : Pattern)
  /-- A pattern as many times as possible, or fewer. -/
  | many (p : Pattern)
  /-- A pattern whose text is the name that a match gives. -/
  | named (p : Pattern)
deriving Repr, DecidableEq

/-- A place in a text, given by the character before it, its offset in bytes and what follows, and
the name found on the way. -/
structure Cursor where
  before : Option Char
  offset : Nat
  rest : List Char
  name : Option (List Char)
deriving Repr, DecidableEq

namespace Cursor

/-- The cursor after one character. -/
def advance (here : Cursor) (c : Char) (rest : List Char) : Cursor :=
  ⟨some c, here.offset + c.utf8Size, rest, here.name⟩

end Cursor

/-- The first characters of a text, as many as fill `count` bytes. -/
def takeBytes (count : Nat) : List Char → List Char
  | [] => []
  | c :: s => if count = 0 then [] else c :: takeBytes (count - c.utf8Size) s

/-- The cursors after the runs of characters of a class at a place, the longest run first, followed
by the cursors after `shorter` runs. -/
def runEnds (cls : CharClass) (before : Option Char) (offset : Nat) (name : Option (List Char))
    (shorter : List Cursor) : List Char → List Cursor
  | [] => ⟨before, offset, [], name⟩ :: shorter
  | c :: s =>
    let here : Cursor := ⟨before, offset, c :: s, name⟩
    if cls.accepts c then
      runEnds cls (some c) (offset + c.utf8Size) name (here :: shorter) s
    else here :: shorter

/-- The cursors after repetitions of a step, the most repetitions first; a repetition that gets no
further is none. -/
def repeatEnds (step : Cursor → List Cursor) (here : Cursor) : List Cursor :=
  ((step here).flatMap fun next =>
    if next.rest.length < here.rest.length then repeatEnds step next else []) ++ [here]
termination_by here.rest.length

namespace Pattern

/-- The cursors at which the matches of a pattern from a cursor end, most preferred first. -/
def ends : Pattern → Cursor → List Cursor
  | fail, _ => []
  | empty, here => [here]
  | one cls, here =>
    match here.rest with
    | [] => []
    | c :: s => if cls.accepts c then [here.advance c s] else []
  | run cls, here => runEnds cls here.before here.offset here.name [] here.rest
  | lineStart, here =>
    match here.before with
    | none => [here]
    | some c => if c = '\n' then [here] else []
  | wordEdge, here => if isWordEdge here.before here.rest.head? then [here] else []
  | seq p q, here => (p.ends here).flatMap q.ends
  | alt p q, here => p.ends here ++ q.ends here
  | many p, here => repeatEnds p.ends here
  | named p, here =>
    (p.ends here).map fun stop =>
      ⟨stop.before, stop.offset, stop.rest, some (takeBytes (stop.offset - here.offset) here.rest)⟩

/-- The end of the match of a pattern at a cursor. -/
def matchAt (p : Pattern) (here : Cursor) : Option Cursor := (p.ends here).head?

/-! ## Matches in a text -/

/-- A match in a text: where it starts and ends, in bytes, and the name it gives. -/
structure Found where
  offset : Nat
  stop : Nat
  name : Option (List Char)
deriving Repr, DecidableEq

/-- The matches in the rest of a text, none of which may start before `floor`. -/
def findFrom (p : Pattern) (floor : Nat) (before : Option Char) (offset : Nat) :
    List Char → List Found
  | [] =>
    if offset < floor then []
    else
      match p.matchAt ⟨before, offset, [], none⟩ with
      | some stop => [⟨offset, stop.offset, stop.name⟩]
      | none => []
  | c :: s =>
    if offset < floor then findFrom p floor (some c) (offset + c.utf8Size) s
    else
      match p.matchAt ⟨before, offset, c :: s, none⟩ with
      | some stop =>
        ⟨offset, stop.offset, stop.name⟩ :: findFrom p stop.offset (some c) (offset + c.utf8Size) s
      | none => findFrom p floor (some c) (offset + c.utf8Size) s

/-- The matches of a pattern in a text, in order. -/
def findAll (p : Pattern) (s : List Char) : List Found := p.findFrom 0 none 0 s

/-! ## Writing patterns -/

/-- Patterns one after another. -/
def all (ps : List Pattern) : Pattern := ps.foldr seq empty

/-- The first of several patterns that matches. -/
def any (ps : List Pattern) : Pattern := ps.foldr alt fail

/-- A pattern or nothing. -/
def optional (p : Pattern) : Pattern := alt p empty

/-- The given text. -/
def text (s : String) : Pattern := all (s.toList.map fun c => one (.char c))

/-- One or more characters of a class. -/
def run1 (cls : CharClass) : Pattern := seq (one cls) (run cls)

end Pattern

end CodeIndex.Text
