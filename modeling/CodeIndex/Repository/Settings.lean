import CodeIndex.Text.Lines
import CodeIndex.Text.Occurrence

/-!
The settings of a repository.

A section starts with its name in brackets; what stands in quotes after the name belongs to it as it is
written. A variable belongs to the section it stands in. Its value follows an equals sign: quotes are
taken off, a backslash takes the next character as it is or joins the next line to the value, and a
semicolon or a number sign outside of quotes starts a comment.

* `Setting` is a variable under its full name, with its value;
* `Settings.parse?` reads a text of settings, and `Settings.get?` finds the value of a variable, the
  last one if there are several;
* `Settings.integer?` and `Settings.flag?` read values.
-/
namespace CodeIndex

/-- A variable under its full name, which is that of its section, a point and its own, and its value
if one is given. -/
structure Setting where
  name : List Char
  value : Option (List Char)
deriving Repr, DecidableEq

namespace Settings

open Text

/-- The blanks of ASCII. -/
def isGap (c : Char) : Bool := c == ' ' || (9 ≤ c.toNat && c.toNat ≤ 13)

/-- A text without the blanks at its end. -/
def trimGaps (s : List Char) : List Char := (s.reverse.dropWhile isGap).reverse

/-- Whether a character may stand in the name of a variable. -/
def isNameChar (c : Char) : Bool := c.isAlphanum || c == '-'

/-! ## Sections -/

/-- The rest of a name in quotes, and what follows the bracket that has to come next. -/
def quoted? : List Char → Option (List Char × List Char)
  | '"' :: ']' :: s => some ([], s)
  | '"' :: _ => none
  | '\\' :: c :: s => (quoted? s).map fun (name, rest) => (c :: name, rest)
  | '\\' :: [] => none
  | c :: s => (quoted? s).map fun (name, rest) => (c :: name, rest)
  | [] => none

/-- The name of a section after its opening bracket, and what follows the closing one; `name` is what
has been read of it, last first. -/
def header? (name : List Char) : List Char → Option (List Char × List Char)
  | [] => none
  | c :: s =>
    if isGap c then
      match s.dropWhile isGap with
      | '"' :: s => (quoted? s).map fun (part, rest) => (name.reverse ++ '.' :: part, rest)
      | _ => none
    else if c == ']' && !name.isEmpty then some (name.reverse, s)
    else if isNameChar c || c == '.' then header? (asciiLower c :: name) s
    else none

/-! ## Values -/

/-- What stands before the comment in a line, and whether quotes are open at its end. `before` is the
character before, `inQuotes` says whether quotes are open there and `escaped` whether an odd number of
backslashes comes just before. -/
def beforeComment (before : Option Char) (inQuotes escaped : Bool) : List Char → List Char × Bool
  | [] => ([], inQuotes)
  | c :: s =>
    let inQuotes := if c == '"' && before.any (· != '\\') then !inQuotes else inQuotes
    if (c == ';' || c == '#') && !inQuotes && !escaped then ([], inQuotes)
    else
      let (rest, atEnd) := beforeComment (some c) inQuotes (c == '\\' && !escaped) s
      (c :: rest, atEnd)

/-- A line without its comment and the blanks at its end, and whether quotes are open there. -/
def stripped (inQuotes : Bool) (line : List Char) : List Char × Bool :=
  let (line, atEnd) := beforeComment none inQuotes false line
  (trimGaps line, atEnd)

/-- The character that an escape stands for. -/
def escape? (c : Char) : Option Char :=
  if c == 'n' then some '\n'
  else if c == 't' then some '\t'
  else if c == 'b' then some (Char.ofNat 8)
  else if c == '"' || c == '\\' then some c
  else none

/-- A value as it is meant, and whether it goes on in the next line. -/
def unescape? : List Char → Option (List Char × Bool)
  | [] => some ([], false)
  | '\\' :: [] => some ([], true)
  | '\\' :: c :: s => do
    let c ← escape? c
    let (rest, more) ← unescape? s
    pure (c :: rest, more)
  | '"' :: s => unescape? s
  | c :: s => (unescape? s).map fun (rest, more) => (c :: rest, more)

/-! ## Texts -/

/-- How far a text has been read. -/
structure Reading where
  /-- The section. -/
  within : Option (List Char) := none
  /-- A variable whose value goes on in the next line, and whether quotes are open. -/
  pending : Option (Setting × Bool) := none
  /-- The settings, last first. -/
  found : List Setting := []

namespace Reading

/-- Adds a piece to the value of a variable. -/
def extend (r : Reading) (s : Setting) (inQuotes : Bool) (piece : List Char) : Option Reading :=
  (unescape? piece).map fun (text, more) =>
    let s := { s with value := some (s.value.getD [] ++ text) }
    if more then { r with pending := some (s, inQuotes) }
    else { r with pending := none, found := s :: r.found }

/-- Reads a variable. -/
def assignment (r : Reading) (line : List Char) : Option Reading :=
  let (line, inQuotes) := stripped false line
  let name := (line.takeWhile isNameChar).map asciiLower
  let full := r.within.elim name fun part => part ++ '.' :: name
  if name.isEmpty then none
  else
    match (line.dropWhile isNameChar).dropWhile isGap with
    | [] => some { r with found := ⟨full, none⟩ :: r.found }
    | '=' :: value => r.extend ⟨full, some []⟩ inQuotes (value.dropWhile isGap)
    | _ => none

/-- Reads the sections that start in a line and the variable after them. No line has more sections than
characters, which is what `fuel` is for. -/
def items (fuel : Nat) (r : Reading) (line : List Char) : Option Reading :=
  match fuel, line.dropWhile isGap with
  | 0, _ => none
  | _, [] => some r
  | fuel + 1, c :: s =>
    if c == '[' then
      (header? [] s).bind fun (name, rest) => items fuel { r with within := some name } rest
    else if c == ';' || c == '#' then some r
    else r.assignment (c :: s)

/-- Reads a line. -/
def line (r : Reading) (line : List Char) : Option Reading :=
  match r.pending with
  | none => r.items (line.length + 1) line
  | some (s, inQuotes) =>
    let (piece, inQuotes) := stripped inQuotes line
    if piece.isEmpty then some { r with pending := some (s, inQuotes) } else r.extend s inQuotes piece

/-- The settings that have been read. -/
def settings (r : Reading) : List Setting := ((r.pending.map (·.1)).toList ++ r.found).reverse

end Reading

/-- The settings in a text, if it can be read. -/
def parse? (text : List Char) : Option (List Setting) :=
  let text := if text.head?.any (·.toNat == 0xFEFF) then text.tail else text
  ((lines text).foldlM (fun (r : Reading) line => r.line (untilNul line)) {}).map (·.settings)

/-- The value of a variable, if it is there. -/
def get? (settings : List Setting) (name : String) : Option (Option (List Char)) :=
  (settings.reverse.find? (·.name == name.toList)).map (·.value)

/-! ## Numbers and flags -/

/-- The value of a digit. -/
def digit? (base : Nat) (c : Char) : Option Nat :=
  let d :=
    if c.isDigit then c.toNat - 48
    else if c.isAlpha then (asciiLower c).toNat - 87
    else base
  if d < base then some d else none

/-- The number that digits in front stand for, how many there are, and what follows. -/
def digits (base : Nat) (value count : Nat) : List Char → Nat × Nat × List Char
  | [] => (value, count, [])
  | c :: s =>
    match digit? base c with
    | some d => digits base (base * value + d) (count + 1) s
    | none => (value, count, c :: s)

/-- The base of a number by its first characters, and its digits. -/
def based : List Char → Nat × List Char
  | '0' :: x :: c :: s => if asciiLower x == 'x' then (16, c :: s) else (8, '0' :: x :: c :: s)
  | '0' :: s => (8, '0' :: s)
  | s => (10, s)

/-- What a unit multiplies a number by. -/
def unit? : List Char → Option Nat
  | [] => some 1
  | [c] =>
    let c := asciiLower c
    if c == 'k' then some 1024
    else if c == 'm' then some (1024 * 1024)
    else if c == 'g' then some (1024 * 1024 * 1024)
    else none
  | _ => none

/-- An integer of thirty-two bits: decimal, octal or hexadecimal, with a unit or without. -/
def integer? (s : List Char) : Option Int :=
  let s := s.dropWhile isGap
  let (negative, s) :=
    match s with
    | '-' :: s => (true, s)
    | '+' :: s => (false, s)
    | s => (false, s)
  let (base, s) := based s
  let (value, count, rest) := digits base 0 0 s
  if count == 0 then none
  else
    (unit? rest).bind fun unit =>
      let n : Int := (if negative then -(value : Int) else value) * unit
      if -2147483648 ≤ n && n < 2147483648 then some n else none

/-- Whether a variable with such a value is switched on. -/
def flag? : Option (List Char) → Option Bool
  | none => some true
  | some s =>
    let word := String.ofList (s.map asciiLower)
    if ["true", "yes", "on"].contains word then some true
    else if ["false", "no", "off", ""].contains word then some false
    else (integer? s).map (· != 0)

end Settings

end CodeIndex
