import CodeIndex.Json.Reader
import CodeIndex.Toml

/-!
Reading TOML 1.0.

`Toml.parse?` reads a document into its table, or nothing if the text is no document. The readers take
characters and give back what follows; a fuel of one unit a character bounds them. Arrays and inline
tables nest at most 79 deep.
-/
namespace CodeIndex.Toml

/-! ## Blanks and comments -/

/-- A text after the spaces and tabs at its start. -/
def skipGaps (s : List Char) : List Char := s.dropWhile fun c => c == ' ' || c == '\t'

/-- A newline, with or without a carriage return before it. -/
def newline? : List Char → Option (List Char)
  | '\n' :: s => some s
  | '\r' :: '\n' :: s => some s
  | _ => none

/-- Whether a character may stand in a comment or in a literal string. -/
def isPlain (c : Char) : Bool := c == '\t' || (0x20 ≤ c.toNat && c.toNat != 0x7F)

/-- A text after the comment at its start, if one is there. -/
def skipComment : List Char → List Char
  | '#' :: s => s.dropWhile isPlain
  | s => s

/-- A text after the end of a line at its start: gaps, a comment and a newline or the end. -/
def endOfLine? (s : List Char) : Option (List Char) :=
  match skipComment (skipGaps s) with
  | [] => some []
  | s => newline? s

/-- A text after gaps, comments and newlines. -/
def skipLines (fuel : Nat) (s : List Char) : List Char :=
  match fuel with
  | 0 => s
  | fuel + 1 =>
    let s := skipComment (skipGaps s)
    match newline? s with
    | some s => skipLines fuel s
    | none => s

/-! ## Strings -/

/-- The value of some hexadecimal digits. -/
def hexDigits (count value : Nat) (s : List Char) : Option (Nat × List Char) :=
  match count, s with
  | 0, s => some (value, s)
  | count + 1, c :: s => (Json.hexValue? c).bind fun d => hexDigits count (16 * value + d) s
  | _ + 1, [] => none

/-- The character with a code, if the code is that of a character. -/
def charOfCode? (n : Nat) : Option Char :=
  if n < 0xD800 || (0xE000 ≤ n && n < 0x110000) then some (Char.ofNat n) else none

/-- The character of an escape whose backslash has been read. -/
def escape? : List Char → Option (Char × List Char)
  | 'b' :: s => some (Char.ofNat 8, s)
  | 't' :: s => some ('\t', s)
  | 'n' :: s => some ('\n', s)
  | 'f' :: s => some (Char.ofNat 12, s)
  | 'r' :: s => some ('\r', s)
  | '"' :: s => some ('"', s)
  | '\\' :: s => some ('\\', s)
  | 'u' :: s => (hexDigits 4 0 s).bind fun (n, s) => (charOfCode? n).map (·, s)
  | 'U' :: s => (hexDigits 8 0 s).bind fun (n, s) => (charOfCode? n).map (·, s)
  | _ => none

/-- The rest of a string in double quotes; `before` are its characters so far, last first. -/
def basicString (fuel : Nat) (before s : List Char) : Option (String × List Char) :=
  match fuel, s with
  | fuel + 1, c :: s =>
    if c == '"' then some (String.ofList before.reverse, s)
    else if c == '\\' then
      (escape? s).bind fun (c, s) => basicString fuel (c :: before) s
    else if isPlain c then basicString fuel (c :: before) s
    else none
  | _, _ => none

/-- The rest of a string in single quotes. -/
def literalString (before : List Char) : List Char → Option (String × List Char)
  | [] => none
  | c :: s =>
    if c == '\'' then some (String.ofList before.reverse, s)
    else if isPlain c then literalString (c :: before) s
    else none

/-- A text after gaps and newlines. -/
def skipBreaks (fuel : Nat) (s : List Char) : List Char :=
  match fuel with
  | 0 => s
  | fuel + 1 =>
    let s := skipGaps s
    match newline? s with
    | some s => skipBreaks fuel s
    | none => s

/-- The end of a string that three quotes close, when they have been read: up to two more quotes
belong to the string. -/
def closeTriple (quote : Char) (before s : List Char) : String × List Char :=
  match s with
  | a :: b :: s' =>
    if a == quote && b == quote then (String.ofList (quote :: quote :: before).reverse, s')
    else if a == quote then (String.ofList (quote :: before).reverse, b :: s')
    else (String.ofList before.reverse, s)
  | [a] =>
    if a == quote then (String.ofList (quote :: before).reverse, [])
    else (String.ofList before.reverse, s)
  | [] => (String.ofList before.reverse, [])

/-- Whether a text starts with three of a quote. -/
def startsTriple (quote : Char) : List Char → Bool
  | a :: b :: c :: _ => a == quote && b == quote && c == quote
  | _ => false

/-- The rest of a string over several lines; one in double quotes has escapes. A backslash at the end
of a line joins the next text to what is before it. -/
def multilineString (quote : Char) (fuel : Nat) (before s : List Char) :
    Option (String × List Char) :=
  match fuel with
  | 0 => none
  | fuel + 1 =>
    if startsTriple quote s then some (closeTriple quote before (s.drop 3))
    else
      match newline? s with
      | some s => multilineString quote fuel ('\n' :: before) s
      | none =>
        match s with
        | [] => none
        | c :: s =>
          if c == '\\' && quote == '"' then
            match newline? (skipGaps s) with
            | some s => multilineString quote fuel before (skipBreaks s.length s)
            | none => (escape? s).bind fun (c, s) => multilineString quote fuel (c :: before) s
          else if isPlain c then multilineString quote fuel (c :: before) s
          else none

/-- A text after the newline at its start, if one is there. -/
def dropNewline (s : List Char) : List Char := (newline? s).getD s

/-- A string on one line. -/
def lineString? : List Char → Option (String × List Char)
  | '"' :: s => basicString s.length [] s
  | '\'' :: s => literalString [] s
  | _ => none

/-- A string. -/
def string? (s : List Char) : Option (String × List Char) :=
  if startsTriple '"' s then multilineString '"' s.length [] (dropNewline (s.drop 3))
  else if startsTriple '\'' s then multilineString '\'' s.length [] (dropNewline (s.drop 3))
  else lineString? s

/-! ## Keys -/

/-- Whether a character may stand in a key without quotes. -/
def isBare (c : Char) : Bool := c.isAlphanum || c == '_' || c == '-'

/-- One part of a key. -/
def simpleKey? (s : List Char) : Option (String × List Char) :=
  let bare := s.takeWhile isBare
  if bare.isEmpty then lineString? s else some (String.ofList bare, s.drop bare.length)

/-- A key: parts with points between them. -/
def key? (fuel : Nat) (s : List Char) : Option (List String × List Char) :=
  match fuel with
  | 0 => none
  | fuel + 1 =>
    match simpleKey? (skipGaps s) with
    | none => none
    | some (part, s) =>
      match skipGaps s with
      | '.' :: s => (key? fuel s).map fun (parts, s) => (part :: parts, s)
      | s => some ([part], s)

/-! ## Numbers -/

/-- The digits of a number, in the given class, with single underscores between them. -/
def digitRun (isDigit : Char → Bool) (before : List Char) : List Char → List Char × List Char
  | c :: s =>
    if isDigit c then digitRun isDigit (c :: before) s
    else
      match c, s with
      | '_', d :: rest =>
        if isDigit d && !before.isEmpty then digitRun isDigit (d :: before) rest
        else (before.reverse, c :: s)
      | _, _ => (before.reverse, c :: s)
  | [] => (before.reverse, [])

/-- The value of digits in a base. -/
def digitsIn (base : Nat) (ds : List Char) : Nat :=
  ds.foldl (fun n d => base * n + (Json.hexValue? d).getD 0) 0

/-- A whole number if it fits 64 bits with a sign. -/
def word? (n : Int) : Option Value :=
  if -(Nat.pow 2 63 : Int) ≤ n && n < (Nat.pow 2 63 : Int) then some (.integer n) else none

/-- A number in another base, whose mark has been read. -/
def basedInteger? (base : Nat) (isDigit : Char → Bool) (s : List Char) :
    Option (Value × List Char) :=
  let (ds, rest) := digitRun isDigit [] s
  if ds.isEmpty then none else (word? (digitsIn base ds)).map (·, rest)

/-- The places after a point, if there is a point with digits after it. -/
def fraction? : List Char → Option (List Char × List Char)
  | '.' :: s =>
    let (ds, rest) := digitRun Char.isDigit [] s
    if ds.isEmpty then none else some (ds, rest)
  | _ => none

/-- The exponent after its letter, if one is there. -/
def exponent? (s : List Char) : Option (Int × List Char) :=
  match s with
  | c :: s' =>
    if c == 'e' || c == 'E' then
      let (negative, s) :=
        match s' with
        | '+' :: s => (false, s)
        | '-' :: s => (true, s)
        | s => (false, s)
      let (ds, rest) := digitRun Char.isDigit [] s
      if ds.isEmpty then none
      else
        let n : Int := digitsIn 10 ds
        some (if negative then -n else n, rest)
    else none
  | [] => none

/-- A number in base ten, whose sign has been read. -/
def decimal? (negative : Bool) (s : List Char) : Option (Value × List Char) :=
  let (ds, rest) := digitRun Char.isDigit [] s
  if ds.isEmpty || (ds.head? == some '0' && 1 < ds.length) then none
  else
    let places := fraction? rest
    let rest' := (places.map (·.2)).getD rest
    let power := exponent? rest'
    match places, power with
    | none, none =>
      let n : Int := digitsIn 10 ds
      (word? (if negative then -n else n)).map (·, rest)
    | _, _ =>
      let digits := ds ++ (places.map (·.1)).getD []
      let scale := (power.map (·.1)).getD 0 - ((places.map (·.1)).getD []).length
      let x := ofDecimal ⟨digitsIn 10 digits, scale⟩
      if x.isInf && !negative then none
      else some (.float (if negative then -x else x), (power.map (·.2)).getD rest')

/-- Infinity, or what is no number. -/
def special? (negative : Bool) : List Char → Option (Value × List Char)
  | 'i' :: 'n' :: 'f' :: s =>
    some (.float (if negative then -(1.0 / 0.0) else 1.0 / 0.0), s)
  | 'n' :: 'a' :: 'n' :: s => some (.float (0.0 / 0.0), s)
  | _ => none

/-- A number. -/
def number? (s : List Char) : Option (Value × List Char) :=
  match s with
  | '0' :: 'x' :: s => basedInteger? 16 (fun c => (Json.hexValue? c).isSome) s
  | '0' :: 'o' :: s => basedInteger? 8 (fun c => '0' ≤ c && c ≤ '7') s
  | '0' :: 'b' :: s => basedInteger? 2 (fun c => c == '0' || c == '1') s
  | '+' :: s => (special? false s).or (decimal? false s)
  | '-' :: s => (special? true s).or (decimal? true s)
  | s => (special? false s).or (decimal? false s)

/-! ## Dates and times -/

/-- A number of exactly `count` digits. -/
def fixedDigits (count : Nat) (s : List Char) : Option (Nat × List Char) :=
  let ds := s.take count
  if ds.length = count && ds.all Char.isDigit then some (digitsIn 10 ds, s.drop count) else none

/-- A text after the given character. -/
def expect (c : Char) : List Char → Option (List Char)
  | d :: s => if c == d then some s else none
  | [] => none

/-- The days of a month. -/
def monthDays (year month : Nat) : Nat :=
  if month == 2 then
    if year % 4 == 0 && (year % 100 != 0 || year % 400 == 0) then 29 else 28
  else if month == 4 || month == 6 || month == 9 || month == 11 then 30
  else 31

/-- A text after a date. -/
def date? (s : List Char) : Option (List Char) := do
  let (year, s) ← fixedDigits 4 s
  let s ← expect '-' s
  let (month, s) ← fixedDigits 2 s
  let s ← expect '-' s
  let (day, s) ← fixedDigits 2 s
  if 1 ≤ month && month ≤ 12 && 1 ≤ day && day ≤ monthDays year month then some s else none

/-- A text after a time of day. -/
def time? (s : List Char) : Option (List Char) := do
  let (hour, s) ← fixedDigits 2 s
  let s ← expect ':' s
  let (minute, s) ← fixedDigits 2 s
  let s ← expect ':' s
  let (second, s) ← fixedDigits 2 s
  if hour ≤ 23 && minute ≤ 59 && second ≤ 60 then
    match s with
    | '.' :: d :: s => if d.isDigit then some (s.dropWhile Char.isDigit) else some ('.' :: d :: s)
    | s => some s
  else none

/-- A text after the offset of a time from universal time, if one is there. -/
def offset? : List Char → Option (List Char)
  | 'Z' :: s => some s
  | 'z' :: s => some s
  | c :: s => do
    if c == '+' || c == '-' then
      let (hour, s) ← fixedDigits 2 s
      let s ← expect ':' s
      let (minute, s) ← fixedDigits 2 s
      if hour ≤ 23 && minute ≤ 59 then some s else none
    else none
  | [] => none

/-- A text after a date, a time or both. -/
def datetime? (s : List Char) : Option (List Char) :=
  match date? s with
  | none => time? s
  | some s =>
    match s with
    | c :: rest =>
      if c == 'T' || c == 't' || c == ' ' then
        match time? rest with
        | some s => some ((offset? s).getD s)
        | none => some s
      else some s
    | [] => some []

/-! ## Values and documents -/

mutual
/-- A value; `depth` is how deep it may nest. -/
def value? (fuel depth : Nat) (s : List Char) : Option (Value × List Char) :=
  match fuel with
  | 0 => none
  | fuel + 1 =>
    match s with
    | '"' :: _ => (string? s).map fun (text, s) => (.string text, s)
    | '\'' :: _ => (string? s).map fun (text, s) => (.string text, s)
    | '[' :: s =>
      if depth = 0 then none
      else (items? fuel (depth - 1) [] s).map fun (items, s) => (.array items, s)
    | '\x7b' :: s =>
      if depth = 0 then none
      else
        match skipGaps s with
        | '\x7d' :: s => some (.table [], s)
        | s => (inlineMembers? fuel (depth - 1) [] s).map fun (ms, s) => (.table (memberValues ms), s)
    | 't' :: 'r' :: 'u' :: 'e' :: s => some (.boolean true, s)
    | 'f' :: 'a' :: 'l' :: 's' :: 'e' :: s => some (.boolean false, s)
    | s =>
      match datetime? s with
      | some s => some (.datetime, s)
      | none => number? s

/-- The items of an array up to its closing bracket; `before` are those read, last first. -/
def items? (fuel depth : Nat) (before : List Value) (s : List Char) :
    Option (List Value × List Char) :=
  match fuel with
  | 0 => none
  | fuel + 1 =>
    match skipLines s.length s with
    | ']' :: s => some (before.reverse, s)
    | s =>
      match value? fuel depth s with
      | none => none
      | some (v, s) =>
        match skipLines s.length s with
        | ',' :: s => items? fuel depth (v :: before) s
        | ']' :: s => some ((v :: before).reverse, s)
        | _ => none

/-- The members of an inline table up to its closing brace. -/
def inlineMembers? (fuel depth : Nat) (ms : Members) (s : List Char) :
    Option (Members × List Char) :=
  match fuel with
  | 0 => none
  | fuel + 1 =>
    match key? 79 (skipGaps s) with
    | none => none
    | some (path, s) =>
      match skipGaps s with
      | '=' :: s =>
        match value? fuel depth (skipGaps s) with
        | none => none
        | some (v, s) =>
          match put true path v ms with
          | none => none
          | some ms =>
            match skipGaps s with
            | ',' :: s => inlineMembers? fuel depth ms s
            | '\x7d' :: s => some (ms, s)
            | _ => none
      | _ => none
end

/-- What one line of a document leaves: the table that the last header opened and all members. -/
structure Document where
  header : List String
  members : Members

/-- A document after the header at the start of a text. -/
def header? (doc : Document) (s : List Char) : Option (Document × List Char) :=
  match s with
  | '[' :: '[' :: s =>
    match key? 79 s with
    | some (path, ']' :: ']' :: s) =>
      (openArray path doc.members).map fun ms => (⟨path, ms⟩, s)
    | _ => none
  | '[' :: s =>
    match key? 79 s with
    | some (path, ']' :: s) => (openTable path doc.members).map fun ms => (⟨path, ms⟩, s)
    | _ => none
  | _ => none

/-- A document after the key and value at the start of a text. -/
def assignment? (doc : Document) (s : List Char) : Option (Document × List Char) :=
  match key? 79 s with
  | some (path, '=' :: s) =>
    match value? (s.length + 1) 79 (skipGaps s) with
    | some (v, s) => (putIn doc.header path v doc.members).map fun ms => (⟨doc.header, ms⟩, s)
    | none => none
  | _ => none

/-- A document after the lines of a text. -/
def readLines (fuel : Nat) (doc : Document) (s : List Char) : Option Document :=
  match fuel with
  | 0 => none
  | fuel + 1 =>
    match skipLines s.length s with
    | [] => some doc
    | s =>
      let step := if s.head? == some '[' then header? doc s else assignment? doc s
      match step with
      | none => none
      | some (doc, s) =>
        match endOfLine? s with
        | some s => readLines fuel doc s
        | none => none

/-- The table of a document. A byte order mark may stand before it. -/
def parse? (text : String) : Option Value :=
  let s := text.toList
  let s := if s.head? == some (Char.ofNat 0xFEFF) then s.drop 1 else s
  (readLines (s.length + 1) ⟨[], []⟩ s).map fun doc => .table (memberValues doc.members)

end CodeIndex.Toml
