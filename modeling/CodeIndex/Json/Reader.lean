import CodeIndex.Json

/-!
Reading JSON.

A text is one value with blanks around it. Values nest at most 127 deep, whole numbers that do not
fit 64 bits are read as doubles, a number beyond every double is refused, and an escaped surrogate
has to stand in a pair.

The readers take characters and give back what follows; a fuel of one unit a character bounds them.
-/
namespace CodeIndex.Json

/-- The rest of a text after the blanks of JSON. -/
def skipBlanks (s : List Char) : List Char :=
  s.dropWhile fun c => c == ' ' || c == '\t' || c == '\n' || c == '\r'

/-- The value of a hexadecimal digit. -/
def hexValue? (c : Char) : Option Nat :=
  if '0' ≤ c && c ≤ '9' then some (c.toNat - 48)
  else if 'a' ≤ c && c ≤ 'f' then some (c.toNat - 87)
  else if 'A' ≤ c && c ≤ 'F' then some (c.toNat - 55)
  else none

/-- Four hexadecimal digits. -/
def readHex4 : List Char → Option (Nat × List Char)
  | a :: b :: c :: d :: s => do
    let a ← hexValue? a
    let b ← hexValue? b
    let c ← hexValue? c
    let d ← hexValue? d
    pure (((a * 16 + b) * 16 + c) * 16 + d, s)
  | _ => none

/-- The character of an escape whose backslash and `u` have been read. -/
def readUnicode (s : List Char) : Option (Char × List Char) := do
  let (high, s) ← readHex4 s
  if 0xD800 ≤ high && high < 0xDC00 then
    match s with
    | '\\' :: 'u' :: s =>
      let (low, s) ← readHex4 s
      if 0xDC00 ≤ low && low < 0xE000 then
        pure (Char.ofNat (0x10000 + (high - 0xD800) * 0x400 + (low - 0xDC00)), s)
      else none
    | _ => none
  else if 0xDC00 ≤ high && high < 0xE000 then none
  else pure (Char.ofNat high, s)

/-- The character of an escape whose backslash has been read. -/
def readEscape : List Char → Option (Char × List Char)
  | '"' :: s => some ('"', s)
  | '\\' :: s => some ('\\', s)
  | '/' :: s => some ('/', s)
  | 'b' :: s => some (Char.ofNat 8, s)
  | 'f' :: s => some (Char.ofNat 12, s)
  | 'n' :: s => some ('\n', s)
  | 'r' :: s => some ('\r', s)
  | 't' :: s => some ('\t', s)
  | 'u' :: s => readUnicode s
  | _ => none

/-- The rest of a string whose opening quote has been read; `before` are its characters so far, last
first. -/
def readString (fuel : Nat) (before : List Char) (s : List Char) : Option (String × List Char) :=
  match fuel, s with
  | 0, _ => none
  | _, [] => none
  | fuel + 1, c :: s =>
    if c == '"' then some (String.ofList before.reverse, s)
    else if c == '\\' then
      match readEscape s with
      | some (c, s) => readString fuel (c :: before) s
      | none => none
    else if c.toNat < 32 then none
    else readString fuel (c :: before) s

/-- The number that a run of decimal digits is read as, after the number read before it. -/
def digitsValue (before : Nat) (digits : List Char) : Nat :=
  digits.foldl (fun n c => 10 * n + (c.toNat - 48)) before

/-- The digits of a whole number: a zero alone, or digits that start with another one. -/
def readWhole (s : List Char) : Option (List Char × List Char) :=
  match s with
  | '0' :: s => some (['0'], s)
  | _ =>
    let digits := s.takeWhile Char.isDigit
    if digits.isEmpty then none else some (digits, s.drop digits.length)

/-- The digits after a point, if there is a point. -/
def readFraction (s : List Char) : Option (Option (List Char) × List Char) :=
  match s with
  | '.' :: s =>
    let digits := s.takeWhile Char.isDigit
    if digits.isEmpty then none else some (some digits, s.drop digits.length)
  | _ => some (none, s)

/-- The exponent, if there is one. -/
def readExponent (s : List Char) : Option (Option Int × List Char) :=
  match s with
  | c :: s' =>
    if c == 'e' || c == 'E' then
      let (negative, s) :=
        match s' with
        | '+' :: s => (false, s)
        | '-' :: s => (true, s)
        | s => (false, s)
      let digits := s.takeWhile Char.isDigit
      if digits.isEmpty then none
      else
        let n : Int := digitsValue 0 digits
        some (some (if negative then -n else n), s.drop digits.length)
    else some (none, s)
  | [] => some (none, s)

/-- The value of a number by its parts. -/
def numberOf (negative : Bool) (whole : List Char) (fraction : Option (List Char))
    (exponent : Option Int) : Option Json :=
  let real (digits : Nat) (e : Int) : Option Json :=
    let x := ofDecimal ⟨digits, e⟩
    if x.isInf then none else some (Json.real (if negative then -x else x))
  match fraction, exponent with
  | none, none =>
    let n := digitsValue 0 whole
    if negative then
      if n = 0 || Nat.pow 2 63 < n then real n 0 else some (int (-(n : Int)))
    else if n < Nat.pow 2 64 then some (int n)
    else real n 0
  | _, _ =>
    let places := fraction.getD []
    real (digitsValue (digitsValue 0 whole) places) (exponent.getD 0 - places.length)

/-- A number. -/
def readNumber (s : List Char) : Option (Json × List Char) := do
  let (negative, s) :=
    match s with
    | '-' :: s => (true, s)
    | s => (false, s)
  let (whole, s) ← readWhole s
  let (fraction, s) ← readFraction s
  let (exponent, s) ← readExponent s
  let j ← numberOf negative whole fraction exponent
  pure (j, s)

mutual
/-- A value; `depth` is how deep it may nest. -/
def readValue (fuel depth : Nat) (s : List Char) : Option (Json × List Char) :=
  match fuel with
  | 0 => none
  | fuel + 1 =>
    match skipBlanks s with
    | 'n' :: 'u' :: 'l' :: 'l' :: s => some (null, s)
    | 't' :: 'r' :: 'u' :: 'e' :: s => some (bool true, s)
    | 'f' :: 'a' :: 'l' :: 's' :: 'e' :: s => some (bool false, s)
    | '"' :: s => (readString (s.length + 1) [] s).map fun (text, s) => (str text, s)
    | '[' :: s =>
      if depth ≤ 1 then none
      else
        match skipBlanks s with
        | ']' :: s => some (arr [], s)
        | s => (readItems fuel (depth - 1) s).map fun (items, s) => (arr items, s)
    | '\x7b' :: s =>
      if depth ≤ 1 then none
      else
        match skipBlanks s with
        | '\x7d' :: s => some (obj [], s)
        | s => (readMembers fuel (depth - 1) s).map fun (members, s) => (obj members, s)
    | s => readNumber s

/-- The items of an array up to its closing bracket. -/
def readItems (fuel depth : Nat) (s : List Char) : Option (List Json × List Char) :=
  match fuel with
  | 0 => none
  | fuel + 1 =>
    match readValue fuel depth s with
    | none => none
    | some (j, s) =>
      match skipBlanks s with
      | ',' :: s => (readItems fuel depth s).map fun (items, s) => (j :: items, s)
      | ']' :: s => some ([j], s)
      | _ => none

/-- The members of an object up to its closing brace. -/
def readMembers (fuel depth : Nat) (s : List Char) : Option (List (String × Json) × List Char) :=
  match fuel with
  | 0 => none
  | fuel + 1 =>
    match skipBlanks s with
    | '"' :: s =>
      match readString (s.length + 1) [] s with
      | none => none
      | some (key, s) =>
        match skipBlanks s with
        | ':' :: s =>
          match readValue fuel depth s with
          | none => none
          | some (j, s) =>
            match skipBlanks s with
            | ',' :: s =>
              (readMembers fuel depth s).map fun (members, s) => ((key, j) :: members, s)
            | '\x7d' :: s => some ([(key, j)], s)
            | _ => none
        | _ => none
    | _ => none
end

/-- The value a text is the written form of. -/
def parse? (text : String) : Option Json :=
  let s := text.toList
  match readValue (s.length + 1) 128 s with
  | some (j, rest) => if (skipBlanks rest).isEmpty then some j else none
  | none => none

end CodeIndex.Json
