import CodeIndex.Text.Blank

/-!
Queries of the full-text index.

A query is written in a small language: strings in double quotes, in which a quote is written twice,
words without quotes, and the signs of operators. Strings that stand side by side must all be found.

* `Query.write` quotes every word of a search text, so that nothing in it is an operator;
* `Query.lex` takes a query apart, and `Query.strings?` are its strings if it holds nothing else.
-/
namespace CodeIndex.FullText.Query

open Text

/-- A word in quotes. -/
def quoted (word : List Char) : List Char :=
  '"' :: word.flatMap (fun c => if c = '"' then ['"', '"'] else [c]) ++ ['"']

/-- The query for all words of a search text. -/
def write (s : List Char) : List Char := [' '].intercalate ((words s).map quoted)

/-! ## Reading -/

/-- A piece of a query. -/
inductive Lexeme where
  | string (s : List Char)
  | bareword (s : List Char)
  | sign (c : Char)
deriving Repr, DecidableEq

/-- The signs of operators. -/
def signs : List Char := ['(', ')', '\x7b', '\x7d', ':', ',', '+', '*', '-', '^']

/-- Whether a character may stand in a word without quotes. -/
def isBare (c : Char) : Bool :=
  c.isAlphanum || c == '_' || c.toNat == 26 || 128 ≤ c.toNat

/-- Where the next character of a query stands: between pieces, in a string, after a quote in a
string, or in a word; the characters of the piece stand last first. -/
inductive State where
  | between
  | inString (before : List Char)
  | afterQuote (before : List Char)
  | inWord (before : List Char)
deriving Repr, DecidableEq

/-- The pieces of a query from a state on that does not belong to a piece yet; nothing if a character
has no meaning. -/
def stepBetween (c : Char) : Option (State × List Lexeme) :=
  if c == ' ' || c == '\t' || c == '\n' || c == '\r' then some (.between, [])
  else if c == '"' then some (.inString [], [])
  else if signs.contains c then some (.between, [.sign c])
  else if isBare c then some (.inWord [c], [])
  else none

/-- The state after a character, and the pieces that the character completes. -/
def step (state : State) (c : Char) : Option (State × List Lexeme) :=
  match state with
  | .between => stepBetween c
  | .inString before =>
    if c.toNat == 0 then none
    else if c == '"' then some (.afterQuote before, [])
    else some (.inString (c :: before), [])
  | .afterQuote before =>
    if c == '"' then some (.inString ('"' :: before), [])
    else (stepBetween c).map fun (next, done) => (next, .string before.reverse :: done)
  | .inWord before =>
    if isBare c then some (.inWord (c :: before), [])
    else (stepBetween c).map fun (next, done) => (next, .bareword before.reverse :: done)

/-- The pieces of the rest of a query. -/
def lexFrom (state : State) : List Char → Option (List Lexeme)
  | [] =>
    match state with
    | .between => some []
    | .inString _ => none
    | .afterQuote before => some [.string before.reverse]
    | .inWord before => some [.bareword before.reverse]
  | c :: s =>
    match step state c with
    | none => none
    | some (next, done) => (lexFrom next s).map (done ++ ·)

/-- The pieces of a query; nothing if a string has no end or a character no meaning. -/
def lex (s : List Char) : Option (List Lexeme) := lexFrom .between s

/-- The strings of a query that holds nothing else. -/
def strings? (s : List Char) : Option (List (List Char)) :=
  (lex s).bind fun pieces => pieces.mapM fun piece =>
    match piece with
    | .string s => some s
    | _ => none

end CodeIndex.FullText.Query
