import CodeIndex.Project.Path
import CodeIndex.Project.Tree
import CodeIndex.Text.Occurrence

/-!
Glob patterns.

A pattern is a path whose parts may hold `?` (one character), `*` (any characters), `[..]` and `[!..]`
(one character of a class, or none of it), and which may have `**` as a part (any directories, or
none). A name that starts with a point is matched only by a part without any of these.

* `Glob.parse` reads a pattern or says where and why it is none;
* `Glob.matchTokens` is matching of one name;
* `Glob.expand` are the paths that a pattern matches below a directory: depth first, names in order.
-/
namespace CodeIndex.Glob

/-! ## Patterns -/

/-- An item of a class of characters. -/
inductive ClassItem where
  | one (c : Char)
  | range (low high : Char)
deriving Repr, DecidableEq

/-- Whether an item holds a character. -/
def ClassItem.holds : ClassItem → Char → Bool
  | one d, c => c == d
  | range low high, c => low ≤ c && c ≤ high

/-- An item of one part of a pattern. -/
inductive Token where
  | char (c : Char)
  | anyChar
  | anySequence
  | within (items : List ClassItem)
  | except (items : List ClassItem)
deriving Repr, DecidableEq

/-- One part of a pattern. -/
inductive Part where
  /-- Any directories, or none: `**`. -/
  | directories
  | name (tokens : List Token)
deriving Repr, DecidableEq

/-- Why a text is no pattern. -/
inductive Fault where
  | wildcards
  | recursive
  | range
deriving Repr, DecidableEq

/-- What a fault is called. -/
def Fault.message : Fault → String
  | wildcards => "wildcards are either regular \x60*\x60 or recursive \x60**\x60"
  | recursive => "recursive wildcards must form a single path component"
  | range => "invalid range pattern"

/-- A fault and the position, in characters, at which it was found. -/
structure SyntaxFault where
  position : Nat
  fault : Fault
deriving Repr, DecidableEq

/-- What a fault at a position is called. -/
def SyntaxFault.message (f : SyntaxFault) : String :=
  "Pattern syntax error near position " ++ toString f.position ++ ": " ++ f.fault.message

/-! ## Reading -/

/-- The items of a class of characters. -/
def classItems : List Char → List ClassItem
  | a :: '-' :: b :: s => .range a b :: classItems s
  | a :: s => .one a :: classItems s
  | [] => []

/-- The text of a class up to its closing bracket, which is not the first character, and what follows
the bracket. -/
def classText? : List Char → Option (List Char × List Char)
  | [] => none
  | first :: s =>
    match s.dropWhile (· != ']') with
    | _ :: rest => some (first :: s.takeWhile (· != ']'), rest)
    | [] => none

/-- A class of characters whose opening bracket has been read. -/
def classToken? (s : List Char) : Option (Token × List Char) :=
  match s with
  | '!' :: s => (classText? s).map fun (text, rest) => (.except (classItems text), rest)
  | s => (classText? s).map fun (text, rest) => (.within (classItems text), rest)

/-- The tokens of a pattern. `position` counts the characters before the rest that is left, the last
of which is `before`. Two stars have to be a part of their own; they give no token. -/
def readTokens (fuel position : Nat) (before : Option Char) (s : List Char) :
    Except SyntaxFault (List Token) :=
  match fuel, s with
  | 0, _ => .ok []
  | _, [] => .ok []
  | fuel + 1, c :: rest =>
    if c == '?' then (.anyChar :: ·) <$> readTokens fuel (position + 1) (some c) rest
    else if c == '*' then
      let count := (s.takeWhile (· == '*')).length
      let after := s.drop count
      if 2 < count then .error ⟨position + 2, .wildcards⟩
      else if count = 2 then
        if before.all (· == '/') then
          match after with
          | [] => .ok []
          | d :: rest =>
            if d == '/' then readTokens fuel (position + 3) (some d) rest
            else .error ⟨position + 2, .recursive⟩
        else .error ⟨position - 1, .recursive⟩
      else (.anySequence :: ·) <$> readTokens fuel (position + 1) (some c) after
    else if c == '[' then
      match classToken? rest with
      | some (token, after) =>
        (token :: ·) <$>
          readTokens fuel (position + (s.length - after.length)) (some ']') after
      | none => .error ⟨position, .range⟩
    else (.char c :: ·) <$> readTokens fuel (position + 1) (some c) rest

/-- The texts between the slashes of a pattern; a slash at the end separates nothing. -/
def splitParts (s : List Char) : List (List Char) :=
  let parts := Path.splitSlash s
  if parts.getLast? = some [] then parts.dropLast else parts

/-- One part of a pattern. -/
def readPart (s : List Char) : Except SyntaxFault Part :=
  if s = ['*', '*'] then .ok .directories
  else .name <$> readTokens (s.length + 1) 0 none s

/-- A pattern that was read. -/
structure Pattern where
  parts : List Part
  /-- Whether a slash at the end asks for directories. -/
  onlyDirs : Bool
deriving Repr, DecidableEq

/-- Reads a pattern that stands `offset` characters into a longer one. The whole of it has to be
right, and then each part on its own. -/
def parse (offset : Nat) (s : List Char) : Except SyntaxFault Pattern := do
  let _ ← readTokens (s.length + 1) offset (some '/') s
  let parts ← (splitParts s).mapM readPart
  pure ⟨parts, s.getLast? == some '/'⟩

/-! ## Matching -/

/-- Whether tokens match a name as a whole. -/
def matchTokens : List Token → List Char → Bool
  | [], s => s.isEmpty
  | .anySequence :: ts, s => Text.someSuffix (matchTokens ts) s
  | .char d :: ts, c :: s => c == d && matchTokens ts s
  | .anyChar :: ts, _ :: s => matchTokens ts s
  | .within items :: ts, c :: s => items.any (·.holds c) && matchTokens ts s
  | .except items :: ts, c :: s => !items.any (·.holds c) && matchTokens ts s
  | _ :: _, [] => false

/-- The name that a part stands for if it has no wildcards. -/
def literal? : List Token → Option (List Char)
  | [] => some []
  | .char c :: ts => (literal? ts).map (c :: ·)
  | _ :: _ => none

/-! ## Expansion -/

/-- The parts of a path below the directory where the expansion starts. `..` may be among them. -/
abbrev Below := List String

section
variable {β : Type} (t : Tree β) (root : Place) (onlyDirs : Bool)

/-- Whether a path leads to something. -/
def leads (p : Below) : Bool :=
  match t.walk root p with
  | .ok _ => true
  | .error _ => false

/-- Whether a path leads to a directory. -/
def leadsToDir (p : Below) : Bool :=
  match t.walk root p with
  | .ok q => t.isDir q
  | .error _ => false

/-- The names in the directory that a path leads to, without those that start with a point. -/
def visibleNames (p : Below) : List String :=
  match t.walk root p with
  | .ok q => (t.children q).filter fun name => name.toList.head? != some '.'
  | .error _ => []

mutual
/-- The paths below the directory `p` that the parts match. -/
def expandIn (fuel : Nat) (parts : List Part) (p : Below) : List Below :=
  match fuel, parts with
  | 0, _ => []
  | _, [] => []
  | fuel + 1, .directories :: rest =>
    if leadsToDir t root p then
      (visibleNames t root p).flatMap fun name =>
        expandChild fuel (.directories :: rest) (p ++ [name])
    else []
  | fuel + 1, .name tokens :: rest =>
    match literal? tokens with
    | some name => expandStep fuel rest (p ++ [String.ofList name])
    | none =>
      if leadsToDir t root p then
        ([[ '.', '.' ], ['.']].filter fun special =>
            tokens.head? == some (.char '.') && matchTokens tokens special).flatMap
          (fun special => expandStep fuel rest (p ++ [String.ofList special])) ++
        (visibleNames t root p).flatMap fun name =>
          expandChild fuel (.name tokens :: rest) (p ++ [name])
      else []

/-- The paths that parts match from a path that a part with a fixed name led to. -/
def expandStep (fuel : Nat) (rest : List Part) (p : Below) : List Below :=
  match fuel with
  | 0 => []
  | fuel + 1 =>
    let special := p.getLast? == some "." || p.getLast? == some ".."
    if (special && leadsToDir t root p.dropLast) || (!special && leads t root p) then
      if rest.isEmpty then [p] else expandIn fuel rest p
    else []

/-- The paths that parts match from an entry of a directory, the first part being for the entry. -/
def expandChild (fuel : Nat) (parts : List Part) (p : Below) : List Below :=
  match fuel, parts with
  | 0, _ => []
  | _, [] => []
  | fuel + 1, .directories :: rest =>
    let after := rest.dropWhile (· == .directories)
    let below := if leadsToDir t root p then expandIn fuel (.directories :: after) p else []
    match after with
    | [] => if leadsToDir t root p then p :: below else []
    | .name tokens :: rest => expandMatched fuel tokens rest p ++ below
    | .directories :: _ => below
  | fuel + 1, .name tokens :: rest => expandMatched fuel tokens rest p

/-- The paths that parts match from an entry, if the entry's name is matched. -/
def expandMatched (fuel : Nat) (tokens : List Token) (rest : List Part) (p : Below) :
    List Below :=
  match fuel with
  | 0 => []
  | fuel + 1 =>
    if matchTokens tokens ((p.getLast?.getD "").toList) then
      if rest.isEmpty then (if !onlyDirs || leadsToDir t root p then [p] else [])
      else expandIn fuel rest p
    else []
end

end

/-- The paths below a directory that a pattern matches. No path is longer than the parts of the
pattern and the entries of the tree allow, which bounds the search. -/
def expand {β : Type} (t : Tree β) (root : Place) (pattern : Pattern) : List Below :=
  let fuel := 3 * (pattern.parts.length + 1) * (t.entries.length + 2)
  (expandIn t root pattern.onlyDirs fuel pattern.parts []).filter fun p =>
    !pattern.onlyDirs || leadsToDir t root p

end CodeIndex.Glob
