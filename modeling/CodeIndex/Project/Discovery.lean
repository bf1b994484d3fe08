import CodeIndex.Config
import CodeIndex.Project.Glob

/-!
Discovery of the files of a project.

* `discoverFiles` are the files that patterns match, each once, in the order of the patterns;
* `discoverComponents` are those of component patterns, each with the kind of the first pattern that
  matches it.
-/
namespace CodeIndex

/-- Why a pattern is refused. -/
structure PatternRefusal where
  pattern : String
  fault : Glob.SyntaxFault
deriving Repr, DecidableEq

/-- What is said of a pattern that is refused. -/
def PatternRefusal.message (r : PatternRefusal) : String := r.pattern ++ ": " ++ r.fault.message

/-- A file of a project. -/
structure Discovered where
  /-- Where it is, as the parts of a path from the project. -/
  below : Glob.Below
  /-- Its path relative to the project, as it is kept in the index. -/
  relative : String
deriving Repr, DecidableEq

namespace Discovery

/-- A pattern without `./` at its start, however often. -/
def trimCurrent : List Char → List Char
  | '.' :: '/' :: s => trimCurrent s
  | s => s

/-- The parts of a path that count. -/
def significant (p : Glob.Below) : List String := p.filter fun part => part != "" && part != "."

/-- A place as the start of a pattern, with the characters of patterns set in brackets. -/
def escaped (root : Place) : List Char :=
  root.flatMap fun name =>
    '/' :: name.toList.flatMap fun c =>
      if c == '?' || c == '*' || c == '[' || c == ']' then ['[', c, ']'] else [c]

variable {β : Type}

/-- The files that a pattern matches, without those in a directory of an excluded name. -/
def matching (t : Tree β) (root : Place) (excludeDirs : List String) (pattern : String) :
    Except PatternRefusal (List Discovered) :=
  match Glob.parse ((escaped root).length + 1) (trimCurrent pattern.toList) with
  | .error fault => .error ⟨pattern, fault⟩
  | .ok g =>
    .ok <| (Glob.expand t root g).filterMap fun p =>
      match t.walk root p with
      | .error _ => none
      | .ok q =>
        let parts := significant p
        if t.isFile q && !parts.dropLast.any excludeDirs.contains then
          some ⟨p, Path.key ("/".intercalate parts)⟩
        else none

/-- The entries whose path has not come before. -/
def firstByPath {γ : Type} (path : γ → String) (seen : List String) : List γ → List γ
  | [] => []
  | x :: xs =>
    if seen.contains (path x) then firstByPath path seen xs
    else x :: firstByPath path (path x :: seen) xs

end Discovery

open Discovery

variable {β : Type}

/-- The files that patterns match. -/
def discoverFiles (t : Tree β) (root : Place) (patterns excludeDirs : List String) :
    Except PatternRefusal (List Discovered) := do
  let found ← patterns.mapM (matching t root excludeDirs)
  pure (firstByPath (·.relative) [] found.flatten)

/-- The component files that patterns match, with their kinds. -/
def discoverComponents (t : Tree β) (root : Place) (patterns : List ComponentPattern)
    (excludeDirs : List String) : Except PatternRefusal (List (Discovered × ComponentKind)) := do
  let found ← patterns.mapM fun p => do
    let files ← matching t root excludeDirs p.pattern
    pure (files.map fun file => (file, p.kind))
  pure (firstByPath (·.1.relative) [] found.flatten)

end CodeIndex
