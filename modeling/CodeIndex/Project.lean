import CodeIndex.Project.Discovery

/-!
Projects: a directory in a file tree whose files are indexed.

What the files hold is a parameter; `Project.read` says which contents are texts.
-/
namespace CodeIndex

/-- A project in a file tree. -/
structure Project (β : Type) where
  tree : Tree β
  root : Place
  /-- The text of a content, if it is one. -/
  read : β → Option String

namespace Project

variable {β : Type}

/-- The source files of a project. -/
def files (p : Project β) (c : SyncConfig) : Except PatternRefusal (List Discovered) :=
  discoverFiles p.tree p.root c.patterns c.excludeDirs

/-- The component files of a project, with their kinds. -/
def components (p : Project β) (c : SyncConfig) :
    Except PatternRefusal (List (Discovered × ComponentKind)) :=
  discoverComponents p.tree p.root c.componentPatterns c.excludeDirs

/-- The text of a discovered file, if it can be read. -/
def text? (p : Project β) (d : Discovered) : Option String :=
  match p.tree.walk p.root d.below with
  | .ok place => (p.tree.file? place).bind p.read
  | .error _ => none

end Project

end CodeIndex
