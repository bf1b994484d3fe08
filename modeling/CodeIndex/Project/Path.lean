/-!
Paths.

* `components` takes a path apart: slashes in a row count as one, and so does a slash at the end; a
  part `.` counts only at the start of a path that does not start with a slash;
* `key` is the path as it is kept in the index: its components with slashes between them;
* `fileName?`, `stem?` and `extension?` are read off the last component.
-/
namespace CodeIndex.Path

/-- One component of a path. -/
inductive Component where
  | root
  | current
  | parent
  | normal (name : List Char)
deriving Repr, DecidableEq

/-- The written form of a component. -/
def Component.text : Component → List Char
  | root => ['/']
  | current => ['.']
  | parent => ['.', '.']
  | normal name => name

/-- The parts of a text between slashes. -/
def splitSlash : List Char → List (List Char)
  | [] => [[]]
  | c :: s =>
    if c = '/' then [] :: splitSlash s
    else
      match splitSlash s with
      | [] => [[c]]
      | part :: parts => (c :: part) :: parts

/-- The component that a part of a path stands for, if it stands for one where it is not first. -/
def component? (part : List Char) : Option Component :=
  if part = [] || part = ['.'] then none
  else if part = ['.', '.'] then some .parent
  else some (.normal part)

/-- The components of a path. -/
def components (path : List Char) : List Component :=
  match splitSlash path with
  | [] => []
  | first :: parts =>
    let rest := parts.filterMap component?
    if path.head? = some '/' then .root :: rest
    else if first = ['.'] then .current :: rest
    else (component? first).toList ++ rest

/-- Components with slashes between them. -/
def join (cs : List Component) : List Char := ['/'].intercalate (cs.map (·.text))

/-- A path as it is kept in the index. -/
def key (path : String) : String := String.ofList (join (components path.toList))

/-- The name of the file a path leads to: its last component, if that is a name. -/
def fileName? (path : String) : Option (List Char) :=
  match (components path.toList).getLast? with
  | some (.normal name) => some name
  | _ => none

/-- A name cut at its last point; a point at its start cuts nothing. -/
def splitExtension (name : List Char) : List Char × Option (List Char) :=
  let tail := name.reverse.takeWhile (· != '.')
  let stem := (name.reverse.drop (tail.length + 1)).reverse
  if tail.length = name.length || stem.isEmpty then (name, none) else (stem, some tail.reverse)

/-- The file name of a path without its extension. -/
def stem? (path : String) : Option String :=
  (fileName? path).map fun name => String.ofList (splitExtension name).1

/-- The extension of a path's file name. -/
def extension? (path : String) : Option String :=
  (fileName? path).bind fun name => (splitExtension name).2.map String.ofList

end CodeIndex.Path
