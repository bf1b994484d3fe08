/-!
File trees.

A tree holds directories and files under places, which are the names on the way from the root of the
file system. Every place above an entry is a directory.

* `Tree.walk` follows the parts of a path, `..` included, as far as they lead to something,
  `Tree.resolve` a path as it is written, and `Tree.lookup` a path that is not too long;
* `Tree.children` are the entries of a directory by name;
* `Tree.write` and `Tree.makeDirs` change the tree.

There are no symbolic links in a tree, and every entry may be read and written.
-/
namespace CodeIndex

/-- Why a file cannot be reached or read. -/
inductive FileFault where
  | notFound
  | exists
  | notADirectory
  | isADirectory
  | nameTooLong
  /-- A character of code zero stands in a name. -/
  | zeroInName
  /-- The content is not UTF-8. -/
  | notText
deriving Repr, DecidableEq

/-- What a fault is called. -/
def FileFault.message : FileFault → String
  | notFound => "No such file or directory (os error 2)"
  | .exists => "File exists (os error 17)"
  | notADirectory => "Not a directory (os error 20)"
  | isADirectory => "Is a directory (os error 21)"
  | nameTooLong => "File name too long (os error 36)"
  | zeroInName => "file name contained an unexpected NUL byte"
  | notText => "stream did not contain valid UTF-8"

/-- A place in the file system: the names that lead to it from the root. -/
abbrev Place := List String

/-- The path of a place. -/
def placeText (p : Place) : String := "/" ++ "/".intercalate p

/-- A path below another one, as it is written; an absolute path stands for itself. -/
def joinPath (base path : String) : String :=
  if path.startsWith "/" then path
  else if base.endsWith "/" then base ++ path
  else base ++ "/" ++ path

/-- The bytes that a name may have. -/
def maxNameBytes : Nat := 255

/-- The bytes that a path may have when an entry is looked up by it. -/
def maxPathBytes : Nat := 4095

/-- Whether a character of code zero is in a text. -/
def hasZero (s : String) : Bool := s.toList.any (·.toNat == 0)

/-- Why a name cannot be that of an entry, if it cannot. -/
def nameFault? (name : String) : Option FileFault :=
  if hasZero name then some .zeroInName
  else if maxNameBytes < name.utf8ByteSize then some .nameTooLong
  else none

/-- What is at a place. -/
inductive Entry (β : Type) where
  | dir
  | file (content : β)
deriving Repr, DecidableEq

/-- A file tree. The root itself is always there and is not listed. -/
structure Tree (β : Type) where
  entries : List (Place × Entry β)

namespace Tree

variable {β : Type}

/-- What is at a place. -/
def get? (t : Tree β) (p : Place) : Option (Entry β) :=
  if p = [] then some .dir else (t.entries.find? (·.1 == p)).map (·.2)

/-- Whether a directory is at a place. -/
def isDir (t : Tree β) (p : Place) : Bool :=
  match t.get? p with
  | some .dir => true
  | _ => false

/-- The content of the file at a place. -/
def file? (t : Tree β) (p : Place) : Option β :=
  match t.get? p with
  | some (.file content) => some content
  | _ => none

/-- Whether a file is at a place. -/
def isFile (t : Tree β) (p : Place) : Bool := (t.file? p).isSome

/-- The place that the parts of a path lead to from a place. Empty parts and `.` stay, `..` goes up,
and whatever is left must be a directory. -/
def walk (t : Tree β) (p : Place) : List String → Except FileFault Place
  | [] => .ok p
  | part :: parts =>
    if !t.isDir p then .error .notADirectory
    else if part == "" || part == "." then walk t p parts
    else if part == ".." then walk t p.dropLast parts
    else if (t.get? (p ++ [part])).isNone then .error ((nameFault? part).getD .notFound)
    else walk t (p ++ [part]) parts

/-- The place that a path leads to, seen from the directory `base`, an empty path to that directory. -/
def follow (t : Tree β) (base : Place) (path : String) : Except FileFault Place :=
  t.walk (if path.startsWith "/" then [] else base) (path.splitOn "/")

/-- The place that a path leads to, seen from the directory `base`. An empty path leads nowhere. -/
def resolve (t : Tree β) (base : Place) (path : String) : Except FileFault Place :=
  if path.isEmpty then .error .notFound
  else if hasZero path then .error .zeroInName
  else t.follow base path

/-- The place that a path leads to, unless the path is too long. -/
def lookup (t : Tree β) (base : Place) (path : String) : Except FileFault Place :=
  if hasZero path then .error .zeroInName
  else if maxPathBytes < path.utf8ByteSize then .error .nameTooLong
  else t.resolve base path

/-- The content of the file that a path leads to, seen from the directory `base`. -/
def fileAt (t : Tree β) (base : Place) (path : String) : Except FileFault β :=
  match t.lookup base path with
  | .error fault => .error fault
  | .ok p =>
    match t.file? p with
    | some content => .ok content
    | none => .error .isADirectory

/-- The names in a directory, in order. -/
def children (t : Tree β) (p : Place) : List String :=
  (t.entries.filterMap fun (q, _) =>
    match q.getLast? with
    | some name => if q == p ++ [name] then some name else none
    | none => none).mergeSort (· ≤ ·)

/-- The tree with an entry at a place, whatever was there before. -/
def set (t : Tree β) (p : Place) (e : Entry β) : Tree β :=
  ⟨t.entries.filter (·.1 != p) ++ [(p, e)]⟩

/-- The tree with directories at all the places from `p` along the names, as far as nothing is there
yet. -/
def makeDirsFrom (t : Tree β) (p : Place) : List String → Except FileFault (Tree β)
  | [] => .ok t
  | name :: names =>
    let q := p ++ [name]
    match t.get? q with
    | some .dir => makeDirsFrom t q names
    | some (.file _) => .error (if names.isEmpty then .exists else .notADirectory)
    | none =>
      match nameFault? name with
      | some fault => .error fault
      | none => makeDirsFrom (t.set q .dir) q names

/-- The tree with a directory at a place, and above it. -/
def makeDirs (t : Tree β) (p : Place) : Except FileFault (Tree β) := t.makeDirsFrom [] p

/-- The tree with a file at a place, and directories above it. -/
def write (t : Tree β) (p : Place) (content : β) : Except FileFault (Tree β) := do
  let t ← t.makeDirs p.dropLast
  match p.getLast?.bind nameFault? with
  | some fault => .error fault
  | none => if t.isDir p then .error .isADirectory else .ok (t.set p (.file content))

end Tree

end CodeIndex
