import CodeIndex.Repository.Settings
import CodeIndex.Workspace

/-!
Repositories in a file tree, and their work trees.

A repository is a directory with a head, with objects and with references; the last two may be in
another directory, which it shares with other repositories. It stands in its work tree under the name
`.git`, or a file of that name holds its path, or the search starts inside of it.

* `Repository.search` looks for a repository from a directory upwards;
* `Repository.workTree?` is the work tree around a directory: it follows from how the repository was
  found and from its settings. A repository with settings that cannot be read, or of a version or with
  extensions that are not known, has none.
-/
namespace CodeIndex

/-- A repository. -/
structure Repository where
  /-- Where its head is. -/
  dir : Place
  /-- Where its objects, references and settings are. -/
  shared : Place
  /-- The directory it was found in. -/
  around : Place
deriving Repr, DecidableEq

namespace Repository

/-! ## Search -/

/-- What a look for a repository comes to. -/
inductive Look where
  | absent
  /-- Something is there that leads to no repository. -/
  | broken
  | found (r : Repository)
deriving Repr, DecidableEq

/-- The characters of a file; bytes that are not UTF-8 stand for the characters of their codes. -/
def characters? (t : FileTree) (p : Place) : Option (List Char) :=
  match t.file? p with
  | some (.bytes bs) =>
    some (match String.fromUTF8? bs with
      | some text => text.toList
      | none => bs.toList.map fun b => Char.ofNat b.toNat)
  | _ => none

/-- The text of a file that holds one line. -/
def line? (t : FileTree) (p : Place) : Option (List Char) :=
  (characters? t p).map fun s => Text.untilNul (Settings.trimGaps s)

/-- The directory that shares its objects with the repository in a directory: itself, unless a file
names another. -/
def shared? (t : FileTree) (dir : Place) : Option Place :=
  if t.isFile (dir ++ ["commondir"]) then
    (line? t (dir ++ ["commondir"])).bind fun path =>
      (t.follow dir (String.ofList path)).toOption
  else some dir

/-- Looks whether a directory is a repository. -/
def inside (t : FileTree) (dir around : Place) : Look :=
  if !t.isDir dir then .absent
  else
    match shared? t dir with
    | none => .broken
    | some shared =>
      if t.isFile (dir ++ ["HEAD"]) && t.isDir (shared ++ ["objects"]) && t.isDir (shared ++ ["refs"])
      then .found ⟨dir, shared, around⟩
      else .absent

/-- What the path of a repository follows in a file. -/
def linkMark : List Char := "gitdir:".toList

/-- The path of a repository in a file. -/
def linkedPath? (t : FileTree) (file : Place) : Option String :=
  (line? t file).bind fun line =>
    if linkMark.isPrefixOf line && linkMark.length < line.length then
      some (String.ofList ((line.drop linkMark.length).dropWhile Settings.isGap))
    else none

/-- Looks where a file leads to. -/
def behindLink (t : FileTree) (file around : Place) : Look :=
  match (linkedPath? t file).map (t.follow around) with
  | some (.ok dir) =>
    match inside t dir around with
    | .absent => .broken
    | look => look
  | _ => .broken

/-- Looks for a repository in a directory, and then whether it is one itself. -/
def look (t : FileTree) (p : Place) : Look :=
  let own := p ++ [".git"]
  if t.isFile own then behindLink t own p
  else
    match inside t own p with
    | .absent => inside t p p.dropLast
    | look => look

/-- Looks for a repository in a directory and then in those above it, `depth` of them. -/
def search (t : FileTree) (p : Place) : Nat → Look
  | 0 => look t p
  | depth + 1 =>
    match look t p with
    | .absent => search t p.dropLast depth
    | look => look

/-- The repository around a directory. One that was found elsewhere is looked at anew from there, and
the root of the file system is not searched. -/
def around? (t : FileTree) (p : Place) : Option Repository :=
  match search t p (p.length - 1) with
  | .found r =>
    match look t r.dir with
    | .found r => some r
    | _ => none
  | _ => none

/-! ## Settings -/

/-- How deep settings may include others. -/
def maxIncludes : Nat := 10

/-- The file that a setting includes, seen from the directory it is read in; nothing if it includes
none, or one that is missing. -/
def included? (t : FileTree) (dir : Place) (s : Setting) : Except FileFault (Option Place) :=
  match s.value with
  | none => .ok none
  | some path =>
    if s.name != "include.path".toList then .ok none
    else
      match t.follow dir (String.ofList path) with
      | .ok file => .ok (some file)
      | .error .nameTooLong => .error .nameTooLong
      | .error _ => .ok none

/-- The settings in a file, with those that it includes after the setting that says so. A file that is
missing has none. -/
def settingsIn (t : FileTree) (file : Place) : Nat → Option (List Setting)
  | 0 => none
  | depth + 1 => do
    if !t.isFile file then return []
    let own ← (characters? t file).bind Settings.parse?
    let all ← own.mapM fun s : Setting =>
      match included? t file.dropLast s with
      | .error _ => none
      | .ok none => some [s]
      | .ok (some file) => (settingsIn t file depth).map (s :: ·)
    return all.flatten

/-- The settings of a repository, those of its own after those that it shares with others. -/
def settings? (r : Repository) (t : FileTree) : Option (List Setting) := do
  let shared ← settingsIn t (r.shared ++ ["config"]) maxIncludes
  match Settings.get? shared "extensions.worktreeconfig" with
  | none => return shared
  | some value =>
    if Settings.flag? value == some true then
      return shared ++ (← settingsIn t (r.dir ++ ["config.worktree"]) maxIncludes)
    else return shared

/-- The extensions that are known. -/
def knownExtensions : List String :=
  ["extensions.noop", "extensions.objectformat", "extensions.worktreeconfig"]

/-- Whether a repository with some settings can be worked with. -/
def supported (settings : List Setting) : Bool :=
  let version? :=
    match Settings.get? settings "core.repositoryformatversion" with
    | none => some 0
    | some value => value.bind Settings.integer?
  match version? with
  | none => false
  | some version =>
    version < 1 ||
      (version == 1 &&
        (settings.all fun s =>
          !("extensions.".toList.isPrefixOf s.name) ||
            knownExtensions.contains (String.ofList s.name)) &&
        (match Settings.get? settings "extensions.objectformat" with
          | none => true
          | some value => value == some "sha1".toList))

/-! ## Work trees -/

/-- Whether a repository belongs to a work tree of its own and shares the rest with others. -/
def isLinked (r : Repository) (t : FileTree) : Bool :=
  r.shared != r.dir && (t.get? (r.dir ++ ["gitdir"])).isSome

/-- The directory of the file that a path names, seen from a place. -/
def directoryOf (t : FileTree) (p : Place) (path : List Char) : Except FileFault Place :=
  let path := String.ofList path
  t.walk (if path.startsWith "/" then [] else p)
    ((path.splitOn "/").filter fun part => part != "").dropLast

/-- The place that the work tree of a repository is said to be at: nothing if there is none, a fault if
nothing is there. -/
def workPlace? (r : Repository) (t : FileTree) (settings : List Setting) :
    Option (Except FileFault Place) :=
  let bare? :=
    match Settings.get? settings "core.bare" with
    | none => some false
    | some value => (Settings.flag? value).map (· && !r.isLinked t)
  match bare? with
  | none | some true => none
  | some false =>
    if r.isLinked t then (line? t (r.dir ++ ["gitdir"])).map (directoryOf t r.dir)
    else
      match Settings.get? settings "core.worktree" with
      | some (some path) =>
        if path.isEmpty then none else ((t.follow r.dir (String.ofList path)).toOption).map .ok
      | _ => some (.ok r.around)

/-- The work tree around a directory: nothing if there is none, a fault if nothing is where it should
be. -/
def workTree? (t : FileTree) (p : Place) : Option (Except FileFault Place) :=
  (around? t p).bind fun r =>
    (r.settings? t).bind fun settings =>
      if !supported settings then none
      else
        match r.workPlace? t settings with
        | some (.ok p) => if t.isDir p then some (.ok p) else none
        | some (.error .notFound) => some (.error .notFound)
        | _ => none

end Repository

end CodeIndex
