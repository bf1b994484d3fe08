import CodeIndex.CommandLine
import CodeIndex.Store.Codec
import Std.Time.Format

/-!
The program: it reads the files of a project into a file tree, runs the command line on it, and writes
back what the run has changed. Nothing is connected to it, so that no provider of embeddings can be
reached.
-/
namespace CodeIndex.Program

open CommandLine

/-! ## Files -/

/-- The place of an absolute path. -/
def placeOf (path : String) : Place := (path.splitOn "/").filter fun part => part != ""

/-- A place and all places above it, from the root on. -/
def placesTo (p : Place) : List Place := (List.range (p.length + 1)).map p.take

/-- The content of a file. -/
def contentOf (bs : ByteArray) : Content :=
  match (String.fromUTF8? bs).bind Store.decode? with
  | some s => .index s
  | none => .bytes bs

/-- The bytes in which a content is kept. -/
def bytesOf : Content → ByteArray
  | .bytes bs => bs
  | .index s => s.encode.toUTF8

/-- What is at a place; what cannot be read is left out. -/
def readPlace (p : Place) : IO (List (Place × Entry Content)) := do
  let path := (← IO.currentDir) / placeText p
  try
    if ← path.isDir then return [(p, .dir)]
    else return [(p, .file (contentOf (← IO.FS.readBinFile path)))]
  catch _ => return []

/-- The names in a directory, none if it cannot be read. -/
def namesIn (p : Place) : IO (List String) := do
  try
    let entries ← ((← IO.currentDir) / placeText p).readDir
    return entries.toList.map (·.fileName)
  catch _ => return []

/-- What is at a place and, down to a depth, below it. Of a repository only the top is read. -/
def readBelow (depth : Nat) (p : Place) : IO (List (Place × Entry Content)) := do
  let here ← readPlace p
  match depth, here with
  | depth + 1, [(_, .dir)] =>
    let names ← namesIn p
    let below ← names.mapM fun name =>
      if p.getLast? == some ".git" then readPlace (p ++ [name]) else readBelow depth (p ++ [name])
    return here ++ below.flatten
  | _, _ => return here

/-- The place that a path leads to, if it leads anywhere. -/
def realPlace? (path : String) : IO (Option Place) := do
  try return some (placeOf (← IO.FS.realPath ((← IO.currentDir) / path)).toString)
  catch _ => return none

/-- What is on the way to a path, seen from a directory, and where the path leads. -/
def readPath (base : Place) (path : String) : IO (List (Place × Entry Content) × Option Place) := do
  let parts := path.splitOn "/"
  let ways ← (List.range parts.length).mapM fun n =>
    realPlace? (joinPath (placeText base) ("/".intercalate (parts.take (n + 1))))
  let places := ways.reduceOption.flatMap placesTo
  let entries ← places.eraseDups.mapM readPlace
  return (entries.flatten, ways.getLast?.join)

/-! ## Repositories -/

/-- The names in a repository that say what it is. -/
def repositoryNames : List String :=
  ["HEAD", "objects", "refs", "config", "config.worktree", "commondir", "gitdir"]

/-- The paths that the files of a repository lead to. -/
def pathsIn (t : FileTree) (p : Place) : List String :=
  let lines := ["commondir", "gitdir"].filterMap fun name => Repository.line? t (p ++ [name])
  let settings := ["config", "config.worktree"].flatMap fun name =>
    (((Repository.characters? t (p ++ [name])).bind Settings.parse?).getD []).filter fun s =>
      ["core.worktree", "include.path"].contains (String.ofList s.name)
  (lines ++ settings.filterMap (·.value)).map String.ofList

/-- What says whether a directory is a repository, and what its files lead to, some steps far. -/
def readRepository (depth : Nat) (p : Place) : IO (List (Place × Entry Content)) := do
  let own := (← repositoryNames.mapM fun name => readPlace (p ++ [name])).flatten
  match depth with
  | 0 => return own
  | depth + 1 =>
    let led ← (pathsIn ⟨own⟩ p).mapM fun path => do
      let (entries, target) ← readPath p path
      return entries ++ (← (target.mapM (readRepository depth))).getD []
    return own ++ led.flatten

/-- What says whether the places down to `p` are or hold repositories. -/
def readMarks (p : Place) : IO (List (Place × Entry Content)) := do
  let marks ← (placesTo p).mapM fun q => do
    let link ← readPlace (q ++ [".git"])
    let (entries, target) ← match Repository.linkedPath? ⟨link⟩ (q ++ [".git"]) with
      | some path => readPath q path
      | none => pure ([], none)
    let linked ← target.mapM (readRepository 2)
    return (q, Entry.dir) :: link ++ (← readRepository 2 (q ++ [".git"])) ++
      (← readRepository 2 q) ++ entries ++ linked.getD []
  return marks.flatten

/-! ## Runs -/

/-- How deep a project is read. -/
def maxDepth : Nat := 100

/-- The tree that an invocation needs and the root of its project. -/
def readTree (cwd : Place) (i : Invocation) : IO (FileTree × Place) := do
  let marks ← readMarks cwd
  let named ← i.project.mapM realPlace?
  let found := (Repository.workTree? ⟨marks⟩ cwd).bind Except.toOption
  let root := (named.getD found).getD cwd
  let config ← match ← i.config.mapM realPlace? with
    | some (some p) => pure ((placesTo p.dropLast).map (·, Entry.dir) ++ (← readPlace p))
    | _ => pure []
  let above := (placesTo root.dropLast).map (·, Entry.dir)
  return (⟨(← readBelow maxDepth root) ++ marks ++ above ++ config⟩, root)

/-- Writes a file if it has changed. -/
def writeBack (before after : FileTree) (p : Place) : IO Unit := do
  let cwd ← IO.currentDir
  match after.file? p with
  | some content =>
    if before.file? p ≠ some content then
      IO.FS.createDirAll (cwd / placeText p.dropLast)
      IO.FS.writeBinFile (cwd / placeText p) (bytesOf content)
  | none => pure ()

/-- Runs the program. -/
def run (args : List String) : IO UInt32 := do
  let cwd := placeOf (← IO.FS.realPath (← IO.currentDir)).toString
  let (tree, root) ← match Arguments.read args with
    | .run i => readTree cwd i
    | _ => pure (⟨[]⟩, cwd)
  let now := (Std.Time.DateTime.ofTimestamp (← Std.Time.Timestamp.now) .UTC).format
    "uuuu-MM-dd HH:mm:ss"
  let size := ((tree.file? (root ++ indexFile)).map fun c => (bytesOf c).size).getD 0
  let r := CommandLine.run ⟨cwd, .unreachable, .asFound, .made, now, size, false⟩ args tree
  writeBack tree r.tree (root ++ [configFile])
  writeBack tree r.tree (root ++ indexFile)
  IO.print r.printed
  if let some complaint := r.complaint then
    IO.eprintln complaint
  return UInt32.ofNat r.code

end CodeIndex.Program

/-- Runs the program. -/
def main (args : List String) : IO UInt32 := CodeIndex.Program.run args
