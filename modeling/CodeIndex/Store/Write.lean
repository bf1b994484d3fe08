import CodeIndex.Failure
import CodeIndex.Store

/-!
Changes of a store that may be refused.

A store that is open for reading only refuses every change, a symbol has to refer to a chunk, and a
chunk that a symbol refers to stays. A refused change leaves the store as it was, with two exceptions:
`clearProject` and `rebuildIndex` go in three steps and keep the steps before the one that is refused.

A row takes texts and vectors of any size here. The database refuses one of more than 10^9 bytes, which is
left out.
-/
namespace CodeIndex

/-- A statement: what it makes of an index, unless it is refused. -/
abbrev Statement := Store → Except Failure Store

/-- The outcome of statements one after another, and the index they leave. The first one that is refused ends
them, and what those before it have changed stays. -/
def inTurn : List Statement → Store → Except Failure Unit × Store
  | [], s => (.ok (), s)
  | statement :: rest, s =>
    match statement s with
    | .ok s' => inTurn rest s'
    | .error failure => (.error failure, s)

namespace Store

/-- A change of the store, if it may be written. -/
def writing {α : Type} (s : Store) (action : DatabaseAction) (change : Except Failure α) :
    Except Failure α :=
  if s.readOnly then .error (.database action .readOnly) else change

/-- Sets the value under a key. -/
def setMetadata (s : Store) (key value : String) : Except Failure Store :=
  s.writing (.setMetadata key) (.ok (s.putMetadata key value))

/-- Adds a chunk and gives its number. This is meant for chunks and vectors of less than 10^9 bytes: a longer
row is refused by the database. -/
def insertChunk (s : Store) (project : String) (c : Chunk) (embedding : Option Embedding) :
    Except Failure (Nat × Store) :=
  s.writing .insertChunk (.ok (s.chunks.next, s.addChunk project c embedding))

/-- Adds a symbol that refers to a chunk by its number. -/
def insertSymbol (s : Store) (project name : String) (c : Chunk) (chunkId : Nat) :
    Except Failure Store :=
  s.writing .insertSymbol <|
    if (s.chunks.find? chunkId).isSome then .ok (s.addSymbol project name c chunkId)
    else .error (.database .insertSymbol .foreignKey)

/-- Adds a component, in place of the one for the same file. -/
def insertComponent (s : Store) (project : String) (c : Component) (embedding : Option Embedding) :
    Except Failure Store :=
  s.writing .insertComponent (.ok (s.putComponent project c embedding))

/-- Records a file, in place of its earlier record. -/
def upsertFile (s : Store) (project : String) (f : FileRecord) : Except Failure Store :=
  s.writing .recordFile (.ok (s.putFile project f))

/-- Takes out the files of a project that are not to be kept, and counts them. -/
def pruneFiles (s : Store) (project : String) (keep : List String) : Except Failure (Nat × Store) :=
  let stale := s.staleFiles project keep
  if stale.isEmpty then .ok (0, s)
  else s.writing .pruneFile (.ok (stale.length, s.dropStaleFiles project keep))

/-- Adds an entry to the log of a project. -/
def recordEvent (s : Store) (project time kind stats : String) : Except Failure Store :=
  s.writing .recordEvent (.ok (s.addEvent project time kind stats))

/-- Makes one full-text index new. -/
def rebuild (i : TextIndex) : Statement := fun s =>
  if s.hasIndex i then s.writing .rebuildIndex (.ok (s.rebuilt i))
  else .error (.database .rebuildIndex (.missingTable i.table))

/-- Makes all full-text indexes new, in order. Those that are new before one is refused stay so. -/
def rebuildIndex (s : Store) : Except Failure Unit × Store := inTurn (TextIndex.all.map rebuild) s

/-- Takes out the symbols, chunks and components of a project, in this order. What has been taken out
before a step is refused stays out. -/
def clearProject (s : Store) (project : String) : Except Failure Unit × Store :=
  if s.readOnly then (.error (.database .clearSymbols .readOnly), s)
  else
    let s := s.dropSymbols project
    match s.dropChunks? project with
    | none => (.error (.database .clearChunks .foreignKey), s)
    | some s => (.ok (), s.dropComponents project)

end Store

end CodeIndex
