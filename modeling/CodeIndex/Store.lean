import CodeIndex.FullText.Index
import CodeIndex.Store.Row
import CodeIndex.Store.Table

/-!
The index of any number of projects.

A `Store` holds the rows of all projects, three full-text indexes that are only as new as their last
rebuilding, and whether it may be written. Only the full-text index of the chunks is searched. Most
changes come in two forms: one that says what the new store is (`addChunk`, `addSymbol`, …), and in
`Store.Write` one that may be refused.

* `Store.dropChunks?` takes out the chunks of a project, unless a symbol refers to one;
* `Store.rebuilt` makes a full-text index new, and `Store.missingIndex?` is the first one that is not there;
* `Store.created` and `Store.reopened` are what opening gives.

Times at which rows were written are left out, except in the log.
-/
namespace CodeIndex

/-- The full-text indexes, by what they are made from. -/
inductive TextIndex where
  | chunks
  | symbols
  | components
deriving Repr, DecidableEq

/-- The full-text indexes, in the order in which they are made new. -/
def TextIndex.all : List TextIndex := [chunks, symbols, components]

/-- The name of the table of a full-text index. -/
def TextIndex.table : TextIndex → String
  | chunks => "code_chunks_fts"
  | symbols => "symbols_fts"
  | components => "components_fts"

/-- An index. -/
structure Store where
  readOnly : Bool
  metadata : List (String × String)
  chunks : Table ChunkRow
  symbols : Table SymbolRow
  components : Table ComponentRow
  files : List FileRow
  events : Table EventRow
  /-- The rows of the full-text index of the chunks, if there is one. -/
  fulltext : Option (List FullText.Row)
  /-- Those of the full-text index of the symbols. -/
  symbolNames : Option (List FullText.NameRow)
  /-- Those of the full-text index of the components. -/
  componentNames : Option (List FullText.NameRow)
deriving Repr, DecidableEq

namespace Store

/-- The key of the version of the tables. -/
def versionKey : String := "schema_version"

/-- The version of the tables. -/
def version : String := "2.1.0"

/-! ## Metadata -/

/-- The value under a key. -/
def metadata? (s : Store) (key : String) : Option String :=
  (s.metadata.find? (·.1 == key)).map (·.2)

/-- The store with a value under a key. -/
def putMetadata (s : Store) (key value : String) : Store :=
  { s with metadata := s.metadata.filter (·.1 != key) ++ [(key, value)] }

/-! ## Opening -/

/-- The store that has just been created. -/
def created : Store :=
  putMetadata ⟨false, [], .empty, .empty, .empty, [], .empty, some [], some [], some []⟩ versionKey
    version

/-- The store after it has been opened again. Opening it for writing creates what is missing. -/
def reopened (s : Store) (readOnly : Bool) : Store :=
  if readOnly then { s with readOnly := true }
  else
    { s.putMetadata versionKey version with
      readOnly := false
      fulltext := some (s.fulltext.getD [])
      symbolNames := some (s.symbolNames.getD [])
      componentNames := some (s.componentNames.getD []) }

/-- The store without one of its full-text indexes. -/
def withoutIndex (s : Store) : TextIndex → Store
  | .chunks => { s with fulltext := none }
  | .symbols => { s with symbolNames := none }
  | .components => { s with componentNames := none }

/-! ## Adding rows -/

/-- The store with one more chunk. -/
def addChunk (s : Store) (project : String) (c : Chunk) (embedding : Option Embedding) : Store :=
  { s with chunks := s.chunks.insert (.ofChunk project c embedding) }

/-- The store with one more symbol. -/
def addSymbol (s : Store) (project name : String) (c : Chunk) (chunkId : Nat) : Store :=
  { s with symbols := s.symbols.insert (.ofChunk project name c chunkId) }

/-- The store with a component; one that the project has for the same file goes. -/
def putComponent (s : Store) (project : String) (c : Component) (embedding : Option Embedding) :
    Store :=
  { s with
    components := (s.components.keep fun r => !r.isFor project c.filePath).insert
      ⟨project, c, embedding.map StoredVector.ofEmbedding⟩ }

/-- The store with the record of a file in place of an earlier one. -/
def putFile (s : Store) (project : String) (f : FileRecord) : Store :=
  { s with
    files := s.files.filter (fun r => !r.isFor project f.filePath) ++
      [.ofRecord project f] }

/-- The store with one more entry in the log. -/
def addEvent (s : Store) (project time kind stats : String) : Store :=
  { s with events := s.events.insert ⟨project, time, kind, stats⟩ }

/-! ## Taking rows out -/

/-- The store without the symbols of a project. -/
def dropSymbols (s : Store) (project : String) : Store :=
  { s with symbols := s.symbols.keep (·.project != project) }

/-- Whether a symbol refers to a chunk of a project. -/
def refersInto (s : Store) (project : String) : Bool :=
  (s.chunks.select (·.project == project)).any fun c =>
    s.symbols.toList.any (·.chunkId == c.id)

/-- The store without the chunks of a project, if no symbol refers to one of them. -/
def dropChunks? (s : Store) (project : String) : Option Store :=
  if s.refersInto project then none
  else some { s with chunks := s.chunks.keep (·.project != project) }

/-- The store without the components of a project. -/
def dropComponents (s : Store) (project : String) : Store :=
  { s with components := s.components.keep (·.project != project) }

/-- The paths of the files of a project, in order. -/
def indexedFiles (s : Store) (project : String) : List String :=
  ((s.files.filter (·.project == project)).map (·.filePath)).mergeSort (· ≤ ·)

/-- The paths of the files of a project that are not among those to keep. -/
def staleFiles (s : Store) (project : String) (keep : List String) : List String :=
  (s.indexedFiles project).filter fun path => !keep.contains path

/-- The store without the files of a project that are not among those to keep. -/
def dropStaleFiles (s : Store) (project : String) (keep : List String) : Store :=
  { s with files := s.files.filter fun r => r.project != project || keep.contains r.filePath }

/-! ## The full-text indexes -/

/-- The row of the full-text index for a chunk. -/
def fulltextRow (r : Numbered ChunkRow) : FullText.Row :=
  ⟨r.id, r.row.content, r.row.filePath, r.row.kind.name, r.row.name⟩

/-- The row of the full-text index for a symbol. -/
def symbolNameRow (r : Numbered SymbolRow) : FullText.NameRow :=
  ⟨r.id, r.row.name, r.row.filePath, r.row.kind.name⟩

/-- The row of the full-text index for a component. -/
def componentNameRow (r : Numbered ComponentRow) : FullText.NameRow :=
  ⟨r.id, r.row.component.name, r.row.component.filePath, r.row.component.kind.name⟩

/-- Whether a full-text index is there. -/
def hasIndex (s : Store) : TextIndex → Bool
  | .chunks => s.fulltext.isSome
  | .symbols => s.symbolNames.isSome
  | .components => s.componentNames.isSome

/-- The first of the full-text indexes that is not there. -/
def missingIndex? (s : Store) : Option TextIndex := TextIndex.all.find? fun i => !s.hasIndex i

/-- The store with a full-text index that holds the rows of its table as they are. -/
def rebuilt (s : Store) : TextIndex → Store
  | .chunks => { s with fulltext := some (s.chunks.rows.map fulltextRow) }
  | .symbols => { s with symbolNames := some (s.symbols.rows.map symbolNameRow) }
  | .components => { s with componentNames := some (s.components.rows.map componentNameRow) }

/-- The store with all full-text indexes made new. -/
def reindexed (s : Store) : Store := TextIndex.all.foldl rebuilt s

end Store

end CodeIndex
