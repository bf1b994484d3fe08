import CodeIndex.Embedding.Vector
import CodeIndex.Source.Chunk

/-!
The rows of the index.

Every row belongs to a project. What a chunk and a symbol say of their place in a file is taken over
from the chunk they were made from; a vector is kept as its bytes.
-/
namespace CodeIndex

/-- A vector as it is kept, with the name of the model that made it. -/
structure StoredVector where
  bytes : List UInt8
  model : String
deriving Repr, DecidableEq

/-- The stored form of an embedding. -/
def StoredVector.ofEmbedding (e : Embedding) : StoredVector := ⟨e.vector.toBytes, e.model⟩

/-- The vector that is kept. -/
def StoredVector.vector (v : StoredVector) : Vector32 := Vector32.ofBytes v.bytes

/-- Whole numbers are kept in words of 64 bits with a sign. -/
def signedWord (n : Nat) : Int := (n : Int).bmod (Nat.pow 2 64)

/-- A chunk of a project. -/
structure ChunkRow where
  project : String
  filePath : String
  index : Int
  content : String
  language : Language
  kind : ChunkKind
  name : Option String
  parent : Option String
  firstLine : Nat
  lastLine : Nat
  embedding : Option StoredVector
deriving Repr, DecidableEq

/-- The row of a chunk. -/
def ChunkRow.ofChunk (project : String) (c : Chunk) (embedding : Option Embedding) : ChunkRow where
  project := project
  filePath := c.filePath
  index := signedWord c.index
  content := c.content
  language := c.language
  kind := c.kind
  name := c.name
  parent := c.parent
  firstLine := c.firstLine
  lastLine := c.lastLine
  embedding := embedding.map StoredVector.ofEmbedding

/-- A name that a chunk declares. -/
structure SymbolRow where
  project : String
  filePath : String
  name : String
  kind : ChunkKind
  parent : Option String
  language : Language
  firstLine : Nat
  lastLine : Nat
  /-- The number of the chunk. -/
  chunkId : Nat
deriving Repr, DecidableEq

/-- The row of a name that a chunk declares. -/
def SymbolRow.ofChunk (project name : String) (c : Chunk) (chunkId : Nat) : SymbolRow where
  project := project
  filePath := c.filePath
  name := name
  kind := c.kind
  parent := c.parent
  language := c.language
  firstLine := c.firstLine
  lastLine := c.lastLine
  chunkId := chunkId

/-- A component or page of a project. -/
structure Component where
  name : String
  kind : ComponentKind
  filePath : String
deriving Repr, DecidableEq

/-- The row of a component. -/
structure ComponentRow where
  project : String
  component : Component
  embedding : Option StoredVector
deriving Repr, DecidableEq

/-- Whether a row is for a file of a project. -/
def ComponentRow.isFor (r : ComponentRow) (project filePath : String) : Bool :=
  r.project == project && r.component.filePath == filePath

/-- What is recorded of an indexed file. The time of its last change is left out: it is kept and never looked
at. -/
structure FileRecord where
  filePath : String
  fileType : String
  /-- The length in bytes. -/
  size : Nat
  /-- The digest of the content. -/
  digest : String
deriving Repr, DecidableEq

/-- The row of a file. -/
structure FileRow where
  project : String
  filePath : String
  fileType : String
  size : Int
  digest : String
deriving Repr, DecidableEq

/-- The row of a record. -/
def FileRow.ofRecord (project : String) (f : FileRecord) : FileRow :=
  ⟨project, f.filePath, f.fileType, signedWord f.size, f.digest⟩

/-- Whether a row is for a file of a project. -/
def FileRow.isFor (r : FileRow) (project filePath : String) : Bool :=
  r.project == project && r.filePath == filePath

/-- An entry of the log of a project. -/
structure EventRow where
  project : String
  time : String
  kind : String
  /-- Counts, as written. -/
  stats : String
deriving Repr, DecidableEq

end CodeIndex
