import CodeIndex.Json.Reader
import CodeIndex.Store

/-!
What an index holds of a project, in numbers.
-/
namespace CodeIndex

/-- The last entry in the log of a project. -/
structure LastSync where
  time : String
  kind : String
  /-- The counts that were recorded, `null` if they cannot be read. -/
  stats : Json

/-- The numbers of a project. -/
structure Status where
  version : Option String
  chunks : Nat
  embeddedChunks : Nat
  symbols : Nat
  components : Nat
  embeddedComponents : Nat
  files : Nat
  /-- The number of symbols of each kind, by the name of the kind. -/
  symbolKinds : List (String × Nat)
  /-- The number of chunks in each language, by the name of the language. -/
  languages : List (String × Nat)
  lastSync : Option LastSync

namespace Store

/-- How often each name is in a list, in order of the names. -/
def tally (names : List String) : List (String × Nat) :=
  names.eraseDups.mergeSort (· ≤ ·) |>.map fun name => (name, names.count name)

/-- The last entry in the log of a project. -/
def lastSync? (s : Store) (project : String) : Option LastSync :=
  (s.events.select (·.project == project)).getLast?.map fun e =>
    ⟨e.row.time, e.row.kind, (Json.parse? e.row.stats).getD .null⟩

/-- The numbers of a project. -/
def status (s : Store) (project : String) : Status :=
  let chunks := s.chunks.toList.filter (·.project == project)
  let symbols := s.symbols.toList.filter (·.project == project)
  let components := s.components.toList.filter (·.project == project)
  { version := s.metadata? versionKey
    chunks := chunks.length
    embeddedChunks := (chunks.filter (·.embedding.isSome)).length
    symbols := symbols.length
    components := components.length
    embeddedComponents := (components.filter (·.embedding.isSome)).length
    files := (s.files.filter (·.project == project)).length
    symbolKinds := tally (symbols.map (·.kind.name))
    languages := tally (chunks.map (·.language.name))
    lastSync := s.lastSync? project }

end Store

/-! ## Status in JSON -/

/-- An entry of the log in JSON. -/
def LastSync.toJson (e : LastSync) : Json :=
  .obj [("timestamp", .str e.time), ("eventType", .str e.kind), ("stats", e.stats)]

/-- Counts by name in JSON. -/
def Status.tallyJson (counts : List (String × Nat)) : Json :=
  .obj (counts.map fun (name, count) => (name, .nat count))

/-- The numbers of a project in JSON; `size` is the size of the index in bytes. -/
def Status.toJson (s : Status) (size : Nat) : Json :=
  .obj [("schemaVersion", .ofText? s.version), ("dbSizeBytes", .nat size),
    ("codeChunks", .nat s.chunks), ("chunksWithEmbeddings", .nat s.embeddedChunks),
    ("symbols", .nat s.symbols), ("components", .nat s.components),
    ("componentsWithEmbeddings", .nat s.embeddedComponents), ("files", .nat s.files),
    ("symbolTypes", tallyJson s.symbolKinds), ("languages", tallyJson s.languages),
    ("lastSync", s.lastSync.elim .null LastSync.toJson)]

end CodeIndex
