import CodeIndex.Record

/-!
The counts of a run of indexing, and their written form.
-/
namespace CodeIndex

/-- What a run of indexing counts. -/
structure SyncStats where
  files : Nat
  chunks : Nat
  symbols : Nat
  components : Nat
  embeddings : Nat
  skippedFiles : Nat
  prunedFiles : Nat
deriving Repr, DecidableEq

namespace SyncStats

/-- The counts before anything is done. -/
def zero : SyncStats := ⟨0, 0, 0, 0, 0, 0, 0⟩

/-- The names of the fields. -/
def fieldNames : List String :=
  ["files", "codeChunks", "symbols", "components", "embeddings", "skippedFiles", "prunedFiles"]

/-- The counts in JSON. -/
def toJson (s : SyncStats) : Json :=
  .obj [("files", .nat s.files), ("codeChunks", .nat s.chunks), ("symbols", .nat s.symbols),
    ("components", .nat s.components), ("embeddings", .nat s.embeddings),
    ("skippedFiles", .nat s.skippedFiles), ("prunedFiles", .nat s.prunedFiles)]

/-- Counts read from JSON. -/
def ofJson? (j : Json) : Option SyncStats := do
  let r ← Record.ofJson? fieldNames j
  let files ← r.required "files" Json.size?
  let chunks ← r.required "codeChunks" Json.size?
  let symbols ← r.required "symbols" Json.size?
  let components ← r.required "components" Json.size?
  let embeddings ← r.required "embeddings" Json.size?
  let skippedFiles ← r.required "skippedFiles" Json.size?
  let prunedFiles ← r.required "prunedFiles" Json.size?
  pure ⟨files, chunks, symbols, components, embeddings, skippedFiles, prunedFiles⟩

end SyncStats

end CodeIndex
