import CodeIndex.Digest
import CodeIndex.Record
import CodeIndex.Store

/-!
Indexes as texts, for keeping them in files.

* `Store.encode` writes an index and `Store.decode?` reads one; whether it may be written is not kept,
  as that is settled when it is opened.
-/
namespace CodeIndex.Store

/-- What the text of an index says that it is. -/
def formatMark : String := "code index 2"

/-! ## Writing -/

/-- Bytes in hexadecimal. -/
def hexText (bytes : List UInt8) : String :=
  String.ofList (bytes.flatMap fun b => Digest.hexByte b.toNat)

/-- A kept vector. -/
def vectorJson : Option StoredVector → Json
  | none => .null
  | some v => .arr [.str (hexText v.bytes), .str v.model]

/-- A row of chunks. -/
def chunkJson (r : ChunkRow) : Json :=
  .arr [.str r.project, .str r.filePath, .int r.index, .str r.content, Named.toJson r.language,
    Named.toJson r.kind, .ofText? r.name, .ofText? r.parent, .nat r.firstLine, .nat r.lastLine,
    vectorJson r.embedding]

/-- A row of symbols. -/
def symbolJson (r : SymbolRow) : Json :=
  .arr [.str r.project, .str r.filePath, .str r.name, Named.toJson r.kind, .ofText? r.parent,
    Named.toJson r.language, .nat r.firstLine, .nat r.lastLine, .nat r.chunkId]

/-- A row of components. -/
def componentJson (r : ComponentRow) : Json :=
  .arr [.str r.project, .str r.component.name, Named.toJson r.component.kind,
    .str r.component.filePath, vectorJson r.embedding]

/-- A row of files. -/
def fileJson (r : FileRow) : Json :=
  .arr [.str r.project, .str r.filePath, .str r.fileType, .int r.size, .str r.digest]

/-- A row of the log. -/
def eventJson (r : EventRow) : Json :=
  .arr [.str r.project, .str r.time, .str r.kind, .str r.stats]

/-- A row of the full-text index. -/
def fulltextJson (r : FullText.Row) : Json :=
  .arr [.nat r.id, .str r.content, .str r.filePath, .str r.kind, .ofText? r.name]

/-- A row of an index of names. -/
def nameJson (r : FullText.NameRow) : Json :=
  .arr [.nat r.id, .str r.name, .str r.filePath, .str r.kind]

/-- An index, if there is one. -/
def indexJson {ρ : Type} (row : ρ → Json) (rows : Option (List ρ)) : Json :=
  rows.elim .null fun rows => .arr (rows.map row)

/-- A table of rows. -/
def tableJson {ρ : Type} (row : ρ → Json) (t : Table ρ) : Json :=
  .arr [.nat t.last, .arr (t.rows.map fun r => .arr [.nat r.id, row r.row])]

/-- An index as a text. -/
def encode (s : Store) : String :=
  Json.compact <| .arr [.str formatMark,
    .arr (s.metadata.map fun (k, v) => .arr [.str k, .str v]),
    tableJson chunkJson s.chunks, tableJson symbolJson s.symbols,
    tableJson componentJson s.components, .arr (s.files.map fileJson),
    tableJson eventJson s.events, indexJson fulltextJson s.fulltext,
    indexJson nameJson s.symbolNames, indexJson nameJson s.componentNames]

/-! ## Reading -/

/-- The bytes that hexadecimal digits stand for. -/
def hexBytes? : List Char → Option (List UInt8)
  | [] => some []
  | a :: b :: s => do
    let a ← Json.hexValue? a
    let b ← Json.hexValue? b
    let rest ← hexBytes? s
    pure (UInt8.ofNat (16 * a + b) :: rest)
  | _ => none

/-- A text that may be missing. -/
def optionalText? : Json → Option (Option String)
  | .null => some none
  | .str s => some (some s)
  | _ => none

/-- A whole number. -/
def int? : Json → Option Int
  | .int n => some n
  | _ => none

/-- A kept vector. -/
def readVector : Json → Option (Option StoredVector)
  | .null => some none
  | .arr [.str bytes, .str model] => (hexBytes? bytes.toList).map fun bs => some ⟨bs, model⟩
  | _ => none

/-- A row of chunks. -/
def readChunk : Json → Option ChunkRow
  | .arr [project, filePath, index, content, language, kind, name, parent, first, last, v] => do
    pure ⟨← project.str?, ← filePath.str?, ← int? index, ← content.str?,
      ← Named.ofJson? language, ← Named.ofJson? kind, ← optionalText? name, ← optionalText? parent,
      ← first.line?, ← last.line?, ← readVector v⟩
  | _ => none

/-- A row of symbols. -/
def readSymbol : Json → Option SymbolRow
  | .arr [project, filePath, name, kind, parent, language, first, last, chunk] => do
    pure ⟨← project.str?, ← filePath.str?, ← name.str?, ← Named.ofJson? kind, ← optionalText? parent,
      ← Named.ofJson? language, ← first.line?, ← last.line?, ← chunk.size?⟩
  | _ => none

/-- A row of components. -/
def readComponent : Json → Option ComponentRow
  | .arr [project, name, kind, filePath, v] => do
    pure ⟨← project.str?, ⟨← name.str?, ← Named.ofJson? kind, ← filePath.str?⟩, ← readVector v⟩
  | _ => none

/-- A row of files. -/
def readFile : Json → Option FileRow
  | .arr [project, filePath, fileType, size, digest] => do
    pure ⟨← project.str?, ← filePath.str?, ← fileType.str?, ← int? size, ← digest.str?⟩
  | _ => none

/-- A row of the log. -/
def readEvent : Json → Option EventRow
  | .arr [project, time, kind, stats] => do
    pure ⟨← project.str?, ← time.str?, ← kind.str?, ← stats.str?⟩
  | _ => none

/-- A row of the full-text index. -/
def readFullText : Json → Option FullText.Row
  | .arr [id, content, filePath, kind, name] => do
    pure ⟨← id.size?, ← content.str?, ← filePath.str?, ← kind.str?, ← optionalText? name⟩
  | _ => none

/-- A row of an index of names. -/
def readName : Json → Option FullText.NameRow
  | .arr [id, name, filePath, kind] => do
    pure ⟨← id.size?, ← name.str?, ← filePath.str?, ← kind.str?⟩
  | _ => none

/-- An index, if there is one. -/
def readIndex {ρ : Type} (row : Json → Option ρ) : Json → Option (Option (List ρ))
  | .null => some none
  | rows => (rows.list? row).map some

/-- A pair of texts. -/
def readPair : Json → Option (String × String)
  | .arr [k, v] => do pure (← k.str?, ← v.str?)
  | _ => none

/-- A row with its number. -/
def readNumbered {ρ : Type} (row : Json → Option ρ) : Json → Option (Numbered ρ)
  | .arr [id, r] => do pure ⟨← id.size?, ← row r⟩
  | _ => none

/-- A table of rows. -/
def readTable {ρ : Type} (row : Json → Option ρ) : Json → Option (Table ρ)
  | .arr [last, rows] => do Table.ofRows? (← rows.list? (readNumbered row)) (← last.size?)
  | _ => none

/-- The index that a text holds. -/
def decode? (text : String) : Option Store :=
  match Json.parse? text with
  | some (.arr [.str mark, metadata, chunks, symbols, components, files, events, fulltext, symbolNames,
      componentNames]) => do
    guard (mark = formatMark)
    pure ⟨false, ← metadata.list? readPair, ← readTable readChunk chunks,
      ← readTable readSymbol symbols, ← readTable readComponent components,
      ← files.list? readFile, ← readTable readEvent events, ← readIndex readFullText fulltext,
      ← readIndex readName symbolNames, ← readIndex readName componentNames⟩
  | _ => none

end CodeIndex.Store
