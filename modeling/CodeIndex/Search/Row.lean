import CodeIndex.Search.Hit
import CodeIndex.Store

/-!
Hits made from the rows of a store, the orders in which searches read rows, and limits.

* `ChunkRow.hit`, `SymbolRow.hit` and `ComponentRow.hit` are the hits for rows;
* `atMost` cuts a list at a limit that is read as a word with a sign: a negative one cuts nothing;
* `Hit.unseen` leaves out the hits at locations that came up before.
-/
namespace CodeIndex

/-- The first rows that a limit of 64 bits allows. -/
def atMost {α : Type} (limit : Nat) (rows : List α) : List α :=
  if limit < Nat.pow 2 63 then rows.take limit else rows

/-! ## Hits -/

/-- The hit for a chunk. -/
def ChunkRow.hit (r : ChunkRow) (preview : List Char) (score : Float) (how : MatchKind) :
    Hit Float where
  what := .codeChunk
  name := r.name
  filePath := r.filePath
  line := some r.firstLine
  lastLine := some r.lastLine
  kind := r.kind.name
  parent := r.parent
  language := some r.language
  preview := some (String.ofList preview)
  score := score
  matchKinds := [how]
  breakdown := none

/-- The hit for a symbol; `preview` is the start of its chunk, if that is there. -/
def SymbolRow.hit (r : SymbolRow) (preview : Option (List Char)) (score : Float) (how : MatchKind) :
    Hit Float where
  what := .symbol
  name := some r.name
  filePath := r.filePath
  line := some r.firstLine
  lastLine := some r.lastLine
  kind := r.kind.name
  parent := r.parent
  language := some r.language
  preview := preview.map String.ofList
  score := score
  matchKinds := [how]
  breakdown := none

/-- The hit for a component. -/
def ComponentRow.hit (r : ComponentRow) (score : Float) (how : MatchKind) : Hit Float where
  what := .component
  name := some r.component.name
  filePath := r.component.filePath
  line := none
  lastLine := none
  kind := r.component.kind.name
  parent := none
  language := none
  preview := none
  score := score
  matchKinds := [how]
  breakdown := none

/-- The hits at locations that are not among those seen, the first one at each. -/
def Hit.unseen {α : Type} (seen : List (String × Option Nat)) : List (Hit α) → List (Hit α)
  | [] => []
  | h :: hs =>
    if seen.contains h.location then unseen seen hs
    else h :: unseen (h.location :: seen) hs

/-! ## Orders -/

/-- Symbols by name, file and line. -/
def SymbolRow.before (a b : SymbolRow) : Bool :=
  (compare a.name b.name).then
    ((compare a.filePath b.filePath).then (compare a.firstLine b.firstLine)) |>.isLE

/-- Chunks by file and line. -/
def ChunkRow.before (a b : ChunkRow) : Bool :=
  (compare a.filePath b.filePath).then (compare a.firstLine b.firstLine) |>.isLE

/-- Components by name and file. -/
def Component.before (a b : Component) : Bool :=
  (compare a.name b.name).then (compare a.filePath b.filePath) |>.isLE

namespace Store

variable (s : Store) (project : String)

/-- The symbols of a project by name, file, line and number. -/
def symbolsByName : List SymbolRow :=
  (s.symbols.toList.filter (·.project == project)).mergeSort SymbolRow.before

/-- The chunks of a project by file, line and number. -/
def chunksByLine : List ChunkRow :=
  (s.chunks.toList.filter (·.project == project)).mergeSort ChunkRow.before

/-- The chunks of a project by file and number. -/
def chunksByFile : List ChunkRow :=
  (s.chunks.toList.filter (·.project == project)).mergeSort fun a b => a.filePath ≤ b.filePath

/-- The components of a project by name and file. -/
def componentsByName : List ComponentRow :=
  (s.components.toList.filter (·.project == project)).mergeSort fun a b =>
    a.component.before b.component

/-- The components of a project by file. -/
def componentsByFile : List ComponentRow :=
  (s.components.toList.filter (·.project == project)).mergeSort fun a b =>
    a.component.filePath ≤ b.component.filePath

end Store

end CodeIndex
