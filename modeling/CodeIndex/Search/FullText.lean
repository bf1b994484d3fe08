import CodeIndex.FullText.Highlight
import CodeIndex.Failure
import CodeIndex.Search.Row
import CodeIndex.Text.Like

/-!
Search in the text of chunks.

Hits of the full-text index count most. Where they do not reach the limit, chunks that contain the
query as it stands are added, and components whose name, path or kind contains it are added always.

* `Store.fulltextHits` are the hits of the index, none if it is missing or cannot read the query;
* `Store.substringHits` and `Store.componentHits` compare texts with a pattern, which can be too long;
* `Store.textSearch` is the search. The type of the numbers by which the index ranks its hits is a
  parameter.
-/
namespace CodeIndex

open Text

namespace Store

/-- What a hit of the full-text index counts. -/
def fulltextScore : Float := 1.0

/-- What a component counts. -/
def componentScore : Float := 0.8

/-- What a chunk counts that contains the query. -/
def substringScore : Float := 0.6

/-- How many characters of a hit of the full-text index are shown. -/
def excerptChars : Nat := 200

/-- How many characters of a chunk are shown that contains the query. -/
def substringPreviewChars : Nat := 100

/-- The chunks of a project that the full-text index finds, the best first. Chunks that are gone are
passed over. -/
def fulltextRows (α : Type) [Score α] (s : Store) (project : String) (rows : List FullText.Row)
    (phrases : List FullText.Phrase) : List ChunkRow :=
  (FullText.ranked α rows phrases).filterMap fun id =>
    (s.chunks.find? id).filter (·.project == project)

/-- The hit for a chunk that the full-text index finds. -/
def fulltextHit (phrases : List FullText.Phrase) (r : ChunkRow) : Hit Float :=
  let content := r.content.toList
  let marked := FullText.marked (FullText.stretches phrases content) content
  r.hit (FullText.excerpt marked excerptChars) fulltextScore .fulltext

/-- The hits of the full-text index. -/
def fulltextHits (α : Type) [Score α] (s : Store) (project : String) (query : List Char)
    (limit : Nat) : List (Hit Float) :=
  match s.fulltext, FullText.phrases? query with
  | some rows, some phrases =>
    (atMost limit (s.fulltextRows α project rows phrases)).map (fulltextHit phrases)
  | _, _ => []

/-- The rows among those to be compared with a pattern that match. -/
def matching {ρ : Type} (pattern : List Char) (texts : ρ → List String) (rows : List ρ) :
    Except Failure (List ρ) :=
  if Like.tooComplex pattern && !rows.isEmpty then .error (.database .readRow .patternTooComplex)
  else .ok (rows.filter fun r => (texts r).any fun text => Like.accepts pattern text.toList)

/-- The hits for chunks that contain the query in their text or name. -/
def substringHits (s : Store) (project : String) (query : List Char) (limit : Nat) :
    Except Failure (List (Hit Float)) := do
  let rows ← matching (Like.containing query) (fun r : ChunkRow => r.content :: r.name.toList)
    (s.chunksByLine project)
  pure ((atMost limit rows).map fun r =>
    r.hit (previewAt r.content.toList query substringPreviewChars) substringScore .substring)

/-- The hits for components that contain the query in their name, path or kind. -/
def componentHits (s : Store) (project : String) (query : List Char) (limit : Nat) :
    Except Failure (List (Hit Float)) := do
  let rows ← matching (Like.containing query)
    (fun r : ComponentRow => [r.component.name, r.component.filePath, r.component.kind.name])
    (s.componentsByName project)
  pure ((atMost limit rows).map fun r => r.hit componentScore .component)

/-- Hits with those for chunks that contain the query added, if there is room for them. -/
def withSubstrings (s : Store) (project : String) (query : List Char) (limit : Nat)
    (found : List (Hit Float)) : Except Failure (List (Hit Float)) :=
  if found.length < limit then do
    let more ← s.substringHits project query limit
    pure (found ++ Hit.unseen (found.map Hit.location) more)
  else .ok found

/-- The chunks and components of a project that match a query. -/
def textSearch (α : Type) [Score α] (s : Store) (project query : String) (limit : Nat) :
    Except Failure (List (Hit Float)) :=
  let q := trim query.toList
  if q.isEmpty || limit == 0 then .ok []
  else do
    let chunks ← s.withSubstrings project q limit (s.fulltextHits α project q limit)
    let components ← s.componentHits project q limit
    pure ((Hit.byScore (chunks ++ components)).take limit)

end Store

end CodeIndex
