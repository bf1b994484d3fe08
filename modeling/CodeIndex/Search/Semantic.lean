import CodeIndex.Embedding.Provider
import CodeIndex.Search.Row

/-!
Search by meaning: rows whose vectors are close to that of the query.

* `Store.similar` ranks the rows of a project by the cosine with a vector; rows without a vector and
  rows whose cosine with it is not defined are passed over. A cosine that is no number has a place in the
  ranking by its bits, and which these are is a parameter;
* `Store.semanticSearch` asks a provider for the vector of a query first.
-/
namespace CodeIndex

open Text

/-- The bits that the cosine of two vectors has if it is no number. A number of a vector that is none itself
makes them, and the language leaves open how: the machine has a rule. -/
abbrev NanRule := Vector32 → Vector32 → NanBits

/-- The rule for vectors of numbers. -/
def NanRule.made : NanRule := fun _ _ => .made

/-- A hit with the place of its score in the total order of doubles. -/
structure Scored where
  key : Int
  hit : Hit Float
deriving Repr, DecidableEq

/-- Hits with the highest score first, and equal ones in the order they had. -/
def Scored.ranked (hits : List Scored) : List Scored := hits.mergeSort fun a b => b.key ≤ a.key

namespace Store

/-- How many characters of a chunk a hit shows. -/
def similarPreviewChars : Nat := 200

/-- The hit for a row whose vector has a cosine with that of the query, with the place of the cosine among
all scores. -/
def scored? (nan : NanRule) (query : Vector32) (kept : Option StoredVector) (hit : Float → Hit Float) :
    Option Scored :=
  kept.bind fun v => (Vector32.cosine? query v.vector).map fun score =>
    ⟨totalKey ((nan query v.vector).ofFloat score), hit score⟩

/-- The hits for the chunks of a project, by file and number: so the index of the table has them, which is by
project and file. -/
def similarChunks (nan : NanRule) (s : Store) (project : String) (query : Vector32) : List Scored :=
  (s.chunksByFile project).filterMap fun r =>
    scored? nan query r.embedding fun score =>
      r.hit (r.content.toList.take similarPreviewChars) score .semantic

/-- The hits for the components of a project, by file. -/
def similarComponents (nan : NanRule) (s : Store) (project : String) (query : Vector32) :
    List Scored :=
  (s.componentsByFile project).filterMap fun r =>
    scored? nan query r.embedding fun score => r.hit score .semantic

/-- The rows of a project that are closest to a vector: by score, and in the order in which they are read
where it is the same. -/
def similar (nan : NanRule) (s : Store) (project : String) (query : Vector32) (limit : Nat) :
    List (Hit Float) :=
  ((Scored.ranked (s.similarChunks nan project query ++ s.similarComponents nan project query)).take
    limit).map (·.hit)

/-- What is said of a provider that is not there. -/
def notServed (model : String) : EmbeddingFault :=
  .unavailable ("embedding model '" ++ model ++ "' is not being served")

/-- The rows of a project that are closest to a query, and the provider after it has been asked. -/
def semanticSearch (nan : NanRule) (s : Store) (project : String) (p : Provider) (query : String)
    (limit : Nat) : Except Failure (List (Hit Float)) × Provider :=
  if allBlank query.toList || limit == 0 then (.ok [], p)
  else if !p.available then (.error (.embedding (notServed p.model)), p)
  else
    match p.ask query with
    | (.ok vector, p) => (.ok (s.similar nan project vector limit), p)
    | (.error fault, p) => (.error (.embedding fault), p)

end Store

end CodeIndex
