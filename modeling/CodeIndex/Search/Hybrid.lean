import CodeIndex.Search.FullText
import CodeIndex.Search.Fusion
import CodeIndex.Search.Semantic
import CodeIndex.Search.Symbols

/-!
Search by all signals at once: each of the three searches is run for twice the limit, and their hits
are fused. A search that fails has no hits.
-/
namespace CodeIndex

/-- The hits of a search, none if it fails. -/
def orNone {α : Type} (r : Except Failure (List (Hit α))) : List (Hit α) :=
  match r with
  | .ok hits => hits
  | .error _ => []

namespace Store

/-- How many hits each search gives for a limit: twice as many, as far as 64 bits go. -/
def fetchCount (limit : Nat) : Nat := min (limit * 2) (Nat.pow 2 64 - 1)

/-- The best hits of a project by all signals, and the provider after it has been asked. -/
def hybridSearch (α : Type) [Score α] (e : Enumeration) (nan : NanRule) (s : Store) (project : String)
    (p : Provider) (w : Weights Float) (query : String) (limit : Nat) :
    Except Failure (List (Hit Float)) × Provider :=
  match w.fault? with
  | some fault => (.error (.ofWeights fault), p)
  | none =>
    let count := fetchCount limit
    let (semantic, p) := s.semanticSearch nan project p query count
    let symbols := s.symbolSearch e project query count
    let fulltext := orNone (s.textSearch α project query count)
    (.ok (Fusion.merge w limit symbols fulltext (orNone semantic)), p)

end Store

end CodeIndex
