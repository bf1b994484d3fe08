import CodeIndex.Search.Row
import CodeIndex.Text.Like

/-!
Search for symbols by name.

A name matches a query in one of four ways, which are tried one after the other until the limit is
reached: it is the query, it starts with it, it contains it later on, or it contains it only when the
case of ASCII letters is left out of account. The hits stand in a table before they are ordered by
score, and the order in which that table is read out is a parameter.

* `Tier.accepts` is the comparison of each way, `Tier.score` what it counts;
* `Store.symbolSearch` is the search.
-/
namespace CodeIndex

open Text Text.Like

/-- The ways in which a name can match, the best first. -/
inductive Tier where
  | exact
  | start
  | contains
  | anyCase
deriving Repr, DecidableEq

namespace Tier

/-- The ways in order. -/
def all : List Tier := [exact, start, contains, anyCase]

/-- What a match counts. -/
def score : Tier → Float
  | exact => 1.0
  | start => 0.8
  | contains => 0.5
  | anyCase => 0.4

/-- The kind of match. -/
def matchKind : Tier → MatchKind
  | exact => .symbolExact
  | start => .symbolStart
  | contains => .symbolContains
  | anyCase => .symbolAnyCase

/-- A text with the letters of ASCII in lower case. -/
def folded (s : List Char) : List Char := s.map asciiLower

/-- Whether a name matches a query. Counting the characters of a query stops at a character of code
zero, so no name starts with a query that holds one. -/
def accepts (query name : List Char) : Tier → Bool
  | exact => name == query
  | start => untilNul query == query && query.isPrefixOf name && name != query
  | contains => (indexOf? query name).any (0 < ·)
  | anyCase => occurs (folded query) (folded name) && !occurs query name

end Tier

/-- An order in which the hits in a table are read out. -/
structure Enumeration where
  order : List (Hit Float) → List (Hit Float)
  perm : ∀ hits, (order hits).Perm hits

/-- Hits are read out in the order in which they were put in. -/
def Enumeration.asFound : Enumeration := ⟨id, fun _ => .refl _⟩

namespace Store

/-- How many characters of a chunk a hit shows. -/
def symbolPreviewChars : Nat := 200

/-- The first characters of the chunk of a symbol. -/
def symbolPreview (s : Store) (r : SymbolRow) : Option (List Char) :=
  (s.chunks.find? r.chunkId).map fun c => c.content.toList.take symbolPreviewChars

/-- The hits of one way of matching, as many as the limit allows. -/
def tierHits (s : Store) (project : String) (query : List Char) (limit : Nat) (tier : Tier) :
    List (Hit Float) :=
  (atMost limit ((s.symbolsByName project).filter fun r => tier.accepts query r.name.toList)).map
    fun r => r.hit (s.symbolPreview r) tier.score tier.matchKind

/-- What hits for symbols are told apart by: name, file and line. -/
def symbolKey (h : Hit Float) : Option String × String × Option Nat := (h.name, h.filePath, h.line)

/-- A table of hits with those of a list added that are new. -/
def addNew (table : List (Hit Float)) : List (Hit Float) → List (Hit Float)
  | [] => table
  | h :: hs =>
    addNew (if table.any fun k => symbolKey k == symbolKey h then table else table ++ [h]) hs

/-- A table of hits with those of further ways of matching added, as long as the limit is not
reached. -/
def addTiers (s : Store) (project : String) (query : List Char) (limit : Nat)
    (table : List (Hit Float)) : List Tier → List (Hit Float)
  | [] => table
  | tier :: tiers =>
    let room := limit - table.length
    if room = 0 then table
    else addTiers s project query limit (addNew table (s.tierHits project query room tier)) tiers

/-- The hits for a query that is not blank, in the order in which they are found. -/
def symbolTable (s : Store) (project : String) (query : List Char) (limit : Nat) :
    List (Hit Float) :=
  s.addTiers project query limit [] Tier.all

/-- The symbols of a project whose names match a query. -/
def symbolSearch (e : Enumeration) (s : Store) (project query : String) (limit : Nat) :
    List (Hit Float) :=
  let q := trim query.toList
  if q.isEmpty || limit == 0 then []
  else (Hit.byScore (e.order (s.symbolTable project q limit))).take limit

end Store

end CodeIndex
