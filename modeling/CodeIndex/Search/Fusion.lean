import CodeIndex.Search.Weights

/-!
Fusion of the hits of three searches into one ranking.

Hits at one location become one result. It keeps the best score of each signal, the fields of the
first hit that has them and every kind of match once; its score is `Weights.total` of its signals.
Results stand by score, and those with equal scores in the order in which their locations came up.

* `Fusion.place` adds one hit to the results gathered so far;
* `Fusion.ranking` is the whole ranking and `Fusion.merge` the start of it.
-/
namespace CodeIndex.Fusion

variable {α : Type}

/-- The hits of one location so far. -/
structure Gathered (α : Type) where
  hit : Hit α
  signals : Signals α
deriving Repr, DecidableEq

/-- A list of kinds of matches with those of another list added that it lacks. -/
def addMatches (kept : List MatchKind) : List MatchKind → List MatchKind
  | [] => kept
  | m :: rest => addMatches (if kept.contains m then kept else kept ++ [m]) rest

/-- A kept hit with a later one for the same location folded in. -/
def absorb (kept other : Hit α) : Hit α :=
  { kept with
    matchKinds := addMatches kept.matchKinds other.matchKinds
    name := kept.name.or other.name
    parent := kept.parent.or other.parent
    language := kept.language.or other.language
    lastLine := kept.lastLine.or other.lastLine
    preview := kept.preview.or other.preview }

variable [Score α]

/-- The results after one more hit of a signal. -/
def place (signal : Signal) (hit : Hit α) : List (Gathered α) → List (Gathered α)
  | [] => [⟨hit, Signals.none.raise signal hit.score⟩]
  | g :: rest =>
    if g.hit.location = hit.location then
      ⟨absorb g.hit hit, g.signals.raise signal hit.score⟩ :: rest
    else g :: place signal hit rest

/-- The results after the hits of a signal; those with a score of zero or less are left out. -/
def gather (signal : Signal) (found : List (Gathered α)) : List (Hit α) → List (Gathered α)
  | [] => found
  | hit :: rest =>
    gather signal (if Score.le hit.score Score.zero then found else place signal hit found) rest

/-- The final form of a result. -/
def Gathered.finish (w : Weights α) (g : Gathered α) : Hit α :=
  { g.hit with score := w.total g.signals, breakdown := some g.signals }

/-- The results of all locations in the order in which they came up. -/
def gathered (symbols fulltext semantic : List (Hit α)) : List (Gathered α) :=
  gather .semantic (gather .fulltext (gather .symbol [] symbols) fulltext) semantic

/-- The ranking of all locations that were hit. -/
def ranking (w : Weights α) (symbols fulltext semantic : List (Hit α)) : List (Hit α) :=
  Hit.byScore ((gathered symbols fulltext semantic).map (Gathered.finish w))

/-- The first results of the ranking. -/
def merge (w : Weights α) (limit : Nat) (symbols fulltext semantic : List (Hit α)) :
    List (Hit α) :=
  (ranking w symbols fulltext semantic).take limit

end CodeIndex.Fusion
