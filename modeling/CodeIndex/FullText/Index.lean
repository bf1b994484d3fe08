import CodeIndex.FullText.Query
import CodeIndex.Score
import CodeIndex.Text.Term

/-!
The full-text index.

A row of the index holds the texts of a chunk in four columns. A phrase is a list of terms; it occurs
where its terms stand side by side in one column. A row is a hit for a query if all phrases occur in
it, and hits are ranked by how often the phrases occur, for the length of the row, and by how rare
they are.

* `phrases?` are the phrases of a query;
* `Row.frequency` counts the occurrences of a phrase in a row;
* `ranked` are the hits of a query, the best first and equal ones in order of their number.
-/
namespace CodeIndex.FullText

open Text

/-- A row of the index, with the number of the chunk it was made from. -/
structure Row where
  id : Nat
  content : String
  filePath : String
  kind : String
  name : Option String
deriving Repr, DecidableEq

/-- A row of an index of names, with the number of the symbol or component it was made from. No search reads
it. -/
structure NameRow where
  id : Nat
  name : String
  filePath : String
  kind : String
deriving Repr, DecidableEq

/-- A list of terms that stand side by side. -/
abbrev Phrase := List (List Char)

/-- The phrases of a query, without words that hold no term; nothing if the query cannot be read. -/
def phrases? (query : List Char) : Option (List Phrase) :=
  (Query.strings? (Query.write query)).map fun ss =>
    (ss.map terms).filter fun phrase => !phrase.isEmpty

/-- The places, counted in terms, at which a phrase occurs in the rest of a column. -/
def occurrencesFrom (phrase : Phrase) (position : Nat) : List (List Char) → List Nat
  | [] => []
  | t :: ts =>
    if phrase.isPrefixOf (t :: ts) then position :: occurrencesFrom phrase (position + 1) ts
    else occurrencesFrom phrase (position + 1) ts

/-- The places, counted in terms, at which a phrase occurs in a column. -/
def occurrences (phrase : Phrase) (column : List (List Char)) : List Nat :=
  occurrencesFrom phrase 0 column

/-- The terms of a row, column by column. -/
structure Columns where
  id : Nat
  columns : List (List (List Char))

namespace Columns

/-- How often a phrase occurs in a row. -/
def frequency (r : Columns) (phrase : Phrase) : Nat :=
  (r.columns.map fun column => (occurrences phrase column).length).foldr (· + ·) 0

/-- How many terms a row holds. -/
def size (r : Columns) : Nat := (r.columns.map List.length).foldr (· + ·) 0

end Columns

/-- The terms of a row. -/
def Row.terms (r : Row) : Columns :=
  ⟨r.id, [r.content, r.filePath, r.kind, r.name.getD ""].map fun s => Text.terms s.toList⟩

/-! ## Ranking -/

section
variable {α : Type} [Score α]

/-- How much a phrase counts that `hits` of `rows` rows hold: the logarithm of the odds against it,
and next to nothing where the odds are for it. -/
def rarity (rows hits : Nat) : α :=
  let half : α := Score.ratio 1 2
  let odds : α :=
    Score.div (Score.add (Score.sub (Score.ofNat rows) (Score.ofNat hits)) half)
      (Score.add (Score.ofNat hits) half)
  let weight := Score.ln odds
  if Score.le weight Score.zero then Score.ratio 1 1000000 else weight

/-- How much the occurrences of a phrase count in a row of `size` terms, where `total` terms stand in
`rows` rows. -/
def saturation (frequency size total rows : Nat) : α :=
  let k : α := Score.ratio 12 10
  let b : α := Score.ratio 3 4
  let f : α := Score.ofNat frequency
  let mean : α := Score.div (Score.ofNat total) (Score.ofNat rows)
  Score.div (Score.mul f (Score.add k Score.one))
    (Score.add f (Score.mul k (Score.add (Score.sub Score.one b)
      (Score.div (Score.mul b (Score.ofNat size)) mean))))

/-- The relevance of a row: for each phrase, how much its occurrences count times how rare it is. -/
def relevance (rows : List Columns) (phrases : List Phrase) (r : Columns) : α :=
  let total := (rows.map Columns.size).foldr (· + ·) 0
  phrases.foldl (fun sum phrase =>
    let hits := (rows.filter fun r => 0 < r.frequency phrase).length
    Score.add sum (Score.mul (rarity rows.length hits)
      (saturation (r.frequency phrase) r.size total rows.length))) Score.zero

end

/-- The numbers of the hits of a query, by relevance and then by number. Rows stand in order of their
numbers. The type of the scores is a parameter. -/
def ranked (α : Type) [Score α] (rows : List Row) (phrases : List Phrase) : List Nat :=
  if phrases.isEmpty then []
  else
    let columns := rows.map Row.terms
    let hits := columns.filter fun r => phrases.all fun phrase => 0 < r.frequency phrase
    let scored : List (α × Nat) := hits.map fun r => (relevance columns phrases r, r.id)
    (scored.mergeSort fun a b => Score.le b.1 a.1).map (·.2)

end CodeIndex.FullText
