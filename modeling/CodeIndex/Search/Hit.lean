import CodeIndex.Record
import CodeIndex.Score
import CodeIndex.Source.Language

/-!
Search hits.

A `Hit` is a place in a project with the score it was found with. What a search matched by is a
`MatchKind`, and each kind belongs to one of the three signals; `Signals` holds a score for each.

* `Hit.location` is the file and line that hits are told apart by;
* `Hit.byScore` puts hits in order of score, equal ones as they stood;
* `Hit.toJson` and `Hit.ofJson?` are the written form.
-/
namespace CodeIndex

/-! ## What was found, and by what -/

/-- What a hit is: a declared name, a chunk or a component. -/
inductive HitKind where
  | symbol
  | codeChunk
  | component
deriving Repr, DecidableEq

namespace HitKind

/-- The name of a kind of hit. -/
def name : HitKind → String
  | symbol => "symbol"
  | codeChunk => "code_chunk"
  | component => "component"

instance : Named HitKind where
  what := "result type"
  all := [symbol, codeChunk, component]
  name := name

end HitKind

/-- The kinds of evidence that a ranking weighs. -/
inductive Signal where
  | semantic
  | symbol
  | fulltext
deriving Repr, DecidableEq

namespace Signal

/-- The name of a signal. -/
def name : Signal → String
  | semantic => "semantic"
  | symbol => "symbol"
  | fulltext => "fulltext"

instance : Named Signal where
  what := "signal"
  all := [semantic, symbol, fulltext]
  name := name

end Signal

/-- How a hit matched the query. -/
inductive MatchKind where
  | symbolExact
  | symbolStart
  | symbolContains
  | symbolAnyCase
  | fulltext
  | substring
  | component
  | semantic
deriving Repr, DecidableEq

namespace MatchKind

/-- The label of a kind of match. -/
def name : MatchKind → String
  | symbolExact => "symbol:exact"
  | symbolStart => "symbol:prefix"
  | symbolContains => "symbol:contains"
  | symbolAnyCase => "symbol:case_insensitive"
  | fulltext => "fulltext"
  | substring => "substring"
  | component => "component"
  | semantic => "semantic"

instance : Named MatchKind where
  what := "match type"
  all := [symbolExact, symbolStart, symbolContains, symbolAnyCase, fulltext, substring, component,
    semantic]
  name := name

/-- The signal that a kind of match is evidence for. -/
def signal : MatchKind → Signal
  | symbolExact | symbolStart | symbolContains | symbolAnyCase => .symbol
  | fulltext | substring | component => .fulltext
  | semantic => .semantic

end MatchKind

/-! ## Scores by signal -/

/-- A score for each signal. -/
structure Signals (α : Type) where
  semantic : α
  symbol : α
  fulltext : α
deriving Repr, DecidableEq

namespace Signals

variable {α : Type} [Score α]

/-- No evidence. -/
def none : Signals α := ⟨Score.zero, Score.zero, Score.zero⟩

/-- The score of a signal. -/
def get (s : Signals α) : Signal → α
  | .semantic => s.semantic
  | .symbol => s.symbol
  | .fulltext => s.fulltext

/-- The greater of a kept score and a new one; the kept one if they do not compare. -/
def best (kept new : α) : α :=
  if Score.le kept new && !Score.le new kept then new else kept

/-- The scores after a hit of a signal: its score is kept if it is the greatest so far. -/
def raise (s : Signals α) (signal : Signal) (score : α) : Signals α :=
  match signal with
  | .semantic => { s with semantic := best s.semantic score }
  | .symbol => { s with symbol := best s.symbol score }
  | .fulltext => { s with fulltext := best s.fulltext score }

/-- How many signals there is evidence for. -/
def matched (s : Signals α) : Nat := ([s.semantic, s.symbol, s.fulltext].filter Score.isPositive).length

/-- The names of the fields. -/
def fieldNames : List String := ["semantic", "symbol", "fulltext"]

/-- The scores in JSON. -/
def toJson (s : Signals Float) : Json :=
  .obj [("semantic", .real s.semantic), ("symbol", .real s.symbol), ("fulltext", .real s.fulltext)]

/-- Scores read from JSON. -/
def ofJson? (j : Json) : Option (Signals Float) := do
  let r ← Record.ofJson? fieldNames j
  let semantic ← r.required "semantic" Json.real?
  let symbol ← r.required "symbol" Json.real?
  let fulltext ← r.required "fulltext" Json.real?
  pure ⟨semantic, symbol, fulltext⟩

end Signals

/-! ## Hits -/

/-- A place that a search found. -/
structure Hit (α : Type) where
  what : HitKind
  name : Option String
  filePath : String
  line : Option Nat
  lastLine : Option Nat
  /-- The kind of chunk or component, as it is stored. -/
  kind : String
  parent : Option String
  language : Option Language
  preview : Option String
  score : α
  matchKinds : List MatchKind
  breakdown : Option (Signals α)
deriving Repr, DecidableEq

namespace Hit

variable {α : Type}

/-- The file and line of a hit. -/
def location (h : Hit α) : String × Option Nat := (h.filePath, h.line)

/-- Hits with the highest score first, and equal ones in the order they had. -/
def byScore [Score α] (hits : List (Hit α)) : List (Hit α) :=
  hits.mergeSort fun a b => Score.ranks a.score b.score

/-! ## Hits in JSON -/

/-- A hit in JSON; what is absent is left out. -/
def toJson (h : Hit Float) : Json :=
  .objOf [("type", some (Named.toJson h.what)), ("name", h.name.map .str),
    ("filePath", some (.str h.filePath)), ("line", h.line.map .nat),
    ("endLine", h.lastLine.map .nat), ("kind", some (.str h.kind)), ("parent", h.parent.map .str),
    ("language", h.language.map Named.toJson), ("preview", h.preview.map .str),
    ("score", some (.real h.score)), ("matchTypes", some (.arr (h.matchKinds.map Named.toJson))),
    ("breakdown", h.breakdown.map Signals.toJson)]

/-- The names of the fields. -/
def fieldNames : List String :=
  ["type", "name", "filePath", "line", "endLine", "kind", "parent", "language", "preview", "score",
    "matchTypes", "breakdown"]

/-- A hit read from JSON. -/
def ofJson? (j : Json) : Option (Hit Float) := do
  let r ← Record.ofJson? fieldNames j
  let what ← r.required "type" Named.ofJson?
  let name ← r.nullable "name" Json.str?
  let filePath ← r.required "filePath" Json.str?
  let line ← r.nullable "line" Json.line?
  let lastLine ← r.nullable "endLine" Json.line?
  let kind ← r.required "kind" Json.str?
  let parent ← r.nullable "parent" Json.str?
  let language ← r.nullable "language" Named.ofJson?
  let preview ← r.nullable "preview" Json.str?
  let score ← r.required "score" Json.real?
  let found ← r.required "matchTypes" (Json.list? Named.ofJson?)
  let breakdown ← r.nullable "breakdown" Signals.ofJson?
  pure ⟨what, name, filePath, line, lastLine, kind, parent, language, preview, score, found,
    breakdown⟩

end Hit

end CodeIndex
