import CodeIndex.Source.Language

/-!
Declared spans of lines, and which of them are kept where they overlap.

A `Span` is a declaration with the lines it goes over, counted from zero. `Span.resolve` orders the
spans of a file and drops those that start on a line that an earlier one has taken.
-/
namespace CodeIndex

/-- A declaration and its lines, from `first` to `last`, both included. -/
structure Span where
  kind : ChunkKind
  name : String
  first : Nat
  last : Nat
  parent : Option String
deriving Repr, DecidableEq

/-- Which spans take their lines. -/
inductive Coverage where
  /-- All do, and nothing else may start on a taken line. -/
  | everyBlock
  /-- Classes do, and only plain functions may not start on a taken line. -/
  | classesOnly
deriving Repr, DecidableEq

namespace Span

/-- The line a span ends on, counted from the one it starts on. -/
def extent (s : Span) : Nat := s.last - s.first

/-- Whether a span goes over a line. -/
def covers (s : Span) (line : Nat) : Bool := s.first ≤ line && line ≤ s.last

/-- Whether a span may stand before another: it starts on an earlier line, or on the same line and
ends no earlier. -/
def before (s t : Span) : Bool :=
  s.first < t.first || (s.first == t.first && t.extent ≤ s.extent)

/-- Whether a span is dropped when the line it starts on is taken. -/
def yields (coverage : Coverage) (s : Span) : Bool :=
  match coverage with
  | .everyBlock => true
  | .classesOnly => s.kind == .function

/-- Whether a span takes the lines it goes over. -/
def takes (coverage : Coverage) (s : Span) : Bool :=
  match coverage with
  | .everyBlock => true
  | .classesOnly => s.kind == .classType

/-- The spans that are kept, in order, when the lines of the spans in `earlier` are taken. -/
def keep (coverage : Coverage) (earlier : List Span) : List Span → List Span
  | [] => []
  | s :: rest =>
    if s.yields coverage && earlier.any (·.covers s.first) then keep coverage earlier rest
    else s :: keep coverage (if s.takes coverage then s :: earlier else earlier) rest

/-- The spans of a file that are kept: by first line, the longer first and then in the order given,
without those that start on a taken line. -/
def resolve (coverage : Coverage) (spans : List Span) : List Span :=
  keep coverage [] (spans.mergeSort before)

end Span

end CodeIndex
