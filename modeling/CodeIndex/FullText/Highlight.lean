import CodeIndex.FullText.Index
import CodeIndex.Text.Blank
import CodeIndex.Text.Occurrence

/-!
Marked excerpts of full-text hits.

* `marked` puts `>>>` before and `<<<` after stretches of a text;
* `stretches` are those of the occurrences of phrases, from the first character of the first term to
  the last one of the last; occurrences that share a term make one stretch;
* `excerpt` is a window on a marked text that starts a little before the first mark.
-/
namespace CodeIndex.FullText

open Text

/-- A stretch of characters, from `start` up to but not including `stop`. -/
structure Stretch where
  start : Nat
  stop : Nat
deriving Repr, DecidableEq

/-- The mark before a stretch. -/
def openMark : List Char := ['>', '>', '>']

/-- The mark after a stretch. -/
def closeMark : List Char := ['<', '<', '<']

/-- The rest of a text from character `position` on, with the stretches, which are in order and apart,
between marks. Each piece ends before its first character of code zero. -/
def markedFrom (position : Nat) (s : List Char) : List Stretch → List Char
  | [] => untilNul s
  | span :: spans =>
    untilNul (s.take (span.start - position)) ++ openMark ++
      untilNul ((s.drop (span.start - position)).take (span.stop - span.start)) ++ closeMark ++
      markedFrom span.stop (s.drop (span.stop - position)) spans

/-- A text with stretches between marks. -/
def marked (spans : List Stretch) (s : List Char) : List Char := markedFrom 0 s spans

/-! ## Stretches of occurrences -/

/-- The run that `run` becomes with all the runs that follow it in order of their first terms, and the
runs that are apart from it: runs that share a term are made one. -/
def mergeRunsFrom (run : Nat × Nat) : List (Nat × Nat) → List (Nat × Nat)
  | [] => [run]
  | next :: rest =>
    if next.1 ≤ run.2 then mergeRunsFrom (run.1, max run.2 next.2) rest
    else run :: mergeRunsFrom next rest

/-- Runs of terms in order of their first terms, with those that share a term made one. -/
def mergeRuns : List (Nat × Nat) → List (Nat × Nat)
  | [] => []
  | run :: rest => mergeRunsFrom run rest

/-- The runs of terms in which phrases occur, by first term. -/
def occurrenceRuns (phrases : List Phrase) (column : List (List Char)) : List (Nat × Nat) :=
  (phrases.flatMap fun phrase =>
    (occurrences phrase column).map fun first => (first, first + phrase.length - 1)).mergeSort
      fun a b => a.1 ≤ b.1

/-- The stretches of a text in which phrases occur. -/
def stretches (phrases : List Phrase) (s : List Char) : List Stretch :=
  let spans := termSpans s
  (mergeRuns (occurrenceRuns phrases (spans.map (·.text)))).filterMap fun (first, last) =>
    match spans[first]?, spans[last]? with
    | some a, some b => some ⟨a.start, b.stop⟩
    | _, _ => none

/-! ## Excerpts -/

/-- How many characters before the first mark an excerpt starts. -/
def excerptLead : Nat := 40

/-- Up to `count` characters of a marked text from a little before the first mark, without blanks at
the ends. -/
def excerpt (s : List Char) (count : Nat) : List Char :=
  trim ((s.drop ((indexOf? openMark s).getD 0 - excerptLead)).take count)

end CodeIndex.FullText
