/-!
Sets of code points, written as the sorted list of the points where membership changes: a code point
is in the set exactly when an odd number of these edges is at most it.
-/
namespace CodeIndex.Text

/-- How many of the entries of the sorted array `edges` are at most `n`, when the entries before
`low` are and those from `high` on are not. -/
def countUpTo (edges : Array Nat) (n low high : Nat) : Nat :=
  if low < high then
    let mid := (low + high) / 2
    if edges.getD mid 0 ≤ n then countUpTo edges n (mid + 1) high
    else countUpTo edges n low mid
  else low
termination_by high - low

/-- A set of code points by its edges. -/
structure CodePoints where
  edges : Array Nat

/-- Whether a character is in the set. -/
def CodePoints.contains (s : CodePoints) (c : Char) : Bool :=
  countUpTo s.edges c.toNat 0 s.edges.size % 2 == 1

/-- A stretch of code points that share the distance to their image: every `stride`-th one from
`first` to `last` goes `up` and `down` by the given amounts. -/
structure Shift where
  first : Nat
  last : Nat
  stride : Nat
  up : Nat
  down : Nat

/-- Whether the stretch holds the code point. -/
def Shift.covers (s : Shift) (n : Nat) : Bool :=
  s.first ≤ n && n ≤ s.last && (n - s.first) % s.stride == 0

/-- The image of a code point under the first stretch that holds it; itself if none does. -/
def shiftWith (table : List Shift) (n : Nat) : Nat :=
  match table.find? (·.covers n) with
  | some s => n + s.up - s.down
  | none => n

end CodeIndex.Text
