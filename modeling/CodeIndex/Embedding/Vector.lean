/-!
Vectors of single-precision numbers.

A `Single` is a number of 32 bits, kept as its bits, so that storing it loses nothing.

* `Vector32.toBytes` and `Vector32.ofBytes` are the stored form: four bytes a number, the lowest first;
* `Vector32.cosine?` is the cosine of the angle between two vectors.
-/
namespace CodeIndex

/-- A number in single precision, by its bits. -/
structure Single where
  bits : UInt32
deriving Repr, DecidableEq

namespace Single

/-- The single-precision number nearest to a double. -/
def ofFloat (x : Float) : Single := ⟨x.toFloat32.toBits⟩

/-- The bits of a double below its sign, for a number with the given exponent and fraction. A number too
small for a leading one has its highest bit for it, which is worth `2 ^ (high - 149)`. -/
def widened (exponent fraction : Nat) : Nat :=
  if exponent == 255 then 2047 * Nat.pow 2 52 + fraction * Nat.pow 2 29
  else if exponent != 0 then (exponent + 896) * Nat.pow 2 52 + fraction * Nat.pow 2 29
  else if fraction == 0 then 0
  else
    let high := fraction.log2
    (high + 874) * Nat.pow 2 52 + (fraction - Nat.pow 2 high) * Nat.pow 2 (52 - high)

/-- A single-precision number as a double, which has the same value. -/
def toFloat (s : Single) : Float :=
  let n := s.bits.toNat
  Float.ofBits <| UInt64.ofNat <|
    n / Nat.pow 2 31 * Nat.pow 2 63 + widened (n / Nat.pow 2 23 % Nat.pow 2 8) (n % Nat.pow 2 23)

/-- The bytes of a number, the lowest first. -/
def toBytes (s : Single) : List UInt8 :=
  [s.bits.toUInt8, (s.bits >>> 8).toUInt8, (s.bits >>> 16).toUInt8, (s.bits >>> 24).toUInt8]

/-- The number with the given bytes, the lowest first. -/
def ofBytes (a b c d : UInt8) : Single :=
  ⟨a.toUInt32 ||| (b.toUInt32 <<< 8) ||| (c.toUInt32 <<< 16) ||| (d.toUInt32 <<< 24)⟩

end Single

/-- A vector. -/
abbrev Vector32 := List Single

namespace Vector32

/-- The bytes of the numbers of a vector. -/
def toBytes (v : Vector32) : List UInt8 := v.flatMap Single.toBytes

/-- The numbers that whole groups of four bytes stand for. -/
def ofBytes : List UInt8 → Vector32
  | a :: b :: c :: d :: rest => Single.ofBytes a b c d :: ofBytes rest
  | _ => []

/-- The sums that the cosine of two vectors is made of: the products of the numbers at one place, and
the squares of each vector's. -/
structure Sums where
  dot : Float
  left : Float
  right : Float

/-- The sums after one more place. -/
def Sums.step (s : Sums) (pair : Single × Single) : Sums :=
  let x := pair.1.toFloat
  let y := pair.2.toFloat
  ⟨s.dot + x * y, s.left + x * x, s.right + y * y⟩

/-- The cosine of the angle between two vectors of one positive length, unless one of them is
zero. -/
def cosine? (a b : Vector32) : Option Float :=
  if a.length != b.length || a.isEmpty then none
  else
    let s := (a.zip b).foldl Sums.step ⟨0.0, 0.0, 0.0⟩
    let size := s.left.sqrt * s.right.sqrt
    if size == 0.0 then none else some (s.dot / size)

end Vector32

/-- A vector with the name of the model that made it. -/
structure Embedding where
  vector : Vector32
  model : String
deriving Repr, DecidableEq

end CodeIndex
