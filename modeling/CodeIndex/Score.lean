import CodeIndex.Decimal

/-!
The numbers that scores and weights are.

Fusion and ranking ask little of a number, and `Score` is what they ask; so the same definitions run
on doubles and can be studied on exact numbers. Fractions are written as quotients of whole numbers,
which on doubles gives the double nearest to the fraction.
-/
namespace CodeIndex

/-- The arithmetic of scores. -/
class Score (α : Type) where
  ofNat : Nat → α
  add : α → α → α
  sub : α → α → α
  mul : α → α → α
  div : α → α → α
  /-- The natural logarithm. -/
  ln : α → α
  le : α → α → Bool
  /-- Whether a result with the first score may stand before one with the second. -/
  ranks : α → α → Bool
  isFinite : α → Bool

namespace Score

variable {α : Type} [Score α]

/-- Zero. -/
def zero : α := ofNat 0

/-- One. -/
def one : α := ofNat 1

/-- The quotient of two whole numbers. -/
def ratio (num den : Nat) : α := div (ofNat num) (ofNat den)

/-- The factor for `n` further signals: one and a tenth for each. -/
def boost (n : Nat) : α := add one (mul (ratio 1 10) (ofNat n))

/-- Whether a number can be a weight: it is finite and not negative. -/
def isWeight (x : α) : Bool := isFinite x && le zero x

/-- Whether a number is one, up to a millionth. -/
def nearOne (x : α) : Bool :=
  le (sub x one) (ratio 1 1000000) && le (sub one x) (ratio 1 1000000)

/-- Whether a number is greater than zero. -/
def isPositive (x : α) : Bool := le zero x && !le x zero

end Score

/-! ## Doubles in order -/

/-- Bits that stand for no number: all bits of the exponent are set, and not only these below the sign. -/
structure NanBits where
  bits : UInt64
  nan : Nat.pow 2 63 - Nat.pow 2 52 < bits.toNat % Nat.pow 2 63
deriving Repr, DecidableEq

/-- The bits with which the machine answers where numbers have no result, such as zero divided by zero. The
sign is set. -/
def NanBits.made : NanBits := ⟨0xfff8000000000000, by decide⟩

/-- The bits of a double. Doubles do not say which bits they have if they are no number: then these are the
given ones. -/
def NanBits.ofFloat (nan : NanBits) (x : Float) : UInt64 := if x.isNaN then nan.bits else x.toBits

/-- The place of bits in the total order of doubles, in which `-0.0` comes before `0.0`. What is no number
comes after all numbers, or before them if its sign is set. -/
def totalKey (bits : UInt64) : Int :=
  if bits.toNat < Nat.pow 2 63 then bits.toNat
  else -1 - ((bits.toNat - Nat.pow 2 63 : Nat) : Int)

/-- The place of a double that has been computed from numbers. -/
def orderKey (x : Float) : Int := totalKey (NanBits.made.ofFloat x)

instance : Score Float where
  ofNat n := n.toFloat
  add := (· + ·)
  sub := (· - ·)
  mul := (· * ·)
  div := (· / ·)
  ln := Float.log
  le x y := x ≤ y
  ranks x y := orderKey y ≤ orderKey x
  isFinite := Float.isFinite

end CodeIndex
