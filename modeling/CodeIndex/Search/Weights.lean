import CodeIndex.Search.Hit

/-!
Weights of the signals.

* `Weights.fault?` says what is wrong with weights: one that is no weight, or a sum that is not one;
* `Weights.total` is the weighted score of a result, raised for every further signal that it has
  evidence for.
-/
namespace CodeIndex

/-- How much each signal counts. -/
structure Weights (α : Type) where
  semantic : α
  symbol : α
  fulltext : α
deriving Repr, DecidableEq

/-- What can be wrong with weights. -/
inductive WeightFault (α : Type) where
  | notAWeight (signal : Signal) (value : α)
  | sumNotOne (sum : α)
deriving Repr, DecidableEq

/-- What a fault is called. -/
def WeightFault.message : WeightFault Float → String
  | notAWeight signal value =>
    "search weight \x60" ++ signal.name ++ "\x60 must be a non-negative number, got " ++ plainText value
  | sumNotOne sum => "search weights must sum to 1.0, got " ++ plainText sum

namespace Weights

variable {α : Type} [Score α]

/-- The sum of the weights, from left to right. -/
def sum (w : Weights α) : α := Score.add (Score.add w.semantic w.symbol) w.fulltext

/-- The first thing that is wrong with the weights. -/
def fault? (w : Weights α) : Option (WeightFault α) :=
  if !Score.isWeight w.semantic then some (.notAWeight .semantic w.semantic)
  else if !Score.isWeight w.symbol then some (.notAWeight .symbol w.symbol)
  else if !Score.isWeight w.fulltext then some (.notAWeight .fulltext w.fulltext)
  else if !Score.nearOne w.sum then some (.sumNotOne w.sum)
  else none

/-- The weighted sum of the scores. -/
def base (w : Weights α) (s : Signals α) : α :=
  Score.add (Score.add (Score.mul w.semantic s.semantic) (Score.mul w.symbol s.symbol))
    (Score.mul w.fulltext s.fulltext)

/-- The score of a result: the weighted sum, with a factor where several signals matched. -/
def total (w : Weights α) (s : Signals α) : α :=
  if 1 < s.matched then Score.mul (w.base s) (Score.boost (s.matched - 1)) else w.base s

/-- The weights used where none are given. -/
def standard : Weights Float := ⟨0.4, 0.35, 0.25⟩

/-- Weights in JSON. -/
def toJson (w : Weights Float) : Json :=
  .obj [("semantic", .real w.semantic), ("symbol", .real w.symbol), ("fulltext", .real w.fulltext)]

/-- Weights read from JSON; one that is left out has its standard value. -/
def ofJson? (j : Json) : Option (Weights Float) := do
  let r ← Record.ofJson? Signals.fieldNames j
  let semantic ← r.defaulted "semantic" standard.semantic Json.real?
  let symbol ← r.defaulted "symbol" standard.symbol Json.real?
  let fulltext ← r.defaulted "fulltext" standard.fulltext Json.real?
  pure ⟨semantic, symbol, fulltext⟩

end Weights

end CodeIndex
