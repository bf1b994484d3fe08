import CodeIndex.Embedding.Vector
import CodeIndex.Failure

/-!
Providers of embeddings.

A provider answers texts with vectors, and may answer the same text differently from one call to the
next. `Provider` is therefore an answer for each call, and it keeps the texts it has been asked for:
`Provider.ask` is one call, and the number of a call is one more than the calls before it.
-/
namespace CodeIndex

/-- What a provider answers to a text. -/
abbrev EmbeddingReply := Except EmbeddingFault Vector32

/-- A provider of embeddings and the calls it has had. -/
structure Provider where
  /-- The model that is recorded with its vectors. -/
  model : String
  /-- Whether it can serve requests. -/
  available : Bool
  /-- The answer to a text by the number of the call, from one on. -/
  answer : Nat → String → EmbeddingReply
  /-- The texts of the calls so far, the last one first. -/
  asked : List String

namespace Provider

/-- One call. -/
def ask (p : Provider) (text : String) : EmbeddingReply × Provider :=
  (p.answer (p.asked.length + 1) text, { p with asked := text :: p.asked })

/-- The texts of the calls, in order. -/
def texts (p : Provider) : List String := p.asked.reverse

/-- A vector, if a text holds a word. -/
structure Rule where
  word : String
  vector : Vector32

/-- A provider that answers by rules: the vector of the first rule whose word the text holds, else
the standard one. After `failAfter` calls it is gone. -/
def scripted (model : String) (available : Bool) (rules : List Rule) (standard : Option Vector32)
    (failAfter : Option Nat) : Provider where
  model := model
  available := available
  asked := []
  answer call text :=
    if failAfter.any (· < call) then .error (.unavailable "stub is down")
    else
      match rules.find? fun rule => Text.occurs rule.word.toList text.toList with
      | some rule => .ok rule.vector
      | none =>
        match standard with
        | some v => .ok v
        | none => .error (.unusable "no vector")

end Provider

end CodeIndex
