import CodeIndex.Embedding.Provider

/-!
Embedding during a run of indexing.

The provider is asked whether it is there once, at the start. It is asked for vectors until it says
that it is gone; a text that it has no vector for stays without one.
-/
namespace CodeIndex

/-- A provider, if there is one, and whether it is still asked. -/
structure Embedder where
  provider : Option Provider
  active : Bool

namespace Embedder

/-- The state at the start of a run. -/
def start (provider : Option Provider) : Embedder := ⟨provider, provider.any (·.available)⟩

/-- The embedding of a text, if the provider is still asked and gives one. -/
def embed (e : Embedder) (text : String) : Option Embedding × Embedder :=
  match e.active, e.provider with
  | true, some p =>
    match p.ask text with
    | (.ok vector, p') => (some ⟨vector, p.model⟩, ⟨some p', true⟩)
    | (.error (.unusable _), p') => (none, ⟨some p', true⟩)
    | (.error (.unavailable _), p') => (none, ⟨some p', false⟩)
  | _, _ => (none, e)

/-- The text that is embedded for a piece of source: its label and its first characters. -/
def labelled (label content : String) (chars : Nat) : String :=
  label ++ ": " ++ Chunk.truncate content chars

end Embedder

end CodeIndex
