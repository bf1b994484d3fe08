import CodeIndex.Search.Weights
import CodeIndex.Source.Chunk
import CodeIndex.Toml.Reader

/-!
Configuration.

* `Config` holds what can be set, with the standard value of each field as its default;
* `Config.ofToml` reads and checks a configuration file; a table may also be written as an array of
  its fields in order, and what is left out has its standard value;
* `Config.fault?` is the first thing that is wrong with a configuration.
-/
namespace CodeIndex

/-- How embeddings are obtained. -/
structure EmbeddingConfig where
  baseUrl : String := "http://localhost:11434"
  model : String := "nomic-embed-text"
  timeoutSecs : Nat := 30
  probeTimeoutSecs : Nat := 2
  /-- How many characters of a text are sent. -/
  maxChars : Nat := 8000

/-- How searches answer. -/
structure SearchConfig where
  weights : Weights Float := Weights.standard
  defaultLimit : Nat := 10

/-- A pattern of files that are components, and of which kind. -/
structure ComponentPattern where
  pattern : String
  kind : ComponentKind
deriving Repr, DecidableEq

theorem standardScanLines_lt : 2000 < Nat.pow 2 63 := by decide

/-- What is indexed, and how. -/
structure SyncConfig where
  patterns : List String :=
    ["src/**/*.ts", "src/**/*.tsx", "src/**/*.js", "src/**/*.jsx", "app/**/*.ts", "app/**/*.tsx",
      "components/**/*.tsx", "lib/**/*.ts", "hooks/**/*.ts", "utils/**/*.ts", "**/*.swift",
      "**/*.py"]
  componentPatterns : List ComponentPattern :=
    [⟨"src/components/**/*.tsx", .component⟩, ⟨"src/pages/**/*.tsx", .page⟩,
      ⟨"src/app/**/*.tsx", .page⟩, ⟨"components/**/*.tsx", .component⟩]
  excludeDirs : List String := ["node_modules", ".git", "__pycache__", "dist", "build"]
  /-- How many characters of a chunk are embedded. -/
  embedChars : Nat := 2000
  wholeFileChars : Nat := 4000
  scanLines : Nat := 2000
  /-- Whether files that are gone leave the index. -/
  pruneStaleFiles : Bool := true
  /-- Whole numbers in a configuration file are words of 64 bits with a sign. -/
  scanLines_lt : scanLines < Nat.pow 2 63 := by exact standardScanLines_lt
deriving Repr, DecidableEq

/-- The limits of cutting files into chunks. -/
def SyncConfig.chunkLimits (c : SyncConfig) : ChunkLimits := ⟨c.scanLines, c.wholeFileChars⟩

/-- A configuration. -/
structure Config where
  embedding : EmbeddingConfig := {}
  search : SearchConfig := {}
  sync : SyncConfig := {}

/-! ## What can be wrong -/

/-- What can be wrong with a configuration. -/
inductive ConfigFault where
  | weights (fault : WeightFault Float)
  /-- A number that has to be greater than zero. -/
  | zero (setting : String)

/-- What a fault is called. -/
def ConfigFault.message : ConfigFault → String
  | weights fault => fault.message
  | zero setting => setting ++ " must be > 0"

namespace Config

/-- The first thing that is wrong with a configuration. -/
def fault? (c : Config) : Option ConfigFault :=
  match c.search.weights.fault? with
  | some fault => some (.weights fault)
  | none =>
    if c.search.defaultLimit = 0 then some (.zero "search.default_limit")
    else if c.sync.scanLines = 0 then some (.zero "sync.block_scan_lines")
    else if c.embedding.maxChars = 0 then some (.zero "embedding.max_chars")
    else none

end Config

/-! ## Reading -/

namespace Toml

/-- A string. -/
def Value.string? : Value → Option String
  | .string s => some s
  | _ => none

/-- A truth value. -/
def Value.boolean? : Value → Option Bool
  | .boolean b => some b
  | _ => none

/-- A whole number not below zero. -/
def Value.natural? : Value → Option Nat
  | .integer n => if 0 ≤ n then some n.toNat else none
  | _ => none

/-- A number, whole or not. -/
def Value.number? : Value → Option Float
  | .integer n => some (Float.ofInt n)
  | .float x => some x
  | _ => none

/-- An array with its items read. -/
def Value.list? {α : Type} (read : Value → Option α) : Value → Option (List α)
  | .array items => items.mapM read
  | _ => none

/-- A thing by its name, also as the one key of a table over an empty table or array. -/
def Value.named? {α : Type} [Named α] : Value → Option α
  | .string name => Named.find? name
  | .table [(name, .table [])] => Named.find? name
  | .table [(name, .array [])] => Named.find? name
  | _ => none

/-- A record with the given field names; a date is one in which nothing is written. -/
def Value.record? (names : List String) : Value → Option (Record Value)
  | .table members => some ⟨true, members⟩
  | .array items => some ⟨false, names.zip items⟩
  | .datetime => some ⟨true, []⟩
  | _ => none

end Toml

open Toml

/-- Reads the section on embeddings. -/
def EmbeddingConfig.ofToml? (v : Value) : Option EmbeddingConfig := do
  let d : EmbeddingConfig := {}
  let r ← v.record? ["base_url", "model", "timeout_secs", "probe_timeout_secs", "max_chars"]
  let baseUrl ← r.defaulted "base_url" d.baseUrl Value.string?
  let model ← r.defaulted "model" d.model Value.string?
  let timeoutSecs ← r.defaulted "timeout_secs" d.timeoutSecs Value.natural?
  let probeTimeoutSecs ← r.defaulted "probe_timeout_secs" d.probeTimeoutSecs Value.natural?
  let maxChars ← r.defaulted "max_chars" d.maxChars Value.natural?
  pure ⟨baseUrl, model, timeoutSecs, probeTimeoutSecs, maxChars⟩

/-- Reads weights. -/
def Weights.ofToml? (v : Value) : Option (Weights Float) := do
  let r ← v.record? Signals.fieldNames
  let semantic ← r.defaulted "semantic" standard.semantic Value.number?
  let symbol ← r.defaulted "symbol" standard.symbol Value.number?
  let fulltext ← r.defaulted "fulltext" standard.fulltext Value.number?
  pure ⟨semantic, symbol, fulltext⟩

/-- Reads the section on searches. -/
def SearchConfig.ofToml? (v : Value) : Option SearchConfig := do
  let d : SearchConfig := {}
  let r ← v.record? ["weights", "default_limit"]
  let weights ← r.defaulted "weights" d.weights Weights.ofToml?
  let defaultLimit ← r.defaulted "default_limit" d.defaultLimit Value.natural?
  pure ⟨weights, defaultLimit⟩

/-- Reads a pattern of components. -/
def ComponentPattern.ofToml? (v : Value) : Option ComponentPattern := do
  let r ← v.record? ["pattern", "kind"]
  let pattern ← r.required "pattern" Value.string?
  let kind ← r.required "kind" Value.named?
  pure ⟨pattern, kind⟩

/-- Reads the section on indexing. -/
def SyncConfig.ofToml? (v : Value) : Option SyncConfig := do
  let d : SyncConfig := {}
  let r ← v.record? ["patterns", "component_patterns", "exclude_dirs", "embed_chars",
    "fallback_max_chars", "block_scan_lines", "prune_stale_files"]
  let patterns ← r.defaulted "patterns" d.patterns (Value.list? Value.string?)
  let componentPatterns ← r.defaulted "component_patterns" d.componentPatterns
    (Value.list? ComponentPattern.ofToml?)
  let excludeDirs ← r.defaulted "exclude_dirs" d.excludeDirs (Value.list? Value.string?)
  let embedChars ← r.defaulted "embed_chars" d.embedChars Value.natural?
  let wholeFileChars ← r.defaulted "fallback_max_chars" d.wholeFileChars Value.natural?
  let scanLines ← r.defaulted "block_scan_lines" d.scanLines Value.natural?
  let pruneStaleFiles ← r.defaulted "prune_stale_files" d.pruneStaleFiles Value.boolean?
  if h : scanLines < Nat.pow 2 63 then
    some ⟨patterns, componentPatterns, excludeDirs, embedChars, wholeFileChars, scanLines,
      pruneStaleFiles, h⟩
  else none

namespace Config

/-- Reads a configuration, unchecked. -/
def ofValue? (v : Value) : Option Config := do
  let r ← v.record? ["embedding", "search", "sync"]
  let embedding ← r.defaulted "embedding" {} EmbeddingConfig.ofToml?
  let search ← r.defaulted "search" {} SearchConfig.ofToml?
  let sync ← r.defaulted "sync" {} SyncConfig.ofToml?
  pure ⟨embedding, search, sync⟩

/-- Why a configuration file is refused. -/
inductive Refusal where
  /-- The text is no TOML, or a setting has a value of another type. -/
  | malformed
  | faulty (fault : ConfigFault)

/-- Reads and checks a configuration file. -/
def ofToml (text : String) : Except Refusal Config :=
  match (Toml.parse? text).bind ofValue? with
  | none => .error .malformed
  | some c =>
    match c.fault? with
    | none => .ok c
    | some fault => .error (.faulty fault)

/-! ## Configurations in JSON -/

/-- A configuration in JSON. -/
def toJson (c : Config) : Json :=
  .obj [
    ("embedding", .obj [("base_url", .str c.embedding.baseUrl), ("model", .str c.embedding.model),
      ("timeout_secs", .nat c.embedding.timeoutSecs),
      ("probe_timeout_secs", .nat c.embedding.probeTimeoutSecs),
      ("max_chars", .nat c.embedding.maxChars)]),
    ("search", .obj [("weights", c.search.weights.toJson),
      ("default_limit", .nat c.search.defaultLimit)]),
    ("sync", .obj [("patterns", .arr (c.sync.patterns.map .str)),
      ("component_patterns", .arr (c.sync.componentPatterns.map fun p =>
        .obj [("pattern", .str p.pattern), ("kind", Named.toJson p.kind)])),
      ("exclude_dirs", .arr (c.sync.excludeDirs.map .str)),
      ("embed_chars", .nat c.sync.embedChars),
      ("fallback_max_chars", .nat c.sync.wholeFileChars),
      ("block_scan_lines", .nat c.sync.scanLines),
      ("prune_stale_files", .bool c.sync.pruneStaleFiles)])]

end Config

end CodeIndex
