import CodeIndex.Project.Discovery

/-!
Failures: why an operation of the index gives no answer, and what is said then.

A failure of the database names the action that failed and the cause.
-/
namespace CodeIndex

/-- Why the database refuses. -/
inductive DatabaseFault where
  | readOnly
  | foreignKey
  | missingTable (name : String)
  | patternTooComplex
  | notADatabase
  | cannotOpen (path : String)
  | cannotCreateDir (fault : FileFault)
deriving Repr, DecidableEq

/-- What a fault of the database is called. -/
def DatabaseFault.message : DatabaseFault → String
  | readOnly => "attempt to write a readonly database"
  | foreignKey => "FOREIGN KEY constraint failed"
  | missingTable name => "no such table: " ++ name
  | patternTooComplex => "LIKE or GLOB pattern too complex"
  | notADatabase => "file is not a database"
  | cannotOpen path => "unable to open database file: " ++ path
  | cannotCreateDir fault => fault.message

/-- What the database was asked to do. -/
inductive DatabaseAction where
  | createDir
  | openDatabase
  | enableLog
  | createSchema
  | inspectSchema
  | getMetadata (key : String)
  | setMetadata (key : String)
  | clearSymbols
  | clearChunks
  | clearComponents
  | recordFile
  | pruneFile
  | insertChunk
  | insertSymbol
  | insertComponent
  | rebuildIndex
  | recordEvent
  | prepareSearch
  | readRow
deriving Repr, DecidableEq

/-- What is said when an action fails. -/
def DatabaseAction.message : DatabaseAction → String
  | createDir => "failed to create index directory"
  | openDatabase => "failed to open database"
  | enableLog => "failed to enable WAL"
  | createSchema => "failed to create schema"
  | inspectSchema => "failed to inspect schema"
  | getMetadata key => "failed to get metadata '" ++ key ++ "'"
  | setMetadata key => "failed to set metadata '" ++ key ++ "'"
  | clearSymbols => "failed to clear symbols"
  | clearChunks => "failed to clear code_chunks"
  | clearComponents => "failed to clear components"
  | recordFile => "failed to record file"
  | pruneFile => "failed to prune file"
  | insertChunk => "failed to insert chunk"
  | insertSymbol => "failed to insert symbol"
  | insertComponent => "failed to insert component"
  | rebuildIndex => "failed to rebuild full-text index"
  | recordEvent => "failed to record sync event"
  | prepareSearch => "failed to prepare FTS query"
  | readRow => "failed to read row"

/-- Why a provider gives no embedding. -/
inductive EmbeddingFault where
  /-- It cannot be reached, or refuses. -/
  | unavailable (reason : String)
  /-- Its answer is of no use. -/
  | unusable (reason : String)
deriving Repr, DecidableEq

/-- Why an operation gives no answer. -/
inductive Failure where
  | io (fault : FileFault)
  | config (fault : ConfigFault)
  | database (action : DatabaseAction) (fault : DatabaseFault)
  | notInitialized (path : String)
  | embedding (fault : EmbeddingFault)
  | pattern (refusal : PatternRefusal)
  | malformedToml
  | fileNotFound (path : String)

namespace Failure

/-- The kind of a failure. -/
def kind : Failure → String
  | io _ => "Io"
  | config _ => "Config"
  | database _ _ => "Database"
  | notInitialized _ => "SchemaNotInitialized"
  | embedding (.unavailable _) => "ProviderUnavailable"
  | embedding (.unusable _) => "Embedding"
  | pattern _ => "Pattern"
  | malformedToml => "Toml"
  | fileNotFound _ => "FileNotFound"

/-- What is said of a failure. -/
def message : Failure → String
  | io fault => "IO error: " ++ fault.message
  | config fault => "configuration error: " ++ fault.message
  | database action fault =>
    "database error: " ++ action.message ++ ": " ++ fault.message
  | notInitialized path =>
    "index not initialized at " ++ path ++ ": run \x60vibe-sync sync\x60 first"
  | embedding (.unavailable reason) => "embedding provider unavailable: " ++ reason
  | embedding (.unusable reason) => "embedding error: " ++ reason
  | pattern refusal => "invalid pattern: " ++ refusal.message
  | malformedToml => "TOML parse error"
  | fileNotFound path => "file not found: " ++ path

/-- The failure of refused weights. -/
def ofWeights (fault : WeightFault Float) : Failure := config (.weights fault)

/-- The failure of a refused configuration file. -/
def ofRefusal : Config.Refusal → Failure
  | .malformed => malformedToml
  | .faulty fault => config fault

end Failure

end CodeIndex
