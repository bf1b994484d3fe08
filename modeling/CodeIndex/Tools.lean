import CodeIndex.Workspace

/-!
The tools that a project is offered by to assistants: searches, a report and indexing.

A tool works on the project of the server or on a directory inside it.

* `ToolCall` is a tool with its arguments, and `ToolCall.ofJson?` reads them;
* `ToolServer.place` finds the directory that is asked for, which may not be outside the project;
* `ToolServer.run` runs a tool; its answer is a `ToolAnswer`, or a `ToolFault` with a message.
-/
namespace CodeIndex

/-! ## Tools and their arguments -/

/-- The tools. -/
inductive Tool where
  | hybridSearch
  | symbolSearch
  | textSearch
  | semanticSearch
  | indexStatus
  | syncProject
deriving Repr, DecidableEq

namespace Tool

/-- The name of a tool. -/
def name : Tool → String
  | hybridSearch => "hybrid_search"
  | symbolSearch => "symbol_search"
  | textSearch => "text_search"
  | semanticSearch => "semantic_search"
  | indexStatus => "index_status"
  | syncProject => "sync_project"

instance : Named Tool where
  what := "tool"
  all := [hybridSearch, symbolSearch, textSearch, semanticSearch, indexStatus, syncProject]
  name := name

end Tool

/-- The arguments of a search. -/
structure SearchArguments where
  query : String
  path : Option String
  limit : Option Nat
deriving Repr, DecidableEq

/-- The searches. -/
inductive SearchKind where
  | hybrid
  | symbol
  | text
  | semantic
deriving Repr, DecidableEq

/-- A tool with its arguments. -/
inductive ToolCall where
  | search (kind : SearchKind) (arguments : SearchArguments)
  | status (path : Option String)
  | sync (path : Option String) (embeddings : Bool)
deriving Repr, DecidableEq

/-- Reads the arguments of a search. -/
def SearchArguments.ofJson? (j : Json) : Option SearchArguments := do
  let r ← Record.ofJson? ["query", "path", "limit"] j
  let query ← r.required "query" Json.str?
  let path ← r.nullable "path" Json.str?
  let limit ← r.nullable "limit" Json.size?
  pure ⟨query, path, limit⟩

/-- Reads the arguments of a tool. -/
def ToolCall.ofJson? (tool : Tool) (j : Json) : Option ToolCall :=
  match tool with
  | .hybridSearch => (SearchArguments.ofJson? j).map (.search .hybrid)
  | .symbolSearch => (SearchArguments.ofJson? j).map (.search .symbol)
  | .textSearch => (SearchArguments.ofJson? j).map (.search .text)
  | .semanticSearch => (SearchArguments.ofJson? j).map (.search .semantic)
  | .indexStatus => do
    let r ← Record.ofJson? ["path"] j
    let path ← r.nullable "path" Json.str?
    pure (.status path)
  | .syncProject => do
    let r ← Record.ofJson? ["path", "embeddings"] j
    let path ← r.nullable "path" Json.str?
    let embeddings ← r.nullable "embeddings" Json.bool?
    pure (.sync path (embeddings.getD false))

/-- The path that a tool is asked to work on. -/
def ToolCall.path : ToolCall → Option String
  | search _ arguments => arguments.path
  | status path => path
  | sync path _ => path

/-! ## Answers -/

/-- Why a tool gives no answer. -/
inductive ToolFault where
  | noProject (path : String) (fault : FileFault)
  | noPath (path : String) (fault : FileFault)
  | outside (path root : String)
  | config (failure : Failure)
  | search (failure : Failure)
  | status (failure : Failure)
  | sync (failure : Failure)

/-- What is said when a tool gives no answer. -/
def ToolFault.message : ToolFault → String
  | noProject path fault =>
    "Failed to access configured project path " ++ path ++ ": " ++ fault.message
  | noPath path fault => "Failed to resolve path " ++ path ++ ": " ++ fault.message
  | outside path root => "Path " ++ path ++ " is outside the configured project " ++ root
  | config failure => "Failed to load configuration: " ++ failure.message
  | search (.embedding (.unavailable reason)) =>
    (Failure.embedding (.unavailable reason)).message ++
      ". Start Ollama and pull the embedding model, or use hybrid_search."
  | search failure => "Search failed: " ++ failure.message
  | status failure => "Failed to read index status: " ++ failure.message
  | sync failure => "Failed to index project: " ++ failure.message

/-- What a tool answers. -/
inductive ToolAnswer where
  | hits (query : String) (found : List (Hit Float))
  | report (r : StatusReport)
  | stats (s : SyncStats)

/-- Hits with their query and their number, in JSON. -/
def hitsJson (query : String) (found : List (Hit Float)) : Json :=
  .obj [("query", .str query), ("results", .arr (found.map Hit.toJson)),
    ("total", .nat found.length)]

/-- An answer in JSON; `size` is the size of the index in bytes. -/
def ToolAnswer.toJson (size : Nat) : ToolAnswer → Json
  | hits query found => hitsJson query found
  | report r => r.toJson size
  | stats s => s.toJson

/-! ## The server -/

/-- What a server is told: the path of its project, that of a configuration file, and a provider in
place of the one that the configuration names. -/
structure ToolServer where
  root : String
  configPath : Option String
  provider : Option Provider

/-- What a tool leaves. -/
structure ToolOutcome where
  answer : Except ToolFault ToolAnswer
  tree : FileTree
  server : ToolServer

namespace ToolServer

/-- The directory that a tool is to work on. Paths are seen from the directory `base`. -/
def place (server : ToolServer) (t : FileTree) (base : Place) (path : Option String) :
    Except ToolFault Place :=
  match t.resolve base server.root with
  | .error fault => .error (.noProject server.root fault)
  | .ok root =>
    match path with
    | none => .ok root
    | some path =>
      let asked := joinPath (placeText root) path
      match t.resolve root asked with
      | .error fault => .error (.noPath asked fault)
      | .ok p =>
        if root.isPrefixOf p then .ok p else .error (.outside (placeText p) (placeText root))

/-- The workspace that a tool is to work on. -/
def workspace (server : ToolServer) (t : FileTree) (base : Place) (path : Option String) :
    Except ToolFault Workspace := do
  let root ← server.place t base path
  (Workspace.atRoot t base root server.configPath).mapError .config

/-- The server after its provider, if it has one of its own, has been asked. -/
def withProvider (server : ToolServer) (p : Provider) : ToolServer :=
  { server with provider := server.provider.map fun _ => p }

/-- The hits of a search, and the provider after it has been asked. -/
def find (e : Enumeration) (nan : NanRule) (w : Workspace) (t : FileTree) (p : Provider)
    (kind : SearchKind) (a : SearchArguments) : Except Failure (List (Hit Float)) × Provider :=
  match kind with
  | .hybrid => w.hybridSearch t e nan p a.query a.limit
  | .symbol => (.ok (w.symbolSearch t e a.query a.limit), p)
  | .text => (.ok (w.textSearch t a.query a.limit), p)
  | .semantic => w.semanticSearch t nan p a.query a.limit

/-- Runs a tool. -/
def run (server : ToolServer) (e : Enumeration) (nan : NanRule) (transport : Ollama.Transport)
    (now : String) (t : FileTree) (base : Place) (call : ToolCall) : ToolOutcome :=
  match server.workspace t base call.path with
  | .error fault => ⟨.error fault, t, server⟩
  | .ok w =>
    let p := server.provider.getD (w.standardProvider transport)
    match call with
    | .search kind a =>
      let (found, p) := find e nan w t p kind a
      ⟨(found.mapError .search).map (.hits a.query), t, server.withProvider p⟩
    | .status _ => ⟨((w.report t p).mapError .status).map .report, t, server⟩
    | .sync _ embeddings =>
      let r := w.sync t p embeddings now
      ⟨(r.outcome.mapError .sync).map .stats, r.tree, server.withProvider r.provider⟩

end ToolServer

/-! ## What the server says of itself -/

/-- The name of the program. -/
def programName : String := "vibe-sync"

/-- The version of the program. -/
def programVersion : String := "0.3.0"

/-- How the tools are meant to be used. -/
def ToolServer.instructions : String :=
  "vibe-sync indexes a project into symbols, full-text and embeddings. " ++
  "Use these tools to find code:\n" ++
  "- hybrid_search: Best default; merges symbol, full-text and semantic matches\n" ++
  "- symbol_search: Find a declaration by name\n" ++
  "- text_search: Find words or identifiers anywhere in the code\n" ++
  "- semantic_search: Find code by meaning (needs Ollama embeddings)\n" ++
  "- index_status: Check what is indexed and which searches are available\n" ++
  "- sync_project: Re-index the project after changes"

/-- The server in JSON. -/
def ToolServer.info : Json :=
  .obj [("protocolVersion", .str "2024-11-05"),
    ("capabilities", .obj [("tools", .obj [])]),
    ("serverInfo", .obj [("name", .str programName), ("title", .str "vibe-sync Code Search"),
      ("version", .str programVersion),
      ("description", .str "Hybrid symbol, full-text and semantic code search")]),
    ("instructions", .str ToolServer.instructions)]

end CodeIndex
