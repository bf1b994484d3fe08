import CodeIndex.Embedding.Ollama
import CodeIndex.Search.Hybrid
import CodeIndex.Store.Status
import CodeIndex.Sync
import CodeIndex.Workspace.Content

/-!
Workspaces: a project in a file tree, with its configuration and with its index in a file of its own.

A `Workspace` knows its root and its configuration; the index is read from the tree for each action and
written back to it. A search without an index finds nothing.

* `Workspace.load` finds the root and reads the configuration;
* `Workspace.openStore` opens the index for writing and creates it where it is missing,
  `Workspace.openReadOnly` opens what is there;
* `Workspace.init`, `Workspace.sync`, the searches and `Workspace.report` are the actions.
-/
namespace CodeIndex

/-- A file tree whose files may hold indexes. -/
abbrev FileTree := Tree Content

/-- The name of the configuration file of a project. -/
def configFile : String := ".vibe-sync.toml"

/-- Where the index is, seen from the root of a project. -/
def indexFile : Place := [".claude", "memory", "vibe.db"]

/-- A project and its configuration. -/
structure Workspace where
  root : Place
  config : Config

/-! ## Configuration -/

/-- The text of the file that a path leads to. -/
def FileTree.textAt (t : FileTree) (base : Place) (path : String) : Except Failure String :=
  match t.fileAt base path with
  | .error fault => .error (.io fault)
  | .ok content =>
    match content.text? with
    | some text => .ok text
    | none => .error (.io .notText)

/-- Whether a path leads to a file. -/
def FileTree.hasFile (t : FileTree) (base : Place) (path : String) : Bool :=
  match t.lookup base path with
  | .ok p => t.isFile p
  | .error _ => false

/-- Reads the configuration file that a path leads to. -/
def Config.ofFile (t : FileTree) (base : Place) (path : String) : Except Failure Config := do
  let text ← FileTree.textAt t base path
  (Config.ofToml text).mapError .ofRefusal

/-- The configuration of the project at `root`: that of the given file, else that of the project's
own configuration file, else the standard one. A given path is seen from the directory `base`. -/
def Config.load (t : FileTree) (base root : Place) (path : Option String) : Except Failure Config :=
  match path with
  | some path =>
    if FileTree.hasFile t base path then Config.ofFile t base path else .error (.fileNotFound path)
  | none =>
    if t.isFile (root ++ [configFile]) then Config.ofFile t root configFile else .ok {}

namespace Workspace

/-- The workspace at a place. -/
def atRoot (t : FileTree) (base root : Place) (configPath : Option String) :
    Except Failure Workspace := do
  let config ← Config.load t base root configPath
  pure ⟨root, config⟩

/-- The directory that a path leads to, seen from the directory `base`. -/
def rootAt (t : FileTree) (base : Place) (path : String) : Except Failure Place :=
  match t.lookup base path with
  | .ok p => if t.isDir p then .ok p else .error (.fileNotFound path)
  | .error _ => .error (.fileNotFound path)

/-- The workspace of the project that a path leads to. Paths are seen from the directory `base`. -/
def load (t : FileTree) (base : Place) (project : String) (configPath : Option String) :
    Except Failure Workspace := do
  let root ← rootAt t base project
  atRoot t base root configPath

variable (w : Workspace) (t : FileTree)

/-- The key under which the index holds the project. -/
def key : String := placeText w.root

/-- The place of the index. -/
def indexPlace : Place := w.root ++ indexFile

/-- The path of the index. -/
def indexPath : String := placeText w.indexPlace

/-- The client of the server that the configuration names, as a provider. -/
def standardProvider (transport : Ollama.Transport) : Provider :=
  (Ollama.Client.ofConfig w.config.embedding).provider transport

/-- The limit of a search: the one asked for, or the configured one. -/
def limit (requested : Option Nat) : Nat :=
  (requested.filter (0 < ·)).getD w.config.search.defaultLimit

/-! ## The index -/

/-- The tree with a store as the index. -/
def keep (s : Store) : FileTree := t.set w.indexPlace (.file (.index s))

/-- The index that a file holds, opened for writing; an empty file becomes a new index. -/
def opened? : Content → Option Store
  | .index s => some (s.reopened false)
  | .bytes bs => if bs.isEmpty then some .created else none

/-- Opens the index for writing, and creates it if it is missing. -/
def openStore : Except Failure (Store × FileTree) :=
  match t.makeDirs w.indexPlace.dropLast with
  | .error fault => .error (.database .createDir (.cannotCreateDir fault))
  | .ok t =>
    match t.get? w.indexPlace with
    | some .dir => .error (.database .openDatabase (.cannotOpen w.indexPath))
    | none => .ok (.created, w.keep t .created)
    | some (.file content) =>
      match opened? content with
      | none => .error (.database .enableLog .notADatabase)
      | some s => .ok (s, w.keep t s)

/-- Opens the index for reading. -/
def openReadOnly : Except Failure Store :=
  match t.file? w.indexPlace with
  | none => .error (.notInitialized w.indexPath)
  | some (.index s) => .ok (s.reopened true)
  | some (.bytes bs) =>
    if bs.isEmpty then .error (.notInitialized w.indexPath)
    else .error (.database .inspectSchema .notADatabase)

/-- The index, if it can be read. -/
def store? : Option Store := (w.openReadOnly t).toOption

/-! ## Actions -/

/-- Creates the index, and gives its path. -/
def init : Except Failure (String × FileTree) := do
  let (_, t) ← w.openStore t
  pure (w.indexPath, t)

/-- What indexing the project leaves. -/
structure Synced where
  outcome : Except Failure SyncStats
  tree : FileTree
  provider : Provider

/-- Indexes the project. The provider is left alone unless embeddings are asked for. -/
def sync (p : Provider) (embeddings : Bool) (now : String) : Synced :=
  match w.openStore t with
  | .error failure => ⟨.error failure, t, p⟩
  | .ok (s, t) =>
    let r := Sync.run ⟨t, w.root, Content.text?⟩ w.config.sync w.key now
      (if embeddings then some p else none) s
    ⟨r.outcome, w.keep t r.store, r.provider.getD p⟩

/-- Finds symbols by name. -/
def symbolSearch (e : Enumeration) (query : String) (requested : Option Nat) : List (Hit Float) :=
  match w.store? t with
  | none => []
  | some s => s.symbolSearch e w.key query (w.limit requested)

/-- Finds words and fragments. -/
def textSearch (query : String) (requested : Option Nat) : List (Hit Float) :=
  match w.store? t with
  | none => []
  | some s => orNone (s.textSearch Float w.key query (w.limit requested))

/-- Finds code by meaning. -/
def semanticSearch (nan : NanRule) (p : Provider) (query : String) (requested : Option Nat) :
    Except Failure (List (Hit Float)) × Provider :=
  match w.store? t with
  | none => (.ok [], p)
  | some s => s.semanticSearch nan w.key p query (w.limit requested)

/-- Finds code by all signals. -/
def hybridSearch (e : Enumeration) (nan : NanRule) (p : Provider) (query : String)
    (requested : Option Nat) : Except Failure (List (Hit Float)) × Provider :=
  match w.store? t with
  | none => (.ok [], p)
  | some s => s.hybridSearch Float e nan w.key p w.config.search.weights query (w.limit requested)

end Workspace

/-! ## Reports -/

/-- What the index of a project holds and which searches can be made. -/
structure StatusReport where
  projectPath : String
  indexPath : String
  index : Option Status
  providerAvailable : Bool
  model : String

namespace StatusReport

/-- Whether there is an index. -/
def initialized (r : StatusReport) : Bool := r.index.isSome

/-- Whether searches by meaning can be made: the provider is there, and so are vectors. -/
def canSearchByMeaning (r : StatusReport) : Bool :=
  r.providerAvailable && r.index.any fun s => 0 < s.embeddedChunks + s.embeddedComponents

/-- The report in JSON; `size` is the size of the index in bytes. -/
def toJson (r : StatusReport) (size : Nat) : Json :=
  .objOf [("projectPath", some (.str r.projectPath)), ("dbPath", some (.str r.indexPath)),
    ("initialized", some (.bool r.initialized)), ("index", r.index.map (·.toJson size)),
    ("capabilities", some (.obj [("symbolSearch", .bool r.initialized),
      ("fulltextSearch", .bool r.initialized), ("semanticSearch", .bool r.canSearchByMeaning),
      ("providerAvailable", .bool r.providerAvailable), ("embeddingModel", .str r.model)]))]

end StatusReport

/-- The report on a project. -/
def Workspace.report (w : Workspace) (t : FileTree) (p : Provider) : Except Failure StatusReport :=
  match w.openReadOnly t with
  | .ok s => .ok ⟨w.key, w.indexPath, some (s.status w.key), p.available, p.model⟩
  | .error (.notInitialized _) => .ok ⟨w.key, w.indexPath, none, p.available, p.model⟩
  | .error failure => .error failure

end CodeIndex
