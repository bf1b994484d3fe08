import CodeIndex.Digest
import CodeIndex.Embedding.Embedder
import CodeIndex.Project
import CodeIndex.Store.Connection
import CodeIndex.Sync.Stats

/-!
Indexing a project.

A run replaces the chunks, symbols and components of a project by those of its files as they are. All
its changes of the index are statements in one transaction, and any of them may be refused: then the
transaction is rolled back.

* `Sync.Step` is a part of a run, `Sync.change` one statement of it and `Sync.transaction` what holds
  the statements together;
* `Sync.addFile` and `Sync.addComponent` are the two kinds of work;
* `Sync.run` is the whole run; its report also says which files were announced before they were read,
  and holds the provider with the calls it has had.
-/
namespace CodeIndex.Sync

/-! ## Steps -/

/-- A run under way. -/
structure Progress where
  link : Connection
  embedder : Embedder
  stats : SyncStats
  /-- The files that were announced, once it is settled which there are. -/
  announced : Option (List String)

/-- A part of a run. It may fail, and then leaves the run as far as it got. -/
abbrev Step := EStateM Failure Progress

/-- A statement on the index. What it has changed before it is refused stays changed. -/
def statement {α : Type} (f : Store → Except Failure α × Store) : Step α := fun p =>
  let (outcome, s) := f p.link.seen
  let p := { p with link := p.link.leave s }
  match outcome with
  | .ok a => .ok a p
  | .error failure => .error failure p

/-- A statement that changes the index as a whole or not at all, and answers. -/
def query {α : Type} (f : Store → Except Failure (α × Store)) : Step α :=
  statement fun s =>
    match f s with
    | .ok (a, s') => (.ok a, s')
    | .error failure => (.error failure, s)

/-- A statement that changes the index as a whole or not at all. -/
def change (f : Store → Except Failure Store) : Step Unit :=
  query fun s => (f s).map fun s' => ((), s')

/-- Asks for the embedding of a text. -/
def embed (text : String) : Step (Option Embedding) := fun p =>
  let (embedding, embedder) := p.embedder.embed text
  .ok embedding { p with embedder := embedder }

/-- Counts. -/
def count (f : SyncStats → SyncStats) : Step Unit := modify fun p => { p with stats := f p.stats }

/-- Settles which files there are; none has been announced yet. -/
def startAnnouncing : Step Unit := modify fun p => { p with announced := some [] }

/-- Announces a file. -/
def announce (relative : String) : Step Unit :=
  modify fun p => { p with announced := p.announced.map (· ++ [relative]) }

/-- Runs a step in a transaction: it is committed if the step succeeds and rolled back if it fails. -/
def transaction {α : Type} (body : Step α) : Step α := fun p =>
  match body { p with link := p.link.begun } with
  | .ok a p => .ok a { p with link := p.link.committed }
  | .error failure p => .error failure { p with link := p.link.rolledBack }

/-! ## Files and components -/

/-- The name by which a chunk is embedded. -/
def chunkLabel (c : Chunk) : String := c.name.getD c.filePath

/-- The number of embeddings there are: one or none. -/
def embeddingCount (embedding : Option Embedding) : Nat := if embedding.isSome then 1 else 0

/-- Adds a name that a chunk declares; `id` is the number of the chunk. -/
def addSymbol (project : String) (chunk : Chunk) (id : Nat) (name : String) : Step Unit := do
  change (·.insertSymbol project name chunk id)
  count fun n => { n with symbols := n.symbols + 1 }

/-- Adds a chunk and the names it declares. -/
def addChunk (c : SyncConfig) (project : String) (chunk : Chunk) : Step Unit := do
  let embedding ← embed (Embedder.labelled (chunkLabel chunk) chunk.content c.embedChars)
  count fun n => { n with embeddings := n.embeddings + embeddingCount embedding }
  let id ← query (·.insertChunk project chunk embedding)
  count fun n => { n with chunks := n.chunks + 1 }
  chunk.symbols.forM (addSymbol project chunk id)

/-- What is recorded of a file. -/
def fileRecord (relative text : String) : FileRecord :=
  ⟨relative, (Chunk.languageOf relative).name, text.utf8ByteSize,
    Digest.sha256 text.toUTF8.toList⟩

/-- Adds a file, given by its path and its text, if it can be read. The limits of a configuration can be
added to the numbers of the lines of any text in memory, so that cutting it into chunks never stops. -/
def addFile (c : SyncConfig) (project : String) (file : String × Option String) : Step Unit := do
  announce file.1
  match file.2 with
  | none => count fun n => { n with skippedFiles := n.skippedFiles + 1 }
  | some text =>
    change (·.upsertFile project (fileRecord file.1 text))
    count fun n => { n with files := n.files + 1 }
    (Chunk.ofFile c.chunkLimits file.1 text).forM (addChunk c project)

/-- The component in a file: it is named by the file. -/
def componentOf (relative : String) (kind : ComponentKind) : Component :=
  ⟨(Path.stem? relative).getD relative, kind, relative⟩

/-- Asks for the embedding of a component; a blank file and one that cannot be read are not
embedded. -/
def embedComponent (c : SyncConfig) (file : Component × Option String) : Step (Option Embedding) :=
  match file.2.filter fun text => !Text.allBlank text.toList with
  | some text => embed (Embedder.labelled file.1.name text c.embedChars)
  | none => pure none

/-- Adds a component. -/
def addComponent (c : SyncConfig) (project : String) (file : Component × Option String) :
    Step Unit := do
  let embedding ← embedComponent c file
  count fun n => { n with embeddings := n.embeddings + embeddingCount embedding }
  change (·.insertComponent project file.1 embedding)
  count fun n => { n with components := n.components + 1 }

/-! ## Runs -/

/-- What is to be indexed: files and components with their texts, if they can be read. -/
structure Work where
  files : List (String × Option String)
  components : List (Component × Option String)

/-- The paths of the files. -/
def Work.paths (w : Work) : List String := w.files.map (·.1)

/-- What there is to index in a project. -/
def work {β : Type} (project : Project β) (c : SyncConfig) : Except PatternRefusal Work := do
  let files ← project.files c
  let components ← project.components c
  pure ⟨files.map fun d => (d.relative, project.text? d),
    components.map fun (d, kind) => (componentOf d.relative kind, project.text? d)⟩

/-- The kind of the entry that a run leaves in the log. -/
def eventKind : String := "sync"

/-- Takes out the files that are gone, if the configuration says so. -/
def prune (c : SyncConfig) (project : String) (w : Work) : Step Unit := do
  if c.pruneStaleFiles then
    let pruned ← query (·.pruneFiles project w.paths)
    count fun n => { n with prunedFiles := pruned }

/-- Makes the full-text indexes new and leaves an entry in the log. -/
def finish (project now : String) : Step Unit := do
  statement (·.rebuildIndex)
  let p ← get
  change (·.recordEvent project now eventKind p.stats.toJson.compact)

/-- What is done in the transaction of a run. -/
def body (w : Work) (c : SyncConfig) (project now : String) : Step Unit := do
  statement (·.clearProject project)
  startAnnouncing
  w.files.forM (addFile c project)
  w.components.forM (addComponent c project)
  prune c project w
  finish project now

/-- What a run leaves. -/
structure Report where
  /-- The files that were announced; nothing if the run ended before the first could be. -/
  announced : Option (List String)
  outcome : Except Failure SyncStats
  store : Store
  provider : Option Provider

/-- The report on a run that has ended. -/
def Progress.report (p : Progress) (outcome : Except Failure SyncStats) : Report :=
  ⟨p.announced, outcome, p.link.stored, p.embedder.provider⟩

/-- The start of a run on an index. The provider is asked whether it is there. -/
def Progress.start (s : Store) (provider : Option Provider) : Progress :=
  ⟨.idle s, .start provider, .zero, none⟩

/-- Indexes what there is under the key `key`. -/
def runWork (w : Work) (c : SyncConfig) (key now : String) (provider : Option Provider) (s : Store) :
    Report :=
  match transaction (body w c key now) (.start s provider) with
  | .ok _ p => p.report (.ok p.stats)
  | .error failure p => p.report (.error failure)

/-- Indexes a project under the key `key`. -/
def run {β : Type} (project : Project β) (c : SyncConfig) (key now : String)
    (provider : Option Provider) (s : Store) : Report :=
  match work project c with
  | .error refusal => ⟨none, .error (.pattern refusal), s, provider⟩
  | .ok w => runWork w c key now provider s

end CodeIndex.Sync
