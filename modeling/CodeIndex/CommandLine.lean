import CodeIndex.CommandLine.Arguments
import CodeIndex.CommandLine.Text
import CodeIndex.Repository

/-!
The command line.

A run of the command line takes a file tree and arguments; it leaves a tree, prints a text, and ends
with a code: zero if all went well, two if the arguments are not valid, else one.

* `CommandLine.projectRoot` is the project that a run works on: the one that is named, else the work
  tree around the current directory, else that directory;
* `CommandLine.run` is the run.
-/
namespace CodeIndex.CommandLine

/-! ## The project -/

/-- The root of the project. -/
def projectRoot (t : FileTree) (cwd : Place) : Option String → Except Failure Place
  | some path => Workspace.rootAt t cwd path
  | none =>
    match Repository.workTree? t cwd with
    | none => .ok cwd
    | some (.ok p) => .ok p
    | some (.error fault) => .error (.io fault)

/-! ## Runs -/

/-- What surrounds a run. -/
structure Surroundings where
  /-- The current directory. -/
  cwd : Place
  transport : Ollama.Transport
  enumeration : Enumeration
  nan : NanRule
  /-- The time, as it is recorded. -/
  now : String
  /-- The size of the index in bytes. -/
  size : Nat
  /-- Whether colours are used where nothing is said. -/
  terminal : Bool

/-- What a run leaves. -/
structure Outcome where
  code : Nat
  printed : String
  /-- What is said of a failure. -/
  complaint : Option String
  tree : FileTree

/-- A run that went well. -/
def Outcome.done (t : FileTree) (printed : String) : Outcome := ⟨0, printed, none, t⟩

/-- A run that failed. -/
def Outcome.failed (t : FileTree) (failure : Failure) : Outcome := ⟨1, "", some failure.message, t⟩

/-- Whether colours are used. -/
def usesColor (s : Surroundings) : ColorChoice → Bool
  | .always => true
  | .never => false
  | .auto => s.terminal

/-- A text for people or a value in JSON. -/
def formatted (format : OutputFormat) (text : String) (json : Json) : String :=
  match format with
  | .text => text
  | .json => line json.indented

/-- Puts the template of a configuration file in the root of a project, unless something is there; and
gives its path. -/
def writeTemplate (t : FileTree) (root : Place) : Except Failure (Option String × FileTree) :=
  let p := root ++ [configFile]
  if (t.get? p).isSome then .ok (none, t)
  else
    match t.write p (.ofText configTemplate) with
    | .ok t => .ok (some (placeText p), t)
    | .error fault => .error (.io fault)

/-- Makes a project ready: a configuration file, unless one is named, and an index. -/
def runInit (s : Surroundings) (i : Invocation) (t : FileTree) : Outcome :=
  match projectRoot t s.cwd i.project with
  | .error failure => .failed t failure
  | .ok root =>
    match if i.config.isSome then .ok (none, t) else writeTemplate t root with
    | .error failure => .failed t failure
    | .ok (created, t) =>
      match Workspace.atRoot t s.cwd root i.config with
      | .error failure => .failed t failure
      | .ok w =>
        match w.init t with
        | .error failure => .failed t failure
        | .ok (index, t) =>
          .done t <| formatted i.format
            (line (created.elim "Keeping existing configuration" ("Created " ++ ·)) ++
              line ("Initialized index at " ++ index))
            (.obj [("projectPath", .str w.key), ("config", .ofText? created),
              ("dbPath", .str index)])

/-- Indexes a project. -/
def runSync (s : Surroundings) (i : Invocation) (w : Workspace) (embeddings : Bool) (t : FileTree) :
    Outcome :=
  let r := w.sync t (w.standardProvider s.transport) embeddings s.now
  match r.outcome with
  | .error failure => .failed r.tree failure
  | .ok stats => .done r.tree (formatted i.format (statsText stats) stats.toJson)

/-- Searches a project. -/
def runFind (s : Surroundings) (i : Invocation) (w : Workspace) (kind : SearchKind) (query : String)
    (limit : Option Nat) (t : FileTree) : Outcome :=
  let p := w.standardProvider s.transport
  match (ToolServer.find s.enumeration s.nan w t p kind ⟨query, none, limit⟩).1 with
  | .error failure => .failed t failure
  | .ok hs => .done t (formatted i.format (hitsText (kind == .hybrid) hs) (hitsJson query hs))

/-- Reports on a project. -/
def runStatus (s : Surroundings) (i : Invocation) (w : Workspace) (t : FileTree) : Outcome :=
  match w.report t (w.standardProvider s.transport) with
  | .error failure => .failed t failure
  | .ok r =>
    .done t (formatted i.format (reportText (usesColor s i.color) s.size r) (r.toJson s.size))

/-- Runs a command in a workspace. -/
def runIn (s : Surroundings) (i : Invocation) (t : FileTree) (action : Workspace → Outcome) :
    Outcome :=
  match projectRoot t s.cwd i.project >>= fun root => Workspace.atRoot t s.cwd root i.config with
  | .error failure => .failed t failure
  | .ok w => action w

/-- Runs what the arguments ask for. The server of tools is not run from here, as nothing is connected
to it. -/
def runInvocation (s : Surroundings) (i : Invocation) (t : FileTree) : Outcome :=
  match i.command with
  | none => .done t (welcome (usesColor s i.color))
  | some .init => runInit s i t
  | some (.sync embeddings) => runIn s i t fun w => runSync s i w embeddings t
  | some (.find kind query limit) => runIn s i t fun w => runFind s i w kind query limit t
  | some .status => runIn s i t fun w => runStatus s i w t
  | some .serve => ⟨1, "", some "MCP server failed to start: connection closed", t⟩

/-- Runs the command line. -/
def run (s : Surroundings) (args : List String) (t : FileTree) : Outcome :=
  match Arguments.read args with
  | .run i => runInvocation s i t
  | .version => .done t (line (programName ++ " " ++ programVersion))
  | .help => .done t (welcome false)
  | .invalid => ⟨2, "", some "invalid arguments", t⟩

end CodeIndex.CommandLine
