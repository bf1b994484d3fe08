import CodeIndex.Text.Lines
import CodeIndex.Tools

/-!
What the command line prints for people to read.

* `hitsText` are the hits of a search, `statsText` the counts of a run of indexing and `reportText` the
  report on a project;
* `welcome` is printed where no command is given, and `configTemplate` is the configuration file that a
  new project gets.
-/
namespace CodeIndex.CommandLine

/-- A line with its end. -/
def line (s : String) : String := s ++ "\n"

/-- A text in a colour, if colours are used. -/
def colored (color : Bool) (code s : String) : String :=
  if color then "\x1b[" ++ code ++ "m" ++ s ++ "\x1b[0m" else s

/-! ## Hits -/

/-- How many lines of a preview are printed. -/
def previewLines : Nat := 3

/-- Where a hit is. -/
def locationText (h : Hit Float) : String :=
  match h.line, h.lastLine with
  | some first, some last =>
    if last = first then h.filePath ++ ":" ++ toString first
    else h.filePath ++ ":" ++ toString first ++ "-" ++ toString last
  | some first, none => h.filePath ++ ":" ++ toString first
  | none, _ => h.filePath

/-- What a hit is called. -/
def nameText (h : Hit Float) : String :=
  match h.name, h.parent with
  | some name, some parent => parent ++ "." ++ name
  | some name, none => name
  | none, _ => ""

/-- A hit with its number. -/
def hitText (breakdown : Bool) (number : Nat) (h : Hit Float) : String :=
  line (toString number ++ ". " ++ locationText h ++ "  " ++ nameText h ++ " (" ++ h.kind ++
    ") score " ++ fixedText 3 h.score ++ " [" ++
    ", ".intercalate (h.matchKinds.map MatchKind.name) ++ "]") ++
  (match h.breakdown with
    | some s =>
      if breakdown then
        line ("   symbol " ++ fixedText 2 s.symbol ++ "  fulltext " ++ fixedText 2 s.fulltext ++
          "  semantic " ++ fixedText 2 s.semantic)
      else ""
    | none => "") ++
  String.join (((Text.lines (h.preview.getD "").toList).take previewLines).map fun l =>
    line ("   " ++ String.ofList l)) ++
  line ""

/-- The hits of a search. -/
def hitsText (breakdown : Bool) (hs : List (Hit Float)) : String :=
  if hs.isEmpty then line "No results found."
  else String.join (hs.mapIdx fun i h => hitText breakdown (i + 1) h)

/-! ## Counts -/

/-- The counts of a run of indexing. -/
def statsText (s : SyncStats) : String :=
  line ("Indexed " ++ toString s.files ++ " files: " ++ toString s.chunks ++ " chunks, " ++
    toString s.symbols ++ " symbols, " ++ toString s.components ++ " components, " ++
    toString s.embeddings ++ " embeddings") ++
  (if 0 < s.skippedFiles then
    line ("Skipped " ++ toString s.skippedFiles ++ " unreadable files") else "") ++
  (if 0 < s.prunedFiles then
    line ("Pruned " ++ toString s.prunedFiles ++ " stale files") else "")

/-! ## Reports -/

/-- The sign for yes or no. -/
def mark (color ok : Bool) : String :=
  if ok then colored color "32" "✓" else colored color "31" "✗"

/-- Counts by name. -/
def tallyText (counts : List (String × Nat)) : String :=
  ", ".intercalate (counts.map fun (name, count) => name ++ " " ++ toString count)

/-- The numbers of a project; `size` is the size of the index in bytes. -/
def statusText (size : Nat) (s : Status) : String :=
  line ("Schema:  " ++ s.version.getD "unknown" ++ " (" ++ toString size ++ " bytes)") ++
  line "" ++
  line ("  files       " ++ toString s.files) ++
  line ("  chunks      " ++ toString s.chunks ++ " (" ++ toString s.embeddedChunks ++
    " with embeddings)") ++
  line ("  symbols     " ++ toString s.symbols) ++
  line ("  components  " ++ toString s.components ++ " (" ++ toString s.embeddedComponents ++
    " with embeddings)") ++
  (if s.languages.isEmpty then "" else line ("  languages   " ++ tallyText s.languages)) ++
  (if s.symbolKinds.isEmpty then "" else line ("  kinds       " ++ tallyText s.symbolKinds)) ++
  match s.lastSync with
  | some e => line ("  last sync   " ++ e.time ++ " (" ++ e.kind ++ ")")
  | none => line "  last sync   never"

/-- The report on a project. -/
def reportText (color : Bool) (size : Nat) (r : StatusReport) : String :=
  line ("Project: " ++ r.projectPath) ++
  line ("Index:   " ++ r.indexPath) ++
  (match r.index with
    | none => line "\nNot initialized. Run \x60vibe-sync sync\x60 to build the index."
    | some s => statusText size s) ++
  line "" ++
  line (mark color r.initialized ++ " symbol search") ++
  line (mark color r.initialized ++ " full-text search") ++
  line (mark color r.canSearchByMeaning ++ " semantic search") ++
  line (mark color r.providerAvailable ++ " embedding provider (" ++ r.model ++ ")")

/-! ## Fixed texts -/

/-- The commands and what they do. -/
def commandList : List (String × String) := [
  ("init", "Create config and an empty index"),
  ("sync", "Re-index the project (--embeddings for Ollama vectors)"),
  ("search", "Hybrid symbol + full-text + semantic search"),
  ("symbol", "Find declarations by name"),
  ("text", "Full-text search with excerpts"),
  ("semantic", "Search by meaning"),
  ("status", "Index counts and available search modes"),
  ("mcp", "Start MCP server for IDE integration")]

/-- A text with blanks after it up to a width. -/
def padded (width : Nat) (s : String) : String :=
  s ++ String.ofList (List.replicate (width - s.length) ' ')

/-- What is printed where no command is given. -/
def welcome (color : Bool) : String :=
  line (colored color "1" programName ++ " v" ++ programVersion ++
    ": hybrid code search over a local index\n") ++
  line "Commands:" ++
  String.join (commandList.map fun (name, about) =>
    line ("  " ++ colored color "32" (padded 9 name) ++ " " ++ about)) ++
  line "\nRun 'vibe-sync <command> --help' for details."

/-- The configuration file of a new project. -/
def configTemplate : String := String.join [
  line "# vibe-sync configuration",
  line "# Every setting is optional; uncomment to override the default.",
  line "",
  line "[embedding]",
  line "# base_url = \"http://localhost:11434\"",
  line "# model = \"nomic-embed-text\"",
  line "# timeout_secs = 30",
  line "# probe_timeout_secs = 2",
  line "# max_chars = 8000",
  line "",
  line "[search]",
  line "# default_limit = 10",
  line "",
  line "# Must sum to 1.0",
  line "# [search.weights]",
  line "# semantic = 0.4",
  line "# symbol = 0.35",
  line "# fulltext = 0.25",
  line "",
  line "[sync]",
  line "# patterns = [\"src/**/*.ts\", \"src/**/*.tsx\", \"**/*.swift\", \"**/*.py\"]",
  line "# exclude_dirs = [\"node_modules\", \".git\", \"__pycache__\", \"dist\", \"build\"]",
  line "# embed_chars = 2000",
  line "# fallback_max_chars = 4000",
  line "# block_scan_lines = 2000",
  line "# prune_stale_files = true",
  line "",
  line "# [[sync.component_patterns]]",
  line "# pattern = \"src/components/**/*.tsx\"",
  line "# kind = \"component\""]

end CodeIndex.CommandLine
