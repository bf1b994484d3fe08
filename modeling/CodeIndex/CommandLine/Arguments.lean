import CodeIndex.Output
import CodeIndex.Tools

/-!
The arguments of the command line.

Options may stand before the command and after it; what is said after it counts. A value may follow its
option as the next argument or after an equals sign, and after `--` nothing is an option.

* `Invocation` is what the arguments ask for;
* `Arguments.read` reads them, and says whether they ask for something else or are not valid.
-/
namespace CodeIndex

/-- When colours are used. -/
inductive ColorChoice where
  | auto
  | always
  | never
deriving Repr, DecidableEq

namespace ColorChoice

/-- The name of a choice. -/
def name : ColorChoice → String
  | auto => "auto"
  | always => "always"
  | never => "never"

instance : Named ColorChoice where
  what := "color choice"
  all := [auto, always, never]
  name := name

end ColorChoice

/-- The commands. -/
inductive Command where
  | init
  | sync (embeddings : Bool)
  | find (kind : SearchKind) (query : String) (limit : Option Nat)
  | status
  | serve
deriving Repr, DecidableEq

/-- What the arguments ask for. -/
structure Invocation where
  command : Option Command
  config : Option String
  project : Option String
  format : OutputFormat
  verbose : Bool
  color : ColorChoice
deriving Repr, DecidableEq

namespace Arguments

/-- What reading the arguments gives. -/
inductive Reading where
  | run (i : Invocation)
  | version
  | help
  | invalid
deriving Repr, DecidableEq

/-! ## Options -/

/-- The options. -/
inductive OptionName where
  | config
  | project
  | format
  | color
  | limit
  | verbose
  | embeddings
  | help
  | version
deriving Repr, DecidableEq

/-- Whether an option is followed by a value. -/
def OptionName.takesValue : OptionName → Bool
  | config | project | format | color | limit => true
  | verbose | embeddings | help | version => false

/-- Where options stand: before the command or after one. -/
inductive Level where
  | top
  | plain
  | syncing
  | finding
deriving Repr, DecidableEq

/-- The option with a long name at a level. -/
def long? (level : Level) (name : String) : Option OptionName :=
  if name == "config" then some .config
  else if name == "project" then some .project
  else if name == "format" then some .format
  else if name == "color" then some .color
  else if name == "verbose" then some .verbose
  else if name == "help" then some .help
  else if name == "version" && level == .top then some .version
  else if name == "limit" && level == .finding then some .limit
  else if name == "embeddings" && level == .syncing then some .embeddings
  else none

/-- The option with a short name at a level. -/
def short? (level : Level) (c : Char) : Option OptionName :=
  if c == 'v' then some .verbose
  else if c == 'h' then some .help
  else if c == 'V' && level == .top then some .version
  else if c == 'n' && level == .finding then some .limit
  else none

/-- The options and the query that have been given at a level. -/
structure Given where
  config : Option String := none
  project : Option String := none
  format : Option OutputFormat := none
  color : Option ColorChoice := none
  limit : Option Nat := none
  verbose : Bool := false
  embeddings : Bool := false
  query : Option String := none
deriving Repr, DecidableEq

/-- A path, which is not empty. -/
def path? (s : String) : Option String := if s.isEmpty then none else some s

/-- A number of results: digits, with a plus sign or without, below two to the sixty-fourth. -/
def count? (s : String) : Option Nat :=
  let digits := match s.toList with
    | '+' :: ds => ds
    | ds => ds
  if digits.isEmpty || !digits.all Char.isDigit then none
  else
    let n := digits.foldl (fun n c => 10 * n + (c.toNat - 48)) 0
    if n < Nat.pow 2 64 then some n else none

/-- A value that has not been given yet, if the text stands for one. -/
def once {α : Type} (given : Option α) (value : Option α) : Option (Option α) :=
  if given.isSome then none else value.map some

/-- What has been given, with an option and its value added. No option may be given twice, and a value
has to be right. -/
def Given.add (g : Given) (value : String) : OptionName → Option Given
  | .config => (once g.config (path? value)).map fun v => { g with config := v }
  | .project => (once g.project (path? value)).map fun v => { g with project := v }
  | .format =>
    (once g.format (OutputFormat.read value).toOption).map fun v => { g with format := v }
  | .color => (once g.color (Named.find? value)).map fun v => { g with color := v }
  | .limit => (once g.limit (count? value)).map fun v => { g with limit := v }
  | .verbose => if g.verbose then none else some { g with verbose := true }
  | .embeddings => if g.embeddings then none else some { g with embeddings := true }
  | .help | .version => none

/-! ## Commands -/

/-- A command by its name: the level of its options and what it makes of them. -/
structure CommandForm where
  level : Level
  command? : Given → Option Command

/-- The form of a search. -/
def findForm (kind : SearchKind) : CommandForm :=
  ⟨.finding, fun g => g.query.map fun query => .find kind query g.limit⟩

/-- The command with a name. -/
def commandForm? (name : String) : Option CommandForm :=
  if name == "init" then some ⟨.plain, fun _ => some .init⟩
  else if name == "sync" then some ⟨.syncing, fun g => some (.sync g.embeddings)⟩
  else if name == "search" then some (findForm .hybrid)
  else if name == "symbol" then some (findForm .symbol)
  else if name == "text" then some (findForm .text)
  else if name == "semantic" then some (findForm .semantic)
  else if name == "status" then some ⟨.plain, fun _ => some .status⟩
  else if name == "mcp" then some ⟨.plain, fun _ => some .serve⟩
  else none

/-- Whether there is help on what the words name: on all, or on one command. -/
def helpExists : List String → Bool
  | [] => true
  | [name] => (commandForm? name).isSome || name == "help" || name == "completions"
  | _ => false

/-! ## Reading -/

/-- What one argument, and its value if it takes the next one, comes to. -/
inductive Piece where
  | option (name : OptionName) (value : String) (rest : List String)
  /-- Several options in one argument; the rest of it stands first in what follows. -/
  | word (s : String) (rest : List String)
  /-- The mark after which nothing is an option. -/
  | words (rest : List String)
  | invalid

/-- Whether an argument is an option when one may stand there. -/
def looksLikeOption (s : String) : Bool :=
  match s.toList with
  | '-' :: _ :: _ => true
  | _ => false

/-- An option with the value that follows it. -/
def withNext (name : OptionName) : List String → Piece
  | value :: rest => if looksLikeOption value then .invalid else .option name value rest
  | [] => .invalid

/-- The argument of a long option, without its two dashes. -/
def longPiece (level : Level) (text : List Char) (rest : List String) : Piece :=
  let name := String.ofList (text.takeWhile (· != '='))
  match long? level name, text.dropWhile (· != '=') with
  | none, _ => .invalid
  | some option, _ :: value =>
    if option.takesValue then .option option (String.ofList value) rest else .invalid
  | some option, [] => if option.takesValue then withNext option rest else .option option "" rest

/-- The argument of short options, without its dash. -/
def shortPiece (level : Level) (text : List Char) (rest : List String) : Piece :=
  match text with
  | [] => .invalid
  | c :: more =>
    match short? level c with
    | none => .invalid
    | some option =>
      if option.takesValue then
        match more with
        | [] => withNext option rest
        | '=' :: value => .option option (String.ofList value) rest
        | value => .option option (String.ofList value) rest
      else
        .option option "" (if more.isEmpty then rest else String.ofList ('-' :: more) :: rest)

/-- What the first of some arguments comes to. -/
def piece (level : Level) (first : String) (rest : List String) : Piece :=
  match first.toList with
  | ['-', '-'] => .words rest
  | '-' :: '-' :: text => longPiece level text rest
  | '-' :: c :: text => shortPiece level (c :: text) rest
  | _ => .word first rest

/-- What has been given, with words added: there is room for a query after some commands. -/
def addWords (level : Level) (g : Given) : List String → Option Given
  | [] => some g
  | s :: rest =>
    if level == .finding && g.query.isNone then addWords level { g with query := some s } rest
    else none

/-- How reading the arguments of a level ends. -/
inductive Ending where
  | given (g : Given)
  | command (g : Given) (form : CommandForm) (rest : List String)
  | version
  | help
  | invalid

/-- Reads the arguments of a level, up to a command at the top. Every step uses up characters, so that
`fuel`, if it is their number, does not run out. -/
def readLevel (fuel : Nat) (level : Level) (g : Given) (args : List String) : Ending :=
  match fuel, args with
  | 0, _ => .invalid
  | _, [] => .given g
  | fuel + 1, first :: rest =>
    match piece level first rest with
    | .invalid => .invalid
    | .option .help _ _ => .help
    | .option .version _ _ => .version
    | .option name value rest =>
      match g.add value name with
      | some g => readLevel fuel level g rest
      | none => .invalid
    | .words rest =>
      match addWords level g rest with
      | some g => .given g
      | none => .invalid
    | .word s rest =>
      if level == .top then
        match commandForm? s with
        | some form => .command g form rest
        | none => if s == "help" && helpExists rest then .help else .invalid
      else
        match addWords level g [s] with
        | some g => readLevel fuel level g rest
        | none => .invalid

/-- The number of steps that arguments can take. -/
def steps (args : List String) : Nat := (args.map fun s => s.length + 1).foldr (· + ·) 1

/-- What is asked for by what was given before the command and after it. -/
def invocation (command : Option Command) (before after : Given) : Invocation where
  command := command
  config := after.config.or before.config
  project := after.project.or before.project
  format := (after.format.or before.format).getD .text
  verbose := after.verbose || before.verbose
  color := (after.color.or before.color).getD .auto

/-- Reads arguments. -/
def read (args : List String) : Reading :=
  match readLevel (steps args) .top {} args with
  | .given g => .run (invocation none g {})
  | .version => .version
  | .help => .help
  | .invalid => .invalid
  | .command before form rest =>
    match readLevel (steps rest) form.level {} rest with
    | .given after =>
      match form.command? after with
      | some command => .run (invocation (some command) before after)
      | none => .invalid
    | .help => .help
    | _ => .invalid

end Arguments

end CodeIndex
