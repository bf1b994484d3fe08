import CodeIndex.Project.Path
import CodeIndex.Source.Braces
import CodeIndex.Source.Declaration
import CodeIndex.Source.Indent
import CodeIndex.Text.Lines
import CodeIndex.Text.Lowercase

/-!
Chunks: the pieces that a source file is indexed by.

* `Chunk.ofFile` cuts a file at its declarations, by braces or by indentation as its language has it;
  a file in no known language is one chunk;
* `Chunk.ofFile?` is the same with the limits that are too great for it, at which the program stops;
* `Chunk.ofSpan` is the chunk of a span of lines.
-/
namespace CodeIndex

open Text

/-- A piece of a source file. Its lines are counted from one, and both ends belong to it. -/
structure Chunk where
  filePath : String
  /-- The position among the chunks of the file. -/
  index : Nat
  content : String
  language : Language
  kind : ChunkKind
  name : Option String
  /-- The class that a method belongs to. -/
  parent : Option String
  firstLine : Nat
  lastLine : Nat
  /-- The names that the chunk declares, each once, in the order of the rules. -/
  symbols : List String
deriving Repr, DecidableEq

/-- The limits of cutting a file into chunks. -/
structure ChunkLimits where
  /-- How many lines are looked through for a closing brace. -/
  scanLines : Nat
  /-- How many characters are kept of a file that is one chunk. -/
  wholeFileChars : Nat
deriving Repr, DecidableEq

namespace Chunk

/-- How many lines a chunk goes over. -/
def lineCount (c : Chunk) : Nat := c.lastLine - c.firstLine + 1

/-- The first characters of a string, as many as `count`. -/
def truncate (s : String) (count : Nat) : String := String.ofList (s.toList.take count)

/-- The chunk of a span of lines. The lines of a chunk are counted in words of 32 bits, so that this is
meant for texts of less than 2^32 lines. -/
def ofSpan (path : String) (language : Language) (patterns : List Pattern)
    (ls : List (List Char)) (s : Span) : Chunk :=
  let content := joinLines (lineRange ls s.first s.last)
  { filePath := path, index := 0, content := String.ofList content, language := language,
    kind := s.kind, name := some s.name, parent := s.parent, firstLine := s.first + 1,
    lastLine := s.last + 1, symbols := Declaration.declaredNames patterns content }

/-! ## Cutting by braces -/

/-- The spans that a rule finds, one for each match that gives a name. -/
def braceSpans (ls : List (List Char)) (starts : List Nat) (scanLines : Nat) (content : List Char)
    (rule : Declaration.Rule) : List Span :=
  (rule.pattern.findAll content).filterMap fun found =>
    match Declaration.foundName found with
    | none => none
    | some name =>
      let first := lineOf starts found.offset
      if ls.length ≤ first then none
      else some ⟨rule.kind, name, first, blockEnd ls first scanLines, none⟩

/-- The spans that rules find, rule by rule. -/
def braceCandidates (rules : List Declaration.Rule) (scanLines : Nat) (content : List Char) : List Span :=
  rules.flatMap (braceSpans (lines content) (lineStarts content) scanLines content)

/-- The spans of a file in a language with braces that are kept. -/
def braceResolved (rules : List Declaration.Rule) (scanLines : Nat) (content : List Char) :
    List Span :=
  Span.resolve .everyBlock (braceCandidates rules scanLines content)

/-- The chunks of a file in a language with braces, where the ends of all blocks can be found. -/
def ofBraces (language : Language) (rules : List Declaration.Rule) (scanLines : Nat)
    (path : String) (content : List Char) : List Chunk :=
  (braceResolved rules scanLines content).map
    (ofSpan path language (rules.map (·.pattern)) (lines content))

/-- Whether the ends of all blocks can be found, as `blockEnd?` has it. -/
def allEnd (rules : List Declaration.Rule) (scanLines : Nat) (content : List Char) : Bool :=
  (braceCandidates rules scanLines content).all fun s =>
    (blockEnd? (lines content) s.first scanLines).isSome

/-- The chunks of a file in a language with braces, unless the program stops at one of the blocks. -/
def ofBraces? (language : Language) (rules : List Declaration.Rule) (scanLines : Nat)
    (path : String) (content : List Char) : Option (List Chunk) :=
  if allEnd rules scanLines content then some (ofBraces language rules scanLines path content)
  else none

/-! ## Cutting by indentation -/

/-- The line on which a match starts, if the text has that line, and the name it gives. -/
def headerLine? (ls : List (List Char)) (starts : List Nat) (found : Pattern.Found) :
    Option (Nat × String) :=
  let line := lineOf starts found.offset
  if ls.length ≤ line then none
  else found.name.map fun name => (line, String.ofList name)

/-- The spans of the classes of a file. -/
def classSpans (ls : List (List Char)) (starts : List Nat) (content : List Char) : List Span :=
  (Declaration.pythonClass.findAll content).filterMap fun found =>
    (headerLine? ls starts found).map fun (line, name) =>
      ⟨.classType, name, line, Indent.blockEnd ls line, none⟩

/-- The spans of the functions and methods of a file, decorators included. -/
def defSpans (ls : List (List Char)) (starts : List Nat) (classes : List Span)
    (content : List Char) : List Span :=
  (Declaration.pythonDef.findAll content).filterMap fun found =>
    (headerLine? ls starts found).map fun (line, name) =>
      let parent := Indent.enclosingClass ls line classes
      ⟨if parent.isSome then .method else .function, name, Indent.decoratorStart ls line,
        Indent.blockEnd ls line, parent⟩

/-- The spans of a file in a language with indentation that are kept. -/
def indentResolved (content : List Char) : List Span :=
  let ls := lines content
  let starts := lineStarts content
  let classes := classSpans ls starts content
  Span.resolve .classesOnly (classes ++ defSpans ls starts classes content)

/-- The chunks of a file in a language with indentation. -/
def ofIndent (path : String) (content : List Char) : List Chunk :=
  (indentResolved content).map (ofSpan path .python Declaration.pythonRules (lines content))

/-! ## Whole files -/

/-- The extension of a path in lower case, empty if it has none. -/
def extensionOf (path : String) : String := (Path.extension? path).elim "" lowerAscii

/-- The language of a file. -/
def languageOf (path : String) : Language := Language.ofExtension (extensionOf path)

/-- A whole file as one chunk. -/
def ofWhole (maxChars : Nat) (path content : String) : Chunk :=
  { filePath := path, index := 0, content := truncate content maxChars,
    language := languageOf path, kind := .file, name := some ((Path.stem? path).getD path),
    parent := none, firstLine := 1, lastLine := max 1 (lines content.toList).length,
    symbols := [] }

/-- Chunks with their positions as indices. -/
def numbered (cs : List Chunk) : List Chunk := cs.mapIdx fun i c => { c with index := i }

/-- The chunks of a file, where the ends of all blocks can be found. -/
def ofFile (limits : ChunkLimits) (path content : String) : List Chunk :=
  let key := Path.key path
  let chars := content.toList
  numbered <|
    match languageOf path with
    | .typescript => ofBraces .typescript Declaration.typescript limits.scanLines key chars
    | .javascript => ofBraces .javascript Declaration.typescript limits.scanLines key chars
    | .swift => ofBraces .swift Declaration.swift limits.scanLines key chars
    | .python => ofIndent key chars
    | .unknown => [ofWhole limits.wholeFileChars key content]

/-- The chunks of a file, unless the program stops at one of its blocks. -/
def ofFile? (limits : ChunkLimits) (path content : String) : Option (List Chunk) :=
  let chars := content.toList
  let ends :=
    match languageOf path with
    | .typescript | .javascript => allEnd Declaration.typescript limits.scanLines chars
    | .swift => allEnd Declaration.swift limits.scanLines chars
    | .python | .unknown => true
  if ends then some (ofFile limits path content) else none

/-! ## Chunks in JSON -/

/-- A chunk in JSON. -/
def toJson (c : Chunk) : Json :=
  .obj [("filePath", .str c.filePath), ("chunkIndex", .nat c.index), ("content", .str c.content),
    ("language", Named.toJson c.language), ("kind", Named.toJson c.kind),
    ("name", .ofText? c.name), ("parentName", .ofText? c.parent),
    ("startLine", .nat c.firstLine), ("endLine", .nat c.lastLine),
    ("symbols", .arr (c.symbols.map .str))]

end Chunk

end CodeIndex
