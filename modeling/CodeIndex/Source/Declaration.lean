import CodeIndex.Source.Language
import CodeIndex.Text.Pattern

/-!
Declarations: what a line looks like that declares something, and the name it declares.

A `Declaration.Rule` is a kind of chunk with the pattern that recognises it. The order of the rules of
a language is their rank: of two rules that match on one line the earlier one says what is declared.

* `typescript`, `swift` and `pythonRules` are the rules of the languages;
* `declaredNames` are the names that a text declares under given patterns, rule by rule, each once.
-/
namespace CodeIndex.Declaration

open Text Text.Pattern

/-- A kind of chunk and the pattern of its declarations. -/
structure Rule where
  kind : ChunkKind
  pattern : Pattern
deriving Repr, DecidableEq

/-! ## Pieces of patterns -/

/-- A space or a tab. -/
def gap : CharClass := .oneOf [' ', '\t']

/-- Spaces and tabs, or none. -/
def gaps : Pattern := run gap

/-- At least one space or tab. -/
def gaps1 : Pattern := run1 gap

/-- A word. -/
def word : Pattern := run1 .word

/-- A word that is the declared name. -/
def name : Pattern := named word

/-- A word with a capital first letter that is the declared name. -/
def capitalName : Pattern := named (seq (one (.between 'A' 'Z')) (run .word))

/-- A keyword with the gap after it. -/
def keyword (s : String) : Pattern := seq (text s) gaps1

/-- A keyword with the gap after it, or nothing. -/
def keyword? (s : String) : Pattern := optional (keyword s)

/-- Any number of the given keywords, each with the gap after it. -/
def keywords (ss : List String) : Pattern := many (seq (any (ss.map text)) gaps1)

/-- Attributes such as `@available`, each with the gap after it. -/
def attributes : Pattern := many (all [text "@", word, gaps1])

/-- A type annotation up to an equals sign, or nothing. -/
def annotation? : Pattern :=
  optional (seq (text ":") (run1 (.noneOf ['=', '\n'])))

/-- The parameters of an arrow function, in parentheses or one word, its result type and the
arrow. -/
def arrow : Pattern :=
  all [optional (seq (text "async") gaps),
    alt (all [text "(", run (.noneOf [')']), text ")"]) word, gaps, annotation?, text "=>"]

/-! ## Rules of the languages -/

/-- Declarations of TypeScript and JavaScript. Hooks and components come before the forms they are
written in. -/
def typescript : List Rule := [
  ⟨.hook, all [lineStart, keyword? "export", keyword? "default",
    any [text "const", text "function"], gaps1,
    named (all [text "use", one (.between 'A' 'Z'), run .word])]⟩,
  ⟨.component, all [lineStart, keyword? "export", keyword? "default", keyword "function",
    capitalName, gaps, text "("]⟩,
  ⟨.component, all [lineStart, keyword? "export", keyword "const", capitalName, gaps,
    annotation?, text "=", gaps, optional (text "React."),
    optional (any [text "memo", text "forwardRef"]), gaps, optional (text "("), gaps, arrow]⟩,
  ⟨.classType, all [lineStart, keyword? "export", keyword? "default", keyword? "abstract",
    keyword "class", name]⟩,
  ⟨.interface, all [lineStart, keyword? "export", keyword? "declare",
    any [text "interface", text "type"], gaps1, name]⟩,
  ⟨.function, all [lineStart, keyword? "export", keyword? "async", text "function",
    optional (text "*"), gaps1, name]⟩,
  ⟨.arrowFunction, all [lineStart, keyword? "export",
    any [text "const", text "let", text "var"], gaps1, name, gaps, annotation?, text "=", gaps,
    arrow]⟩,
  ⟨.exportDefault, all [lineStart, text "export", gaps1, text "default", gaps1, keyword? "async",
    optional (all [any [text "function", text "class"], wordEdge, gaps, optional (text "*"), gaps]),
    optional name]⟩]

/-- The attributes and access levels before a type of Swift. -/
def swiftAccess : Pattern :=
  seq attributes (keywords ["public", "private", "internal", "fileprivate", "open", "final"])

/-- Declarations of Swift. -/
def swift : List Rule := [
  ⟨.struct, all [lineStart, swiftAccess, keyword "struct", name]⟩,
  ⟨.classType, all [lineStart, swiftAccess, keyword "class", name]⟩,
  ⟨.protocol, all [lineStart, swiftAccess, keyword "protocol", name]⟩,
  ⟨.extension, all [lineStart, swiftAccess, keyword "extension", name]⟩,
  ⟨.enum, all [lineStart, swiftAccess, keyword? "indirect", keyword "enum", name]⟩,
  ⟨.function, all [lineStart, gaps, attributes,
    keywords ["public", "private", "internal", "fileprivate", "open", "static", "class",
      "override", "final", "mutating", "nonisolated"],
    keyword "func", name]⟩,
  ⟨.property, all [lineStart, gaps, attributes,
    keywords ["public", "private", "internal", "fileprivate", "static", "lazy", "weak"],
    any [text "var", text "let"], gaps1, name, gaps, text ":"]⟩]

/-- The header of a class of Python. -/
def pythonClass : Pattern := all [lineStart, gaps, keyword "class", name]

/-- The header of a function of Python. -/
def pythonDef : Pattern :=
  all [lineStart, gaps, keyword? "async", keyword "def", name, gaps, text "("]

/-- Declarations of Python. -/
def pythonRules : List Pattern := [pythonClass, pythonDef]

/-! ## Declared names -/

/-- The name that a match gives, if it gives one that is not empty. -/
def foundName (found : Found) : Option String :=
  match found.name with
  | some (c :: s) => some (String.ofList (c :: s))
  | _ => none

/-- The names that a text declares, pattern by pattern, each where it comes first. -/
def declaredNames (patterns : List Pattern) (s : List Char) : List String :=
  (patterns.flatMap fun p => (p.findAll s).filterMap foundName).eraseDups

end CodeIndex.Declaration
