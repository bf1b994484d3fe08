import CodeIndex.Named

/-!
What pieces of source code are called: the languages, the kinds of chunks and the kinds of
components. `Language.ofExtension` is the language that a file's extension stands for.
-/
namespace CodeIndex

/-! ## Languages -/

/-- The languages that are told apart. -/
inductive Language where
  | typescript
  | javascript
  | swift
  | python
  | unknown
deriving Repr, DecidableEq

namespace Language

/-- The name of a language. -/
def name : Language → String
  | typescript => "typescript"
  | javascript => "javascript"
  | swift => "swift"
  | python => "python"
  | unknown => "unknown"

instance : Named Language where
  what := "language"
  all := [typescript, javascript, swift, python, unknown]
  name := name

/-- The language that an extension, in lower case and without its point, stands for. -/
def ofExtension (extension : String) : Language :=
  if extension == "ts" || extension == "tsx" then typescript
  else if extension == "js" || extension == "jsx" then javascript
  else if extension == "swift" then swift
  else if extension == "py" then python
  else unknown

end Language

/-! ## Kinds of chunks -/

/-- What a chunk of source code declares; `file` is a whole file. -/
inductive ChunkKind where
  | function
  | arrowFunction
  | classType
  | interface
  | component
  | hook
  | exportDefault
  | struct
  | protocol
  | extension
  | enum
  | property
  | method
  | file
deriving Repr, DecidableEq

namespace ChunkKind

/-- The name of a kind of chunk. -/
def name : ChunkKind → String
  | function => "function"
  | arrowFunction => "arrow_function"
  | classType => "class"
  | interface => "interface"
  | component => "component"
  | hook => "hook"
  | exportDefault => "export_default"
  | struct => "struct"
  | protocol => "protocol"
  | extension => "extension"
  | enum => "enum"
  | property => "property"
  | method => "method"
  | file => "file"

instance : Named ChunkKind where
  what := "chunk kind"
  all := [function, arrowFunction, classType, interface, component, hook, exportDefault, struct,
    protocol, extension, enum, property, method, file]
  name := name

end ChunkKind

/-! ## Kinds of components -/

/-- What a component file holds: a part of a page, or a page. -/
inductive ComponentKind where
  | component
  | page
deriving Repr, DecidableEq

namespace ComponentKind

/-- The name of a kind of component. -/
def name : ComponentKind → String
  | component => "component"
  | page => "page"

instance : Named ComponentKind where
  what := "component kind"
  all := [component, page]
  name := name

end ComponentKind

end CodeIndex
