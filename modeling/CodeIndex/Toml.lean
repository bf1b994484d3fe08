import CodeIndex.Decimal

/-!
TOML values, and the tables that a document builds.

A document defines tables by headers, by dotted keys and by inline tables, and none of them may be
defined twice. A `Node` is therefore a value or a table that knows how it came to be:

* `Toml.put` adds a key and its value, going down dotted keys;
* `Toml.openTable` and `Toml.openArray` add what the headers `[a.b]` and `[[a.b]]` define;
* `Node.value` forgets how the tables came to be.
-/
namespace CodeIndex.Toml

/-- A value. -/
inductive Value where
  | string (s : String)
  | integer (n : Int)
  | float (x : Float)
  | boolean (b : Bool)
  | datetime
  | array (items : List Value)
  | table (members : List (String × Value))

/-- How a table came to be. -/
inductive Origin where
  /-- By a header of its own. -/
  | header
  /-- By the header of a table inside it. -/
  | implied
  /-- By a dotted key. -/
  | dotted
deriving Repr, DecidableEq

/-- What stands under a key while a document is read. -/
inductive Node where
  | leaf (v : Value)
  | table (origin : Origin) (members : List (String × Node))
  /-- An array of tables, the last one first. -/
  | tables (elements : List (List (String × Node)))

/-- The members of a table. -/
abbrev Members := List (String × Node)

/-- What stands under a key. -/
def find? (ms : Members) (key : String) : Option Node := (ms.find? (·.1 == key)).map (·.2)

/-- The members with something else under a key. -/
def set (key : String) (n : Node) : Members → Members
  | [] => [(key, n)]
  | m :: ms => if m.1 == key then (key, n) :: ms else m :: set key n ms

/-- Adds a value under a path of keys. All but the last key lead through tables that dotted keys
define; `own` says whether the table reached may take the last key. -/
def put (own : Bool) (path : List String) (v : Value) (ms : Members) : Option Members :=
  match path with
  | [] => none
  | [key] => if own && (find? ms key).isNone then some (set key (.leaf v) ms) else none
  | key :: rest =>
    match find? ms key with
    | none => (put true rest v []).map fun inner => set key (.table .dotted inner) ms
    | some (.table .header _) => none
    | some (.table origin inner) =>
      (put (origin == .dotted) rest v inner).map fun inner => set key (.table origin inner) ms
    | some (.tables (latest :: older)) =>
      (put false rest v latest).map fun latest => set key (.tables (latest :: older)) ms
    | some _ => none

/-- Adds the table of a header. A table that headers of tables inside it have implied gets its own
header only once. -/
def openTable (path : List String) (ms : Members) : Option Members :=
  match path with
  | [] => none
  | [key] =>
    match find? ms key with
    | none => some (set key (.table .header []) ms)
    | some (.table .implied inner) => some (set key (.table .header inner) ms)
    | some _ => none
  | key :: rest =>
    match find? ms key with
    | none => (openTable rest []).map fun inner => set key (.table .implied inner) ms
    | some (.table origin inner) =>
      (openTable rest inner).map fun inner => set key (.table origin inner) ms
    | some (.tables (latest :: older)) =>
      (openTable rest latest).map fun latest => set key (.tables (latest :: older)) ms
    | some _ => none

/-- Adds a table to the array of tables of a header. -/
def openArray (path : List String) (ms : Members) : Option Members :=
  match path with
  | [] => none
  | [key] =>
    match find? ms key with
    | none => some (set key (.tables [[]]) ms)
    | some (.tables elements) => some (set key (.tables ([] :: elements)) ms)
    | some _ => none
  | key :: rest =>
    match find? ms key with
    | none => (openArray rest []).map fun inner => set key (.table .implied inner) ms
    | some (.table origin inner) =>
      (openArray rest inner).map fun inner => set key (.table origin inner) ms
    | some (.tables (latest :: older)) =>
      (openArray rest latest).map fun latest => set key (.tables (latest :: older)) ms
    | some _ => none

/-- Adds a value under a path of keys to the table that a header has opened. -/
def putIn (header path : List String) (v : Value) (ms : Members) : Option Members :=
  match header with
  | [] => put true path v ms
  | key :: rest =>
    match find? ms key with
    | some (.table origin inner) =>
      (putIn rest path v inner).map fun inner => set key (.table origin inner) ms
    | some (.tables (latest :: older)) =>
      (putIn rest path v latest).map fun latest => set key (.tables (latest :: older)) ms
    | _ => none

mutual
/-- The value of a node. -/
def Node.value : Node → Value
  | .leaf v => v
  | .table _ ms => .table (memberValues ms)
  | .tables elements => .array (elementValues elements).reverse

/-- The values of the members of a table. -/
def memberValues : List (String × Node) → List (String × Value)
  | [] => []
  | (key, n) :: rest => (key, n.value) :: memberValues rest

/-- The values of the elements of an array of tables. -/
def elementValues : List (List (String × Node)) → List Value
  | [] => []
  | ms :: rest => .table (memberValues ms) :: elementValues rest
end

end CodeIndex.Toml
