import CodeIndex.Named
import CodeIndex.Text.Lowercase

/-!
The formats in which answers are printed.
-/
namespace CodeIndex

/-- How answers are printed. -/
inductive OutputFormat where
  | text
  | json
deriving Repr, DecidableEq

namespace OutputFormat

/-- The name of a format. -/
def name : OutputFormat → String
  | text => "text"
  | json => "json"

instance : Named OutputFormat where
  what := "output format"
  all := [text, json]
  name := name

/-- The format with a name, whatever the case of its letters. -/
def read (s : String) : Except String OutputFormat := Named.read (Text.lowercase s)

end OutputFormat

end CodeIndex
