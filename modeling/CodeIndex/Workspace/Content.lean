import CodeIndex.Store

/-!
What the files of a workspace hold: bytes, or an index.
-/
namespace CodeIndex

/-- The content of a file. -/
inductive Content where
  | bytes (bs : ByteArray)
  | index (s : Store)

namespace Content

instance : DecidableEq Content
  | bytes a, bytes b =>
    @decidable_of_iff _ (a = b) ⟨congrArg bytes, bytes.inj⟩ (ByteArray.instDecidableEq a b)
  | index s, index t => decidable_of_iff (s = t) ⟨congrArg index, index.inj⟩
  | bytes _, index _ => isFalse nofun
  | index _, bytes _ => isFalse nofun

/-- The content of a text file. -/
def ofText (text : String) : Content := bytes text.toUTF8

/-- The text of a file; an index is none, and neither are bytes that are not UTF-8. -/
def text? : Content → Option String
  | bytes bs => String.fromUTF8? bs
  | index _ => none

end Content

end CodeIndex
