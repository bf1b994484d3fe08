import CodeIndex.Proofs.Source.Nesting

/-!
Where a block by indentation ends, said of its lines alone.

A line is blank, a comment or code (`blank_comment_or_code`), and only code that is not indented further
closes a block. `EndsAt` says of a line that a block ends on it without the scan that finds it, and
`EndsAt.unique` that there is one such line. It is the one that is found (`endsAt_iff_eq_blockEnd`).
-/
namespace CodeIndex.Indent

open Text

variable {ls : List (List Char)} {first last : Nat}

/-! ## Kinds of lines -/

/-- Whether a line is a comment. -/
def isComment (line : List Char) : Bool := (trimStart line).head? == some '#'

/-- Whether there is a comment on a line, counted from zero. -/
def commentAt (ls : List (List Char)) (k : Nat) : Bool := isComment (ls.getD k [])

theorem isCode_iff (l : List Char) :
    isCode l = true ↔ allBlank l = false ∧ isComment l = false := by
  have hblank : trimStart l = [] ↔ allBlank l = true := by
    rw [trimStart, List.dropWhile_eq_nil_iff, allBlank, List.all_eq_true]
  rw [← Bool.not_eq_true (allBlank l), ← hblank, isCode, isComment]
  cases trimStart l <;> simp

theorem blank_comment_or_code (ls : List (List Char)) (k : Nat) :
    blankAt ls k = true ∨ commentAt ls k = true ∨ codeAt ls k = true := by
  rw [blankAt, commentAt, codeAt, isCode_iff]
  cases allBlank (ls.getD k []) <;> cases isComment (ls.getD k []) <;> simp

/-! ## The last line of a block -/

/-- A line closes the block of an earlier one: there is code on it that is not indented further. -/
def Closes (ls : List (List Char)) (first k : Nat) : Prop :=
  codeAt ls k = true ∧ depth ls k ≤ depth ls first

/-- The block of line `first` ends on line `last`. -/
structure EndsAt (ls : List (List Char)) (first last : Nat) : Prop where
  /-- This is the first line, or a later one that is not blank and is indented further. -/
  ends : last = first ∨
    first < last ∧ last < ls.length ∧ blankAt ls last = false ∧ depth ls first < depth ls last
  /-- All code up to it is indented further. -/
  inside : ∀ k, first < k → k ≤ last → codeAt ls k = true → depth ls first < depth ls k
  /-- From there to the line that closes the block, or to the end of the text, there are blank lines and
  comments that are not indented further. -/
  beyond : ∀ k, last < k → k < ls.length → (∀ j, last < j → j ≤ k → ¬ Closes ls first j) →
    blankAt ls k = true ∨ commentAt ls k = true ∧ depth ls k ≤ depth ls first

theorem EndsAt.first_le (h : EndsAt ls first last) : first ≤ last := by
  rcases h.ends with rfl | ⟨hlt, -⟩
  · exact Nat.le_refl _
  · exact Nat.le_of_lt hlt

/-- A block that ends on a line does not end on a later one: that would be among the lines that follow
the block, for no line closes it before. -/
theorem EndsAt.not_later {later : Nat} (h : EndsAt ls first last) (h' : EndsAt ls first later) :
    ¬ last < later := by
  intro hlt
  have hfirst := h.first_le
  obtain ⟨-, hlen, hblank, hdepth⟩ := h'.ends.resolve_left (by omega)
  have hopen : ∀ j, last < j → j ≤ later → ¬ Closes ls first j := fun j hj hle hcloses =>
    Nat.not_lt.2 hcloses.2 (h'.inside j (by omega) hle hcloses.1)
  rcases h.beyond later hlt hlen hopen with hnone | ⟨-, hshallow⟩
  · rw [hblank] at hnone
    cases hnone
  · omega

theorem EndsAt.unique {last' : Nat} (h : EndsAt ls first last) (h' : EndsAt ls first last') :
    last = last' :=
  Nat.le_antisymm (Nat.not_lt.1 (h'.not_later h)) (Nat.not_lt.1 (h.not_later h'))

theorem Block.endsAt (h : Block ls first last) : EndsAt ls first last where
  ends := by
    rcases Nat.eq_or_lt_of_le h.first_le with heq | hlt
    · exact .inl heq.symm
    · exact h.ends.imp id fun hrest => ⟨hlt, h.last_lt, hrest⟩
  inside := h.inside
  beyond := by
    intro k hk hlen hopen
    by_cases hblank : blankAt ls k = true
    · exact .inl hblank
    · have hshallow : depth ls k ≤ depth ls first := by
        by_contra hdeep
        obtain ⟨j, hj, hjk, hcloses⟩ :=
          h.closed k hk hlen (Bool.not_eq_true _ ▸ hblank) (Nat.lt_of_not_le hdeep)
        exact hopen j hj (Nat.le_of_lt hjk) hcloses
      rcases (blank_comment_or_code ls k).resolve_left hblank with hcomment | hcode
      · exact .inr ⟨hcomment, hshallow⟩
      · exact absurd ⟨hcode, hshallow⟩ (hopen k hk (Nat.le_refl k))

theorem EndsAt.not_blank (h : EndsAt ls first last) (hfirst : blankAt ls first = false) :
    blankAt ls last = false := by
  rcases h.ends with rfl | ⟨-, -, hlast, -⟩
  · exact hfirst
  · exact hlast

theorem lastLine_not_blank {path : String} {content : List Char} {c : Chunk}
    (h : c ∈ Chunk.ofIndent path content) :
    blankAt (lines content) (c.lastLine - 1) = false := by
  obtain ⟨s, hs, rfl⟩ := Chunk.mem_ofIndent.1 h
  obtain ⟨header, hstands⟩ := Chunk.exists_stands hs
  change blankAt (lines content) s.last = false
  rw [hstands.last]
  exact hstands.region.block.endsAt.not_blank (not_blank_of_code hstands.region.code)

/-- **A block ends on one line, and that line is found.** The block of a line of a text ends on the line
itself or on a later one that is not blank and is indented further; all code up to there is indented
further; and what follows, up to the first code that is not, is blank or a comment that is not indented
further. There is exactly one such line. So a block ends on a blank line only if it starts on it, and no
chunk of a file in Python does; and code that is not indented further comes after the block. -/
theorem endsAt_iff_eq_blockEnd :
    (∀ (ls : List (List Char)) (first : Nat), first < ls.length →
      (∀ last, EndsAt ls first last ↔ last = blockEnd ls first) ∧
      (blankAt ls first = false → blankAt ls (blockEnd ls first) = false) ∧
      ∀ k, first < k → Closes ls first k → blockEnd ls first < k) ∧
    ∀ (path : String) (content : List Char), ∀ c ∈ Chunk.ofIndent path content,
      blankAt (lines content) (c.lastLine - 1) = false := by
  refine ⟨fun ls first hfirst => ?_, fun path content c hc => lastLine_not_blank hc⟩
  have hends := (blockEnd_spec hfirst).endsAt
  refine ⟨fun last => ⟨fun h => h.unique hends, fun h => h ▸ hends⟩, hends.not_blank, ?_⟩
  intro k hk hcloses
  by_contra hle
  exact Nat.not_lt.2 hcloses.2 (hends.inside k hk (Nat.le_of_not_lt hle) hcloses.1)

namespace Sample

/-- A function with a blank line, comments before and after its last statement, and code after it. -/
def commented : List (List Char) :=
  ["def f():", "    a = 1", "", "# note", "    b = 2", "    # deep", "  ", "# shallow", "x = 3"].map
    String.toList

end Sample

/-- The function ends on the comment that is indented, and on no other line. -/
theorem endsAt_iff_eq_blockEnd_commented :
    0 < Sample.commented.length ∧ (∀ last, EndsAt Sample.commented 0 last ↔ last = 5) ∧
      blankAt Sample.commented 5 = false ∧ Closes Sample.commented 0 8 := by
  have hlen : 0 < Sample.commented.length := by decide
  have hend : blockEnd Sample.commented 0 = 5 := by decide +kernel
  obtain ⟨hiff, hblank, -⟩ := endsAt_iff_eq_blockEnd.1 Sample.commented 0 hlen
  rw [hend] at hiff hblank
  exact ⟨hlen, hiff, hblank (by decide +kernel), by decide +kernel, by decide +kernel⟩

end CodeIndex.Indent
