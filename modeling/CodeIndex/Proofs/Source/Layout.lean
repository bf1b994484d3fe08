import CodeIndex.Proofs.Source.Symbols

/-!
How the chunks of a file in braces lie in it.

The chunks are pieces of the file, whole lines each, one after the other, and no declaration is left
out: the line on which a match of a rule starts is a line of one chunk (`ofBraces_laid_out`).

The program stops at a declaration to whose line the limit of the scan cannot be added. `LimitFits` says that
there is none; then it gives these chunks (`ofBraces?_eq_some_iff`, `ofFile?_eq_some_iff`). The texts and limits
of a run of the program are all small enough (`ofFile?_of_lines`).
-/
namespace CodeIndex.Chunk

open Text Text.Pattern Declaration

/-- A chunk is a piece of a text given by its lines: lines of the text, joined by newlines. -/
structure IsPiece (ls : List (List Char)) (c : Chunk) : Prop where
  one_le_firstLine : 1 ≤ c.firstLine
  firstLine_le_lastLine : c.firstLine ≤ c.lastLine
  lastLine_le : c.lastLine ≤ ls.length
  content : c.content.toList = joinLines (lineRange ls (c.firstLine - 1) (c.lastLine - 1))

variable {rules : List Rule} {scanLines : Nat} {content : List Char} {path : String}
  {language : Language}

theorem last_lt_of_mem_braceResolved {t : Span} (h : t ∈ braceResolved rules scanLines content) :
    t.first ≤ t.last ∧ t.last < (lines content).length := by
  have hmem := Span.mem_of_mem_resolve h
  obtain ⟨rule, -, hspan⟩ := List.mem_flatMap.1 hmem
  obtain ⟨f, -, name, -, hline, rfl⟩ := mem_braceSpans.1 hspan
  exact ⟨le_blockEnd hline scanLines, blockEnd_lt hline scanLines⟩

theorem isPiece_ofSpan {patterns : List Pattern} {ls : List (List Char)} {t : Span}
    (h : t.first ≤ t.last) (hlast : t.last < ls.length) :
    (ofSpan path language patterns ls t).IsPiece ls where
  one_le_firstLine := Nat.le_add_left 1 t.first
  firstLine_le_lastLine := Nat.succ_le_succ h
  lastLine_le := hlast
  content := by simp [ofSpan]

theorem isPiece_of_mem_ofBraces :
    ∀ c ∈ ofBraces language rules scanLines path content, c.IsPiece (lines content) := by
  intro c hc
  obtain ⟨t, ht, rfl⟩ := List.mem_map.1 hc
  obtain ⟨hfirst, hlast⟩ := last_lt_of_mem_braceResolved ht
  exact isPiece_ofSpan hfirst hlast

/-! ## Limits -/

/-- How many lines are looked through, less one, can be added to the line of every declaration. -/
def LimitFits (rules : List Rule) (scanLines : Nat) (content : List Char) : Prop :=
  ∀ rule f name, Captures rules content rule f name →
    startLine content f + (scanLines - 1) < 2 ^ 64

theorem allEnd_iff (hrules : ∀ rule ∈ rules, rule.pattern.headsLine = true) :
    allEnd rules scanLines content = true ↔ LimitFits rules scanLines content := by
  have hends : ∀ first, (blockEnd? (lines content) first scanLines).isSome = true ↔
      first + (scanLines - 1) < 2 ^ 64 := fun first => by
    rw [blockEnd?]
    split <;> simp_all
  rw [allEnd, List.all_eq_true]
  constructor
  · intro hall rule f name h
    have hspan : _ ∈ braceSpans (lines content) (lineStarts content) scanLines content rule :=
      mem_braceSpans.2 ⟨f, h.found, name, h.name, startLine_lt (hrules rule h.rule_mem) h.found, rfl⟩
    exact (hends _).1 (hall _ (List.mem_flatMap.2 ⟨rule, h.rule_mem, hspan⟩))
  · intro hfits s hs
    obtain ⟨rule, hrule, hs⟩ := List.mem_flatMap.1 hs
    obtain ⟨f, hf, name, hname, -, rfl⟩ := mem_braceSpans.1 hs
    exact (hends _).2 (hfits rule f name ⟨hrule, hf, hname⟩)

theorem ofBraces?_eq_some_iff (hrules : ∀ rule ∈ rules, rule.pattern.headsLine = true)
    {chunks : List Chunk} :
    ofBraces? language rules scanLines path content = some chunks ↔
      LimitFits rules scanLines content ∧
        ofBraces language rules scanLines path content = chunks := by
  rw [ofBraces?, ← allEnd_iff hrules]
  split <;> simp_all

theorem limitFits_of_lines (hrules : ∀ rule ∈ rules, rule.pattern.headsLine = true)
    (h : (lines content).length + scanLines ≤ 2 ^ 64) : LimitFits rules scanLines content := by
  intro rule f name hcaptures
  have hline := startLine_lt (hrules rule hcaptures.rule_mem) hcaptures.found
  omega

/-- **The chunks of a file in braces lie in it one after the other, and every declaration is in one.**
Whatever the text and however far a closing brace is looked for, each chunk is a piece of the text,
ends before the next one starts, and the line on which a match that gives a name starts is a line of
exactly one chunk. The program gives these chunks exactly if the limit can be added to the lines of all
declarations. -/
theorem ofBraces_laid_out (hrules : rules = typescript ∨ rules = swift) (language : Language)
    (scanLines : Nat) (path : String) (content : List Char) :
    (ofBraces? language rules scanLines path content =
      some (ofBraces language rules scanLines path content) ↔ LimitFits rules scanLines content) ∧
    (∀ c ∈ ofBraces language rules scanLines path content, c.IsPiece (lines content)) ∧
    ((ofBraces language rules scanLines path content).Pairwise fun c d =>
      c.lastLine < d.firstLine) ∧
    ∀ rule f name, Captures rules content rule f name →
      ∃! c, c ∈ ofBraces language rules scanLines path content ∧
        c.hasLine (startLine content f) := by
  have hheads : ∀ rule ∈ rules, rule.pattern.headsLine = true := by
    rcases hrules with rfl | rfl
    · exact headsLine_of_typescript
    · exact headsLine_of_swift
  have hordered := ofBraces_ordered language rules scanLines path content
  refine ⟨?_, isPiece_of_mem_ofBraces, hordered, fun rule f name h => ?_⟩
  · rw [ofBraces?_eq_some_iff hheads, and_iff_left rfl]
  · obtain ⟨c, hc, hline⟩ := exists_hasLine hheads h
    exact ⟨c, ⟨hc, hline⟩, fun d ⟨hd, hdl⟩ => eq_of_hasLine hordered hc hd hline hdl⟩

namespace Sample

/-- A function of Swift whose block is not closed, with two declarations on its lines. Its first line is
that of a class too, by its keywords. -/
def unclosed : List Char := "class func make() \x7b\n  let x: Int\nstruct A\n".toList

/-- The rule of structures. -/
def structRule : Rule := swift[0]

end Sample

/-- The structure is found inside of the block that starts on the first line, whose one chunk has its
line. -/
theorem ofBraces_laid_out_unclosed :
    ofBraces? .swift swift 10 "a.swift" Sample.unclosed =
      some (ofBraces .swift swift 10 "a.swift" Sample.unclosed) ∧
    Captures swift Sample.unclosed Sample.structRule ⟨33, 41, some ['A']⟩ "A" ∧
    (∃! c, c ∈ ofBraces .swift swift 10 "a.swift" Sample.unclosed ∧ c.hasLine 2) ∧
    ∀ c ∈ ofBraces .swift swift 10 "a.swift" Sample.unclosed, c.lastLine ≤ 3 := by
  have hcaptures :
      Captures swift Sample.unclosed Sample.structRule ⟨33, 41, some ['A']⟩ "A" :=
    ⟨List.getElem_mem _, by decide +kernel, by decide +kernel⟩
  obtain ⟨hgiven, hpieces, -, hone⟩ :=
    ofBraces_laid_out (.inr rfl) .swift 10 "a.swift" Sample.unclosed
  have hline : startLine Sample.unclosed ⟨33, 41, some ['A']⟩ = 2 := by decide +kernel
  have hlines : (lines Sample.unclosed).length = 3 := by decide +kernel
  have hfits : LimitFits swift 10 Sample.unclosed := by
    refine limitFits_of_lines headsLine_of_swift ?_
    rw [hlines]
    decide
  exact ⟨hgiven.2 hfits, hcaptures, hline ▸ hone _ _ _ hcaptures, fun c hc => hlines ▸ (hpieces c hc).lastLine_le⟩

/-! ## Files -/

variable {limits : ChunkLimits} {content : String}

theorem ofFile?_eq_some_iff (hlanguage : languageOf path = .typescript ∨ languageOf path = .javascript)
    {chunks : List Chunk} :
    ofFile? limits path content = some chunks ↔
      LimitFits typescript limits.scanLines content.toList ∧ ofFile limits path content = chunks := by
  have hends : ofFile? limits path content =
      if allEnd typescript limits.scanLines content.toList then some (ofFile limits path content)
      else none := by
    rcases hlanguage with h | h <;> rw [ofFile?, h]
  rw [hends, ← allEnd_iff headsLine_of_typescript]
  split <;> simp_all

/-- **The program does not stop at a file** whose lines, together with those that are looked through, can be
counted. -/
theorem ofFile?_of_lines (h : (lines content.toList).length + limits.scanLines ≤ 2 ^ 64) :
    ofFile? limits path content = some (ofFile limits path content) := by
  have hts := (allEnd_iff headsLine_of_typescript).2 (limitFits_of_lines headsLine_of_typescript h)
  have hswift := (allEnd_iff headsLine_of_swift).2 (limitFits_of_lines headsLine_of_swift h)
  rw [ofFile?]
  refine if_pos ?_
  cases languageOf path <;> first | exact hts | exact hswift | rfl

end CodeIndex.Chunk
