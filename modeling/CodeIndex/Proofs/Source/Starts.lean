import CodeIndex.Proofs.Source.Chunk

/-!
The lines on which matches start.

A byte of a text is on one line of it, and looking it up in the starts of lines gives that line
(`lineOf_iff_isLine`). So a match that begins inside of a text stands on a line of it, and cutting by
braces (`braceSpans_eq`) and by indentation (`headerLine?_of_inside`) never drops it for want of its line.
-/
namespace CodeIndex.Chunk

open Text Text.Pattern Declaration

variable {s : List Char}

/-! ## Matches inside of a text -/

/-- The span of a match that gives a name, from the line on which it starts. -/
def spanOf? (rule : Rule) (scanLines : Nat) (s : List Char) (f : Found) : Option Span :=
  (foundName f).map fun name =>
    ⟨rule.kind, name, startLine s f, blockEnd (lines s) (startLine s f) scanLines, none⟩

theorem startLine_lt_of_inside {f : Found} (h : f.offset < bytes s) :
    startLine s f < (lines s).length := lineOf_lt h

theorem braceSpans_eq (rule : Rule) (scanLines : Nat) (s : List Char) :
    braceSpans (lines s) (lineStarts s) scanLines s rule =
      (rule.pattern.findAll s).filterMap fun f =>
        if bytes s ≤ f.offset ∧ (lines s).length ≤ startLine s f then none
        else spanOf? rule scanLines s f := by
  rw [braceSpans]
  refine List.filterMap_congr fun f _ => ?_
  have hguard : bytes s ≤ f.offset ∧ (lines s).length ≤ startLine s f ↔
      (lines s).length ≤ startLine s f :=
    and_iff_right_of_imp fun hline =>
      Nat.le_of_not_lt fun hinside => Nat.not_le.2 (startLine_lt_of_inside hinside) hline
  rw [if_congr hguard rfl rfl, spanOf?]
  cases foundName f with
  | none => simp
  | some name => rfl

theorem headerLine?_of_inside {f : Found} (h : f.offset < bytes s) :
    headerLine? (lines s) (lineStarts s) f =
      f.name.map fun name => (startLine s f, String.ofList name) :=
  if_neg (Nat.not_le.2 (startLine_lt_of_inside h))

theorem inside_of_rules {p : Pattern}
    (hp : p ∈ (typescript ++ swift).map (·.pattern) ++ pythonRules) {f : Found}
    (hf : f ∈ p.findAll s) : f.offset < bytes s := by
  refine offset_lt_bytes ?_ hf
  rcases List.mem_append.1 hp with hp | hp
  · obtain ⟨rule, hrule, rfl⟩ := List.mem_map.1 hp
    exact (List.mem_append.1 hrule).elim (headsLine_of_typescript rule) (headsLine_of_swift rule)
  · exact headsLine_of_python p hp

/-! ## Lines by their starts -/

/-- **A byte is on the line that the starts of lines give for it.** The starts are in order, so that a
place can be looked up in them. For each byte of a text this gives the number of newlines among the bytes
before; it is the number of a line of the text, namely of the one that has the byte in it or in the line
end that was dropped from it. So a match that begins inside of the text is never dropped because there is
no such line, neither in a language with braces nor in one with indentation; and all declarations
begin inside of the text. -/
theorem lineOf_iff_isLine (s : List Char) :
    (lineStarts s).Pairwise (· < ·) ∧
    (∀ o < bytes s,
      lineOf (lineStarts s) o = ((encoded s).take o).count newlineByte ∧
      lineOf (lineStarts s) o < (lines s).length ∧
      ∀ i, lineOf (lineStarts s) o = i ↔ ∃ before line stop, IsLine s i before line stop ∧
        bytes before ≤ o ∧ o < bytes (before ++ (line ++ stop))) ∧
    (∀ rule scanLines, braceSpans (lines s) (lineStarts s) scanLines s rule =
      (rule.pattern.findAll s).filterMap fun f =>
        if bytes s ≤ f.offset ∧ (lines s).length ≤ startLine s f then none
        else spanOf? rule scanLines s f) ∧
    (∀ f : Found, f.offset < bytes s → headerLine? (lines s) (lineStarts s) f =
      f.name.map fun name => (startLine s f, String.ofList name)) ∧
    ∀ p ∈ (typescript ++ swift).map (·.pattern) ++ pythonRules, ∀ f ∈ p.findAll s,
      f.offset < bytes s := by
  refine ⟨lineStarts_pairwise s, fun o ho => ?_, fun rule scanLines => braceSpans_eq rule scanLines s,
    fun f hf => headerLine?_of_inside hf, fun p hp f hf => inside_of_rules hp hf⟩
  obtain ⟨i, before, line, stop, hline, hle, hlt⟩ := exists_isLine ho
  have hi := hline.lineOf_eq hle hlt
  refine ⟨hi.trans (hline.count_newlines hle hlt).symm, lineOf_lt ho, fun j => ⟨?_, ?_⟩⟩
  · rintro rfl
    exact ⟨before, line, stop, hi ▸ hline, hle, hlt⟩
  · rintro ⟨before', line', stop', hline', hle', hlt'⟩
    exact hline'.lineOf_eq hle' hlt'

namespace Sample

/-- A class of Python between a letter of two bytes, an empty line and a carriage return that ends no
line. -/
def accented : List Char := "é\r\n\nclass A:\r\n\rx\n".toList

end Sample

/-- The second byte of the letter is on the first line, the newline after the class on that of the class
and the last byte on the last line, whose number is the number of newlines before. The header of the class
is found on its line. -/
theorem lineOf_iff_isLine_accented :
    17 < bytes Sample.accented ∧ lineOf (lineStarts Sample.accented) 17 = 3 ∧
      3 < (lines Sample.accented).length ∧
      (∃ before line stop, IsLine Sample.accented 0 before line stop ∧ bytes before ≤ 1 ∧
        1 < bytes (before ++ (line ++ stop))) ∧
      (∃ before line stop, IsLine Sample.accented 2 before line stop ∧ bytes before ≤ 14 ∧
        14 < bytes (before ++ (line ++ stop))) ∧
      headerLine? (lines Sample.accented) (lineStarts Sample.accented) ⟨5, 12, some ['A']⟩ =
        some (2, "A") := by
  have hlen : bytes Sample.accented = 18 := by decide +kernel
  obtain ⟨-, hbyte, -, hheader, -⟩ := lineOf_iff_isLine Sample.accented
  obtain ⟨hcount, hlt, -⟩ := hbyte 17 (by omega)
  obtain ⟨-, -, hfirst⟩ := hbyte 1 (by omega)
  obtain ⟨-, -, hclass⟩ := hbyte 14 (by omega)
  have hlast : lineOf (lineStarts Sample.accented) 17 = 3 := hcount.trans (by decide +kernel)
  refine ⟨by omega, hlast, hlast ▸ hlt, (hfirst 0).1 (by decide +kernel),
    (hclass 2).1 (by decide +kernel), ?_⟩
  rw [hheader ⟨5, 12, some ['A']⟩ (by rw [hlen]; decide)]
  decide +kernel

end CodeIndex.Chunk
