import CodeIndex.Proofs.Source.Arrow
import CodeIndex.Proofs.Source.Chunk
import CodeIndex.Proofs.Text.Blank

/-!
The names that the chunks of a file declare.

A name is found by matching the patterns on the whole file, and again by matching them on the lines of
the chunk that has the start of the match. Both find it whenever the chunk has the end of the match too
(`declared_in_chunk`), which only a header of an arrow function over more than one line may not have.
-/
namespace CodeIndex

open Text Text.Pattern

namespace Declaration

variable {p : Pattern} {s pre m rest : List Char} {f : Found}

/-! ## Places of headers -/

/-- Where a header stands: its match is the part `m` of the text after `pre`. -/
structure Placed (s : List Char) (f : Found) (pre m rest : List Char) : Prop where
  text : s = pre ++ (m ++ rest)
  offset : f.offset = bytes pre
  stop : f.stop = bytes (pre ++ m)
  start : AtLineStart pre
  visible : ∃ c, m.getLast? = some c ∧ c ≠ '\n' ∧ c ≠ '\r'

theorem Header.placed (hp : Header p) (hf : f ∈ p.findAll s) :
    ∃ pre m rest, Placed s f pre m rest ∧ (p.avoids '\n' = true → '\n' ∉ m) := by
  obtain ⟨pre, rest, rfl, hat⟩ := mem_findAll hf
  obtain ⟨stop, hstop, hfstop, -⟩ := foundAt_way hat
  have hhere := Cursor.after_between pre rest
  obtain ⟨m, hm⟩ := ends_after hhere hstop
  have htext : pre ++ rest = pre ++ (m ++ stop.rest) := by
    rw [← List.append_assoc]
    exact hm.text.symm
  refine ⟨pre, m, stop.rest, ⟨htext, foundAt_offset hat, hfstop.trans hm.offset, ?_, ?_⟩, ?_⟩
  · exact hp.atLineStart hhere hstop
  · exact hp.visible hhere hstop hm
  · exact fun hline => not_mem_of_avoids hline hhere hstop hm

theorem Placed.startLine_eq (h : Placed s f pre m rest) : startLine s f = pre.count '\n' := by
  rw [startLine, h.offset, h.text, lineOf_lineStarts]

theorem Placed.stopLine_eq (h : Placed s f pre m rest) : stopLine s f = (pre ++ m).count '\n' := by
  rw [stopLine, h.stop, h.text, ← List.append_assoc, lineOf_lineStarts]

/-- A header of a pattern that matches no newline is on one line. -/
theorem stopLine_of_avoids (hp : Header p) (hline : p.avoids '\n' = true) (hf : f ∈ p.findAll s) :
    stopLine s f = startLine s f := by
  obtain ⟨pre, m, rest, h, hm⟩ := hp.placed hf
  rw [h.startLine_eq, h.stopLine_eq, List.count_append, List.count_eq_zero.2 (hm hline),
    Nat.add_zero]

-- so it is with all rules but those of components and others that are arrow functions
example : (typescript.filter (·.pattern.avoids '\n')).map (·.kind) =
    [.hook, .component, .classType, .interface, .function, .exportDefault] := by decide

/-! ## Lines of headers -/

/-- A header that stands on lines of a text is found in these lines. -/
theorem Header.found_in_lines (hp : Header p) {k : Nat} (hpre : AtLineStart pre)
    (hf : f ∈ p.findAll (pre ++ rest)) (hfirst : pre.count '\n' ≤ startLine (pre ++ rest) f)
    (hlast : stopLine (pre ++ rest) f ≤ pre.count '\n' + k) :
    ∃ g ∈ p.findAll (joinLines ((lines rest).take (k + 1))), g.name = f.name := by
  obtain ⟨body, tail, hjoined⟩ := joined_lines k rest
  obtain ⟨pre', m, rest', hplaced, -⟩ := hp.placed hf
  rw [hplaced.startLine_eq] at hfirst
  rw [hplaced.stopLine_eq] at hlast
  have hle : bytes pre ≤ bytes pre' := by
    by_contra hlt
    have := count_lt_of_bytes_lt hplaced.text.symm (Nat.lt_of_not_le hlt) hpre
    omega
  obtain ⟨d, rfl, hrest⟩ := exists_of_bytes_le hplaced.text hle
  have hcount : (d ++ m).count '\n' ≤ k := by
    simp only [List.count_append] at hlast ⊢
    omega
  obtain ⟨c, hm, hn, hr⟩ := hplaced.visible
  have hdm : (d ++ m).getLast? = some c := by
    rw [List.getLast?_append, hm]
    rfl
  obtain ⟨z, hz⟩ : d ++ m <+: body := by
    refine hjoined.within (d ++ m) rest' (by simp [hrest]) hcount ?_ ?_
    · rw [hdm]
      simpa using hn
    · rw [hdm]
      simpa using hr
  rw [hjoined.joined]
  refine hp.found_in_piece (hjoined.piece hpre) (hjoined.text ▸ hf) ?_ ?_
  · rw [hplaced.offset]
    exact hle
  · rw [hplaced.stop, ← hz]
    simp only [bytes_append]
    omega

end Declaration

namespace Chunk

open Declaration

/-! ## Chunks -/

/-- The chunk has the line, counted from zero. -/
def hasLine (c : Chunk) (line : Nat) : Prop := c.firstLine ≤ line + 1 ∧ line + 1 ≤ c.lastLine

/-- The pattern of a rule captures a name in a text, by a match. -/
structure Captures (rules : List Rule) (s : List Char) (rule : Rule) (f : Found) (name : String) :
    Prop where
  rule_mem : rule ∈ rules
  found : f ∈ rule.pattern.findAll s
  name : foundName f = some name

variable {rules : List Rule} {scanLines : Nat} {content : List Char} {rule : Rule} {f : Found}
  {name path : String} {language : Language}

theorem captures_of_mem_braceResolved {t : Span} (h : t ∈ braceResolved rules scanLines content) :
    ∃ rule f, Captures rules content rule f t.name ∧ t.first = startLine content f ∧
      t.first ≤ t.last := by
  have hmem := Span.mem_of_mem_resolve h
  obtain ⟨rule, hrule, hspan⟩ := List.mem_flatMap.1 hmem
  obtain ⟨f, hf, name, hname, -, rfl⟩ := mem_braceSpans.1 hspan
  exact ⟨rule, f, ⟨hrule, hf, hname⟩, rfl, first_le_last _ hmem⟩

theorem hasLine_ofSpan {patterns : List Pattern} {ls : List (List Char)} {t : Span} {line : Nat} :
    (ofSpan path language patterns ls t).hasLine line ↔ t.first ≤ line ∧ line ≤ t.last := by
  simp [hasLine, ofSpan]

theorem exists_hasLine (hrules : ∀ rule ∈ rules, rule.pattern.headsLine = true)
    (h : Captures rules content rule f name) :
    ∃ c ∈ ofBraces language rules scanLines path content, c.hasLine (startLine content f) := by
  have hline := startLine_lt (hrules rule h.rule_mem) h.found
  have hspan : _ ∈ braceSpans (lines content) (lineStarts content) scanLines content rule :=
    mem_braceSpans.2 ⟨f, h.found, name, h.name, hline, rfl⟩
  obtain ⟨t, ht, hcovers⟩ :=
    Span.covers_resolve first_le_last (List.mem_flatMap.2 ⟨rule, h.rule_mem, hspan⟩)
  refine ⟨_, List.mem_map_of_mem ht, hasLine_ofSpan.2 ?_⟩
  simpa [Span.covers, startLine] using hcovers

/-- **A chunk that has the lines of a match declares its name.** -/
theorem declared_in_chunk (hrules : ∀ rule ∈ rules, Header rule.pattern)
    (h : Captures rules content rule f name) {c : Chunk}
    (hc : c ∈ ofBraces language rules scanLines path content)
    (hstart : c.hasLine (startLine content f)) (hstop : c.hasLine (stopLine content f)) :
    name ∈ c.symbols := by
  obtain ⟨t, ht, rfl⟩ := List.mem_map.1 hc
  rw [hasLine_ofSpan] at hstart hstop
  obtain ⟨rule', f', h', hfirst, hle⟩ := captures_of_mem_braceResolved ht
  obtain ⟨pre, m, rest, hplaced, -⟩ := (hrules rule' h'.rule_mem).placed h'.found
  obtain ⟨k, hk⟩ := Nat.exists_eq_add_of_le hle
  rw [hplaced.startLine_eq] at hfirst
  have hf : f ∈ rule.pattern.findAll (pre ++ (m ++ rest)) := hplaced.text ▸ h.found
  rw [hplaced.text] at hstart hstop
  have hlast : stopLine (pre ++ (m ++ rest)) f ≤ pre.count '\n' + k := by omega
  obtain ⟨g, hg, hname⟩ :=
    (hrules rule h.rule_mem).found_in_lines hplaced.start hf (hfirst ▸ hstart.1) hlast
  have hrange : lineRange (lines content) t.first t.last =
      (lines (m ++ rest)).take (k + 1) := by
    rw [lineRange, hplaced.text, hfirst, drop_lines hplaced.start]
    congr 1
    omega
  refine mem_declaredNames.2 ⟨rule.pattern, List.mem_map_of_mem h.rule_mem, g, ?_, ?_⟩
  · rw [hrange]
    exact hg
  · rw [← h.name, foundName, foundName, hname]

/-- A match declares its name in a chunk that has its line: on one line always, and over several if
the chunk has them too. -/
def Shows (c : Chunk) (s : List Char) (rule : Rule) (f : Found) (name : String) : Prop :=
  rule.pattern.avoids '\n' = true ∨ c.hasLine (stopLine s f) → name ∈ c.symbols

theorem shows_of_hasLine (hrules : ∀ rule ∈ rules, Header rule.pattern)
    (h : Captures rules content rule f name) {c : Chunk}
    (hc : c ∈ ofBraces language rules scanLines path content)
    (hstart : c.hasLine (startLine content f)) : c.Shows content rule f name := by
  intro hline
  refine declared_in_chunk hrules h hc hstart ?_
  rcases hline with hline | hline
  · rwa [stopLine_of_avoids (hrules rule h.rule_mem) hline h.found]
  · exact hline

theorem eq_of_hasLine {cs : List Chunk} (hcs : cs.Pairwise fun c d => c.lastLine < d.firstLine)
    {c d : Chunk} (hc : c ∈ cs) (hd : d ∈ cs) {line : Nat} (hcl : c.hasLine line)
    (hdl : d.hasLine line) : d = c := by
  have hapart : ∀ {c d : Chunk}, c.lastLine < d.firstLine → c.hasLine line → ¬ d.hasLine line :=
    fun hlt hc hd => by
      have := hc.2
      have := hd.1
      omega
  refine List.Pairwise.forall_of_forall_of_flip
    (R := fun c d : Chunk => c.hasLine line → d.hasLine line → d = c) ?_ ?_ ?_ hc hd hcl hdl
  · exact fun _ _ _ _ => rfl
  · exact hcs.imp fun hlt hc hd => absurd hd (hapart hlt hc)
  · exact hcs.imp fun hlt hd hc => absurd hd (hapart hlt hc)

/-! ## Files -/

theorem ofFile_braces (limits : ChunkLimits) {path : String} (content : String)
    (h : languageOf path = .typescript ∨ languageOf path = .javascript) :
    ∃ language, ofFile limits path content =
      numbered (ofBraces language typescript limits.scanLines (Path.key path) content.toList) := by
  rcases h with h | h
  · exact ⟨.typescript, by simp only [ofFile, h]⟩
  · exact ⟨.javascript, by simp only [ofFile, h]⟩

variable {limits : ChunkLimits} {path content : String}

/-- **One chunk has the line on which a name is declared**, and it shows the name. -/
theorem exists_chunk_of_captures
    (hlanguage : languageOf path = .typescript ∨ languageOf path = .javascript)
    (h : Captures typescript content.toList rule f name) :
    ∃ c ∈ ofFile limits path content, c.hasLine (startLine content.toList f) ∧
      (∀ d ∈ ofFile limits path content, d.hasLine (startLine content.toList f) → d = c) ∧
      c.Shows content.toList rule f name := by
  obtain ⟨language, hfile⟩ := ofFile_braces limits content hlanguage
  have hrules : ∀ rule ∈ typescript, Header rule.pattern := fun _ => header_of_typescript
  obtain ⟨c, hc, hline⟩ := exists_hasLine headsLine_of_typescript h
  have hshow := shows_of_hasLine hrules h hc hline
  have hordered := numbered_pairwise (fun _ _ _ _ hlt => hlt)
    (ofBraces_ordered language typescript limits.scanLines (Path.key path) content.toList)
  obtain ⟨i, hi⟩ := exists_numbered hc
  rw [hfile]
  exact ⟨_, hi, hline, fun d hd hdl => eq_of_hasLine hordered hi hd hline hdl, hshow⟩

/-- **The name of a chunk is declared on its first line**, and the chunk shows it. -/
theorem captures_of_mem_ofFile
    (hlanguage : languageOf path = .typescript ∨ languageOf path = .javascript) :
    ∀ c ∈ ofFile limits path content, ∃ rule f name,
      Captures typescript content.toList rule f name ∧ c.name = some name ∧
        c.firstLine = startLine content.toList f + 1 ∧ c.Shows content.toList rule f name := by
  obtain ⟨language, hfile⟩ := ofFile_braces limits content hlanguage
  have hrules : ∀ rule ∈ typescript, Header rule.pattern := fun _ => header_of_typescript
  rw [hfile]
  refine forall_numbered (fun c i hc => hc) ?_
  intro c hc
  obtain ⟨t, ht, rfl⟩ := List.mem_map.1 hc
  obtain ⟨rule, f, h, hfirst, hle⟩ := captures_of_mem_braceResolved ht
  refine ⟨rule, f, t.name, h, rfl, by simp [ofSpan, hfirst], shows_of_hasLine hrules h hc ?_⟩
  rw [hasLine_ofSpan, ← hfirst]
  exact ⟨Nat.le_refl _, hle⟩

/-! ## Names -/

theorem names_of_typescript :
    ((blankCodes.map Char.ofNat).all fun c =>
      typescript.all fun rule => rule.pattern.namesAvoid c) = true := by
  decide +kernel

theorem not_blank_of_found (hrule : rule ∈ typescript) {s : List Char}
    (hf : f ∈ rule.pattern.findAll s) (hname : foundName f = some name) :
    name.toList ≠ [] ∧ ∀ c ∈ name.toList, isBlank c = false := by
  obtain ⟨pre, rest, rfl, hat⟩ := mem_findAll hf
  obtain ⟨stop, hstop, -, hfname⟩ := foundAt_way hat
  have havoid : ∀ c, ¬ isBlank c = false → rule.pattern.namesAvoid c = true := by
    intro c hc
    have hblank := mem_blankCodes (Bool.not_eq_false _ ▸ hc)
    exact List.all_eq_true.1 (List.all_eq_true.1 names_of_typescript c hblank) rule hrule
  have hover := ends_names rule.pattern havoid (Cursor.after_between pre rest) hstop
  rw [← hfname] at hover
  rcases hover with hnone | ⟨x, hx, hblank⟩
  · rw [foundName, hnone] at hname
    cases hname
  · cases x with
    | nil =>
      rw [foundName, hx] at hname
      cases hname
    | cons c x =>
      rw [foundName, hx] at hname
      cases hname
      rw [String.toList_ofList]
      exact ⟨List.cons_ne_nil c x, hblank⟩

theorem not_blank_of_mem_symbols
    (hlanguage : languageOf path = .typescript ∨ languageOf path = .javascript) :
    ∀ c ∈ ofFile limits path content, ∀ name ∈ c.symbols,
      name.toList ≠ [] ∧ ∀ d ∈ name.toList, isBlank d = false := by
  obtain ⟨language, hfile⟩ := ofFile_braces limits content hlanguage
  rw [hfile]
  refine forall_numbered (fun c i hc => hc) ?_
  intro c hc name hname
  obtain ⟨t, -, rfl⟩ := List.mem_map.1 hc
  obtain ⟨p, hp, g, hg, hgname⟩ := mem_declaredNames.1 hname
  obtain ⟨rule, hrule, rfl⟩ := List.mem_map.1 hp
  exact not_blank_of_found hrule hg hgname

end Chunk

end CodeIndex
