import CodeIndex.Proofs.Source.Declaration
import CodeIndex.Proofs.Source.Indent
import CodeIndex.Proofs.Source.Span
import CodeIndex.Source.Chunk

/-!
No two chunks of a file start on one line.

* With braces, every block takes its lines (`braceResolved_nodup`);
* with indentation, no two headers stand on one line, and what a function has above it are decorators,
  which no header is (`indentResolved_nodup`);
* `ofFile_nodup` is that for every file.
-/
namespace CodeIndex

open Text Text.Pattern

/-! ## Ends of blocks -/

theorem le_blockEndFrom {start stop cap indent : Nat} {n : Braces.Count} {text line : Nat}
    {ls : List (List Char)} (hcap : start ≤ cap) (htext : start ≤ text) (hline : start ≤ line) :
    start ≤ blockEndFrom start stop cap indent n text line ls := by
  induction ls generalizing n text line with
  | nil => exact hcap
  | cons l ls ih =>
    rw [blockEndFrom]
    split
    · exact hcap
    · split
      · exact htext
      · simp only
        split
        · exact hline
        · split
          · exact hline
          · refine ih ?_ (Nat.le_succ_of_le hline)
            split
            · exact htext
            · exact hline

theorem le_blockEnd {ls : List (List Char)} {start : Nat} (h : start < ls.length) (limit : Nat) :
    start ≤ blockEnd ls start limit := by
  have hcap : start ≤ min (start + unbalancedExtent) (ls.length - 1) := by omega
  rw [blockEnd]
  split
  · exact hcap
  · exact le_blockEndFrom hcap (Nat.le_refl _) (Nat.le_refl _)

theorem blockEndFrom_lt {start stop cap indent count : Nat} {n : Braces.Count} {text line : Nat}
    {ls : List (List Char)} (hcap : cap < count) (htext : text < count)
    (hlines : line + ls.length ≤ count) :
    blockEndFrom start stop cap indent n text line ls < count := by
  induction ls generalizing n text line with
  | nil => exact hcap
  | cons l ls ih =>
    rw [List.length_cons] at hlines
    have hline : line < count := by omega
    rw [blockEndFrom]
    split
    · exact hcap
    · split
      · exact htext
      · simp only
        split
        · exact hline
        · split
          · exact hline
          · refine ih ?_ (by omega)
            split
            · exact htext
            · exact hline

theorem blockEnd_lt {ls : List (List Char)} {start : Nat} (h : start < ls.length) (limit : Nat) :
    blockEnd ls start limit < ls.length := by
  have hcap : min (start + unbalancedExtent) (ls.length - 1) < ls.length := by omega
  rw [blockEnd]
  split
  · exact hcap
  · rename_i l rest hdrop
    refine blockEndFrom_lt hcap h ?_
    rw [← hdrop, List.length_drop]
    omega

namespace Chunk

/-! ## Braces -/

variable {ls : List (List Char)} {starts : List Nat} {scanLines : Nat} {content : List Char}

/-- A span comes from a match that gives a name. -/
theorem mem_braceSpans {rule : Declaration.Rule} {s : Span} :
    s ∈ braceSpans ls starts scanLines content rule ↔
      ∃ f ∈ rule.pattern.findAll content, ∃ name, Declaration.foundName f = some name ∧
        lineOf starts f.offset < ls.length ∧
        s = ⟨rule.kind, name, lineOf starts f.offset,
          blockEnd ls (lineOf starts f.offset) scanLines, none⟩ := by
  simp only [braceSpans, List.mem_filterMap]
  refine exists_congr fun f => and_congr_right fun _ => ?_
  cases Declaration.foundName f with
  | none => simp
  | some name =>
    by_cases hline : ls.length ≤ lineOf starts f.offset
    · simp [hline, Nat.not_lt.2 hline]
    · simp [hline, Nat.not_le.1 hline, eq_comm]

/-- The spans of the rules have their lines in order. -/
theorem first_le_last {rules : List Declaration.Rule} :
    ∀ s ∈ rules.flatMap (braceSpans ls starts scanLines content), s.first ≤ s.last := by
  intro s hs
  obtain ⟨rule, -, hs⟩ := List.mem_flatMap.1 hs
  obtain ⟨f, -, name, -, hline, rfl⟩ := mem_braceSpans.1 hs
  exact le_blockEnd hline scanLines

theorem braceResolved_nodup (rules : List Declaration.Rule) (scanLines : Nat)
    (content : List Char) : ((braceResolved rules scanLines content).map (·.first)).Nodup :=
  Span.resolve_nodup first_le_last

theorem ofBraces_ordered (language : Language) (rules : List Declaration.Rule) (scanLines : Nat)
    (path : String) (content : List Char) :
    (ofBraces language rules scanLines path content).Pairwise fun c d =>
      c.lastLine < d.firstLine :=
  List.pairwise_map.2 ((Span.resolve_ordered _).imp fun h => Nat.succ_lt_succ h)

/-! ## Indentation -/

theorem headerLine?_eq_some {f : Found} {x : Nat × String}
    (h : headerLine? ls starts f = some x) : x.1 = lineOf starts f.offset ∧ x.1 < ls.length := by
  simp only [headerLine?] at h
  split at h
  · cases h
  · rename_i hline
    obtain ⟨name, -, rfl⟩ := Option.map_eq_some_iff.1 h
    exact ⟨rfl, Nat.lt_of_not_le hline⟩

theorem headerLines_pairwise (q : Pattern) (content : List Char) (ls : List (List Char)) :
    (((seq lineStart q).findAll content).filterMap
      (headerLine? ls (lineStarts content))).Pairwise fun x y => x.1 < y.1 := by
  refine List.Pairwise.filterMap _ (fun f g hlt x hx y hy => ?_)
    (matches_on_different_lines q content)
  rw [(headerLine?_eq_some hx).1, (headerLine?_eq_some hy).1]
  exact hlt

/-- The headers of classes and functions, by line and name. -/
def classHeaders (content : List Char) : List (Nat × String) :=
  (Declaration.pythonClass.findAll content).filterMap
    (headerLine? (lines content) (lineStarts content))

def defHeaders (content : List Char) : List (Nat × String) :=
  (Declaration.pythonDef.findAll content).filterMap
    (headerLine? (lines content) (lineStarts content))

theorem leadingChar_of_classHeader {x : Nat × String} (h : x ∈ classHeaders content) :
    Declaration.leadingChar ((lines content).getD x.1 []) = some 'c' := by
  obtain ⟨f, hf, hx⟩ := List.mem_filterMap.1 h
  obtain ⟨pre, rest, rfl, hat⟩ := mem_findAll hf
  rw [(headerLine?_eq_some hx).1, line_of_found hat]
  exact Declaration.leadingChar_of_class hat

theorem leadingChar_of_defHeader {x : Nat × String} (h : x ∈ defHeaders content) :
    Declaration.leadingChar ((lines content).getD x.1 []) = some 'a' ∨
      Declaration.leadingChar ((lines content).getD x.1 []) = some 'd' := by
  obtain ⟨f, hf, hx⟩ := List.mem_filterMap.1 h
  obtain ⟨pre, rest, rfl, hat⟩ := mem_findAll hf
  rw [(headerLine?_eq_some hx).1, line_of_found hat]
  exact Declaration.leadingChar_of_def hat

theorem classSpans_eq (content : List Char) :
    classSpans (lines content) (lineStarts content) content =
      (classHeaders content).map fun x =>
        ⟨.classType, x.2, x.1, Indent.blockEnd (lines content) x.1, none⟩ := by
  rw [classHeaders, List.map_filterMap]
  rfl

theorem defSpans_eq (classes : List Span) (content : List Char) :
    defSpans (lines content) (lineStarts content) classes content =
      (defHeaders content).map fun x =>
        let parent := Indent.enclosingClass (lines content) x.1 classes
        ⟨if parent.isSome then .method else .function, x.2,
          Indent.decoratorStart (lines content) x.1, Indent.blockEnd (lines content) x.1,
          parent⟩ := by
  rw [defHeaders, List.map_filterMap]
  rfl

/-- A line that is led by a letter is code and no decorator. -/
theorem region_of_leadingChar {line : Nat} {c : Char} (hline : line < ls.length)
    (h : Declaration.leadingChar (ls.getD line []) = some c) (hmark : c ≠ '#' ∧ c ≠ '@') :
    Indent.Region ls line line := by
  refine ⟨Nat.le_refl _, hline, Indent.isCode_of_head? h hmark.1, ?_, fun k hle hlt => ?_⟩
  · rw [Declaration.leadingChar] at h
    rw [Indent.isDecorator, h]
    simpa using hmark.2
  · exact absurd hlt (Nat.not_lt.2 hle)

theorem region_of_classHeader {x : Nat × String} (hx : x ∈ classHeaders content) :
    Indent.Region (lines content) x.1 x.1 := by
  obtain ⟨f, -, hf⟩ := List.mem_filterMap.1 hx
  exact region_of_leadingChar (headerLine?_eq_some hf).2 (leadingChar_of_classHeader hx) (by decide)

theorem region_of_defHeader {x : Nat × String} (hx : x ∈ defHeaders content) :
    Indent.Region (lines content) (Indent.decoratorStart (lines content) x.1) x.1 := by
  obtain ⟨f, -, hf⟩ := List.mem_filterMap.1 hx
  have hline := (headerLine?_eq_some hf).2
  rcases leadingChar_of_defHeader hx with h | h
  · exact (region_of_leadingChar hline h (by decide)).decorated
  · exact (region_of_leadingChar hline h (by decide)).decorated

/-- No class has its header on the line of a function's. -/
theorem class_ne_def {x y : Nat × String} (hx : x ∈ classHeaders content)
    (hy : y ∈ defHeaders content) : x.1 ≠ y.1 := by
  intro heq
  have hclass := leadingChar_of_classHeader hx
  rw [heq] at hclass
  rcases leadingChar_of_defHeader hy with h | h
  · rw [h] at hclass
    cases hclass
  · rw [h] at hclass
    cases hclass

theorem classSpans_increasing (content : List Char) :
    (classSpans (lines content) (lineStarts content) content).Pairwise fun s t =>
      s.first < t.first := by
  rw [classSpans_eq]
  exact List.pairwise_map.2 (headerLines_pairwise _ content _)

/-- The spans of functions do too: the header of an earlier one is no decorator of a later one. -/
theorem defSpans_increasing (classes : List Span) (content : List Char) :
    (defSpans (lines content) (lineStarts content) classes content).Pairwise fun s t =>
      s.first < t.first := by
  rw [defSpans_eq]
  refine List.pairwise_map.2 ((headerLines_pairwise _ content _).imp_of_mem fun hx hy hlt => ?_)
  exact Nat.lt_of_le_of_lt (Indent.decoratorStart_le _ _)
    ((region_of_defHeader hx).header_lt_first (region_of_defHeader hy) hlt)

/-- No class and no function start on one line. -/
theorem first_ne_of_class_of_def {classes : List Span} {s t : Span}
    (hs : s ∈ classSpans (lines content) (lineStarts content) content)
    (ht : t ∈ defSpans (lines content) (lineStarts content) classes content) :
    s.first ≠ t.first := by
  rw [classSpans_eq] at hs
  rw [defSpans_eq] at ht
  obtain ⟨x, hx, rfl⟩ := List.mem_map.1 hs
  obtain ⟨y, hy, rfl⟩ := List.mem_map.1 ht
  intro heq
  rcases Nat.lt_or_ge x.1 y.1 with hlt | hge
  · exact absurd heq (Nat.ne_of_lt
      ((region_of_classHeader hx).header_lt_first (region_of_defHeader hy) hlt))
  · refine class_ne_def hx hy (Nat.le_antisymm ?_ hge)
    exact (congrArg (· ≤ y.1) heq).mpr (Indent.decoratorStart_le _ _)

theorem indentSpans_nodup (content : List Char) (classes : List Span) :
    ((classSpans (lines content) (lineStarts content) content ++
      defSpans (lines content) (lineStarts content) classes content).map (·.first)).Nodup := by
  rw [List.map_append]
  refine List.nodup_append.2 ⟨?_, ?_, ?_⟩
  · exact List.pairwise_map.2 ((classSpans_increasing content).imp Nat.ne_of_lt)
  · exact List.pairwise_map.2 ((defSpans_increasing classes content).imp Nat.ne_of_lt)
  · rintro a ha b hb rfl
    obtain ⟨s, hs, rfl⟩ := List.mem_map.1 ha
    obtain ⟨t, ht, heq⟩ := List.mem_map.1 hb
    exact first_ne_of_class_of_def hs ht heq.symm

theorem indentResolved_nodup (content : List Char) :
    ((indentResolved content).map (·.first)).Nodup :=
  Span.resolve_nodup_of_nodup (indentSpans_nodup content _)

/-! ## Files -/

/-- The chunks of spans that start on different lines. -/
theorem map_ofSpan_nodup {path : String} {language : Language} {patterns : List Pattern}
    {ls : List (List Char)} {spans : List Span} (h : (spans.map (·.first)).Nodup) :
    ((spans.map (ofSpan path language patterns ls)).map (·.firstLine)).Nodup := by
  rw [List.map_map]
  refine List.pairwise_map.2 ((List.pairwise_map.1 h).imp fun hne heq => hne ?_)
  simpa [ofSpan] using heq

theorem firstLine_numbered (cs : List Chunk) :
    (numbered cs).map (·.firstLine) = cs.map (·.firstLine) :=
  List.ext_getElem (by simp [numbered]) (by simp [numbered])

/-- What does not depend on the position of a chunk holds of numbered chunks. -/
theorem forall_numbered {P : Chunk → Prop} (hP : ∀ c i, P c → P { c with index := i })
    {cs : List Chunk} (h : ∀ c ∈ cs, P c) : ∀ c ∈ numbered cs, P c := by
  intro c hc
  obtain ⟨i, hi, rfl⟩ := List.mem_mapIdx.1 hc
  exact hP _ _ (h _ (List.getElem_mem hi))

theorem exists_numbered {c : Chunk} {cs : List Chunk} (h : c ∈ cs) :
    ∃ i, { c with index := i } ∈ numbered cs := by
  obtain ⟨i, hi, rfl⟩ := List.mem_iff_getElem.1 h
  exact ⟨i, List.mem_mapIdx.2 ⟨i, hi, rfl⟩⟩

theorem numbered_pairwise {R : Chunk → Chunk → Prop}
    (hR : ∀ c d i j, R c d → R { c with index := i } { d with index := j }) {cs : List Chunk}
    (h : cs.Pairwise R) : (numbered cs).Pairwise R := by
  rw [List.pairwise_iff_getElem] at h ⊢
  intro i j hi hj hlt
  simp only [numbered, List.length_mapIdx] at hi hj
  simp only [numbered, List.getElem_mapIdx]
  exact hR _ _ _ _ (h i j hi hj hlt)

/-- **No two chunks of a file start on one line.** -/
theorem ofFile_nodup (limits : ChunkLimits) (path content : String) :
    ((ofFile limits path content).map (·.firstLine)).Nodup := by
  simp only [ofFile, firstLine_numbered]
  split
  · exact map_ofSpan_nodup (braceResolved_nodup _ _ _)
  · exact map_ofSpan_nodup (braceResolved_nodup _ _ _)
  · exact map_ofSpan_nodup (braceResolved_nodup _ _ _)
  · exact map_ofSpan_nodup (indentResolved_nodup _)
  · exact List.nodup_singleton _

/-- A chunk has a path and declares no name twice. -/
def InFile (key : String) (c : Chunk) : Prop := c.filePath = key ∧ c.symbols.Nodup

theorem inFile_ofSpan {path : String} {language : Language} {patterns : List Pattern}
    {ls : List (List Char)} {spans : List Span} :
    ∀ c ∈ spans.map (ofSpan path language patterns ls), c.InFile path := by
  intro c hc
  obtain ⟨s, -, rfl⟩ := List.mem_map.1 hc
  exact ⟨rfl, Declaration.declaredNames_nodup _ _⟩

theorem inFile_ofFile (limits : ChunkLimits) (path content : String) :
    ∀ c ∈ ofFile limits path content, c.InFile (Path.key path) := by
  refine forall_numbered (fun c i h => h) ?_
  split
  · exact inFile_ofSpan
  · exact inFile_ofSpan
  · exact inFile_ofSpan
  · exact inFile_ofSpan
  · intro c hc
    rw [List.mem_singleton.1 hc]
    exact ⟨rfl, List.nodup_nil⟩

end Chunk

end CodeIndex
