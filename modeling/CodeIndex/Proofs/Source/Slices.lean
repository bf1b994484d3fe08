import CodeIndex.Proofs.Source.Nesting
import CodeIndex.Proofs.Source.Symbols
import CodeIndex.Proofs.Text.OneLine

/-!
The names that a chunk declares, against those that the whole file does on its lines.

The patterns of Swift and of Python are patterns of one line. What such a pattern finds in a text is
what it finds on each line (`mem_foundLines`), so in lines that are cut out and joined again it finds
what it found on them before (`foundLines_lineRange`). The symbols of a chunk are therefore the names
that the whole file has on the lines of the chunk (`symbols_of_mem_ofFile`).
-/
namespace CodeIndex

open Text Text.Pattern

variable {p : Pattern} {s pre rest : List Char} {f : Found} {i : Nat}

/-! ## Lines of matches -/

/-- The matches of a pattern, each by the line on which it starts and the name it gives. -/
def foundLines (p : Pattern) (s : List Char) : List (Nat × Option (List Char)) :=
  (p.findAll s).map fun f => (startLine s f, f.name)

theorem not_swallowed (hp : p.oneLine = true) (hpre : AtLineStart pre) {g : Found}
    (hg : g ∈ p.findAll (pre ++ rest)) (hlt : g.offset < bytes pre) : g.stop ≤ bytes pre := by
  obtain ⟨q, rfl, hq, -⟩ := exists_of_oneLine hp
  obtain ⟨pre', rest', heq, hat⟩ := mem_findAll hg
  obtain ⟨-, stop, hstop, hgstop⟩ := atLineStart_of_found hat
  obtain ⟨m, hm⟩ := ends_after (Cursor.after_between pre' rest') hstop
  have hline := not_mem_of_avoids (avoids_of_inLine hq) (Cursor.after_between pre' rest') hstop hm
  rw [foundAt_offset hat] at hlt
  obtain ⟨d, hd, rfl, -⟩ := exists_of_bytes_lt heq.symm hlt
  rw [hgstop, hm.offset]
  by_contra hge
  -- the line starts inside of the match, after a newline of it
  obtain ⟨e, -, hpm, -⟩ :=
    exists_of_bytes_lt (heq.trans hm.text.symm) (Nat.lt_of_not_le hge)
  rw [List.append_assoc] at hpm
  rw [List.append_cancel_left hpm] at hline
  exact hline (List.mem_append_left _ (List.mem_of_getLast? (newline_of_atLineStart hpre hd)))

/-- **A pattern of one line finds in a text what it finds on each line.** -/
theorem mem_foundLines (hp : p.oneLine = true) {name : Option (List Char)} :
    (i, name) ∈ foundLines p s ↔ p.onLine ((lines s).getD i []) = some name := by
  have hone := hp
  obtain ⟨q, rfl, -, -⟩ := exists_of_oneLine hp
  simp only [foundLines, List.mem_map, Prod.mk.injEq]
  constructor
  · rintro ⟨f, hf, rfl, rfl⟩
    obtain ⟨pre, rest, rfl, hat⟩ := mem_findAll hf
    rw [startLine, line_of_found hat, ← foundAt_lineStart hone (atLineStart_of_found hat).1, hat]
    rfl
  · intro hname
    have hline : i < (lines s).length := by
      by_contra hge
      rw [List.getD_eq_getElem?_getD, List.getElem?_eq_none (Nat.le_of_not_lt hge),
        Option.getD_none, onLine_nil hone] at hname
      cases hname
    obtain ⟨pre, rest, rfl, hpre, rfl⟩ := exists_atLineStart hline
    rw [← foundAt_lineStart hone hpre] at hname
    obtain ⟨f, hat, rfl⟩ := Option.map_eq_some_iff.1 hname
    refine ⟨f, ?_, line_of_found hat, rfl⟩
    rcases found_or_swallowed hat with hf | ⟨g, hg, hlt, hgt⟩
    · exact hf
    · rw [foundAt_offset hat] at hlt hgt
      exact absurd (not_swallowed hone hpre hg hlt) (Nat.not_le.2 hgt)

theorem foundLines_pairwise (hp : p.oneLine = true) (s : List Char) :
    (foundLines p s).Pairwise fun x y => x.1 < y.1 := by
  obtain ⟨q, rfl, -, -⟩ := exists_of_oneLine hp
  exact List.pairwise_map.2 (matches_on_different_lines q s)

theorem eq_of_lines {l l' : List (Nat × Option (List Char))} (hl : l.Pairwise fun x y => x.1 < y.1)
    (hl' : l'.Pairwise fun x y => x.1 < y.1) (h : ∀ x, x ∈ l ↔ x ∈ l') : l = l' := by
  have hnodup : ∀ {l : List (Nat × Option (List Char))}, l.Pairwise (fun x y => x.1 < y.1) →
      l.Nodup := fun hl => hl.imp fun hlt heq => Nat.ne_of_lt hlt (congrArg Prod.fst heq)
  have hperm : l.Perm l' := (List.perm_ext_iff_of_nodup (hnodup hl) (hnodup hl')).2 h
  exact hperm.eq_of_pairwise (fun _ _ _ _ hlt hgt => absurd hgt (Nat.lt_asymm hlt)) hl hl'

/-! ## Lines cut out of a text -/

theorem getD_lineRange (ls : List (List Char)) (a b i : Nat) :
    (lineRange ls a b).getD i [] = if a + i ≤ b then ls.getD (a + i) [] else [] := by
  rw [lineRange, List.getD_eq_getElem?_getD, List.getElem?_take, List.getElem?_drop,
    List.getD_eq_getElem?_getD]
  by_cases h : a + i ≤ b
  · rw [if_pos h, if_pos (by omega)]
  · rw [if_neg h, if_neg (by omega)]
    rfl

/-- **In lines that are cut out and joined a pattern of one line finds what it found on them.** -/
theorem foundLines_lineRange (hp : p.oneLine = true) (s : List Char) (a b : Nat) :
    ((foundLines p (joinLines (lineRange (lines s) a b))).map fun x => (a + x.1, x.2)) =
      (foundLines p s).filter fun x => a ≤ x.1 ∧ x.1 ≤ b := by
  have hls : ∀ l ∈ lineRange (lines s) a b, '\n' ∉ l := fun l hl =>
    newline_not_mem_lines l (List.mem_of_mem_drop (List.mem_of_mem_take hl))
  refine eq_of_lines (List.pairwise_map.2 ?_) ((foundLines_pairwise hp s).filter _) ?_
  · exact (foundLines_pairwise hp _).imp fun hlt => Nat.add_lt_add_left hlt a
  rintro ⟨i, name⟩
  simp only [List.mem_map, List.mem_filter, decide_eq_true_eq, Prod.mk.injEq, Prod.exists,
    mem_foundLines hp, onLine_getD_joinLines hp hls, getD_lineRange]
  constructor
  · rintro ⟨j, name', hname, rfl, rfl⟩
    by_cases hj : a + j ≤ b
    · rw [if_pos hj] at hname
      exact ⟨hname, Nat.le_add_right a j, hj⟩
    · rw [if_neg hj, onLine_nil hp] at hname
      cases hname
  · rintro ⟨hname, hle, hge⟩
    refine ⟨i - a, name, ?_, Nat.add_sub_cancel' hle, rfl⟩
    rw [Nat.add_sub_cancel' hle, if_pos hge]
    exact hname

namespace Declaration

/-- The names that a pattern finds in lines cut out of a text are those it finds there in the text. -/
theorem names_lineRange (hp : p.oneLine = true) (s : List Char) (a b : Nat) :
    (p.findAll (joinLines (lineRange (lines s) a b))).filterMap foundName =
      ((p.findAll s).filter fun f => a ≤ startLine s f ∧ startLine s f ≤ b).filterMap foundName := by
  have hlines := congrArg (List.filterMap fun x => foundName ⟨0, 0, x.2⟩)
    (foundLines_lineRange hp s a b)
  simp only [foundLines, List.filter_map, List.filterMap_map] at hlines
  exact hlines

/-- The patterns of the declarations of a language. -/
def patternsOf : Language → List Pattern
  | .typescript | .javascript => typescript.map (·.pattern)
  | .swift => swift.map (·.pattern)
  | .python => pythonRules
  | .unknown => []

theorem oneLine_of_swift : ∀ p ∈ patternsOf .swift, p.oneLine = true := by decide

theorem oneLine_of_python : ∀ p ∈ patternsOf .python, p.oneLine = true := by decide

end Declaration

namespace Chunk

open Declaration

variable {content : List Char} {path : String} {language : Language} {t : Span}

theorem foundName_eq_captured (hp : p ∈ pythonRules) (hf : f ∈ p.findAll content) :
    foundName f = captured f := by
  have hfills : ∀ p ∈ pythonRules, p.fillsNames = true := by decide
  obtain ⟨pre, rest, rfl, hat⟩ := mem_findAll hf
  obtain ⟨stop, hstop, -, hname⟩ := foundAt_way hat
  have hfilled := ends_filled (hfills p hp) (Cursor.after_between pre rest) hstop nofun
  rw [← hname] at hfilled
  rw [foundName, captured]
  split
  · rename_i c x hx
    rw [hx]
    rfl
  · rename_i hempty
    cases hfname : f.name with
    | none => rfl
    | some x =>
      cases x with
      | nil => exact absurd hfname hfilled
      | cons c x => exact absurd hfname (hempty c x)

/-! ## Chunks -/

instance (c : Chunk) (line : Nat) : Decidable (c.hasLine line) :=
  inferInstanceAs (Decidable (c.firstLine ≤ line + 1 ∧ line + 1 ≤ c.lastLine))

/-- The names that a pattern finds in a text by matches that start on the lines of a chunk. -/
def foundOn (c : Chunk) (content : List Char) (p : Pattern) : List String :=
  ((p.findAll content).filter fun f => c.hasLine (startLine content f)).filterMap foundName

/-- A chunk declares the names that patterns find in the whole text on its lines, and every one of the
patterns finds the same names in the text of the chunk alone. -/
structure ShowsLines (content : List Char) (patterns : List Pattern) (c : Chunk) : Prop where
  alone : ∀ p ∈ patterns,
    (p.findAll c.content.toList).filterMap foundName = c.foundOn content p
  symbols : c.symbols = (patterns.flatMap (c.foundOn content)).eraseDups
  name : ∃ name ∈ c.symbols, c.name = some name

variable {patterns : List Pattern}

theorem alone_ofSpan (hp : p.oneLine = true) :
    (p.findAll (ofSpan path language patterns (lines content) t).content.toList).filterMap
        foundName =
      (ofSpan path language patterns (lines content) t).foundOn content p := by
  have hrange : (ofSpan path language patterns (lines content) t).content.toList =
      joinLines (lineRange (lines content) t.first t.last) := String.toList_ofList
  rw [hrange, names_lineRange hp, foundOn]
  simp only [hasLine_ofSpan]

theorem symbols_ofSpan (hpatterns : ∀ p ∈ patterns, p.oneLine = true) :
    (ofSpan path language patterns (lines content) t).symbols =
      (patterns.flatMap
        ((ofSpan path language patterns (lines content) t).foundOn content)).eraseDups := by
  have hsymbols : (ofSpan path language patterns (lines content) t).symbols =
      declaredNames patterns (ofSpan path language patterns (lines content) t).content.toList := by
    simp [ofSpan]
  rw [hsymbols, declaredNames]
  exact congrArg List.eraseDups (List.flatMap_congr fun p hp => alone_ofSpan (hpatterns p hp))

theorem showsLines_ofSpan (hpatterns : ∀ p ∈ patterns, p.oneLine = true) (hp : p ∈ patterns)
    (hf : f ∈ p.findAll content) (hname : foundName f = some t.name)
    (hfirst : t.first ≤ startLine content f) (hlast : startLine content f ≤ t.last) :
    (ofSpan path language patterns (lines content) t).ShowsLines content patterns := by
  refine ⟨fun p hp => alone_ofSpan (hpatterns p hp), symbols_ofSpan hpatterns, t.name, ?_, rfl⟩
  rw [symbols_ofSpan hpatterns, List.mem_eraseDups, List.mem_flatMap]
  refine ⟨p, hp, List.mem_filterMap.2 ⟨f, List.mem_filter.2 ⟨hf, ?_⟩, hname⟩⟩
  exact decide_eq_true (hasLine_ofSpan.2 ⟨hfirst, hlast⟩)

theorem exists_header {t : Span} (ht : t ∈ indentResolved content) :
    ∃ p ∈ pythonRules, ∃ f ∈ p.findAll content, foundName f = some t.name ∧
      t.first ≤ startLine content f ∧ startLine content f ≤ t.last := by
  rcases List.mem_append.1 ((indentResolved_perm content).mem_iff.1 ht) with hclass | hdef
  · have hle := (stands_of_class hclass).1.header_le
    obtain ⟨f, hf, hspan⟩ := List.mem_filterMap.1 hclass
    obtain ⟨name, hname, hline⟩ := headerLine?_of_mem List.mem_cons_self hf
    rw [hline] at hspan
    obtain rfl := Option.some.inj hspan
    refine ⟨_, List.mem_cons_self, f, hf, ?_, Nat.le_refl _, hle⟩
    rw [foundName_eq_captured List.mem_cons_self hf, hname]
  · have hmem : pythonDef ∈ pythonRules := List.mem_cons_of_mem _ List.mem_cons_self
    obtain ⟨f, hf, hspan⟩ := List.mem_filterMap.1 hdef
    obtain ⟨name, hname, hline⟩ := headerLine?_of_mem hmem hf
    rw [hline] at hspan
    obtain rfl := Option.some.inj hspan
    have hregion := region_of_defHeader (List.mem_filterMap.2 ⟨f, hf, hline⟩)
    refine ⟨_, hmem, f, hf, ?_, hregion.first_le, hregion.block.first_le⟩
    rw [foundName_eq_captured hmem hf, hname]

variable {limits : ChunkLimits} {path content : String}

/-- **The symbols of a chunk are the names on its lines.** In a file of Swift or Python, whatever its
text and its line ends, a chunk declares the names that the patterns of the language find in the whole
file by matches that start on its lines: pattern by pattern, in order, later repetitions left out. Every
pattern finds these names, neither more nor fewer, in the text of the chunk alone, and the name of the
chunk is one of its symbols. -/
theorem symbols_of_mem_ofFile
    (hlanguage : languageOf path = .swift ∨ languageOf path = .python) :
    ∀ c ∈ ofFile limits path content,
      c.ShowsLines content.toList (patternsOf (languageOf path)) := by
  rw [ofFile]
  rcases hlanguage with h | h
  · rw [h]
    refine forall_numbered (fun c i hc => ⟨hc.alone, hc.symbols, hc.name⟩) fun c hc => ?_
    obtain ⟨t, ht, rfl⟩ := List.mem_map.1 hc
    obtain ⟨rule, f, hcaptures, hfirst, hle⟩ := captures_of_mem_braceResolved ht
    exact showsLines_ofSpan oneLine_of_swift (List.mem_map_of_mem hcaptures.rule_mem)
      hcaptures.found hcaptures.name (Nat.le_of_eq hfirst) (hfirst ▸ hle)
  · rw [h]
    refine forall_numbered (fun c i hc => ⟨hc.alone, hc.symbols, hc.name⟩) fun c hc => ?_
    obtain ⟨t, ht, rfl⟩ := List.mem_map.1 hc
    obtain ⟨p, hp, f, hf, hname, hfirst, hlast⟩ := exists_header ht
    exact showsLines_ofSpan oneLine_of_python hp hf hname hfirst hlast

namespace Sample

/-- A file of Python whose lines end in a return and a newline: a class with a method, and in that a
function of the same name. -/
def returns : String :=
  "@x\r\nclass A:\r\n  @y\r\n  async def f(self):\r\n    def f ():\r\n      pass\r\n"

theorem indentResolved_returns : indentResolved returns.toList =
    [⟨.classType, "A", 1, 5, none⟩, ⟨.method, "f", 2, 5, some "A"⟩,
      ⟨.method, "f", 4, 5, some "A"⟩] := by
  have hspans : pythonClasses returns.toList ++ pythonDefs returns.toList =
      [⟨.classType, "A", 1, 5, none⟩, ⟨.method, "f", 2, 5, some "A"⟩,
        ⟨.method, "f", 4, 5, some "A"⟩] := by decide +kernel
  change Span.resolve .classesOnly (pythonClasses returns.toList ++ pythonDefs returns.toList) = _
  rw [hspans, Span.resolve, List.mergeSort_of_pairwise (by decide)]
  decide

end Sample

/-- The class declares itself and the name of its method, once. -/
theorem symbols_of_mem_ofFile_returns :
    (languageOf "a.py" = .swift ∨ languageOf "a.py" = .python) ∧
    (∀ c ∈ ofFile ⟨10, 10⟩ "a.py" Sample.returns,
      c.ShowsLines Sample.returns.toList (patternsOf (languageOf "a.py"))) ∧
    (ofFile ⟨10, 10⟩ "a.py" Sample.returns).map (fun c => (c.firstLine, c.lastLine, c.symbols)) =
      [(2, 6, ["A", "f"]), (3, 6, ["f"]), (5, 6, ["f"])] := by
  have hpython : languageOf "a.py" = .python := by decide +kernel
  refine ⟨.inr hpython, symbols_of_mem_ofFile (.inr hpython), ?_⟩
  rw [ofFile, hpython]
  simp only [ofIndent, Sample.indentResolved_returns]
  decide +kernel

end Chunk

end CodeIndex
