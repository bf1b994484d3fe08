import CodeIndex.Proofs.Source.Chunk

/-!
The chunks of a file in Python, and how they lie in each other.

* Every header of a class or a function has one chunk (`ofIndent_one_per_header`): a function is a method
  as soon as it starts on a line of a class, and only other functions may be dropped there;
* the lines of two chunks are apart, or the one has all lines of the other, and a function is a method
  just where a class has all of its lines (`ofIndent_nested`).
-/
namespace CodeIndex

open Text Text.Pattern Declaration

/-- The lines of a span are among those of another. -/
def Span.Within (s t : Span) : Prop := t.first ≤ s.first ∧ s.last ≤ t.last

namespace Chunk

variable {content : List Char} {path : String} {s t : Span} {header : Nat}

/-! ## Headers -/

/-- The name that a match captures. -/
def captured (f : Found) : Option String := f.name.map String.ofList

theorem headerLine?_of_mem {p : Pattern} (hp : p ∈ pythonRules) {f : Found}
    (hf : f ∈ p.findAll content) :
    ∃ name, captured f = some name ∧
      headerLine? (lines content) (lineStarts content) f = some (startLine content f, name) := by
  have hline := startLine_lt (headsLine_of_python p hp) hf
  obtain ⟨pre, rest, rfl, hat⟩ := mem_findAll hf
  obtain ⟨stop, hstop, -, hname⟩ := foundAt_way hat
  have hsome := ends_name (givesName_of_python p hp) (Cursor.after_between pre rest) hstop
  rw [← hname] at hsome
  obtain ⟨x, hx⟩ := Option.isSome_iff_exists.1 hsome
  refine ⟨String.ofList x, by rw [captured, hx]; rfl, ?_⟩
  rw [headerLine?]
  simp only [startLine] at hline ⊢
  rw [if_neg (Nat.not_le.2 hline), hx]
  rfl

theorem map_headers {p : Pattern} (hp : p ∈ pythonRules) {β : Type} (g : Option String × Nat → β) :
    (((p.findAll content).filterMap (headerLine? (lines content) (lineStarts content))).map
      fun x => g (some x.2, x.1)) =
      (p.findAll content).map fun f => g (captured f, startLine content f) := by
  rw [List.map_filterMap, ← List.filterMap_eq_map]
  refine List.filterMap_congr fun f hf => ?_
  obtain ⟨name, hname, hline⟩ := headerLine?_of_mem hp hf
  rw [hline, Function.comp_apply, hname]
  rfl

/-! ## Spans -/

/-- The spans of the classes of a file. -/
def pythonClasses (content : List Char) : List Span :=
  classSpans (lines content) (lineStarts content) content

/-- The spans of its functions and methods. -/
def pythonDefs (content : List Char) : List Span :=
  defSpans (lines content) (lineStarts content) (pythonClasses content) content

/-- A span goes from the first line of a region to the end of the block of its header. -/
structure Stands (content : List Char) (s : Span) (header : Nat) : Prop where
  region : Indent.Region (lines content) s.first header
  last : s.last = Indent.blockEnd (lines content) header

theorem stands_of_class (h : s ∈ pythonClasses content) :
    Stands content s s.first ∧ s.kind = .classType := by
  rw [pythonClasses, classSpans_eq] at h
  obtain ⟨x, hx, rfl⟩ := List.mem_map.1 h
  exact ⟨⟨region_of_classHeader hx, rfl⟩, rfl⟩

theorem stands_of_def (h : s ∈ pythonDefs content) :
    ∃ header, Stands content s header ∧ (∀ t ∈ pythonClasses content, t.first ≠ header) ∧
      s.parent = Indent.enclosingClass (lines content) header (pythonClasses content) ∧
      s.kind = if s.parent.isSome then .method else .function := by
  rw [pythonDefs, defSpans_eq] at h
  obtain ⟨x, hx, rfl⟩ := List.mem_map.1 h
  refine ⟨x.1, ⟨region_of_defHeader hx, rfl⟩, fun t ht => ?_, rfl, rfl⟩
  rw [pythonClasses, classSpans_eq] at ht
  obtain ⟨y, hy, rfl⟩ := List.mem_map.1 ht
  exact class_ne_def hy hx

theorem exists_stands (h : s ∈ pythonClasses content ++ pythonDefs content) :
    ∃ header, Stands content s header := by
  rcases List.mem_append.1 h with h | h
  · exact ⟨_, (stands_of_class h).1⟩
  · obtain ⟨header, hs, -⟩ := stands_of_def h
    exact ⟨header, hs⟩

theorem Stands.header_le (h : Stands content s header) : header ≤ s.last :=
  h.last ▸ h.region.block.first_le

theorem Stands.after_or_within {header' : Nat} (h : Stands content s header)
    (h' : Stands content t header') (hlt : header < header') : s.last < t.first ∨ t.Within s := by
  rw [Span.Within, h.last, h'.last]
  rcases h.region.after_or_within h'.region hlt with hafter | ⟨hfirst, -, -, hlast⟩
  · exact .inl hafter
  · exact .inr ⟨Nat.le_trans h.region.first_le (Nat.le_of_lt hfirst), hlast⟩

/-- **Two spans are apart, or one is within the other.** -/
theorem Stands.nested {header' : Nat} (h : Stands content s header)
    (h' : Stands content t header') :
    s.last < t.first ∨ t.last < s.first ∨ s.Within t ∨ t.Within s := by
  rcases Nat.lt_trichotomy header header' with hlt | rfl | hlt
  · exact (h.after_or_within h' hlt).imp id fun hwithin => .inr (.inr hwithin)
  · -- one header has one block, so only the first lines may differ
    have hlast : s.last = t.last := h.last.trans h'.last.symm
    rcases Nat.le_total t.first s.first with hle | hle
    · exact .inr (.inr (.inl ⟨hle, Nat.le_of_eq hlast⟩))
    · exact .inr (.inr (.inr ⟨hle, Nat.le_of_eq hlast.symm⟩))
  · rcases h'.after_or_within h hlt with hafter | hwithin
    · exact .inr (.inl hafter)
    · exact .inr (.inr (.inl hwithin))

/-! ## Classes around functions -/

variable {c d : Span}

theorem within_of_covers (hc : c ∈ pythonClasses content) (hs : Stands content s header)
    (hne : c.first ≠ header) (hcovers : c.covers s.first = true) : s.Within c := by
  rw [Span.covers, Bool.and_eq_true, decide_eq_true_eq, decide_eq_true_eq] at hcovers
  have hfirst := hs.region.first_le
  rcases (stands_of_class hc).1.after_or_within hs (by omega) with hafter | hwithin
  · omega
  · exact hwithin

theorem encloses_iff (hc : c ∈ pythonClasses content) (hs : Stands content s header)
    (hne : c.first ≠ header) :
    Indent.encloses (lines content) header c = true ↔ s.Within c := by
  obtain ⟨hclass, -⟩ := stands_of_class hc
  have hfirst := hs.region.first_le
  have hlast := hs.header_le
  simp only [Indent.encloses, Bool.and_eq_true, decide_eq_true_eq]
  constructor
  · rintro ⟨⟨hlt, hle⟩, -⟩
    rcases hclass.after_or_within hs hlt with hafter | hwithin
    · omega
    · exact hwithin
  · rintro ⟨hle, hge⟩
    have hlt : c.first < header := by omega
    rcases hclass.region.after_or_within hs.region hlt with hafter | ⟨-, -, hdepth, -⟩
    · rw [← hclass.last] at hafter
      omega
    · exact ⟨⟨hlt, by omega⟩, hdepth⟩

/-- **A function is a method just where a class has all of its lines**, and belongs to the class within
all others that do. -/
theorem method_cases (hs : s ∈ pythonDefs content) :
    (s.kind = .function ∧ s.parent = none ∧ ∀ c ∈ pythonClasses content, ¬ s.Within c) ∨
      s.kind = .method ∧ ∃ c ∈ pythonClasses content, s.Within c ∧ s.parent = some c.name ∧
        ∀ d ∈ pythonClasses content, s.Within d → c.Within d := by
  obtain ⟨header, hstands, hne, hparent, hkind⟩ := stands_of_def hs
  cases henclosing : Indent.enclosingClass (lines content) header (pythonClasses content) with
  | none =>
    rw [henclosing] at hparent
    refine .inl ⟨by simp [hkind, hparent], hparent, fun c hc hwithin => ?_⟩
    have hencloses := (encloses_iff hc hstands (hne c hc)).2 hwithin
    rw [Indent.enclosingClass_eq_none.1 henclosing c hc] at hencloses
    cases hencloses
  | some name =>
    rw [henclosing] at hparent
    obtain ⟨c, hc, hencloses, rfl, hlatest⟩ := Indent.enclosingClass_eq_some henclosing
    have hwithin := (encloses_iff hc hstands (hne c hc)).1 hencloses
    refine .inr ⟨by simp [hkind, hparent], c, hc, hwithin, hparent, fun d hd hsd => ?_⟩
    have hle := hlatest d hd ((encloses_iff hd hstands (hne d hd)).2 hsd)
    obtain ⟨hclass, -⟩ := stands_of_class hc
    obtain ⟨hother, -⟩ := stands_of_class hd
    -- both classes have the header, so the one that starts later is within the other
    rcases Nat.eq_or_lt_of_le hle with heq | hlt
    · refine ⟨hle, Nat.le_of_eq ?_⟩
      rw [hclass.last, hother.last, heq]
    · have hbelow := hstands.header_le
      have hfirst := hstands.region.first_le
      refine (hother.after_or_within hclass hlt).resolve_left fun hafter => ?_
      have := hwithin.1
      have := hsd.2
      omega

/-! ## Chunks -/

theorem kind_ne_of_def (h : s ∈ pythonDefs content) : s.kind ≠ .classType := by
  rcases method_cases h with ⟨hkind, -⟩ | ⟨hkind, -⟩
  · simp [hkind]
  · simp [hkind]

/-- **No function is dropped**: one that starts on a line of a class is a method. -/
theorem indentResolved_perm (content : List Char) :
    (indentResolved content).Perm (pythonClasses content ++ pythonDefs content) := by
  refine Span.resolve_perm fun s hs hyields t ht htakes => Bool.eq_false_iff.2 fun hcovers => ?_
  rw [Span.yields, beq_iff_eq] at hyields
  rw [Span.takes, beq_iff_eq] at htakes
  have hdef : s ∈ pythonDefs content := (List.mem_append.1 hs).resolve_left fun hclass => by
    rw [(stands_of_class hclass).2] at hyields
    cases hyields
  have hclass : t ∈ pythonClasses content :=
    (List.mem_append.1 ht).resolve_right fun hdef => kind_ne_of_def hdef htakes
  obtain ⟨header, hstands, hne, -⟩ := stands_of_def hdef
  rcases method_cases hdef with ⟨-, -, hnone⟩ | ⟨hkind, -⟩
  · exact hnone t hclass (within_of_covers hclass hstands (hne t hclass) hcovers)
  · rw [hkind] at hyields
    cases hyields

theorem indentResolved_increasing (content : List Char) :
    (indentResolved content).Pairwise fun s t => s.first < t.first :=
  Span.resolve_increasing (indentSpans_nodup content _)

/-- The classes among the spans that are kept are those given, in order, and so are the functions. -/
theorem filter_classes (content : List Char) :
    (indentResolved content).filter (·.kind = .classType) = pythonClasses content := by
  refine Span.filter_of_perm (indentResolved_perm content) (indentResolved_increasing content)
    (classSpans_increasing content) (fun s hs => ?_) fun s hs => ?_
  · simpa using (stands_of_class hs).2
  · simpa using kind_ne_of_def hs

theorem filter_defs (content : List Char) :
    (indentResolved content).filter (·.kind ≠ .classType) = pythonDefs content := by
  refine Span.filter_of_perm ((indentResolved_perm content).trans List.perm_append_comm)
    (indentResolved_increasing content) (defSpans_increasing _ content) (fun s hs => ?_)
    fun s hs => ?_
  · simpa using kind_ne_of_def hs
  · simpa using (stands_of_class hs).2

/-- What a chunk is called and the lines it goes over. -/
def label (c : Chunk) : Option String × Nat × Nat := (c.name, c.firstLine, c.lastLine)

/-- **Every header of a class or a function has one chunk**, whatever the text: the chunks of classes are,
in order, one for each match of their header, and the others one for each match of the header of a
function, from its first decorator on. No two start on one line, and no span is dropped. -/
theorem ofIndent_one_per_header (path : String) (content : List Char) :
    ((ofIndent path content).filter (·.kind = .classType)).map label =
      ((pythonClass.findAll content).map fun f =>
        let line := startLine content f
        (captured f, line + 1, Indent.blockEnd (lines content) line + 1)) ∧
    ((ofIndent path content).filter (·.kind ≠ .classType)).map label =
      ((pythonDef.findAll content).map fun f =>
        let line := startLine content f
        (captured f, Indent.decoratorStart (lines content) line + 1,
          Indent.blockEnd (lines content) line + 1)) ∧
    ((ofIndent path content).Pairwise fun c d => c.firstLine < d.firstLine) ∧
    (indentResolved content).Perm (pythonClasses content ++ pythonDefs content) := by
  refine ⟨?_, ?_, ?_, indentResolved_perm content⟩
  · rw [ofIndent, List.filter_map]
    change (((indentResolved content).filter (·.kind = .classType)).map _).map label = _
    rw [filter_classes, pythonClasses, classSpans_eq, List.map_map, List.map_map]
    exact map_headers (List.mem_cons_self) fun x =>
      (x.1, x.2 + 1, Indent.blockEnd (lines content) x.2 + 1)
  · rw [ofIndent, List.filter_map]
    change (((indentResolved content).filter (·.kind ≠ .classType)).map _).map label = _
    rw [filter_defs, pythonDefs, defSpans_eq, List.map_map, List.map_map]
    exact map_headers (List.mem_cons_of_mem _ List.mem_cons_self) fun x =>
      (x.1, Indent.decoratorStart (lines content) x.2 + 1,
        Indent.blockEnd (lines content) x.2 + 1)
  · exact List.pairwise_map.2 ((indentResolved_increasing content).imp Nat.succ_lt_succ)

/-! ## Chunks around chunks -/

/-- The lines of a chunk are among those of another. -/
def Within (c d : Chunk) : Prop := d.firstLine ≤ c.firstLine ∧ c.lastLine ≤ d.lastLine

/-- Two chunks have no line in common. -/
def Apart (c d : Chunk) : Prop := c.lastLine < d.firstLine ∨ d.lastLine < c.firstLine

/-- A class among chunks that has all lines of a chunk. -/
structure ClassAround (cs : List Chunk) (c k : Chunk) : Prop where
  mem : k ∈ cs
  kind : k.kind = .classType
  within : c.Within k

/-- The smallest one: all others have its lines too. -/
structure Innermost (cs : List Chunk) (c k : Chunk) : Prop where
  around : ClassAround cs c k
  smallest : ∀ other, ClassAround cs c other → k.Within other

theorem mem_ofIndent {c : Chunk} :
    c ∈ ofIndent path content ↔
      ∃ s ∈ pythonClasses content ++ pythonDefs content,
        ofSpan path .python pythonRules (lines content) s = c := by
  rw [ofIndent, List.mem_map]
  exact exists_congr fun s => and_congr_left' (indentResolved_perm content).mem_iff

theorem within_ofSpan {ls : List (List Char)} {language : Language} {patterns : List Pattern} :
    (ofSpan path language patterns ls s).Within (ofSpan path language patterns ls t) ↔
      s.Within t := by
  simp [Within, Span.Within, ofSpan]

theorem classAround_iff {k : Chunk} :
    ClassAround (ofIndent path content) (ofSpan path .python pythonRules (lines content) s) k ↔
      ∃ c ∈ pythonClasses content, s.Within c ∧
        ofSpan path .python pythonRules (lines content) c = k := by
  constructor
  · rintro ⟨hmem, hkind, hwithin⟩
    obtain ⟨c, hc, rfl⟩ := mem_ofIndent.1 hmem
    refine ⟨c, (List.mem_append.1 hc).resolve_right fun hdef => ?_, within_ofSpan.1 hwithin, rfl⟩
    exact kind_ne_of_def hdef hkind
  · rintro ⟨c, hc, hwithin, rfl⟩
    exact ⟨mem_ofIndent.2 ⟨c, List.mem_append_left _ hc, rfl⟩, (stands_of_class hc).2,
      within_ofSpan.2 hwithin⟩

theorem Innermost.unique {c k k' : Chunk} (h : Innermost (ofIndent path content) c k)
    (h' : Innermost (ofIndent path content) c k') : k' = k := by
  have hnodup : ((ofIndent path content).map (·.firstLine)).Nodup :=
    map_ofSpan_nodup (indentResolved_nodup content)
  refine List.inj_on_of_nodup_map hnodup h'.around.mem h.around.mem ?_
  exact Nat.le_antisymm (h.smallest k' h'.around).1 (h'.smallest k h.around).1

theorem apart_or_within {c d : Chunk} (hc : c ∈ ofIndent path content)
    (hd : d ∈ ofIndent path content) : c.Apart d ∨ c.Within d ∨ d.Within c := by
  obtain ⟨s, hs, rfl⟩ := mem_ofIndent.1 hc
  obtain ⟨t, ht, rfl⟩ := mem_ofIndent.1 hd
  obtain ⟨header, hstands⟩ := exists_stands hs
  obtain ⟨header', hstands'⟩ := exists_stands ht
  rw [within_ofSpan, within_ofSpan]
  rcases hstands.nested hstands' with h | h | h | h
  · exact .inl (.inl (Nat.succ_lt_succ h))
  · exact .inl (.inr (Nat.succ_lt_succ h))
  · exact .inr (.inl h)
  · exact .inr (.inr h)

/-- A chunk that is no class is a function without a class around it, or a method that names the
innermost one. -/
theorem function_or_method {c : Chunk} (hc : c ∈ ofIndent path content) (hkind : c.kind ≠ .classType) :
    (c.kind = .function ∧ c.parent = none ∧ ∀ k, ¬ ClassAround (ofIndent path content) c k) ∨
      c.kind = .method ∧ ∃ k, Innermost (ofIndent path content) c k ∧ c.parent = k.name := by
  obtain ⟨s, hs, rfl⟩ := mem_ofIndent.1 hc
  have hdef := (List.mem_append.1 hs).resolve_left fun hclass => hkind (stands_of_class hclass).2
  rcases method_cases hdef with ⟨hfunction, hparent, hnone⟩ | ⟨hmethod, k, hk, hwithin, hname, hmin⟩
  · refine .inl ⟨hfunction, hparent, fun k haround => ?_⟩
    obtain ⟨c, hclass, hin, -⟩ := classAround_iff.1 haround
    exact hnone c hclass hin
  · refine .inr ⟨hmethod, ofSpan path .python pythonRules (lines content) k, ⟨?_, ?_⟩, hname⟩
    · exact classAround_iff.2 ⟨k, hk, hwithin, rfl⟩
    · intro other hother
      obtain ⟨d, hd, hsd, rfl⟩ := classAround_iff.1 hother
      exact within_ofSpan.2 (hmin d hd hsd)

/-- **The chunks of a file in Python nest.** The lines of two chunks are apart, or all of the one are
lines of the other. A chunk that is no class is a method just where a class has all of its lines, and
names the smallest such class, of which there is one; else it is a function and names none. -/
theorem ofIndent_nested (path : String) (content : List Char) :
    (∀ c ∈ ofIndent path content, ∀ d ∈ ofIndent path content,
      c.Apart d ∨ c.Within d ∨ d.Within c) ∧
    ∀ c ∈ ofIndent path content, c.kind ≠ .classType →
      (c.kind = .method ↔ ∃ k, ClassAround (ofIndent path content) c k) ∧
      (c.kind = .method → ∃ k, Innermost (ofIndent path content) c k ∧ c.parent = k.name ∧
        ∀ other, Innermost (ofIndent path content) c other → other = k) ∧
      (c.kind ≠ .method → c.kind = .function ∧ c.parent = none) := by
  refine ⟨fun c hc d hd => apart_or_within hc hd, fun c hc hkind => ?_⟩
  rcases function_or_method hc hkind with ⟨hfunction, hparent, hnone⟩ | ⟨hmethod, k, hinner, hname⟩
  · have hno : c.kind ≠ .method := by simp [hfunction]
    refine ⟨⟨fun h => absurd h hno, ?_⟩, fun h => absurd h hno, fun _ => ⟨hfunction, hparent⟩⟩
    rintro ⟨k, haround⟩
    exact absurd haround (hnone k)
  · refine ⟨⟨fun _ => ⟨k, hinner.around⟩, fun _ => hmethod⟩, fun _ => ?_, fun h => absurd hmethod h⟩
    exact ⟨k, hinner, hname, fun _ hother => hinner.unique hother⟩

-- a method belongs to the inner class, decorator and all; the comment ends no class
example :
    (ofIndent "a.py"
      "class A:\n class B:\n  @w\n  def f():\n   x\n# note\n def g():\n  y\ndef h():\n z\n".toList).map
      (fun c => (c.name, c.parent, c.firstLine, c.lastLine)) =
    [(some "A", none, 1, 8), (some "B", none, 2, 5), (some "f", some "B", 3, 5),
      (some "g", some "A", 7, 8), (some "h", none, 9, 10)] := by cbv

end Chunk

end CodeIndex
