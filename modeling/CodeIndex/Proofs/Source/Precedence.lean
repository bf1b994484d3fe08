import CodeIndex.Proofs.Sorting
import CodeIndex.Proofs.Source.Symbols

/-!
Which rule a chunk has its kind and its name from.

Several rules match the header of one declaration, each a match of its own. All that they find there
ends where the block does, which the rule has no part in, so the spans of a line have one end
(`sameEnds_braceCandidates`). Then it makes no difference that longer spans go first
(`resolve_eq_keep`), and of the spans of a line the first that was given is kept
(`find?_of_mem_resolve`): that of the first rule that names the line.
-/
namespace CodeIndex

open Text Text.Pattern

namespace Span

variable {earlier l : List Span}

/-! ## Spans with one end -/

/-- The spans that start on one line end on one line. -/
def SameEnds (l : List Span) : Prop := ∀ s ∈ l, ∀ t ∈ l, s.first = t.first → s.last = t.last

theorem before_of_first_eq (h : SameEnds l) {s t : Span} (hs : s ∈ l) (ht : t ∈ l)
    (heq : s.first = t.first) : s.before t = true := by
  simp [before, extent, heq, h s hs t ht heq]

theorem filter_mergeSort_before (h : SameEnds l) (line : Nat) :
    (l.mergeSort before).filter (fun s => s.first = line) = l.filter fun s => s.first = line := by
  apply filter_mergeSort
  · exact fun _ _ _ => before_trans
  · exact before_total
  · intro s hs t ht hsl htl
    exact before_of_first_eq h hs ht ((of_decide_eq_true hsl).trans (of_decide_eq_true htl).symm)

theorem resolve_eq_keep (h : SameEnds l) :
    resolve .everyBlock l = keep .everyBlock [] (l.mergeSort fun s t => s.first ≤ t.first) := by
  have htrans : ∀ s t u : Span, decide (s.first ≤ t.first) = true →
      decide (t.first ≤ u.first) = true → decide (s.first ≤ u.first) = true := by
    simp only [decide_eq_true_eq]
    exact fun _ _ _ => Nat.le_trans
  have htotal : ∀ s t : Span,
      (decide (s.first ≤ t.first) || decide (t.first ≤ s.first)) = true := by
    simp only [Bool.or_eq_true, decide_eq_true_eq]
    exact fun _ _ => Nat.le_total _ _
  refine congrArg (keep .everyBlock []) ?_
  refine @eq_of_filter_key_eq Span Natᵒᵈ _ (fun s => OrderDual.toDual s.first) _ _ ?_ ?_
    fun line => ?_
  · refine (pairwise_mergeSort_before l).imp fun hst => ?_
    simp only [before, Bool.or_eq_true, Bool.and_eq_true, decide_eq_true_eq, beq_iff_eq] at hst
    rw [OrderDual.toDual_le_toDual]
    omega
  · exact (List.pairwise_mergeSort htrans htotal l).imp of_decide_eq_true
  · refine (filter_mergeSort_before h (OrderDual.ofDual line)).trans ?_
    refine (filter_mergeSort htrans htotal fun s _ t _ hsl htl => ?_).symm
    exact decide_eq_true
      (Nat.le_of_eq ((of_decide_eq_true hsl).trans (of_decide_eq_true htl).symm))

theorem find?_of_mem_keep (hl : ∀ s ∈ l, s.first ≤ s.last) {s : Span}
    (hs : s ∈ keep .everyBlock earlier l) : l.find? (fun t => t.first = s.first) = some s := by
  induction l generalizing earlier with
  | nil => cases hs
  | cons t l ih =>
    have hrest : ∀ s ∈ l, s.first ≤ s.last := fun s hs => hl s (List.mem_cons_of_mem _ hs)
    rw [keep_everyBlock_cons] at hs
    split at hs
    · rename_i htaken
      obtain ⟨u, hu, hcovers⟩ := List.any_eq_true.1 htaken
      have hne : t.first ≠ s.first := by
        intro heq
        rw [heq, not_covers_of_mem_keep hs hu] at hcovers
        cases hcovers
      rw [List.find?_cons_of_neg (by simpa using hne)]
      exact ih hrest hs
    · rcases List.mem_cons.1 hs with rfl | hs
      · exact List.find?_cons_of_pos (by simp)
      · have hne : t.first ≠ s.first := by
          intro heq
          have hcovers := not_covers_of_mem_keep hs List.mem_cons_self
          rw [← heq, covers_first (hl t List.mem_cons_self)] at hcovers
          cases hcovers
        rw [List.find?_cons_of_neg (by simpa using hne)]
        exact ih hrest hs

/-- Of the spans that start on one line and have one end the first that is given is kept, if any. -/
theorem find?_of_mem_resolve (hl : ∀ s ∈ l, s.first ≤ s.last) (h : SameEnds l) {s : Span}
    (hs : s ∈ resolve .everyBlock l) : l.find? (fun t => t.first = s.first) = some s := by
  have hsorted := find?_of_mem_keep (fun t ht => hl t (List.mem_mergeSort.1 ht)) hs
  rwa [← List.head?_filter, filter_mergeSort_before h, List.head?_filter] at hsorted

end Span

namespace Declaration

variable {rules : List Rule} {rule : Rule} {s : List Char} {line : Nat} {name : String}

/-! ## Names on a line -/

/-- A rule gives a name to a line: a match of its pattern that has the name starts there. -/
def Rule.Names (rule : Rule) (s : List Char) (line : Nat) (name : String) : Prop :=
  ∃ f ∈ rule.pattern.findAll s, startLine s f = line ∧ foundName f = some name

/-- The first of the rules that gives a name to a line, and that name. -/
structure FirstOn (rules : List Rule) (s : List Char) (line : Nat) (rule : Rule) (name : String) :
    Prop where
  names : rule.Names s line name
  ranks : ∃ earlier later, rules = earlier ++ rule :: later ∧
    ∀ r ∈ earlier, ∀ other, ¬ r.Names s line other

/-- A rule gives one name to a line, as its matches start on different lines. -/
theorem Rule.Names.unique (hrule : rule.pattern.headsLine = true) {name' : String}
    (h : rule.Names s line name) (h' : rule.Names s line name') : name = name' := by
  obtain ⟨f, hf, hline, hname⟩ := h
  obtain ⟨g, hg, hline', hname'⟩ := h'
  obtain ⟨q, hq⟩ : ∃ q, rule.pattern = seq lineStart q := by
    match rule.pattern, hrule with
    | seq lineStart q, _ => exact ⟨q, rfl⟩
  rw [hq] at hf hg
  have hlines : (((seq lineStart q).findAll s).map (startLine s)).Nodup :=
    List.pairwise_map.2 ((matches_on_different_lines q s).imp Nat.ne_of_lt)
  have hsame : f = g := List.inj_on_of_nodup_map hlines hf hg (hline.trans hline'.symm)
  rw [hsame, hname'] at hname
  exact (Option.some.inj hname).symm

open Classical in
theorem FirstOn.find?_eq (h : FirstOn rules s line rule name) :
    rules.find? (fun r => ∃ name, r.Names s line name) = some rule := by
  obtain ⟨earlier, later, hsplit, hnone⟩ := h.ranks
  refine List.find?_eq_some_iff_append.2 ⟨?_, earlier, later, hsplit, fun r hr => ?_⟩
  · exact decide_eq_true ⟨name, h.names⟩
  · simpa using hnone r hr

theorem FirstOn.unique (hrules : ∀ rule ∈ rules, rule.pattern.headsLine = true) {rule' : Rule}
    {name' : String} (h : FirstOn rules s line rule name) (h' : FirstOn rules s line rule' name') :
    rule' = rule ∧ name' = name := by
  obtain rfl : rule' = rule := Option.some.inj (h'.find?_eq.symm.trans h.find?_eq)
  have hrule := hrules rule' (List.mem_of_find?_eq_some h.find?_eq)
  exact ⟨rfl, h'.names.unique hrule h.names⟩

end Declaration

namespace Chunk

open Declaration

variable {rules : List Rule} {rule : Rule} {scanLines line : Nat} {content : List Char}

/-! ## Candidates -/

theorem sameEnds_braceCandidates (rules : List Rule) (scanLines : Nat) (content : List Char) :
    Span.SameEnds (braceCandidates rules scanLines content) := by
  have hlast : ∀ s ∈ braceCandidates rules scanLines content,
      s.last = blockEnd (lines content) s.first scanLines := by
    intro s hs
    obtain ⟨rule, -, hs⟩ := List.mem_flatMap.1 hs
    obtain ⟨f, -, name, -, -, rfl⟩ := mem_braceSpans.1 hs
    rfl
  intro s hs t ht heq
  rw [hlast s hs, hlast t ht, heq]

theorem exists_braceSpan (hrule : rule.pattern.headsLine = true) {name : String}
    (h : rule.Names content line name) :
    ∃ t ∈ braceSpans (lines content) (lineStarts content) scanLines content rule,
      t.first = line := by
  obtain ⟨f, hf, hline, hname⟩ := h
  exact ⟨_, mem_braceSpans.2 ⟨f, hf, name, hname, startLine_lt hrule hf, rfl⟩, hline⟩

/-- What is kept on a line has its kind and its name from the first rule that names the line. -/
theorem firstOn_of_mem_braceResolved (hrules : ∀ rule ∈ rules, rule.pattern.headsLine = true)
    {t : Span} (ht : t ∈ braceResolved rules scanLines content) :
    ∃ rule, FirstOn rules content t.first rule t.name ∧ t.kind = rule.kind := by
  have hfind := Span.find?_of_mem_resolve first_le_last
    (sameEnds_braceCandidates rules scanLines content) ht
  rw [List.find?_flatMap, List.findSome?_eq_some_iff] at hfind
  obtain ⟨earlier, rule, later, hsplit, hfound, hnone⟩ := hfind
  obtain ⟨f, hf, name, hname, -, hspan⟩ := mem_braceSpans.1 (List.mem_of_find?_eq_some hfound)
  refine ⟨rule, ⟨⟨f, hf, ?_, ?_⟩, earlier, later, hsplit, fun r hr other hother => ?_⟩, ?_⟩
  · rw [hspan]
    rfl
  · rw [hspan, hname]
  · have hheads := hrules r (hsplit ▸ List.mem_append_left _ hr)
    obtain ⟨u, hu, hline⟩ := exists_braceSpan hheads hother
    exact List.find?_eq_none.1 (hnone r hr) u hu (decide_eq_true hline)
  · rw [hspan]

/-! ## Files -/

/-- The rules of a language with braces. -/
def bracedRules? : Language → Option (List Rule)
  | .typescript | .javascript => some typescript
  | .swift => some swift
  | .python | .unknown => none

theorem headsLine_of_bracedRules {language : Language} (h : bracedRules? language = some rules) :
    ∀ rule ∈ rules, rule.pattern.headsLine = true := by
  cases language with
  | typescript => exact Option.some.inj h ▸ headsLine_of_typescript
  | javascript => exact Option.some.inj h ▸ headsLine_of_typescript
  | swift => exact Option.some.inj h ▸ headsLine_of_swift
  | python => cases h
  | unknown => cases h

variable {limits : ChunkLimits} {path content : String}

theorem ofFile_of_bracedRules (limits : ChunkLimits) (content : String)
    (h : bracedRules? (languageOf path) = some rules) :
    ofFile limits path content = numbered
      (ofBraces (languageOf path) rules limits.scanLines (Path.key path) content.toList) := by
  rw [ofFile]
  generalize languageOf path = language at h ⊢
  cases language with
  | typescript => exact Option.some.inj h ▸ rfl
  | javascript => exact Option.some.inj h ▸ rfl
  | swift => exact Option.some.inj h ▸ rfl
  | python => cases h
  | unknown => cases h

/-- **The first rule that names the first line of a chunk says what the chunk is**, in every language
with braces and for every limit: the chunk has the kind of the rule and the name that the rule gives
there, which is one. The matches of a rule are those that its pattern has one after another in the whole
file; what a match goes over is not looked at again by the same rule. All candidates that start on one
line end on one line, so they are put in order by their first lines alone, as if the longer one of a line
had no precedence. -/
theorem first_rule_says_kind_and_name (h : bracedRules? (languageOf path) = some rules) :
    (∀ c ∈ ofFile limits path content, ∃ line rule name, c.firstLine = line + 1 ∧
      FirstOn rules content.toList line rule name ∧
      (∀ rule' name', FirstOn rules content.toList line rule' name' →
        rule' = rule ∧ name' = name) ∧
      c.kind = rule.kind ∧ c.name = some name) ∧
    (∀ s ∈ braceCandidates rules limits.scanLines content.toList,
      ∀ t ∈ braceCandidates rules limits.scanLines content.toList,
        s.first = t.first → s.last = t.last) ∧
    braceResolved rules limits.scanLines content.toList = Span.keep .everyBlock []
      ((braceCandidates rules limits.scanLines content.toList).mergeSort
        fun s t => s.first ≤ t.first) := by
  have hrules := headsLine_of_bracedRules h
  have hends := sameEnds_braceCandidates rules limits.scanLines content.toList
  refine ⟨?_, hends, Span.resolve_eq_keep hends⟩
  rw [ofFile_of_bracedRules limits content h]
  refine forall_numbered (fun c i hc => hc) fun c hc => ?_
  obtain ⟨t, ht, rfl⟩ := List.mem_map.1 hc
  obtain ⟨rule, hfirst, hkind⟩ := firstOn_of_mem_braceResolved hrules ht
  exact ⟨t.first, rule, t.name, rfl, hfirst, fun _ _ => hfirst.unique hrules, hkind, rfl⟩

namespace Sample

/-- A component whose header goes over the line of a second one, and a hook. -/
def memo : String :=
  "const A = memo(\nconst B = (x) => x\nexport const useC = () => 1\n"

theorem braceResolved_memo : braceResolved typescript 10 memo.toList =
    [⟨.component, "A", 0, 0, none⟩, ⟨.arrowFunction, "B", 1, 1, none⟩,
      ⟨.hook, "useC", 2, 2, none⟩] := by
  have hspans : braceCandidates typescript 10 memo.toList =
      [⟨.hook, "useC", 2, 2, none⟩, ⟨.component, "A", 0, 0, none⟩,
        ⟨.arrowFunction, "B", 1, 1, none⟩, ⟨.arrowFunction, "useC", 2, 2, none⟩] := by
    decide +kernel
  change Span.resolve .everyBlock (braceCandidates typescript 10 memo.toList) = _
  rw [hspans, Span.resolve]
  simp [List.mergeSort, Span.before, Span.extent, Span.keep, Span.yields, Span.takes, Span.covers]

end Sample

/-- The last chunk is a hook, which has the form of an arrow function too. The second one is no
component: the match that names the first goes over its header. -/
theorem first_rule_says_kind_and_name_memo :
    bracedRules? (languageOf "a.ts") = some typescript ∧
    (∀ c ∈ ofFile ⟨10, 10⟩ "a.ts" Sample.memo, ∃ line rule name, c.firstLine = line + 1 ∧
      FirstOn typescript Sample.memo.toList line rule name ∧ c.kind = rule.kind ∧
      c.name = some name) ∧
    (ofFile ⟨10, 10⟩ "a.ts" Sample.memo).map (fun c => (c.firstLine, c.kind, c.name)) =
      [(1, ChunkKind.component, some "A"), (2, ChunkKind.arrowFunction, some "B"),
        (3, ChunkKind.hook, some "useC")] := by
  have hrules : bracedRules? (languageOf "a.ts") = some typescript := by decide +kernel
  refine ⟨hrules, fun c hc => ?_, ?_⟩
  · obtain ⟨line, rule, name, hline, hfirst, -, hkind, hname⟩ :=
      (first_rule_says_kind_and_name hrules).1 c hc
    exact ⟨line, rule, name, hline, hfirst, hkind, hname⟩
  · rw [ofFile_of_bracedRules _ _ hrules, ofBraces, Sample.braceResolved_memo]
    decide +kernel

end Chunk

end CodeIndex
