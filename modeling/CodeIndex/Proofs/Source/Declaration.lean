import CodeIndex.Proofs.Text.Pattern
import CodeIndex.Proofs.Text.Places
import CodeIndex.Source.Declaration

/-!
Where declarations stand, and what they declare.

A pattern of a declaration matches at the start of a line only, so its matches stand on different
lines (`matches_on_different_lines`). What a line starts with after its blanks tells the headers of
classes and functions of Python from each other and from decorators.
-/
namespace CodeIndex

open Text Text.Pattern

/-! ## Lines of matches -/

/-- The lines on which a match in a text starts and stops, counted from zero. -/
def startLine (s : List Char) (f : Found) : Nat := lineOf (lineStarts s) f.offset

def stopLine (s : List Char) (f : Found) : Nat := lineOf (lineStarts s) f.stop

variable {q : Pattern} {s pre rest : List Char} {f : Found}

theorem atLineStart_of_ends {here stop : Cursor} (h : here.After s pre)
    (hstop : stop ∈ (seq lineStart q).ends here) : AtLineStart pre ∧ stop ∈ q.ends here := by
  obtain ⟨mid, hmid, hrest⟩ := mem_ends_seq.1 hstop
  obtain ⟨hbefore, rfl⟩ := mem_ends_lineStart.1 hmid
  refine ⟨?_, hrest⟩
  rw [h.before] at hbefore
  exact hbefore.imp List.getLast?_eq_none_iff.1 id

theorem atLineStart_of_found (h : (seq lineStart q).foundAt pre rest = some f) :
    AtLineStart pre ∧ ∃ stop ∈ q.ends (.between pre rest), f.stop = stop.offset := by
  obtain ⟨stop, hstop, heq, -⟩ := foundAt_way h
  obtain ⟨hpre, hstop⟩ := atLineStart_of_ends (Cursor.after_between pre rest) hstop
  exact ⟨hpre, stop, hstop, heq⟩

theorem line_of_found (h : (seq lineStart q).foundAt pre rest = some f) :
    lineOf (lineStarts (pre ++ rest)) f.offset = pre.count '\n' := by
  rw [foundAt_offset h, lineOf_lineStarts]

theorem newline_of_atLineStart {d : List Char} (h : AtLineStart (pre ++ d)) (hd : d ≠ []) :
    d.getLast? = some '\n' := by
  rcases h with hnil | hlast
  · exact absurd (List.append_eq_nil_iff.1 hnil).2 hd
  · rwa [List.getLast?_append_of_ne_nil _ hd] at hlast

/-- A place at the start of a line is on a later line than the places before it. -/
theorem count_lt_of_bytes_lt {pre' rest' : List Char} (hs : pre ++ rest = pre' ++ rest')
    (hlt : bytes pre < bytes pre') (hpre' : AtLineStart pre') :
    pre.count '\n' < pre'.count '\n' := by
  obtain ⟨d, hd, rfl, -⟩ := exists_of_bytes_lt hs hlt
  have := List.count_pos_iff.2 (List.mem_of_getLast? (newline_of_atLineStart hpre' hd))
  rw [List.count_append]
  omega

/-- **The matches of a declaration stand on different lines**, in order. -/
theorem matches_on_different_lines (q : Pattern) (s : List Char) :
    ((seq lineStart q).findAll s).Pairwise fun f g =>
      lineOf (lineStarts s) f.offset < lineOf (lineStarts s) g.offset := by
  refine (findAll_pairwise _ s).imp_of_mem fun hf hg hlt => ?_
  obtain ⟨pre, rest, rfl, hat⟩ := mem_findAll hf
  obtain ⟨pre', rest', heq, hat'⟩ := mem_findAll hg
  rw [line_of_found hat, heq, line_of_found hat']
  refine count_lt_of_bytes_lt heq ?_ (atLineStart_of_found hat').1
  rw [← foundAt_offset hat, ← foundAt_offset hat']
  exact hlt.1

/-- Whether a pattern matches at the start of a line only, and more than nothing there. -/
def Text.Pattern.headsLine : Pattern → Bool
  | seq lineStart q => q.consumes
  | _ => false

theorem offset_lt_bytes {p : Pattern} (hp : p.headsLine = true) (hf : f ∈ p.findAll s) :
    f.offset < bytes s := by
  obtain ⟨pre, rest, rfl, hat⟩ := mem_findAll hf
  match p, hp with
  | seq lineStart q, hq =>
    obtain ⟨-, stop, hstop, -⟩ := atLineStart_of_found hat
    have hsome : rest ≠ [] := by
      rintro rfl
      exact Nat.not_lt_zero _ (ends_consumes hq (Cursor.after_between pre []) hstop)
    have hrest := bytes_pos hsome
    rw [foundAt_offset hat, bytes_append]
    omega

/-- **A match at the start of a line stands on a line of the text.** -/
theorem startLine_lt {p : Pattern} (hp : p.headsLine = true) (hf : f ∈ p.findAll s) :
    startLine s f < (lines s).length := lineOf_lt (offset_lt_bytes hp hf)

namespace Declaration

theorem headsLine_of_typescript : ∀ rule ∈ typescript, rule.pattern.headsLine = true := by decide

theorem headsLine_of_swift : ∀ rule ∈ swift, rule.pattern.headsLine = true := by decide

theorem headsLine_of_python : ∀ p ∈ pythonRules, p.headsLine = true := by decide

theorem givesName_of_python : ∀ p ∈ pythonRules, p.givesName = true := by decide

/-! ## Headers of Python -/

/-- What follows a gap: blanks, none of which ends a line. -/
theorem ends_gaps {here stop : Cursor} (h : here.After s pre) (hstop : stop ∈ gaps.ends here) :
    ∃ x, (∀ c ∈ x, isBlank c = true ∧ c ≠ '\n' ∧ c ≠ '\r') ∧ stop.After s (pre ++ x) := by
  obtain ⟨x, hx, hafter, -⟩ := ends_run h hstop
  refine ⟨x, fun c hc => ?_, hafter⟩
  have hgap : c = ' ' ∨ c = '\t' := by simpa [gap, CharClass.accepts] using hx c hc
  rcases hgap with rfl | rfl <;> decide

theorem rest_of_keyword {c : Char} {cs : List Char} {here stop : Cursor}
    (hstop : stop ∈ (keyword (String.ofList (c :: cs))).ends here) : ∃ t, here.rest = c :: t := by
  obtain ⟨mid, hmid, -⟩ := mem_ends_seq.1 hstop
  rw [Pattern.text, String.toList_ofList] at hmid
  obtain ⟨next, hnext, -⟩ := mem_ends_seq.1 hmid
  obtain ⟨d, t, hrest, hd, -⟩ := mem_ends_one.1 hnext
  have hcd : d = c := by simpa [CharClass.accepts] using hd
  exact ⟨t, hcd ▸ hrest⟩

/-- The first character of a line that is no blank. -/
def leadingChar (line : List Char) : Option Char := (trimStart line).head?

theorem leadingChar_of_gaps {here mid : Cursor} {c : Char} {t : List Char} (hpre : AtLineStart pre)
    (h : here.After s pre) (hmid : mid ∈ gaps.ends here) (hrest : mid.rest = c :: t)
    (hc : isBlank c = false) (hr : c ≠ '\r') :
    leadingChar ((lines s).getD (pre.count '\n') []) = some c := by
  obtain ⟨x, hx, hafter⟩ := ends_gaps h hmid
  have hn : c ≠ '\n' := by
    rintro rfl
    cases hc
  have hs : s = pre ++ ((x ++ [c]) ++ t) := by
    rw [← hafter.text, hrest]
    simp
  have hline : x ++ [c] <+: (lines (x ++ [c] ++ t)).headD [] := by
    refine prefix_headD_lines ?_ ?_ t
    · intro hmem
      rcases List.mem_append.1 hmem with hmem | hmem
      · exact (hx _ hmem).2.1 rfl
      · exact hn (List.mem_singleton.1 hmem).symm
    · intro hmem
      rcases List.mem_append.1 hmem with hmem | hmem
      · exact (hx _ hmem).2.2 rfl
      · exact hr (List.mem_singleton.1 hmem).symm
  rw [hs, getD_lines hpre]
  exact head?_trimStart hline (fun b hb => (hx b hb).1) hc

/-- The header of a class is led by the first letter of its keyword. -/
theorem leadingChar_of_class (h : pythonClass.foundAt pre rest = some f) :
    leadingChar ((lines (pre ++ rest)).getD (pre.count '\n') []) = some 'c' := by
  obtain ⟨hpre, stop, hstop, -⟩ := atLineStart_of_found h
  obtain ⟨mid, hmid, hstop⟩ := mem_ends_seq.1 hstop
  obtain ⟨next, hnext, -⟩ := mem_ends_seq.1 hstop
  obtain ⟨t, ht⟩ := rest_of_keyword (c := 'c') hnext
  exact leadingChar_of_gaps hpre (Cursor.after_between pre rest) hmid ht (by decide) (by decide)

/-- The header of a function is led by the first letter of one of its keywords. -/
theorem leadingChar_of_def (h : pythonDef.foundAt pre rest = some f) :
    leadingChar ((lines (pre ++ rest)).getD (pre.count '\n') []) = some 'a' ∨
      leadingChar ((lines (pre ++ rest)).getD (pre.count '\n') []) = some 'd' := by
  obtain ⟨hpre, stop, hstop, -⟩ := atLineStart_of_found h
  obtain ⟨mid, hmid, hstop⟩ := mem_ends_seq.1 hstop
  obtain ⟨next, hnext, hstop⟩ := mem_ends_seq.1 hstop
  have hafter := Cursor.after_between pre rest
  rcases mem_ends_alt.1 hnext with hasync | hempty
  · obtain ⟨t, ht⟩ := rest_of_keyword (c := 'a') hasync
    exact .inl (leadingChar_of_gaps hpre hafter hmid ht (by decide) (by decide))
  · obtain ⟨last, hlast, -⟩ := mem_ends_seq.1 hstop
    rw [List.mem_singleton.1 hempty] at hlast
    obtain ⟨t, ht⟩ := rest_of_keyword (c := 'd') hlast
    exact .inr (leadingChar_of_gaps hpre hafter hmid ht (by decide) (by decide))

/-! ## Declared names -/

theorem nodup_eraseDups (l : List String) : l.eraseDups.Nodup := by
  induction hlen : l.length using Nat.strong_induction_on generalizing l with
  | _ n ih =>
    cases l with
    | nil => simp
    | cons a l =>
      have hshort : (l.filter fun b => !b == a).length < n := by
        rw [← hlen]
        exact Nat.lt_succ_of_le (List.length_filter_le _ _)
      rw [List.eraseDups_cons, List.nodup_cons]
      exact ⟨by simp, ih _ hshort _ rfl⟩

theorem declaredNames_nodup (patterns : List Pattern) (s : List Char) :
    (declaredNames patterns s).Nodup := nodup_eraseDups _

theorem mem_declaredNames {patterns : List Pattern} {name : String} :
    name ∈ declaredNames patterns s ↔
      ∃ p ∈ patterns, ∃ f ∈ p.findAll s, foundName f = some name := by
  simp [declaredNames, List.mem_eraseDups]

end Declaration

end CodeIndex
