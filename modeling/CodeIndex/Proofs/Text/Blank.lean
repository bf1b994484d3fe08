import CodeIndex.Text.Blank
import Mathlib.Data.List.Infix

/-!
Blanks and trimming.

Trimming takes blanks off the ends only: a character that is not blank stays, with all that stands on its
other side (`trimStart_append_cons`, `trimEnd_append_cons`), and what is left of the start of a text is left
of the whole text too (`trimEnd_isPrefix_append`).
-/
namespace CodeIndex.Text

variable {c : Char} {s t : List Char}

/-- The codes of the blank characters. -/
def blankCodes : List Nat :=
  [9, 10, 11, 12, 13, 0x20, 0x85, 0xA0, 0x1680, 0x2000, 0x2001, 0x2002, 0x2003, 0x2004, 0x2005,
    0x2006, 0x2007, 0x2008, 0x2009, 0x200A, 0x2028, 0x2029, 0x202F, 0x205F, 0x3000]

theorem mem_blankCodes {c : Char} (h : isBlank c = true) : c ∈ blankCodes.map Char.ofNat := by
  have hcode : c.toNat ∈ blankCodes := by
    simp only [isBlank, Bool.or_eq_true, Bool.and_eq_true, decide_eq_true_eq, beq_iff_eq] at h
    simp only [blankCodes, List.mem_cons, List.not_mem_nil, or_false]
    omega
  rw [← Char.ofNat_toNat c]
  exact List.mem_map_of_mem hcode

theorem trim_of_not_blank {t : List Char} (h : ∀ c ∈ t, isBlank c = false) : trim t = t := by
  have hstart : ∀ {u : List Char}, (∀ c ∈ u, isBlank c = false) → u.dropWhile isBlank = u := by
    intro u hu
    cases u with
    | nil => rfl
    | cons c u => rw [List.dropWhile_cons_of_neg (by simp [hu c List.mem_cons_self])]
  rw [trim, trimStart, hstart h, trimEnd, hstart fun c hc => h c (List.mem_reverse.1 hc),
    List.reverse_reverse]

theorem length_trim_le (s : List Char) : (trim s).length ≤ s.length := by
  have hstart : (trimStart s).length ≤ s.length := (List.dropWhile_sublist isBlank).length_le
  have hend := (List.dropWhile_sublist isBlank (l := (trimStart s).reverse)).length_le
  rw [List.length_reverse] at hend
  rw [trim, trimEnd, List.length_reverse]
  exact hend.trans hstart

/-- Trimming the end of two texts put together goes into the first only if the second is blank. -/
theorem trimEnd_append (s t : List Char) :
    trimEnd (s ++ t) = if trimEnd t = [] then trimEnd s else s ++ trimEnd t := by
  rw [trimEnd, List.reverse_append, List.dropWhile_append]
  by_cases h : t.reverse.dropWhile isBlank = []
  · rw [h, List.isEmpty_nil, if_pos rfl, trimEnd, trimEnd, h, if_pos List.reverse_nil]
  · rw [if_neg (by simpa using h), trimEnd, if_neg (by simpa using h), List.reverse_append,
      List.reverse_reverse]

/-- What is left of the start of a text is left of the text. -/
theorem trimEnd_isPrefix_append (s t : List Char) : trimEnd s <+: trimEnd (s ++ t) := by
  rw [trimEnd_append]
  split
  · exact List.prefix_rfl
  · refine List.IsPrefix.trans ?_ (List.prefix_append s _)
    have hreverse := List.dropWhile_suffix isBlank (l := s.reverse)
    rw [← List.reverse_prefix, List.reverse_reverse] at hreverse
    exact hreverse

theorem trimEnd_append_cons (s : List Char) (hc : isBlank c = false) (t : List Char) :
    trimEnd (s ++ c :: t) = s ++ c :: trimEnd t := by
  have hone : trimEnd [c] = [c] := by simp [trimEnd, hc]
  have hcons : trimEnd (c :: t) = c :: trimEnd t := by
    rw [← List.singleton_append, trimEnd_append]
    split
    · rename_i hblank
      rw [hone, hblank]
    · rfl
  rw [trimEnd_append, hcons, if_neg (List.cons_ne_nil _ _)]

theorem trimStart_append_cons (s : List Char) (hc : isBlank c = false) (t : List Char) :
    trimStart (s ++ c :: t) = trimStart s ++ c :: t := by
  rw [trimStart, List.dropWhile_append]
  split
  · rename_i hblank
    rw [List.isEmpty_iff] at hblank
    rw [trimStart, hblank, List.dropWhile_cons_of_neg (by simp [hc]), List.nil_append]
  · rfl

end CodeIndex.Text
