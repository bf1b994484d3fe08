import CodeIndex.Text.Blank
import CodeIndex.Text.Lines
import Mathlib.Algebra.GroupWithZero.Nat
import Mathlib.Data.List.Basic
import Mathlib.Data.List.TakeWhile

/-!
Lines and places.

A place in a text is given by what stands before it. Its line is the number of newlines before it
(`lineOf_lineStarts`), and at the start of a line the text falls into the lines before and the lines
from there on (`lines_append`).
-/
namespace CodeIndex.Text

/-- The length of a text in bytes. -/
def bytes (s : List Char) : Nat := (s.map Char.utf8Size).sum

@[simp] theorem bytes_nil : bytes [] = 0 := rfl

@[simp] theorem bytes_cons (c : Char) (s : List Char) : bytes (c :: s) = c.utf8Size + bytes s := rfl

@[simp] theorem bytes_append (s t : List Char) : bytes (s ++ t) = bytes s + bytes t := by
  simp [bytes]

theorem bytes_pos {s : List Char} (h : s ≠ []) : 0 < bytes s := by
  obtain ⟨c, t, rfl⟩ := List.exists_cons_of_ne_nil h
  have hc := c.utf8Size_pos
  simp only [bytes_cons]
  omega

theorem utf8ByteSize_ofList (s : List Char) : (String.ofList s).utf8ByteSize = bytes s := by
  induction s with
  | nil => rfl
  | cons c s ih =>
    rw [← List.singleton_append, String.ofList_append, String.utf8ByteSize_append, ih]
    simp

/-- Of two places in a text the one with fewer bytes before it comes first. -/
theorem exists_of_bytes_le {s t s' t' : List Char} (h : s ++ t = s' ++ t')
    (hle : bytes s ≤ bytes s') : ∃ d, s' = s ++ d ∧ t = d ++ t' := by
  rcases List.append_eq_append_iff.1 h with ⟨d, hs, ht⟩ | ⟨d, rfl, rfl⟩
  · exact ⟨d, hs, ht⟩
  · have hd : d = [] := by
      by_contra hne
      have := bytes_pos hne
      rw [bytes_append] at hle
      omega
    exact ⟨[], by simp [hd], by simp [hd]⟩

theorem exists_of_bytes_lt {s t s' t' : List Char} (h : s ++ t = s' ++ t')
    (hlt : bytes s < bytes s') : ∃ d, d ≠ [] ∧ s' = s ++ d ∧ t = d ++ t' := by
  obtain ⟨d, rfl, ht⟩ := exists_of_bytes_le h (Nat.le_of_lt hlt)
  refine ⟨d, ?_, rfl, ht⟩
  rintro rfl
  rw [List.append_nil] at hlt
  exact Nat.lt_irrefl _ hlt

/-! ## Lines by number -/

theorem newlineEnds_append (offset : Nat) (s t : List Char) :
    newlineEnds offset (s ++ t) = newlineEnds offset s ++ newlineEnds (offset + bytes s) t := by
  induction s generalizing offset with
  | nil => simp [newlineEnds]
  | cons c s ih =>
    have hsum : offset + c.utf8Size + bytes s = offset + bytes (c :: s) := by
      rw [bytes_cons]
      omega
    simp only [List.cons_append, newlineEnds, ih, hsum]
    split <;> rfl

theorem length_newlineEnds (offset : Nat) (s : List Char) :
    (newlineEnds offset s).length = s.count '\n' := by
  induction s generalizing offset with
  | nil => rfl
  | cons c s ih =>
    simp only [newlineEnds, List.count_cons, beq_iff_eq]
    split <;> simp [ih]

theorem newlineEnds_bounds {offset x : Nat} {s : List Char} (h : x ∈ newlineEnds offset s) :
    offset < x ∧ x ≤ offset + bytes s := by
  induction s generalizing offset with
  | nil => cases h
  | cons c s ih =>
    have hc := c.utf8Size_pos
    simp only [newlineEnds] at h
    rw [bytes_cons]
    split at h
    · rcases List.mem_cons.1 h with rfl | h
      · omega
      · have := ih h
        omega
    · have := ih h
      omega

/-- The line of a place is the number of newlines before it, also where the place is given by a byte that
comes before the next line starts. -/
theorem lineOf_of_starts {s t : List Char} {offset : Nat} (hbefore : bytes s ≤ offset)
    (hafter : ∀ x ∈ newlineEnds (bytes s) t, offset < x) :
    lineOf (lineStarts (s ++ t)) offset = s.count '\n' := by
  have hfirst : (newlineEnds 0 s).takeWhile (· ≤ offset) = newlineEnds 0 s := by
    refine List.takeWhile_eq_self_iff.2 fun x hx => ?_
    have := newlineEnds_bounds hx
    simp only [decide_eq_true_eq]
    omega
  have hnext : (newlineEnds (bytes s) t).takeWhile (· ≤ offset) = [] := by
    refine List.takeWhile_eq_nil_iff.2 fun hlt => ?_
    have := hafter _ (List.get_mem _ ⟨0, hlt⟩)
    simp only [decide_eq_true_eq]
    omega
  have hall : (lineStarts (s ++ t)).takeWhile (· ≤ offset) = 0 :: newlineEnds 0 s := by
    rw [lineStarts, newlineEnds_append, Nat.zero_add, List.takeWhile_cons_of_pos (by simp),
      List.takeWhile_append, hfirst, if_pos rfl, hnext, List.append_nil]
  rw [lineOf, hall, List.length_cons, length_newlineEnds]
  omega

theorem lineOf_lineStarts (s t : List Char) :
    lineOf (lineStarts (s ++ t)) (bytes s) = s.count '\n' :=
  lineOf_of_starts (Nat.le_refl _) fun _ hx => (newlineEnds_bounds hx).1

/-! ## Starts of lines -/

/-- Whether a line starts after a text. -/
def AtLineStart (s : List Char) : Prop := s = [] ∨ s.getLast? = some '\n'

theorem atLineStart_cases {s : List Char} (h : AtLineStart s) : s = [] ∨ ∃ t, s = t ++ ['\n'] := by
  rcases h with h | h
  · exact .inl h
  · exact .inr (List.getLast?_eq_some_iff.1 h)

theorem linesFrom_newline_append (line s t : List Char) :
    linesFrom line (s ++ '\n' :: t) = linesFrom line (s ++ ['\n']) ++ linesFrom [] t := by
  induction s generalizing line with
  | nil => simp [linesFrom]
  | cons c s ih =>
    simp only [List.cons_append, linesFrom]
    split
    · rw [ih, List.cons_append]
    · exact ih _

theorem length_linesFrom_newline (line s : List Char) :
    (linesFrom line (s ++ ['\n'])).length = (s ++ ['\n']).count '\n' := by
  induction s generalizing line with
  | nil => simp [linesFrom]
  | cons c s ih =>
    simp only [List.cons_append, linesFrom, List.count_cons, beq_iff_eq]
    split
    · rw [List.length_cons, ih]
    · rw [ih, Nat.add_zero]

theorem length_linesFrom_le (line s : List Char) :
    (linesFrom line s).length ≤ bytes line + bytes s := by
  induction s generalizing line with
  | nil =>
    cases line with
    | nil => exact Nat.zero_le _
    | cons c line => exact Nat.le_add_right_of_le (bytes_pos (List.cons_ne_nil c line))
  | cons c s ih =>
    have hc : 0 < c.utf8Size := Char.utf8Size_pos c
    rw [linesFrom, bytes_cons]
    split
    · have := ih []
      rw [List.length_cons]
      rw [bytes_nil] at this
      omega
    · have := ih (c :: line)
      rw [bytes_cons] at this
      omega

/-- A text has no more lines than bytes. -/
theorem length_lines_le (s : List Char) : (lines s).length ≤ bytes s := by
  have hle := length_linesFrom_le [] s
  rwa [bytes_nil, Nat.zero_add] at hle

theorem lines_append {s : List Char} (h : AtLineStart s) (t : List Char) :
    lines (s ++ t) = lines s ++ lines t := by
  rcases atLineStart_cases h with rfl | ⟨u, rfl⟩
  · rfl
  · rw [List.append_assoc]
    exact linesFrom_newline_append [] u t

theorem length_lines {s : List Char} (h : AtLineStart s) : (lines s).length = s.count '\n' := by
  rcases atLineStart_cases h with rfl | ⟨u, rfl⟩
  · rfl
  · exact length_linesFrom_newline [] u

/-- The lines from a place on. -/
theorem drop_lines {s : List Char} (h : AtLineStart s) (t : List Char) :
    (lines (s ++ t)).drop (s.count '\n') = lines t := by
  rw [lines_append h, ← length_lines h, List.drop_left]

theorem getD_lines {s : List Char} (h : AtLineStart s) (t : List Char) :
    (lines (s ++ t)).getD (s.count '\n') [] = (lines t).headD [] := by
  rw [← drop_lines h t, List.headD_eq_head?_getD, List.head?_drop, List.getD_eq_getElem?_getD]

/-! ## The first line -/

theorem linesFrom_of_newline {s : List Char} (h : '\n' ∉ s) (line t : List Char) :
    linesFrom line (s ++ '\n' :: t) = dropReturn (line.reverse ++ s) :: lines t := by
  induction s generalizing line with
  | nil => simp [linesFrom, lines]
  | cons c s ih =>
    rw [List.mem_cons, not_or] at h
    simp only [List.cons_append, linesFrom, if_neg (Ne.symm h.1), ih h.2]
    simp

theorem linesFrom_of_not_mem {s : List Char} (h : '\n' ∉ s) (line : List Char) :
    linesFrom line s = if line ++ s = [] then [] else [line.reverse ++ s] := by
  induction s generalizing line with
  | nil => cases line <;> simp [linesFrom]
  | cons c s ih =>
    rw [List.mem_cons, not_or] at h
    simp only [linesFrom, if_neg (Ne.symm h.1), ih h.2]
    simp

theorem lines_of_newline {s : List Char} (h : '\n' ∉ s) (t : List Char) :
    lines (s ++ '\n' :: t) = dropReturn s :: lines t :=
  linesFrom_of_newline h [] t

theorem lines_of_not_mem {s : List Char} (h : '\n' ∉ s) : lines s = if s = [] then [] else [s] :=
  linesFrom_of_not_mem h []

/-- A text is one line, or a line and a newline before the rest. -/
theorem line_cases (s : List Char) :
    '\n' ∉ s ∨ ∃ l t, '\n' ∉ l ∧ s = l ++ '\n' :: t := by
  by_cases h : '\n' ∈ s
  · obtain ⟨l, t, rfl, hl⟩ := List.eq_append_cons_of_mem h
    exact .inr ⟨l, t, hl, rfl⟩
  · exact .inl h

theorem lines_ne_nil {s : List Char} (h : s ≠ []) : lines s ≠ [] := by
  rcases line_cases s with hs | ⟨l, t, hl, rfl⟩
  · rw [lines_of_not_mem hs, if_neg h]
    exact List.cons_ne_nil _ _
  · rw [lines_of_newline hl]
    exact List.cons_ne_nil _ _

theorem prefix_dropReturn {x l : List Char} (h : x <+: l) (hx : '\r' ∉ x) : x <+: dropReturn l := by
  unfold dropReturn
  split
  · rename_i hlast
    obtain ⟨y, rfl⟩ := h
    rcases List.eq_nil_or_concat y with rfl | ⟨z, c, rfl⟩
    · rw [List.append_nil] at hlast
      exact absurd (List.mem_of_getLast? hlast) hx
    · rw [List.concat_eq_append, ← List.append_assoc, List.dropLast_concat]
      exact List.prefix_append _ _
  · exact h

/-- A text without line ends is at the start of the first line of what it starts. -/
theorem prefix_headD_lines {x : List Char} (hn : '\n' ∉ x) (hr : '\r' ∉ x) (t : List Char) :
    x <+: (lines (x ++ t)).headD [] := by
  rcases line_cases t with ht | ⟨l, u, hl, rfl⟩
  · have hxt : '\n' ∉ x ++ t := by simp [hn, ht]
    rw [lines_of_not_mem hxt]
    split
    · rename_i hnil
      rw [(List.append_eq_nil_iff.1 hnil).1]
      exact List.nil_prefix
    · exact List.prefix_append _ _
  · have hxl : '\n' ∉ x ++ l := by simp [hn, hl]
    rw [← List.append_assoc, lines_of_newline hxl]
    exact prefix_dropReturn (List.prefix_append _ _) hr

/-- What a line starts with after its blanks. -/
theorem head?_trimStart {blanks l : List Char} {c : Char} (h : blanks ++ [c] <+: l)
    (hblanks : ∀ b ∈ blanks, isBlank b = true) (hc : isBlank c = false) :
    (trimStart l).head? = some c := by
  obtain ⟨t, rfl⟩ := h
  rw [trimStart, List.append_assoc, List.dropWhile_append_of_pos hblanks]
  simp [hc]

end CodeIndex.Text
