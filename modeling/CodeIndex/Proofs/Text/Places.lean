import CodeIndex.Proofs.Text.Bytes
import CodeIndex.Proofs.Text.Piece

/-!
Places in a text, given in bytes, and the lines they are on.

A text has its lines one after another, each with the line end that is dropped from it: `IsLine` says that
a line stands at a place of a text, and every byte is one of such a line (`exists_isLine`). The starts of
lines are in order, and the line that they give for a byte is the one that has it (`IsLine.lineOf_eq`);
it is also the number of newlines among the bytes before (`IsLine.count_newlines`). A byte inside of a
character is on the line of the character.
-/
namespace CodeIndex.Text

variable {s t before line stop : List Char} {i o : Nat}

/-! ## Newlines in bytes -/

/-- The byte of a newline. -/
def newlineByte : UInt8 := 10

@[simp] theorem length_encoded (s : List Char) : (encoded s).length = bytes s := by
  induction s with
  | nil => rfl
  | cons c s ih => simp [ih]

/-- Only a newline has the byte of a newline: it is no later byte of a character, and a first one only of
the newline. -/
theorem newlineByte_not_mem {c : Char} (h : c ≠ '\n') : newlineByte ∉ String.utf8EncodeChar c := by
  intro hmem
  obtain ⟨n, hn, hbyte⟩ := List.mem_iff_getElem.1 hmem
  have hstart : encoded ['\n'] <+: (String.utf8EncodeChar c).drop n ++ [] := by
    rw [List.append_nil, List.drop_eq_getElem_cons hn, hbyte]
    exact ⟨_, rfl⟩
  rcases Nat.eq_zero_or_pos n with rfl | hpos
  · rw [List.drop_zero, ← encoded_nil, ← encoded_cons, encoded_isPrefix_iff] at hstart
    exact h (List.cons_prefix_cons.1 hstart).1.symm
  · exact not_isPrefix_of_inside (List.cons_ne_nil _ _) hpos hn hstart

theorem count_encoded (s : List Char) : (encoded s).count newlineByte = s.count '\n' := by
  induction s with
  | nil => rfl
  | cons c s ih =>
    rw [encoded_cons, List.count_append, ih, List.count_cons, Nat.add_comm]
    congr 1
    by_cases hc : c = '\n'
    · subst hc
      decide
    · rw [List.count_eq_zero.2 (newlineByte_not_mem hc), if_neg (by simpa using hc)]

/-! ## Starts of lines -/

theorem newlineEnds_pairwise (offset : Nat) (s : List Char) :
    (newlineEnds offset s).Pairwise (· < ·) := by
  induction s generalizing offset with
  | nil => exact .nil
  | cons c s ih =>
    simp only [newlineEnds]
    split
    · exact List.pairwise_cons.2 ⟨fun x hx => (newlineEnds_bounds hx).1, ih _⟩
    · exact ih _

theorem lineStarts_pairwise (s : List Char) : (lineStarts s).Pairwise (· < ·) :=
  List.pairwise_cons.2 ⟨fun _ hx => (newlineEnds_bounds hx).1, newlineEnds_pairwise 0 s⟩

/-- Where a text starts with a part of a line, the next line starts after that part. -/
theorem lt_of_mem_newlineEnds {l : List Char} {offset x : Nat} (hl : '\n' ∉ l)
    (h : x ∈ newlineEnds offset (l ++ t)) : offset + bytes l < x := by
  have hnone : newlineEnds offset l = [] := by
    rw [← List.length_eq_zero_iff, length_newlineEnds, List.count_eq_zero.2 hl]
  rw [newlineEnds_append, hnone, List.nil_append] at h
  exact (newlineEnds_bounds h).1

/-! ## Lines with their ends -/

/-- Line `i` of a text, what stands before it and the line end that is dropped from it. -/
structure IsLine (s : List Char) (i : Nat) (before line stop : List Char) : Prop where
  text : before ++ (line ++ stop) <+: s
  start : AtLineStart before
  number : (lines before).length = i
  get : (lines s)[i]? = some line
  single : '\n' ∉ line
  /-- Only at the end of the text a line may have no end. -/
  ending : stop = ['\n'] ∨ stop = ['\r', '\n'] ∨ stop = [] ∧ s = before ++ line

theorem IsLine.first {l : List Char} (hl : '\n' ∉ l) (t : List Char) :
    ∃ line stop, IsLine (l ++ '\n' :: t) 0 [] line stop ∧ line ++ stop = l ++ ['\n'] := by
  have hget : (lines (l ++ '\n' :: t))[0]? = some (dropReturn l) := by rw [lines_of_newline hl]; rfl
  have hsub : '\n' ∉ dropReturn l := by
    intro hmem
    rcases dropReturn_cases l with ⟨heq, -⟩ | heq
    · exact hl (heq ▸ hmem)
    · exact hl (heq ▸ List.mem_append_left _ hmem)
  have hend : ∃ stop, (stop = ['\n'] ∨ stop = ['\r', '\n']) ∧ dropReturn l ++ stop = l ++ ['\n'] := by
    rcases dropReturn_cases l with ⟨heq, -⟩ | heq
    · exact ⟨_, .inl rfl, by rw [heq]⟩
    · refine ⟨_, .inr rfl, ?_⟩
      nth_rewrite 2 [heq]
      simp
  obtain ⟨stop, hstop, heq⟩ := hend
  refine ⟨dropReturn l, stop, ⟨?_, .inl rfl, rfl, hget, hsub, ?_⟩, heq⟩
  · rw [List.nil_append, heq]
    exact ⟨t, by simp⟩
  · exact hstop.imp id .inl

theorem IsLine.after {l : List Char} (hl : '\n' ∉ l) (h : IsLine t i before line stop) :
    IsLine (l ++ '\n' :: t) (i + 1) (l ++ '\n' :: before) line stop where
  text := by
    obtain ⟨rest, hrest⟩ := h.text
    exact ⟨rest, by rw [← hrest]; simp⟩
  start := by
    rcases h.start with rfl | hlast
    · exact .inr (by simp)
    · refine .inr ?_
      rw [List.getLast?_append_of_ne_nil _ (List.cons_ne_nil _ _), List.getLast?_cons, hlast]
      rfl
  number := by rw [lines_of_newline hl, List.length_cons, h.number]
  get := by rw [lines_of_newline hl, List.getElem?_cons_succ, h.get]
  single := h.single
  ending := h.ending.imp id fun hrest => hrest.imp id fun ⟨hnone, hs⟩ => ⟨hnone, by simp [hs]⟩

theorem exists_isLine (h : o < bytes s) :
    ∃ i before line stop, IsLine s i before line stop ∧ bytes before ≤ o ∧
      o < bytes (before ++ (line ++ stop)) := by
  induction hlen : s.length using Nat.strong_induction_on generalizing s o with
  | _ n ih =>
    rcases line_cases s with hs | ⟨l, t, hl, rfl⟩
    · have hne : s ≠ [] := by
        rintro rfl
        cases h
      refine ⟨0, [], s, [], ⟨by simp, .inl rfl, rfl, ?_, hs, .inr (.inr ⟨rfl, rfl⟩)⟩, by simp,
        by simpa using h⟩
      rw [lines_of_not_mem hs, if_neg hne]
      rfl
    · by_cases hfirst : o < bytes (l ++ ['\n'])
      · obtain ⟨line, stop, hline, heq⟩ := IsLine.first hl t
        exact ⟨0, [], line, stop, hline, by simp, by rwa [List.nil_append, heq]⟩
      · -- the byte is after the first line, and on a line of the rest
        have hsplit : bytes (l ++ '\n' :: t) = bytes (l ++ ['\n']) + bytes t := by
          simp [Nat.add_assoc]
        obtain ⟨i, before, line, stop, hline, hle, hlt⟩ :=
          ih t.length (by simp [← hlen]; omega) (s := t) (o := o - bytes (l ++ ['\n'])) (by omega) rfl
        refine ⟨i + 1, l ++ '\n' :: before, line, stop, hline.after hl, ?_, ?_⟩
        · simp only [bytes_append, bytes_cons, bytes_nil] at hle hfirst ⊢
          omega
        · simp only [bytes_append, bytes_cons, bytes_nil] at hlt hfirst ⊢
          omega

theorem IsLine.upTo (h : IsLine s i before line stop) (hlt : o < bytes (before ++ (line ++ stop))) :
    ∃ l t, s = before ++ (l ++ t) ∧ '\n' ∉ l ∧ o ≤ bytes before + bytes l := by
  have hnewline : Char.utf8Size '\n' = 1 := rfl
  have hreturn : Char.utf8Size '\r' = 1 := rfl
  obtain ⟨rest, rfl⟩ := h.text
  rw [bytes_append, bytes_append] at hlt
  rcases h.ending with rfl | rfl | ⟨rfl, -⟩
  · refine ⟨line, '\n' :: rest, by simp, h.single, ?_⟩
    simp only [bytes_cons, bytes_nil, hnewline] at hlt
    omega
  · refine ⟨line ++ ['\r'], '\n' :: rest, by simp, by simp [h.single], ?_⟩
    simp only [bytes_append, bytes_cons, bytes_nil, hnewline, hreturn] at hlt ⊢
    omega
  · refine ⟨line, rest, by simp, h.single, ?_⟩
    rw [bytes_nil] at hlt
    omega

theorem IsLine.count_before (h : IsLine s i before line stop) : before.count '\n' = i := by
  rw [← h.number, length_lines h.start]

/-- **The line of a byte** is the one that has it. -/
theorem IsLine.lineOf_eq (h : IsLine s i before line stop) (hle : bytes before ≤ o)
    (hlt : o < bytes (before ++ (line ++ stop))) : lineOf (lineStarts s) o = i := by
  obtain ⟨l, t, rfl, hl, hupto⟩ := h.upTo hlt
  rw [lineOf_of_starts hle fun x hx => Nat.lt_of_le_of_lt hupto (lt_of_mem_newlineEnds hl hx),
    h.count_before]

/-- The number of the line of a byte is that of the newlines among the bytes before. -/
theorem IsLine.count_newlines (h : IsLine s i before line stop) (hle : bytes before ≤ o)
    (hlt : o < bytes (before ++ (line ++ stop))) :
    ((encoded s).take o).count newlineByte = i := by
  obtain ⟨l, t, rfl, hl, hupto⟩ := h.upTo hlt
  have hnone : (((encoded l).take (o - bytes before)).count newlineByte) = 0 := by
    refine List.count_eq_zero.2 fun hmem => ?_
    have hcount := List.count_pos_iff.2 (List.mem_of_mem_take hmem)
    rw [count_encoded, List.count_eq_zero.2 hl] at hcount
    exact Nat.lt_irrefl 0 hcount
  have htake : (encoded (before ++ (l ++ t))).take o =
      encoded before ++ (encoded l).take (o - bytes before) := by
    rw [encoded_append, encoded_append, List.take_append, List.take_of_length_le (by simpa using hle),
      length_encoded, List.take_append_of_le_length (by rw [length_encoded]; omega)]
  rw [htake, List.count_append, count_encoded, h.count_before, hnone, Nat.add_zero]

theorem lineOf_lt (h : o < bytes s) : lineOf (lineStarts s) o < (lines s).length := by
  obtain ⟨i, before, line, stop, hline, hle, hlt⟩ := exists_isLine h
  rw [hline.lineOf_eq hle hlt]
  exact (List.getElem?_eq_some_iff.1 hline.get).1

end CodeIndex.Text
