import CodeIndex.Text.Occurrence
import Mathlib.Data.List.Infix
import Mathlib.Data.List.TakeWhile

/-!
Where one text first occurs in another.

The search for the first occurrence goes by prefixes of the ends of a text, so what it finds is a stretch
of the text (`occurs_iff`), and it finds the start of the text if and only if the text starts so
(`indexOf?_eq_zero_iff`). What it finds is the first place of all (`indexOf?_eq_some_iff`).
Searching in either case changes nothing but the letters of ASCII (`asciiLower_cases`).
-/
namespace CodeIndex.Text

variable {word s : List Char}

theorem indexOf?_eq_zero_iff : indexOf? word s = some 0 ↔ word <+: s := by
  cases s with
  | nil => simp [indexOf?]
  | cons c s =>
    rw [indexOf?, ← List.isPrefixOf_iff_prefix]
    split
    · simp_all
    · simp_all [Option.map_eq_some_iff]

/-- The place that is found is the first one where the text goes on as it should. -/
theorem indexOf?_eq_some_iff {n : Nat} : indexOf? word s = some n ↔
    n ≤ s.length ∧ word <+: s.drop n ∧ ∀ m < n, ¬ word <+: s.drop m := by
  induction s generalizing n with
  | nil =>
    rw [indexOf?]
    constructor
    · intro h
      split at h
      · cases h
        simp_all
      · cases h
    · rintro ⟨hn, hword, -⟩
      simp_all
  | cons c s ih =>
    rw [indexOf?]
    split
    · rename_i hhere
      rw [List.isPrefixOf_iff_prefix] at hhere
      constructor
      · intro h
        cases h
        exact ⟨Nat.zero_le _, hhere, fun m hm => absurd hm (Nat.not_lt_zero m)⟩
      · rintro ⟨-, -, hfirst⟩
        cases n with
        | zero => rfl
        | succ n => exact absurd hhere (hfirst 0 n.succ_pos)
    · rename_i hhere
      rw [List.isPrefixOf_iff_prefix] at hhere
      cases n with
      | zero => simp [hhere]
      | succ n =>
        simp only [Option.map_eq_some_iff, Nat.add_right_cancel_iff, exists_eq_right, ih,
          List.length_cons, Nat.add_le_add_iff_right, List.drop_succ_cons]
        refine and_congr_right fun _ => and_congr_right fun _ => ?_
        constructor
        · intro hfirst m hm
          cases m with
          | zero => exact hhere
          | succ m => exact hfirst m (Nat.lt_of_succ_lt_succ hm)
        · intro hfirst m hm
          exact hfirst (m + 1) (Nat.succ_lt_succ hm)

theorem occurs_iff : occurs word s = true ↔ word <:+: s := by
  rw [occurs]
  induction s with
  | nil => simp [indexOf?]
  | cons c s ih =>
    rw [indexOf?, List.infix_cons_iff, ← List.isPrefixOf_iff_prefix, ← ih]
    split <;> simp_all

/-- A text occurs later than at the start if it occurs and the other does not start with it: only the
first occurrence counts. -/
theorem indexOf?_pos_iff : (indexOf? word s).any (0 < ·) = true ↔ word <:+: s ∧ ¬ word <+: s := by
  rw [← occurs_iff, ← indexOf?_eq_zero_iff, occurs]
  cases indexOf? word s with
  | none => simp
  | some n => simp [Nat.pos_iff_ne_zero]

theorem asciiLower_cases (c : Char) :
    asciiLower c = c ∨
      ∃ n, 65 ≤ n ∧ n < 91 ∧ c = Char.ofNat n ∧ asciiLower c = Char.ofNat (n + 32) := by
  rw [asciiLower]
  split
  · rename_i h
    simp only [Bool.and_eq_true, decide_eq_true_eq, Char.le_def, UInt32.le_iff_toNat_le] at h
    exact Or.inr ⟨c.toNat, h.1, Nat.lt_succ_of_le h.2, (Char.ofNat_toNat c).symm, rfl⟩
  · exact Or.inl rfl

theorem untilNul_of_not_mem (h : '\x00' ∉ s) : untilNul s = s := by
  refine List.takeWhile_eq_self_iff.2 fun c hc => ?_
  rw [bne_iff_ne]
  intro hzero
  rw [← Char.ofNat_toNat c, hzero] at hc
  exact h hc

end CodeIndex.Text
