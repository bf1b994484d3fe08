import CodeIndex.Proofs.Sorting
import CodeIndex.Search.Hit
import Mathlib.Analysis.SpecialFunctions.Log.Basic

/-!
Scores as real numbers, and the order of hits.

On real numbers the operations of `Score` are the exact ones, so what is proved there is free of
rounding. The order of hits asks less of a number: only that it ranks as some key does
(`Score.RanksBy`), which real numbers do by themselves and doubles by `orderKey`. Then `Hit.byScore`
keeps the hits of one score as they stood (`Hit.filter_byScore`), which says all about the result
(`Hit.byScore_eq`), and a relation that held along the list still holds along each tie
(`Hit.pairwise_byScore`).
-/
namespace CodeIndex

/-! ## Real numbers -/

namespace Score

noncomputable instance : Score ℝ where
  ofNat n := n
  add := (· + ·)
  sub := (· - ·)
  mul := (· * ·)
  div := (· / ·)
  ln := Real.log
  le x y := decide (x ≤ y)
  ranks x y := decide (y ≤ x)
  isFinite _ := true

@[simp] theorem zero_real : (zero : ℝ) = 0 := Nat.cast_zero

@[simp] theorem le_real {x y : ℝ} : Score.le x y = true ↔ x ≤ y := decide_eq_true_iff

/-! ## What ranks scores -/

/-- Scores rank as a key of theirs does: the greater key first. -/
def RanksBy {α κ : Type} [Score α] [LinearOrder κ] (key : α → κ) : Prop :=
  ∀ x y : α, Score.ranks x y = true ↔ key y ≤ key x

theorem ranksBy_real : RanksBy (id : ℝ → ℝ) := fun _ _ => decide_eq_true_iff

theorem ranksBy_orderKey : RanksBy orderKey := fun _ _ => decide_eq_true_iff

/-- Scores compare as a key of theirs does. -/
def OrdersBy {α κ : Type} [Score α] [LinearOrder κ] (key : α → κ) : Prop :=
  ∀ x y : α, Score.le x y = true ↔ key x ≤ key y

theorem ordersBy_real : OrdersBy (id : ℝ → ℝ) := fun _ _ => decide_eq_true_iff

end Score

theorem Signals.best_real (kept new : ℝ) : best kept new = max kept new := by
  rw [best]
  split
  · rename_i h
    simp only [Bool.and_eq_true, Score.le_real] at h
    exact (max_eq_right h.1).symm
  · rename_i h
    simp only [Bool.and_eq_true, Bool.not_eq_true', Bool.eq_false_iff, ne_eq, Score.le_real] at h
    exact (max_eq_left (not_lt.1 fun hlt => h ⟨hlt.le, not_le.2 hlt⟩)).symm

/-! ## The order of hits -/

namespace Hit

variable {α κ : Type} [Score α] [LinearOrder κ] {key : α → κ} {hits : List (Hit α)}

theorem byScore_perm (hits : List (Hit α)) : (byScore hits).Perm hits := List.mergeSort_perm _ _

theorem byScore_trans (hkey : Score.RanksBy key) (a b c : Hit α)
    (hab : Score.ranks a.score b.score = true) (hbc : Score.ranks b.score c.score = true) :
    Score.ranks a.score c.score = true :=
  (hkey _ _).2 (((hkey _ _).1 hbc).trans ((hkey _ _).1 hab))

theorem byScore_total (hkey : Score.RanksBy key) (a b : Hit α) :
    (Score.ranks a.score b.score || Score.ranks b.score a.score) = true := by
  rw [Bool.or_eq_true, hkey, hkey]
  exact le_total _ _

theorem byScore_ordered (hkey : Score.RanksBy key) (hits : List (Hit α)) :
    (byScore hits).Pairwise fun a b => key b.score ≤ key a.score :=
  (List.pairwise_mergeSort (byScore_trans hkey) (byScore_total hkey) hits).imp (hkey _ _).1

/-- The hits of one score stand as they stood. -/
theorem filter_byScore (hkey : Score.RanksBy key) (hits : List (Hit α)) (k : κ) :
    (byScore hits).filter (fun h => key h.score = k) = hits.filter fun h => key h.score = k := by
  refine filter_mergeSort (byScore_trans hkey) (byScore_total hkey) (fun a _ b _ ha hb => ?_)
  rw [hkey, of_decide_eq_true ha, of_decide_eq_true hb]

/-- The result is the ordered list that has the hits of each score as they stood. -/
theorem byScore_eq (hkey : Score.RanksBy key) {hits' : List (Hit α)}
    (hordered : hits'.Pairwise fun a b => key b.score ≤ key a.score)
    (h : ∀ k, hits.filter (fun h => key h.score = k) = hits'.filter fun h => key h.score = k) :
    byScore hits = hits' :=
  eq_of_filter_key_eq (byScore_ordered hkey hits) hordered fun k =>
    (filter_byScore hkey hits k).trans (h k)

/-- Hits of the middle one of three scores that stand last go between the others. -/
theorem byScore_three_groups (hkey : Score.RanksBy key) {high middle low : List (Hit α)} {x y z : α}
    (hyx : key y < key x) (hzy : key z < key y) (hhigh : ∀ h ∈ high, h.score = x)
    (hmiddle : ∀ h ∈ middle, h.score = y) (hlow : ∀ h ∈ low, h.score = z) :
    byScore (high ++ low ++ middle) = high ++ middle ++ low := by
  have hsame : ∀ {group : List (Hit α)} {u : α}, (∀ h ∈ group, h.score = u) →
      group.Pairwise fun a b => key b.score ≤ key a.score := fun hgroup =>
    List.pairwise_of_forall_mem_list fun a ha b hb => by rw [hgroup a ha, hgroup b hb]
  have hnone : ∀ {group : List (Hit α)} {u : α} {k : κ}, (∀ h ∈ group, h.score = u) → key u ≠ k →
      group.filter (fun h => key h.score = k) = [] := fun hgroup hne =>
    List.filter_eq_nil_iff.2 fun h hh => by simpa [hgroup h hh] using hne
  refine byScore_eq hkey ?_ fun k => ?_
  · refine List.pairwise_append.2 ⟨List.pairwise_append.2 ⟨hsame hhigh, hsame hmiddle, ?_⟩,
      hsame hlow, ?_⟩
    · intro a ha b hb
      rw [hhigh a ha, hmiddle b hb]
      exact hyx.le
    · intro a ha b hb
      rw [hlow b hb]
      rcases List.mem_append.1 ha with ha | ha
      · rw [hhigh a ha]
        exact (hzy.trans hyx).le
      · rw [hmiddle a ha]
        exact hzy.le
  · simp only [List.filter_append]
    by_cases hk : key y = k
    · rw [hnone hlow fun h => hzy.ne (h.trans hk.symm), List.append_nil, List.append_nil]
    · rw [hnone hmiddle hk, List.append_nil, List.append_nil]

/-- **Greatest score first, ties as they stood.** What held of each hit and a later one still holds
of each two that tie. -/
theorem pairwise_byScore (hkey : Score.RanksBy key) {R : Hit α → Hit α → Prop}
    (hR : hits.Pairwise R) :
    (byScore hits).Pairwise fun a b =>
      key b.score < key a.score ∨ key b.score = key a.score ∧ R a b := by
  rw [List.pairwise_iff_forall_sublist]
  intro a b hsub
  rcases (List.pairwise_iff_forall_sublist.1 (byScore_ordered hkey hits) hsub).lt_or_eq with h | h
  · exact Or.inl h
  · -- two that tie are neighbours among the hits of their score, which sorting leaves alone
    have htie := hsub.filter fun c => key c.score = key a.score
    rw [filter_byScore hkey] at htie
    simp only [h, decide_true, List.filter_cons_of_pos, List.filter_nil] at htie
    exact Or.inr ⟨h, List.pairwise_iff_forall_sublist.1 hR (htie.trans List.filter_sublist)⟩

end Hit

end CodeIndex
