import CodeIndex.Proofs.Search.Fusion
import Mathlib.Tactic.GCongr
import Mathlib.Tactic.Linarith
import Mathlib.Tactic.NormNum

/-!
The scores of a ranking in exact numbers, and how they depend on the hits.

The score of a result is the weighted sum of its evidence and a tenth of that for every further signal
that matched (`Weights.total_real`). Weights that are accepted are not negative, so both factors rise with
the evidence (`Weights.total_mono`), and the evidence at a place rises with the hits (`Evidence.mono`).

* `hits_never_lower_scores`: one more hit of any signal lowers the score of no place, and as long as no
  hit scores above one all scores lie between zero and a fifth more than the weights add up to at most.
-/
namespace CodeIndex

/-! ## Weights -/

namespace Weights

/-- The weight of a signal. -/
def get {α : Type} (w : Weights α) : Signal → α
  | .semantic => w.semantic
  | .symbol => w.symbol
  | .fulltext => w.fulltext

variable {w : Weights ℝ} {s t : Signals ℝ}

theorem sum_real (w : Weights ℝ) : w.sum = w.get .semantic + w.get .symbol + w.get .fulltext := rfl

theorem base_real (w : Weights ℝ) (s : Signals ℝ) :
    w.base s = w.get .semantic * s.get .semantic + w.get .symbol * s.get .symbol +
      w.get .fulltext * s.get .fulltext := rfl

theorem isWeight_real {x : ℝ} : Score.isWeight x = true ↔ 0 ≤ x := by
  have hfinite : Score.isFinite x = true := rfl
  rw [Score.isWeight, hfinite, Bool.true_and, Score.le_real, Score.zero_real]

theorem nearOne_real {x : ℝ} : Score.nearOne x = true ↔ |x - 1| ≤ 1e-6 := by
  have hratio : (Score.ratio 1 1000000 : ℝ) = 1e-6 := by
    change ((1 : ℕ) : ℝ) / ((1000000 : ℕ) : ℝ) = 1e-6
    norm_num
  have hone : (Score.one : ℝ) = 1 := Nat.cast_one
  have hsub : ∀ a b : ℝ, Score.sub a b = a - b := fun _ _ => rfl
  rw [Score.nearOne, Bool.and_eq_true, Score.le_real, Score.le_real, hratio, hone, hsub, hsub, abs_le']
  rw [neg_sub]

/-- Weights are accepted if none is negative and they add up to one, up to a millionth. -/
theorem fault?_real : w.fault? = none ↔ (∀ signal, 0 ≤ w.get signal) ∧ |w.sum - 1| ≤ 1e-6 := by
  have hall : (∀ signal, 0 ≤ w.get signal) ↔ 0 ≤ w.semantic ∧ 0 ≤ w.symbol ∧ 0 ≤ w.fulltext :=
    ⟨fun h => ⟨h .semantic, h .symbol, h .fulltext⟩, fun ⟨hsem, hsym, hful⟩ signal => by
      cases signal <;> assumption⟩
  rw [hall, ← isWeight_real, ← isWeight_real, ← isWeight_real, ← nearOne_real, fault?]
  cases Score.isWeight w.semantic <;> cases Score.isWeight w.symbol <;>
    cases Score.isWeight w.fulltext <;> cases Score.nearOne w.sum <;> simp

/-- Weights that are not negative and add up to one are accepted. -/
theorem fault?_of_sum (hsem : 0 ≤ w.semantic) (hsym : 0 ≤ w.symbol) (hful : 0 ≤ w.fulltext)
    (hsum : w.semantic + w.symbol + w.fulltext = 1) : w.fault? = none := by
  refine fault?_real.2 ⟨fun signal => by cases signal <;> assumption, ?_⟩
  have hone : w.sum = 1 := hsum
  norm_num [hone]

end Weights

/-! ## Signals that matched -/

theorem Score.isPositive_real {x : ℝ} : Score.isPositive x = true ↔ 0 < x := by
  rw [Score.isPositive, Bool.and_eq_true, Bool.not_eq_true', Bool.eq_false_iff, ne_eq, Score.le_real,
    Score.le_real, Score.zero_real]
  exact ⟨fun h => not_le.1 h.2, fun h => ⟨h.le, not_le.2 h⟩⟩

namespace Signals

variable {s t : Signals ℝ}

theorem matched_real (s : Signals ℝ) :
    s.matched = [Signal.semantic, .symbol, .fulltext].countP fun signal => 0 < s.get signal := by
  have hscores : [s.semantic, s.symbol, s.fulltext] =
      [Signal.semantic, .symbol, .fulltext].map s.get := rfl
  rw [matched, hscores, ← List.countP_eq_length_filter, List.countP_map]
  refine List.countP_congr fun signal _ => ?_
  rw [Function.comp_apply, Score.isPositive_real, decide_eq_true_iff]

theorem matched_le (s : Signals ℝ) : s.matched ≤ 3 := by
  rw [matched_real]
  exact List.countP_le_length

/-- More evidence is for more signals. -/
theorem matched_mono (h : ∀ signal, s.get signal ≤ t.get signal) : s.matched ≤ t.matched := by
  rw [matched_real, matched_real]
  refine List.countP_mono_left fun signal _ hs => ?_
  rw [decide_eq_true_iff] at hs ⊢
  exact hs.trans_le (h signal)

end Signals

namespace Weights

variable {w : Weights ℝ} {s t : Signals ℝ}

/-- The score is the weighted sum, and a tenth of it for every signal that matched after the first. -/
theorem total_real (w : Weights ℝ) (s : Signals ℝ) :
    w.total s = w.base s * (1 + (s.matched - 1 : ℕ) / 10) := by
  have hboost : ∀ n : ℕ, Score.mul (w.base s) (Score.boost n) = w.base s * (1 + n / 10) := fun n => by
    change w.base s * (((1 : ℕ) : ℝ) + ((1 : ℕ) : ℝ) / ((10 : ℕ) : ℝ) * (n : ℝ)) = _
    push_cast
    ring
  rw [total]
  split
  · exact hboost _
  · rename_i hfew
    rw [Nat.sub_eq_zero_of_le (Nat.le_of_not_lt hfew), Nat.cast_zero, zero_div, add_zero, mul_one]

theorem base_nonneg (hw : ∀ signal, 0 ≤ w.get signal) (hs : ∀ signal, 0 ≤ s.get signal) :
    0 ≤ w.base s := by
  rw [base_real]
  have hterm : ∀ signal, 0 ≤ w.get signal * s.get signal := fun signal =>
    mul_nonneg (hw signal) (hs signal)
  linarith [hterm .semantic, hterm .symbol, hterm .fulltext]

theorem base_mono (hw : ∀ signal, 0 ≤ w.get signal) (h : ∀ signal, s.get signal ≤ t.get signal) :
    w.base s ≤ w.base t := by
  rw [base_real, base_real]
  gcongr <;> first | exact hw _ | exact h _

theorem total_nonneg (hw : ∀ signal, 0 ≤ w.get signal) (hs : ∀ signal, 0 ≤ s.get signal) :
    0 ≤ w.total s := by
  rw [total_real]
  exact mul_nonneg (base_nonneg hw hs) (by positivity)

/-- **More evidence never lowers the score**, neither by the weighted sum nor by the signals that
matched. -/
theorem total_mono (hw : ∀ signal, 0 ≤ w.get signal) (hs : ∀ signal, 0 ≤ s.get signal)
    (h : ∀ signal, s.get signal ≤ t.get signal) : w.total s ≤ w.total t := by
  have hmatched : s.matched - 1 ≤ t.matched - 1 := Nat.sub_le_sub_right (Signals.matched_mono h) 1
  have hbase : w.base s ≤ w.base t := base_mono hw h
  have hnonneg : 0 ≤ w.base t := (base_nonneg hw hs).trans hbase
  rw [total_real, total_real]
  gcongr

/-- Where no signal is above one, the score is at most a fifth more than the sum of the weights. -/
theorem total_le (hw : ∀ signal, 0 ≤ w.get signal)
    (hs : ∀ signal, 0 ≤ s.get signal ∧ s.get signal ≤ 1) : w.total s ≤ w.sum * 1.2 := by
  have hsum : w.base ⟨1, 1, 1⟩ = w.sum := by
    simp only [base_real, sum_real, Signals.get, mul_one]
  have hbase : w.base s ≤ w.sum := hsum ▸ base_mono hw fun signal => by
    cases signal <;> exact (hs _).2
  have hboost : (1 + (s.matched - 1 : ℕ) / 10 : ℝ) ≤ 1.2 := by
    have hfew : ((s.matched - 1 : ℕ) : ℝ) ≤ 2 := by
      exact_mod_cast Nat.sub_le_of_le_add (Signals.matched_le s)
    linarith
  have hnonneg : 0 ≤ w.sum := (base_nonneg hw fun signal => (hs signal).1).trans hbase
  rw [total_real]
  gcongr

end Weights

namespace Fusion

/-! ## Evidence -/

variable {taken taken' : List (Signal × Hit ℝ)} {p : Location} {s s' : Signals ℝ}

theorem Evidence.nonneg (h : Evidence taken p s) (signal : Signal) : 0 ≤ s.get signal :=
  (h signal).2 (Set.mem_insert _ _)

theorem Evidence.le_one (h : Evidence taken p s) (hone : ∀ t ∈ taken, t.2.score ≤ 1)
    (signal : Signal) : s.get signal ≤ 1 := by
  rcases (h signal).1 with hzero | ⟨hit, hmem, -, hscore⟩
  · rw [hzero]
    exact zero_le_one
  · rw [← hscore]
    exact hone _ hmem

/-- More hits give more evidence. -/
theorem Evidence.mono (h : Evidence taken p s) (h' : Evidence taken' p s') (hsub : taken ⊆ taken')
    (signal : Signal) : s.get signal ≤ s'.get signal := by
  refine (h signal).mono (h' signal) (Set.insert_subset_insert ?_)
  rintro x ⟨hit, hmem, hloc, hscore⟩
  exact ⟨hit, hsub hmem, hloc, hscore⟩

/-! ## The hits of three searches -/

/-- The ranking of the hits of three searches, given by signal. -/
noncomputable def rankingOf (w : Weights ℝ) (hits : Signal → List (Hit ℝ)) : List (Hit ℝ) :=
  ranking w (hits .symbol) (hits .fulltext) (hits .semantic)

/-- The hits of three searches that count, given by signal. -/
noncomputable def foundIn (hits : Signal → List (Hit ℝ)) : List (Signal × Hit ℝ) :=
  allFound (hits .symbol) (hits .fulltext) (hits .semantic)

variable {w : Weights ℝ} {hits hits' : Signal → List (Hit ℝ)} {signal : Signal} {hit : Hit ℝ}

theorem isRanking_rankingOf (w : Weights ℝ) (hits : Signal → List (Hit ℝ)) :
    IsRanking w (foundIn hits) (rankingOf w hits) := isRanking_ranking w _ _ _

theorem mem_foundIn : (signal, hit) ∈ foundIn hits ↔ hit ∈ hits signal ∧ 0 < hit.score := by
  have hfound : ∀ found, (signal, hit) ∈ foundBy found (hits found) ↔
      found = signal ∧ hit ∈ hits signal ∧ 0 < hit.score := fun found => by
    simp only [foundBy, List.mem_map, List.mem_filter, decide_eq_true_eq, Prod.mk.injEq]
    constructor
    · rintro ⟨h, hmem, rfl, rfl⟩
      exact ⟨rfl, hmem⟩
    · rintro ⟨rfl, hmem⟩
      exact ⟨hit, hmem, rfl, rfl⟩
  rw [foundIn, allFound, List.mem_append, List.mem_append, hfound, hfound, hfound]
  cases signal <;> simp

/-- Hits with one more of a signal, wherever it stands in its list. -/
structure Adds (signal : Signal) (hit : Hit ℝ) (hits hits' : Signal → List (Hit ℝ)) : Prop where
  added : ∃ before after, hits signal = before ++ after ∧ hits' signal = before ++ hit :: after
  others : ∀ other, other ≠ signal → hits' other = hits other

theorem Adds.subset (h : Adds signal hit hits hits') (other : Signal) : hits other ⊆ hits' other := by
  by_cases hother : other = signal
  · subst hother
    obtain ⟨before, after, hbefore, hafter⟩ := h.added
    rw [hbefore, hafter]
    exact (List.sublist_cons_self hit after).append_left before |>.subset
  · rw [h.others other hother]
    exact List.Subset.refl _

/-- No place of the first results loses its result or has a lower score in the second ones. -/
def NoLower (results results' : List (Hit ℝ)) : Prop :=
  ∀ r ∈ results, (∃ r' ∈ results', r'.location = r.location) ∧
    ∀ r' ∈ results', r'.location = r.location → r.score ≤ r'.score

theorem noLower_of_subset (hw : ∀ signal, 0 ≤ w.get signal)
    (hsub : ∀ signal, hits signal ⊆ hits' signal) : NoLower (rankingOf w hits) (rankingOf w hits') := by
  have hranking := isRanking_rankingOf w hits
  have hranking' := isRanking_rankingOf w hits'
  have hfound : foundIn hits ⊆ foundIn hits' := by
    rintro ⟨signal, hit⟩ hmem
    rw [mem_foundIn] at hmem ⊢
    exact ⟨hsub signal hmem.1, hmem.2⟩
  intro r hr
  refine ⟨?_, fun r' hr' hloc => ?_⟩
  · have hplace := (hranking.mem_places r.location).1 (List.mem_map_of_mem hr)
    have hplace' := (hranking'.mem_places r.location).2 (List.map_subset _ hfound hplace)
    exact List.mem_map.1 hplace'
  · obtain ⟨s, -, hs, hscore⟩ := hranking.scored r hr
    obtain ⟨s', -, hs', hscore'⟩ := hranking'.scored r' hr'
    rw [hloc] at hs'
    rw [hscore, hscore']
    exact Weights.total_mono hw hs.nonneg (hs.mono hs' hfound)

/-- **One more hit lowers no score, and scores are bounded.** With weights that are accepted, whatever
the hits are, one more hit of any signal anywhere in its list takes no place out of the whole ranking and
lowers the score of none. If no hit scores above one, all scores are between zero and a fifth more than
one and the millionth by which the weights may be off. -/
theorem hits_never_lower_scores {w : Weights ℝ} (hw : w.fault? = none) :
    (∀ signal hit hits hits', Adds signal hit hits hits' →
      NoLower (rankingOf w hits) (rankingOf w hits')) ∧
    ∀ hits : Signal → List (Hit ℝ), (∀ signal, ∀ hit ∈ hits signal, hit.score ≤ 1) →
      ∀ r ∈ rankingOf w hits, 0 ≤ r.score ∧ r.score ≤ 1.2 * (1 + 1e-6) := by
  obtain ⟨hnonneg, hsum⟩ := Weights.fault?_real.1 hw
  refine ⟨fun signal hit hits hits' h => noLower_of_subset hnonneg h.subset, fun hits hone r hr => ?_⟩
  obtain ⟨s, -, hs, hscore⟩ := (isRanking_rankingOf w hits).scored r hr
  have hfound : ∀ t ∈ foundIn hits, t.2.score ≤ 1 := by
    rintro ⟨signal, hit⟩ hmem
    exact hone signal hit (mem_foundIn.1 hmem).1
  have hbound := Weights.total_le hnonneg fun signal => ⟨hs.nonneg signal, hs.le_one hfound signal⟩
  rw [hscore]
  refine ⟨Weights.total_nonneg hnonneg hs.nonneg, ?_⟩
  linarith [(abs_le.1 hsum).2]

namespace Sample

/-- The weights used where none are given. -/
noncomputable def usual : Weights ℝ := ⟨0.4, 0.35, 0.25⟩

theorem fault?_usual : usual.fault? = none := by
  apply Weights.fault?_of_sum <;> norm_num [usual]

/-- A function on a line of a file, found with a score. -/
def scored (line : Nat) (x : ℝ) : Hit ℝ :=
  ⟨.codeChunk, none, "a.ts", some line, none, "function", none, none, none, x, [], none⟩

/-- A function found by its name. -/
noncomputable def byName : Signal → List (Hit ℝ)
  | .symbol => [scored 3 0.8]
  | .fulltext | .semantic => []

/-- The same function, found by its text too. -/
noncomputable def byNameAndText : Signal → List (Hit ℝ)
  | .symbol => [scored 3 0.8]
  | .fulltext => [scored 3 1]
  | .semantic => []

@[simp] theorem location_scored (line : Nat) (x : ℝ) :
    (scored line x).location = ("a.ts", some line) := rfl

@[simp] theorem score_scored (line : Nat) (x : ℝ) : (scored line x).score = x := rfl

theorem gather_nil (signal : Signal) (found : List (Gathered ℝ)) : gather signal found [] = found := rfl

theorem gather_scored {x : ℝ} (h : 0 < x) (signal : Signal) (found : List (Gathered ℝ)) (line : Nat)
    (rest : List (Hit ℝ)) : gather signal found (scored line x :: rest) =
      gather signal (place signal (scored line x) found) rest := by
  rw [gather, if_neg]
  rwa [Score.le_real, Score.zero_real, not_le]

/-- The score for evidence given signal by signal. -/
theorem total_mk (w : Weights ℝ) (semantic symbol fulltext : ℝ) :
    w.total ⟨semantic, symbol, fulltext⟩ =
      (w.semantic * semantic + w.symbol * symbol + w.fulltext * fulltext) *
        (1 + ([semantic, symbol, fulltext].countP (0 < ·) - 1 : ℕ) / 10) := by
  rw [Weights.total_real, Signals.matched_real]
  rfl

theorem score_byScore_single (w : Weights ℝ) (g : Gathered ℝ) :
    (Hit.byScore ([g].map (Gathered.finish w))).map Hit.score = [w.total g.signals] := by
  simp [Hit.byScore, Gathered.finish]

theorem scores_byName : (rankingOf usual byName).map Hit.score = [0.28] := by
  have hresults : gathered [scored 3 0.8] [] [] = [⟨scored 3 0.8, ⟨0, 0.8, 0⟩⟩] := by
    norm_num [gathered, gather_nil, gather_scored, place, Signals.raise, Signals.none,
      Signals.best_real]
  rw [rankingOf, ranking, byName, byName, byName, hresults, score_byScore_single]
  norm_num [total_mk, usual, List.countP_cons]

theorem scores_byNameAndText : (rankingOf usual byNameAndText).map Hit.score = [0.583] := by
  have hresults : gathered [scored 3 0.8] [scored 3 1] [] =
      [⟨absorb (scored 3 0.8) (scored 3 1), ⟨0, 0.8, 1⟩⟩] := by
    norm_num [gathered, gather_nil, gather_scored, place, Signals.raise, Signals.none,
      Signals.best_real]
  rw [rankingOf, ranking, byNameAndText, byNameAndText, byNameAndText, hresults, score_byScore_single]
  norm_num [total_mk, usual, List.countP_cons]

end Sample

/-- With the usual weights, a function found by its name scores higher once it is found by its text too,
and still within the bounds. -/
theorem hits_never_lower_scores_text :
    Sample.usual.fault? = none ∧
    Adds .fulltext (Sample.scored 3 1) Sample.byName Sample.byNameAndText ∧
    (rankingOf Sample.usual Sample.byName).map Hit.score = [0.28] ∧
    (rankingOf Sample.usual Sample.byNameAndText).map Hit.score = [0.583] ∧
    NoLower (rankingOf Sample.usual Sample.byName) (rankingOf Sample.usual Sample.byNameAndText) ∧
    ∀ r ∈ rankingOf Sample.usual Sample.byNameAndText, 0 ≤ r.score ∧ r.score ≤ 1.2 * (1 + 1e-6) := by
  have hadds : Adds .fulltext (Sample.scored 3 1) Sample.byName Sample.byNameAndText := by
    refine ⟨⟨[], [], rfl, rfl⟩, fun other hother => ?_⟩
    cases other with
    | fulltext => exact absurd rfl hother
    | semantic | symbol => rfl
  have hone : ∀ signal, ∀ hit ∈ Sample.byNameAndText signal, hit.score ≤ 1 := by
    intro signal
    cases signal <;> norm_num [Sample.byNameAndText]
  obtain ⟨hrise, hbounds⟩ := hits_never_lower_scores Sample.fault?_usual
  exact ⟨Sample.fault?_usual, hadds, Sample.scores_byName, Sample.scores_byNameAndText,
    hrise _ _ _ _ hadds, hbounds _ hone⟩

end Fusion

end CodeIndex
