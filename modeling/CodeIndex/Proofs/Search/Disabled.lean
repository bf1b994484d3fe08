import CodeIndex.Proofs.Search.Scores

/-!
What a signal of weight zero has to say.

Its evidence does not enter the weighted sum, but it counts among the signals that matched, and its hits
are places that come up. So where two inputs differ in its hits only, a place that other signals hit has
the same weighted sum in both rankings, and its score differs by a tenth of that sum just where the signal
hits the place in one of them (`Differs`). Places that tie stand as they came up, which the signal decides
for those that it comes up with first (`cameUp_iff`).

* `disabled_signal_only_boosts`: apart from that the results of the other signals have the same scores and
  the same order;
* `disabled_signal_has_a_say`: they do not always have them.
-/
namespace CodeIndex.Fusion

variable {w : Weights ℝ} {hits hits' : Signal → List (Hit ℝ)} {signal other : Signal} {p q : Location}

/-! ## Places of signals -/

/-- A hit of a signal that counts is at a place. -/
def HitBy (signal : Signal) (hits : Signal → List (Hit ℝ)) (p : Location) : Prop :=
  ∃ hit ∈ hits signal, 0 < hit.score ∧ hit.location = p

/-- Some other signal than the given one hits a place. -/
def HitByOthers (signal : Signal) (hits : Signal → List (Hit ℝ)) (p : Location) : Prop :=
  ∃ other, other ≠ signal ∧ HitBy other hits p

/-- Weights that are accepted and give a signal the weight zero, and two inputs that differ in the hits of
that signal only. -/
structure Disables (w : Weights ℝ) (signal : Signal) (hits hits' : Signal → List (Hit ℝ)) : Prop where
  accepted : w.fault? = none
  weight : w.get signal = 0
  others : ∀ other, other ≠ signal → hits other = hits' other

theorem mem_places_foundIn : p ∈ places (foundIn hits) ↔ ∃ signal, HitBy signal hits p := by
  simp only [places, List.mem_map, Prod.exists, mem_foundIn]
  constructor
  · rintro ⟨signal, hit, ⟨hmem, hpos⟩, hloc⟩
    exact ⟨signal, hit, hmem, hpos, hloc⟩
  · rintro ⟨signal, hit, hmem, hpos, hloc⟩
    exact ⟨signal, hit, ⟨hmem, hpos⟩, hloc⟩

/-- A signal has evidence at a place just where a hit of it is. -/
theorem Evidence.pos_iff {s : Signals ℝ} (h : Evidence (foundIn hits) p s) (signal : Signal) :
    0 < s.get signal ↔ HitBy signal hits p := by
  constructor
  · intro hpos
    rcases (h signal).1 with hzero | ⟨hit, hmem, hloc, -⟩
    · exact absurd hzero hpos.ne'
    · obtain ⟨hmem, hscore⟩ := mem_foundIn.1 hmem
      exact ⟨hit, hmem, hscore, hloc⟩
  · rintro ⟨hit, hmem, hpos, hloc⟩
    exact hpos.trans_le ((h signal).2 (Set.mem_insert_of_mem _
      ⟨hit, mem_foundIn.2 ⟨hmem, hpos⟩, hloc, rfl⟩))

/-- A signal with the same hits has the same evidence. -/
theorem Evidence.get_eq {s s' : Signals ℝ} (h : Evidence (foundIn hits) p s)
    (h' : Evidence (foundIn hits') p s') (hsame : hits other = hits' other) :
    s.get other = s'.get other := by
  have hscores : scoresAt (foundIn hits) other p = scoresAt (foundIn hits') other p := by
    ext x
    simp only [mem_scoresAt, mem_foundIn, hsame]
  exact (h other).unique (hscores ▸ h' other)

/-! ## Scores -/

theorem base_eq_of_weight {s s' : Signals ℝ} (hoff : w.get signal = 0)
    (h : ∀ other, other ≠ signal → s.get other = s'.get other) : w.base s = w.base s' := by
  have hterm : ∀ other, w.get other * s.get other = w.get other * s'.get other := fun other => by
    by_cases hother : other = signal
    · rw [hother, hoff, zero_mul, zero_mul]
    · rw [h other hother]
  rw [Weights.base_real, Weights.base_real, hterm, hterm, hterm]

/-- The signals that matched, apart from one. -/
noncomputable def matchedOthers (signal : Signal) (s : Signals ℝ) : Nat :=
  ([Signal.semantic, .symbol, .fulltext].erase signal).countP fun other => 0 < s.get other

open Classical in
theorem matched_eq_others (signal : Signal) (s : Signals ℝ) :
    s.matched = matchedOthers signal s + if 0 < s.get signal then 1 else 0 := by
  have hmem : signal ∈ [Signal.semantic, .symbol, .fulltext] := by cases signal <;> decide
  rw [Signals.matched_real, (List.perm_cons_erase hmem).countP_eq, List.countP_cons, matchedOthers]
  simp only [decide_eq_true_eq]

theorem mem_erase_signal : other ∈ [Signal.semantic, .symbol, .fulltext].erase signal ↔
    other ≠ signal := by
  cases other <;> cases signal <;> decide

theorem matchedOthers_congr {s s' : Signals ℝ}
    (h : ∀ other, other ≠ signal → s.get other = s'.get other) :
    matchedOthers signal s = matchedOthers signal s' :=
  List.countP_congr fun other hother => by rw [h other (mem_erase_signal.1 hother)]

theorem matchedOthers_pos {s : Signals ℝ} (h : ∃ other, other ≠ signal ∧ 0 < s.get other) :
    1 ≤ matchedOthers signal s := by
  obtain ⟨other, hother, hpos⟩ := h
  exact List.countP_pos_iff.2 ⟨other, mem_erase_signal.2 hother, decide_eq_true hpos⟩

/-- At a place of other signals the weighted sum is raised by a tenth for each of them after the first, and
by one more tenth if the signal hits the place. -/
theorem total_at {s : Signals ℝ} (hs : Evidence (foundIn hits) p s) (hp : HitByOthers signal hits p) :
    (HitBy signal hits p →
      w.total s = w.base s * (1 + (matchedOthers signal s - 1 : ℕ) / 10) + w.base s / 10) ∧
    (¬ HitBy signal hits p → w.total s = w.base s * (1 + (matchedOthers signal s - 1 : ℕ) / 10)) := by
  obtain ⟨other, hother, hhit⟩ := hp
  have hpos := matchedOthers_pos ⟨other, hother, (hs.pos_iff other).2 hhit⟩
  rw [Weights.total_real, matched_eq_others signal]
  refine ⟨fun hit => ?_, fun hit => ?_⟩
  · rw [if_pos ((hs.pos_iff signal).2 hit), Nat.add_sub_cancel, Nat.cast_sub hpos]
    push_cast
    ring
  · rw [if_neg fun h => hit ((hs.pos_iff signal).1 h), Nat.add_zero]

/-- Two results at a place that differ by a signal of weight zero: the score is the same if the signal hits
the place for both or for neither, and a tenth of the weighted sum higher where it does for one. -/
structure Differs (w : Weights ℝ) (signal : Signal) (p : Location)
    (hits hits' : Signal → List (Hit ℝ)) (r r' : Hit ℝ) : Prop where
  location : r.location = p ∧ r'.location = p
  same : (HitBy signal hits p ↔ HitBy signal hits' p) → r.score = r'.score
  lower : ¬ HitBy signal hits p → HitBy signal hits' p →
    ∃ s, r.breakdown = some s ∧ r'.score = r.score + w.base s / 10
  higher : HitBy signal hits p → ¬ HitBy signal hits' p →
    ∃ s, r.breakdown = some s ∧ r.score = r'.score + w.base s / 10

theorem differs_of_mem (hoff : w.get signal = 0)
    (hsame : ∀ other, other ≠ signal → hits other = hits' other) (hp : HitByOthers signal hits p)
    {r r' : Hit ℝ} (hr : r ∈ rankingOf w hits) (hr' : r' ∈ rankingOf w hits') (hloc : r.location = p)
    (hloc' : r'.location = p) : Differs w signal p hits hits' r r' := by
  obtain ⟨s, hbreakdown, hs, hscore⟩ := (isRanking_rankingOf w hits).scored r hr
  obtain ⟨s', -, hs', hscore'⟩ := (isRanking_rankingOf w hits').scored r' hr'
  rw [hloc] at hs
  rw [hloc'] at hs'
  have hp' : HitByOthers signal hits' p := by
    obtain ⟨other, hother, hit, hmem, hhit⟩ := hp
    exact ⟨other, hother, hit, hsame other hother ▸ hmem, hhit⟩
  have hget : ∀ other, other ≠ signal → s'.get other = s.get other := fun other hother =>
    (hs.get_eq hs' (hsame other hother)).symm
  have htotal := total_at (w := w) hs hp
  have htotal' := total_at (w := w) hs' hp'
  rw [base_eq_of_weight hoff hget, matchedOthers_congr hget, ← hscore'] at htotal'
  rw [← hscore] at htotal
  refine ⟨⟨hloc, hloc'⟩, fun halike => ?_, fun hnot hhit => ⟨s, hbreakdown, ?_⟩,
    fun hhit hnot => ⟨s, hbreakdown, ?_⟩⟩
  · by_cases hhit : HitBy signal hits p
    · rw [htotal.1 hhit, htotal'.1 (halike.1 hhit)]
    · rw [htotal.2 hhit, htotal'.2 fun h => hhit (halike.2 h)]
  · rw [htotal.2 hnot, htotal'.1 hhit]
  · rw [htotal.1 hhit, htotal'.2 hnot]

/-! ## Order -/

/-- The order in which fusion takes the hits of signals. -/
def turns : List Signal := [.symbol, .fulltext, .semantic]

/-- The places of the hits of a signal that count, as they come up. -/
noncomputable def placesOf (hits : Signal → List (Hit ℝ)) (signal : Signal) : List Location :=
  places (foundBy signal (hits signal))

theorem mem_placesOf : p ∈ placesOf hits signal ↔ HitBy signal hits p := by
  simp only [placesOf, places, foundBy, List.map_map, List.mem_map, List.mem_filter, decide_eq_true_eq,
    Function.comp_apply, HitBy, and_assoc]

theorem places_foundIn (hits : Signal → List (Hit ℝ)) :
    places (foundIn hits) = turns.flatMap (placesOf hits) := by
  simp only [foundIn, allFound, places, turns, placesOf, List.map_append, List.flatMap_cons,
    List.flatMap_nil, List.append_nil, List.append_assoc]

/-- What comes first decides between two elements if one of them is there. -/
theorem idxOf_lt_idxOf_append {γ : Type} [BEq γ] [LawfulBEq γ] {a : List γ} {x y : γ}
    (h : x ∈ a ∨ y ∈ a) (b c : List γ) :
    (a ++ b).idxOf x < (a ++ b).idxOf y ↔ (a ++ c).idxOf x < (a ++ c).idxOf y := by
  by_cases hx : x ∈ a
  · by_cases hy : y ∈ a
    · simp only [List.idxOf_append_of_mem hx, List.idxOf_append_of_mem hy]
    · have hlt := List.idxOf_lt_length_iff.2 hx
      simp only [List.idxOf_append_of_mem hx, List.idxOf_append_of_notMem hy]
      omega
  · have hlt := List.idxOf_lt_length_iff.2 (h.resolve_left hx)
    simp only [List.idxOf_append_of_notMem hx, List.idxOf_append_of_mem (h.resolve_left hx)]
    omega

/-- Elements that are not in the middle stand as they do around it. -/
theorem idxOf_lt_idxOf_middle {γ : Type} [BEq γ] [LawfulBEq γ] {b b' : List γ} {x y : γ}
    (hb : x ∉ b ∧ y ∉ b) (hb' : x ∉ b' ∧ y ∉ b') (a c : List γ) :
    (a ++ (b ++ c)).idxOf x < (a ++ (b ++ c)).idxOf y ↔
      (a ++ (b' ++ c)).idxOf x < (a ++ (b' ++ c)).idxOf y := by
  by_cases ha : x ∈ a ∨ y ∈ a
  · exact idxOf_lt_idxOf_append ha _ _
  · rw [not_or] at ha
    simp only [List.idxOf_append_of_notMem ha.1, List.idxOf_append_of_notMem ha.2,
      List.idxOf_append_of_notMem hb.1, List.idxOf_append_of_notMem hb.2,
      List.idxOf_append_of_notMem hb'.1, List.idxOf_append_of_notMem hb'.2]
    omega

/-- A signal is taken before another. -/
def TakenBefore (other signal : Signal) : Prop := turns.idxOf other < turns.idxOf signal

/-- A signal comes up with one of two places, and no signal taken before it does. -/
structure ComesFirst (signal : Signal) (hits : Signal → List (Hit ℝ)) (p q : Location) : Prop where
  hit : HitBy signal hits p ∨ HitBy signal hits q
  first : ∀ other, TakenBefore other signal → ¬ HitBy other hits p ∧ ¬ HitBy other hits q

theorem not_comesFirst (h : ¬ ComesFirst signal hits p q) :
    (∃ other, TakenBefore other signal ∧ (HitBy other hits p ∨ HitBy other hits q)) ∨
      ¬ HitBy signal hits p ∧ ¬ HitBy signal hits q := by
  by_cases hhit : HitBy signal hits p ∨ HitBy signal hits q
  · refine Or.inl (by_contra fun hnone => h ⟨hhit, fun other hbefore => not_or.1 fun hother => ?_⟩)
    exact hnone ⟨other, hbefore, hother⟩
  · exact Or.inr (not_or.1 hhit)

theorem exists_turns (signal : Signal) : ∃ before after, turns = before ++ signal :: after ∧
    signal ∉ before ∧ signal ∉ after ∧ ∀ other, TakenBefore other signal → other ∈ before := by
  obtain ⟨before, after, hturns⟩ : ∃ before after, turns = before ++ signal :: after :=
    List.append_of_mem (by cases signal <;> decide)
  have hnodup : (before ++ signal :: after).Nodup := hturns ▸ by decide
  obtain ⟨hfresh, -⟩ := List.nodup_cons.1 (List.nodup_middle.1 hnodup)
  rw [List.mem_append, not_or] at hfresh
  refine ⟨before, after, hturns, hfresh.1, hfresh.2, fun other hbefore => by_contra fun hother => ?_⟩
  rw [TakenBefore, hturns, List.idxOf_append_of_notMem hother,
    List.idxOf_append_of_notMem hfresh.1, List.idxOf_cons_self] at hbefore
  omega

/-- Signals with the same hits come up with the same places. -/
theorem flatMap_placesOf_congr (hsame : ∀ other, other ≠ signal → hits other = hits' other)
    {signals : List Signal} (h : signal ∉ signals) :
    signals.flatMap (placesOf hits) = signals.flatMap (placesOf hits') := by
  refine List.flatMap_congr fun other hother => ?_
  have hne : other ≠ signal := fun heq => h (heq ▸ hother)
  rw [placesOf, placesOf, hsame other hne]

/-- **Two places come up in one order** whatever the hits of a signal are, if it never comes first with one
of them. -/
theorem cameUp_iff (hsame : ∀ other, other ≠ signal → hits other = hits' other)
    (h : ¬ ComesFirst signal hits p q) (h' : ¬ ComesFirst signal hits' p q) :
    (places (foundIn hits)).idxOf p < (places (foundIn hits)).idxOf q ↔
      (places (foundIn hits')).idxOf p < (places (foundIn hits')).idxOf q := by
  obtain ⟨before, after, hturns, hnotBefore, hnotAfter, hearlier⟩ := exists_turns signal
  have hsplit : ∀ hits : Signal → List (Hit ℝ), places (foundIn hits) =
      before.flatMap (placesOf hits) ++ (placesOf hits signal ++ after.flatMap (placesOf hits)) :=
    fun hits => by rw [places_foundIn, hturns, List.flatMap_append, List.flatMap_cons]
  have hearly : ∀ {hits : Signal → List (Hit ℝ)},
      (∃ other, TakenBefore other signal ∧ (HitBy other hits p ∨ HitBy other hits q)) →
        p ∈ before.flatMap (placesOf hits) ∨ q ∈ before.flatMap (placesOf hits) := by
    rintro hits ⟨other, hbefore, hhit⟩
    have hplace : ∀ {x}, HitBy other hits x → x ∈ before.flatMap (placesOf hits) := fun hx =>
      List.mem_flatMap.2 ⟨other, hearlier other hbefore, mem_placesOf.2 hx⟩
    exact hhit.imp hplace hplace
  have hbefore := flatMap_placesOf_congr hsame hnotBefore
  rw [hsplit, hsplit, ← hbefore, ← flatMap_placesOf_congr hsame hnotAfter]
  -- either a signal taken before comes up with one of the places, or this one never does
  rcases not_comesFirst h with hother | hnot
  · exact idxOf_lt_idxOf_append (hearly hother) _ _
  rcases not_comesFirst h' with hother | hnot'
  · exact idxOf_lt_idxOf_append (hbefore ▸ hearly hother) _ _
  · simp only [← mem_placesOf] at hnot hnot'
    exact idxOf_lt_idxOf_middle hnot hnot' _ _

/-! ## Two rankings -/

/-- The result at one place stands before the result at another. -/
def StandsBefore (results : List (Hit ℝ)) (p q : Location) : Prop :=
  (results.map Hit.location).idxOf p < (results.map Hit.location).idxOf q

theorem IsRanking.getElem_idxOf {taken : List (Signal × Hit ℝ)} {results : List (Hit ℝ)}
    (h : IsRanking w taken results) {r : Hit ℝ} (hr : r ∈ results) :
    ∃ hlt : (results.map Hit.location).idxOf r.location < results.length,
      results[(results.map Hit.location).idxOf r.location] = r := by
  have hlt := List.idxOf_lt_length_iff.2 (List.mem_map_of_mem (f := Hit.location) hr)
  rw [List.length_map] at hlt
  refine ⟨hlt, List.inj_on_of_nodup_map h.nodup (List.getElem_mem hlt) hr ?_⟩
  rw [← List.getElem_map Hit.location (h := by rwa [List.length_map]), List.getElem_idxOf]

theorem IsRanking.order_of_standsBefore {taken : List (Signal × Hit ℝ)} {results : List (Hit ℝ)}
    (h : IsRanking w taken results) {r t : Hit ℝ} (hr : r ∈ results) (ht : t ∈ results)
    (hlt : StandsBefore results r.location t.location) : t.score < r.score ∨
      t.score = r.score ∧ (places taken).idxOf r.location < (places taken).idxOf t.location := by
  obtain ⟨hi, hri⟩ := h.getElem_idxOf hr
  obtain ⟨hj, htj⟩ := h.getElem_idxOf ht
  have hpair := List.pairwise_iff_getElem.1 h.ordered _ _ hi hj hlt
  rwa [hri, htj] at hpair

theorem IsRanking.standsBefore_of_mem {taken : List (Signal × Hit ℝ)} {results : List (Hit ℝ)}
    (h : IsRanking w taken results) {r t : Hit ℝ} (hr : r ∈ results) (ht : t ∈ results) :
    StandsBefore results r.location t.location ↔ t.score < r.score ∨
      t.score = r.score ∧ (places taken).idxOf r.location < (places taken).idxOf t.location := by
  refine ⟨h.order_of_standsBefore hr ht, fun horder => ?_⟩
  rcases Nat.lt_trichotomy ((results.map Hit.location).idxOf r.location)
    ((results.map Hit.location).idxOf t.location) with hlt | heq | hgt
  · exact hlt
  · -- two places that stand at one index are one place, and no place comes before itself
    have hloc : r.location = t.location := (List.idxOf_inj (List.mem_map_of_mem hr)).1 heq
    obtain rfl : r = t := List.inj_on_of_nodup_map h.nodup hr ht hloc
    rcases horder with hlt | ⟨-, hlt⟩
    · exact absurd hlt (lt_irrefl _)
    · exact absurd hlt (lt_irrefl _)
  · rcases h.order_of_standsBefore ht hr hgt with hlt' | ⟨heq', hlt'⟩ <;>
      rcases horder with hlt | ⟨heq, hlt⟩
    · exact absurd hlt' hlt.asymm
    · exact absurd heq hlt'.ne'
    · exact absurd heq' hlt.ne'
    · exact absurd hlt' hlt.asymm

/-- The result at one place scores higher than the result at another. -/
def ScoresAbove (results : List (Hit ℝ)) (p q : Location) : Prop :=
  ∃ r ∈ results, ∃ t ∈ results, r.location = p ∧ t.location = q ∧ t.score < r.score

/-- The results at two places have one score. -/
def Tied (results : List (Hit ℝ)) (p q : Location) : Prop :=
  ∃ r ∈ results, ∃ t ∈ results, r.location = p ∧ t.location = q ∧ t.score = r.score

/-- One place stands before another if it scores higher, or they tie and it came up first. -/
theorem IsRanking.standsBefore_iff {taken : List (Signal × Hit ℝ)} {results : List (Hit ℝ)}
    (h : IsRanking w taken results) (hp : p ∈ places taken) (hq : q ∈ places taken) :
    StandsBefore results p q ↔ ScoresAbove results p q ∨
      Tied results p q ∧ (places taken).idxOf p < (places taken).idxOf q := by
  obtain ⟨r, hr, rfl⟩ := List.mem_map.1 ((h.mem_places p).2 hp)
  obtain ⟨t, ht, rfl⟩ := List.mem_map.1 ((h.mem_places q).2 hq)
  have hunique : ∀ {k l}, k ∈ results → l ∈ results → k.location = l.location → k = l := fun hk hl =>
    List.inj_on_of_nodup_map h.nodup hk hl
  rw [h.standsBefore_of_mem hr ht]
  refine or_congr ?_ (and_congr_left fun _ => ?_)
  · refine ⟨fun hlt => ⟨r, hr, t, ht, rfl, rfl, hlt⟩, ?_⟩
    rintro ⟨k, hk, l, hl, hkr, hlt, hscore⟩
    rwa [hunique hk hr hkr, hunique hl ht hlt] at hscore
  · refine ⟨fun heq => ⟨r, hr, t, ht, rfl, rfl, heq⟩, ?_⟩
    rintro ⟨k, hk, l, hl, hkr, hlt, hscore⟩
    rwa [hunique hk hr hkr, hunique hl ht hlt] at hscore

/-- **A signal of weight zero only boosts.** Every place that another signal hits has a result in both whole
rankings, whatever the hits of the signal are. The two results have the same score if the signal hits the
place in both inputs or in neither; where it hits it in one only, the score there is a tenth of the weighted
sum higher. Any two such places whose scores compare alike in both rankings stand in the same order in both,
unless they tie and the signal is the first to come up with one of them. -/
theorem disabled_signal_only_boosts {w : Weights ℝ} {signal : Signal}
    {hits hits' : Signal → List (Hit ℝ)} (h : Disables w signal hits hits') :
    (∀ p, HitByOthers signal hits p → ∃ r ∈ rankingOf w hits, ∃ r' ∈ rankingOf w hits',
      Differs w signal p hits hits' r r') ∧
    ∀ p q, HitByOthers signal hits p → HitByOthers signal hits q →
      (ScoresAbove (rankingOf w hits) p q ↔ ScoresAbove (rankingOf w hits') p q) →
      (Tied (rankingOf w hits) p q ↔ Tied (rankingOf w hits') p q) →
      (Tied (rankingOf w hits) p q →
        ¬ ComesFirst signal hits p q ∧ ¬ ComesFirst signal hits' p q) →
      (StandsBefore (rankingOf w hits) p q ↔ StandsBefore (rankingOf w hits') p q) := by
  have hplaces : ∀ p, HitByOthers signal hits p →
      p ∈ places (foundIn hits) ∧ p ∈ places (foundIn hits') := by
    rintro p ⟨other, hother, hit, hmem, hhit⟩
    exact ⟨mem_places_foundIn.2 ⟨other, hit, hmem, hhit⟩,
      mem_places_foundIn.2 ⟨other, hit, h.others other hother ▸ hmem, hhit⟩⟩
  have hranking := isRanking_rankingOf w hits
  have hranking' := isRanking_rankingOf w hits'
  refine ⟨fun p hp => ?_, fun p q hp hq habove htied hfirst => ?_⟩
  · obtain ⟨r, hr, hloc⟩ := List.mem_map.1 ((hranking.mem_places p).2 (hplaces p hp).1)
    obtain ⟨r', hr', hloc'⟩ := List.mem_map.1 ((hranking'.mem_places p).2 (hplaces p hp).2)
    exact ⟨r, hr, r', hr', differs_of_mem h.weight h.others hp hr hr' hloc hloc'⟩
  · rw [hranking.standsBefore_iff (hplaces p hp).1 (hplaces q hq).1,
      hranking'.standsBefore_iff (hplaces p hp).2 (hplaces q hq).2, ← habove, ← htied]
    refine or_congr_right (and_congr_right fun htie => ?_)
    exact cameUp_iff h.others (hfirst htie).1 (hfirst htie).2

namespace Sample

/-! ### Fixed inputs -/

/-- The places of results and their scores. -/
def standing (results : List (Hit ℝ)) : List (Location × ℝ) := results.map fun r => (r.location, r.score)

theorem mem_standing {results : List (Hit ℝ)} {x : ℝ} :
    (p, x) ∈ standing results ↔ ∃ r ∈ results, r.location = p ∧ r.score = x := by
  simp only [standing, List.mem_map, Prod.mk.injEq]

theorem scoresAbove_iff {results : List (Hit ℝ)} : ScoresAbove results p q ↔
    ∃ x y, (p, x) ∈ standing results ∧ (q, y) ∈ standing results ∧ y < x := by
  simp only [mem_standing, ScoresAbove]
  constructor
  · rintro ⟨r, hr, t, ht, hp, hq, hlt⟩
    exact ⟨_, _, ⟨r, hr, hp, rfl⟩, ⟨t, ht, hq, rfl⟩, hlt⟩
  · rintro ⟨_, _, ⟨r, hr, hp, rfl⟩, ⟨t, ht, hq, rfl⟩, hlt⟩
    exact ⟨r, hr, t, ht, hp, hq, hlt⟩

theorem tied_iff {results : List (Hit ℝ)} : Tied results p q ↔
    ∃ x, (p, x) ∈ standing results ∧ (q, x) ∈ standing results := by
  simp only [mem_standing, Tied]
  constructor
  · rintro ⟨r, hr, t, ht, hp, hq, heq⟩
    exact ⟨_, ⟨r, hr, hp, rfl⟩, ⟨t, ht, hq, heq⟩⟩
  · rintro ⟨_, ⟨r, hr, hp, rfl⟩, ⟨t, ht, hq, heq⟩⟩
    exact ⟨r, hr, t, ht, hp, hq, heq⟩

theorem standsBefore_of_standing {results : List (Hit ℝ)} {x y : ℝ} {rest : List (Location × ℝ)}
    (h : standing results = (p, x) :: (q, y) :: rest) (hne : p ≠ q) :
    StandsBefore results p q ∧ ¬ StandsBefore results q p := by
  have hplaces : results.map Hit.location = p :: q :: rest.map Prod.fst := by
    have hfst := congrArg (List.map Prod.fst) h
    rwa [standing, List.map_map] at hfst
  rw [StandsBefore, StandsBefore, hplaces, List.idxOf_cons_self, List.idxOf_cons_ne _ hne]
  exact ⟨Nat.succ_pos _, Nat.not_lt_zero _⟩

@[simp] theorem location_absorbed (kept other : Hit ℝ) :
    (absorb kept other).location = kept.location := rfl

/-- Of two results the one with the higher score stands first. -/
theorem standing_of_gathered {a b : Hit ℝ} {s t : Signals ℝ}
    (h : gathered (hits .symbol) (hits .fulltext) (hits .semantic) = [⟨a, s⟩, ⟨b, t⟩]) :
    standing (rankingOf w hits) =
      if w.total t ≤ w.total s then [(a.location, w.total s), (b.location, w.total t)]
      else [(b.location, w.total t), (a.location, w.total s)] := by
  have hranks : ∀ x y : ℝ, Score.ranks x y = decide (y ≤ x) := fun _ _ => rfl
  simp only [rankingOf, ranking, h, List.map_cons, List.map_nil, Hit.byScore, mergeSort_pair, hranks,
    Gathered.finish, decide_eq_true_eq]
  split <;> rfl

/-- Weights that leave the semantic signal out. -/
noncomputable def lexical : Weights ℝ := ⟨0, 1 / 2, 1 / 2⟩

/-- Two functions found by their names, and by their meaning as given. -/
noncomputable def twoNames (meaning : List (Hit ℝ)) : Signal → List (Hit ℝ)
  | .symbol => [scored 2 1, scored 1 (15 / 16)]
  | .fulltext => []
  | .semantic => meaning

theorem standing_twoNames : standing (rankingOf lexical (twoNames [])) =
    [(("a.ts", some 2), 1 / 2), (("a.ts", some 1), 15 / 32)] := by
  have hresults : gathered [scored 2 1, scored 1 (15 / 16)] [] [] =
      [⟨scored 2 1, ⟨0, 1, 0⟩⟩, ⟨scored 1 (15 / 16), ⟨0, 15 / 16, 0⟩⟩] := by
    norm_num [gathered, gather_nil, gather_scored, place, Signals.raise, Signals.none,
      Signals.best_real]
  rw [standing_of_gathered hresults]
  norm_num [total_mk, lexical, List.countP_cons]

theorem standing_twoNames_first : standing (rankingOf lexical (twoNames [scored 2 1])) =
    [(("a.ts", some 2), 11 / 20), (("a.ts", some 1), 15 / 32)] := by
  have hresults : gathered [scored 2 1, scored 1 (15 / 16)] [] [scored 2 1] =
      [⟨absorb (scored 2 1) (scored 2 1), ⟨1, 1, 0⟩⟩, ⟨scored 1 (15 / 16), ⟨0, 15 / 16, 0⟩⟩] := by
    norm_num [gathered, gather_nil, gather_scored, place, Signals.raise, Signals.none,
      Signals.best_real]
  rw [standing_of_gathered hresults]
  norm_num [total_mk, lexical, List.countP_cons]

theorem standing_twoNames_second : standing (rankingOf lexical (twoNames [scored 1 1])) =
    [(("a.ts", some 1), 33 / 64), (("a.ts", some 2), 1 / 2)] := by
  have hresults : gathered [scored 2 1, scored 1 (15 / 16)] [] [scored 1 1] =
      [⟨scored 2 1, ⟨0, 1, 0⟩⟩, ⟨absorb (scored 1 (15 / 16)) (scored 1 1), ⟨1, 15 / 16, 0⟩⟩] := by
    norm_num [gathered, gather_nil, gather_scored, place, Signals.raise, Signals.none,
      Signals.best_real]
  rw [standing_of_gathered hresults]
  norm_num [total_mk, lexical, List.countP_cons]

theorem disables_twoNames (meaning : List (Hit ℝ)) :
    Disables lexical .semantic (twoNames []) (twoNames meaning) := by
  refine ⟨?_, rfl, fun other hother => ?_⟩
  · apply Weights.fault?_of_sum <;> norm_num [lexical]
  · cases other with
    | semantic => exact absurd rfl hother
    | symbol | fulltext => rfl

theorem hitByOthers_twoNames {line : Nat} (h : line = 1 ∨ line = 2) :
    HitByOthers .semantic (twoNames []) ("a.ts", some line) := by
  refine ⟨.symbol, by decide, ?_⟩
  rcases h with rfl | rfl
  · exact ⟨scored 1 (15 / 16), by simp [twoNames], by norm_num, rfl⟩
  · exact ⟨scored 2 1, by simp [twoNames], by norm_num, rfl⟩

/-- Weights that leave the names out. -/
noncomputable def nameless : Weights ℝ := ⟨1 / 2, 0, 1 / 2⟩

/-- Two functions found by their texts, and by their names in a given order. -/
noncomputable def alsoByName (a b : Nat) : Signal → List (Hit ℝ)
  | .symbol => [scored a 1, scored b 1]
  | .fulltext => [scored 1 1, scored 2 1]
  | .semantic => []

theorem standing_alsoByName {a b : Nat} (h : (a, b) = (1, 2) ∨ (a, b) = (2, 1)) :
    standing (rankingOf nameless (alsoByName a b)) =
      [(("a.ts", some a), 11 / 20), (("a.ts", some b), 11 / 20)] := by
  have hresults : gathered [scored a 1, scored b 1] [scored 1 1, scored 2 1] [] =
      [⟨absorb (scored a 1) (scored a 1), ⟨0, 1, 1⟩⟩,
        ⟨absorb (scored b 1) (scored b 1), ⟨0, 1, 1⟩⟩] := by
    rcases h with h | h <;> cases h <;>
      norm_num [gathered, gather_nil, gather_scored, place, Signals.raise, Signals.none,
        Signals.best_real]
  rw [standing_of_gathered hresults]
  norm_num [total_mk, nameless, List.countP_cons]

theorem disables_alsoByName : Disables nameless .symbol (alsoByName 1 2) (alsoByName 2 1) := by
  refine ⟨?_, rfl, fun other hother => ?_⟩
  · apply Weights.fault?_of_sum <;> norm_num [nameless]
  · cases other with
    | symbol => exact absurd rfl hother
    | semantic | fulltext => rfl

theorem hitBy_alsoByName (p : Location) :
    HitBy .symbol (alsoByName 1 2) p ↔ HitBy .symbol (alsoByName 2 1) p :=
  exists_congr fun _ => and_congr_left fun _ => (List.Perm.swap _ _ []).mem_iff

theorem hitByOthers_alsoByName {line : Nat} (h : line = 1 ∨ line = 2) :
    HitByOthers .symbol (alsoByName 1 2) ("a.ts", some line) := by
  refine ⟨.fulltext, by decide, scored line 1, ?_, one_pos, rfl⟩
  rcases h with rfl | rfl
  · exact List.mem_cons_self
  · exact List.mem_cons_of_mem _ List.mem_cons_self

end Sample

/-- A function whose meaning is found too scores a tenth higher, though meaning has no weight, and both
functions stay in their order. -/
theorem disabled_signal_only_boosts_twoNames :
    Disables Sample.lexical .semantic (Sample.twoNames []) (Sample.twoNames [Sample.scored 2 1]) ∧
    (∃ r ∈ rankingOf Sample.lexical (Sample.twoNames []),
      ∃ r' ∈ rankingOf Sample.lexical (Sample.twoNames [Sample.scored 2 1]),
        Differs Sample.lexical .semantic ("a.ts", some 2) (Sample.twoNames [])
          (Sample.twoNames [Sample.scored 2 1]) r r') ∧
    (StandsBefore (rankingOf Sample.lexical (Sample.twoNames [])) ("a.ts", some 2) ("a.ts", some 1) ↔
      StandsBefore (rankingOf Sample.lexical (Sample.twoNames [Sample.scored 2 1]))
        ("a.ts", some 2) ("a.ts", some 1)) := by
  have hoff := Sample.disables_twoNames [Sample.scored 2 1]
  obtain ⟨hscores, horder⟩ := disabled_signal_only_boosts hoff
  have htop := Sample.hitByOthers_twoNames (.inr rfl)
  have hlow := Sample.hitByOthers_twoNames (.inl rfl)
  have htied : ¬ Tied (rankingOf Sample.lexical (Sample.twoNames []))
      ("a.ts", some 2) ("a.ts", some 1) := by
    rw [Sample.tied_iff, Sample.standing_twoNames]
    norm_num
  refine ⟨hoff, hscores _ htop, horder _ _ htop hlow ?_ ?_ fun htie => absurd htie htied⟩
  · rw [Sample.scoresAbove_iff, Sample.scoresAbove_iff, Sample.standing_twoNames,
      Sample.standing_twoNames_first]
    norm_num
  · refine iff_of_false htied ?_
    rw [Sample.tied_iff, Sample.standing_twoNames_first]
    norm_num

/-- **A signal of weight zero has a say.** Where it hits a place that another signal hits too, the score
there is raised, and with it the place may come before others. Where it hits the same places in both inputs
and only the order of its hits differs, it may still decide which of two places that tie comes first. -/
theorem disabled_signal_has_a_say :
    (¬ ∀ w signal hits hits', Disables w signal hits hits' → ∀ p, HitByOthers signal hits p →
      ∀ r ∈ rankingOf w hits, ∀ r' ∈ rankingOf w hits', r.location = p → r'.location = p →
        r.score = r'.score) ∧
    (¬ ∀ w signal hits hits', Disables w signal hits hits' →
      ∀ p q, HitByOthers signal hits p → HitByOthers signal hits q →
        (StandsBefore (rankingOf w hits) p q ↔ StandsBefore (rankingOf w hits') p q)) ∧
    ¬ ∀ w signal hits hits', Disables w signal hits hits' →
      (∀ p, HitBy signal hits p ↔ HitBy signal hits' p) →
        ∀ p q, HitByOthers signal hits p → HitByOthers signal hits q →
          (StandsBefore (rankingOf w hits) p q ↔ StandsBefore (rankingOf w hits') p q) := by
  have hoff := Sample.disables_twoNames [Sample.scored 1 1]
  have htop := Sample.hitByOthers_twoNames (.inr rfl)
  have hlow := Sample.hitByOthers_twoNames (.inl rfl)
  have hplaces : (("a.ts", some 1) : Location) ≠ ("a.ts", some 2) := by decide
  refine ⟨fun hall => ?_, fun hall => ?_, fun hall => ?_⟩
  · obtain ⟨r, hr, hloc, hscore⟩ := Sample.mem_standing.1
      (Sample.standing_twoNames ▸ List.mem_cons_of_mem _ List.mem_cons_self)
    obtain ⟨r', hr', hloc', hscore'⟩ := Sample.mem_standing.1
      (Sample.standing_twoNames_second ▸ List.mem_cons_self)
    have heq := hall _ _ _ _ hoff _ hlow r hr r' hr' hloc hloc'
    norm_num [hscore, hscore'] at heq
  · have hsame := hall _ _ _ _ hoff _ _ htop hlow
    have hbefore := Sample.standsBefore_of_standing Sample.standing_twoNames hplaces.symm
    have hafter := Sample.standsBefore_of_standing Sample.standing_twoNames_second hplaces
    exact hafter.2 (hsame.1 hbefore.1)
  · have hsame := hall _ _ _ _ Sample.disables_alsoByName Sample.hitBy_alsoByName _ _
      (Sample.hitByOthers_alsoByName (.inl rfl)) (Sample.hitByOthers_alsoByName (.inr rfl))
    have hbefore := Sample.standsBefore_of_standing (Sample.standing_alsoByName (.inl rfl)) hplaces
    have hafter := Sample.standsBefore_of_standing (Sample.standing_alsoByName (.inr rfl)) hplaces.symm
    exact hafter.2 (hsame.1 hbefore.1)

end CodeIndex.Fusion
