import CodeIndex.Search.Fusion
import CodeIndex.Proofs.Search.Order

/-!
What fusion makes of the hits of three searches, in exact numbers.

The hits taken so far, each with the signal it was found by, say all about the results gathered from
them (`Gathers`): which places there are and in what order, and the evidence at each. One more hit
keeps this (`Gathers.one_more`), so a list of hits does (`Gathers.all_of`), and the three lists one
after the other. Sorting then leaves ties in the order of their places, and the ranking is what
`IsRanking` says.

* `merge_ranks_places`: whatever the weights, the limit and the hits, fusion gives the start of such
  a ranking.
-/
namespace CodeIndex

/-- Where a hit is: in a file, and on a line if the hit has one. -/
abbrev Location := String × Option Nat

@[simp] theorem Signals.get_raise {α : Type} [Score α] (s : Signals α) (signal other : Signal)
    (x : α) :
    (s.raise signal x).get other = if signal = other then best (s.get other) x else s.get other := by
  cases signal <;> cases other <;> rfl

namespace Fusion

/-! ## One more hit -/

section

variable {α : Type}

/-- The place of a result. -/
def Gathered.location (g : Gathered α) : Location := g.hit.location

@[simp] theorem location_absorb (g : Gathered α) (hit : Hit α) (s : Signals α) :
    Gathered.location ⟨absorb g.hit hit, s⟩ = g.location := rfl

variable [Score α]

@[simp] theorem location_finish (w : Weights α) (g : Gathered α) :
    (g.finish w).location = g.location := rfl

/-- A hit either goes into the first result of its place or becomes a new result at the end. -/
theorem place_cases (signal : Signal) (hit : Hit α) (found : List (Gathered α)) :
    (∃ before g after, found = before ++ g :: after ∧ g.location = hit.location ∧
      place signal hit found =
        before ++ ⟨absorb g.hit hit, g.signals.raise signal hit.score⟩ :: after) ∨
    hit.location ∉ found.map Gathered.location ∧
      place signal hit found = found ++ [⟨hit, Signals.none.raise signal hit.score⟩] := by
  induction found with
  | nil => exact Or.inr ⟨List.not_mem_nil, rfl⟩
  | cons g rest ih =>
    rw [place]
    split
    · rename_i heq
      exact Or.inl ⟨[], g, rest, rfl, heq, rfl⟩
    · rename_i hne
      rcases ih with ⟨before, k, after, hfound, hloc, hplace⟩ | ⟨hnew, hplace⟩
      · exact Or.inl ⟨g :: before, k, after, by rw [hfound, List.cons_append], hloc,
          by rw [hplace, List.cons_append]⟩
      · refine Or.inr ⟨?_, by rw [hplace, List.cons_append]⟩
        rw [List.map_cons, List.mem_cons, not_or]
        exact ⟨fun h => hne h.symm, hnew⟩

end

/-! ## The evidence of the hits taken -/

/-- The places of hits, each with the signal it was found by. -/
def places (taken : List (Signal × Hit ℝ)) : List Location := taken.map fun t => t.2.location

/-- The scores that the hits of a signal give to a place. -/
def scoresAt (taken : List (Signal × Hit ℝ)) (signal : Signal) (place : Location) : Set ℝ :=
  {x | ∃ hit, (signal, hit) ∈ taken ∧ hit.location = place ∧ hit.score = x}

variable {taken : List (Signal × Hit ℝ)} {found : List (Gathered ℝ)}

theorem mem_scoresAt {signal : Signal} {p : Location} {x : ℝ} :
    x ∈ scoresAt taken signal p ↔
      ∃ hit, (signal, hit) ∈ taken ∧ hit.location = p ∧ hit.score = x := Iff.rfl

@[simp] theorem places_concat (signal : Signal) (hit : Hit ℝ) :
    places (taken ++ [(signal, hit)]) = places taken ++ [hit.location] := List.map_append

theorem scoresAt_concat_self (signal : Signal) (hit : Hit ℝ) :
    scoresAt (taken ++ [(signal, hit)]) signal hit.location =
      insert hit.score (scoresAt taken signal hit.location) := by
  ext x
  simp only [Set.mem_insert_iff, mem_scoresAt, List.mem_append, List.mem_singleton, Prod.mk.injEq,
    true_and]
  constructor
  · rintro ⟨k, hk | rfl, hloc, hx⟩
    · exact Or.inr ⟨k, hk, hloc, hx⟩
    · exact Or.inl hx.symm
  · rintro (rfl | ⟨k, hk, hloc, hx⟩)
    · exact ⟨hit, Or.inr rfl, rfl, rfl⟩
    · exact ⟨k, Or.inl hk, hloc, hx⟩

theorem scoresAt_concat_other {signal other : Signal} {hit : Hit ℝ} {place : Location}
    (h : signal = other → hit.location ≠ place) :
    scoresAt (taken ++ [(signal, hit)]) other place = scoresAt taken other place := by
  ext x
  simp only [mem_scoresAt, List.mem_append, List.mem_singleton, Prod.mk.injEq]
  constructor
  · rintro ⟨k, hk | ⟨rfl, rfl⟩, hloc, hx⟩
    · exact ⟨k, hk, hloc, hx⟩
    · exact absurd hloc (h rfl)
  · rintro ⟨k, hk, hloc, hx⟩
    exact ⟨k, Or.inl hk, hloc, hx⟩

/-- Signals hold the evidence of hits at a place: the greatest score of each signal, zero if there is
none above it. -/
def Evidence (taken : List (Signal × Hit ℝ)) (place : Location) (s : Signals ℝ) : Prop :=
  ∀ signal, IsGreatest (insert 0 (scoresAt taken signal place)) (s.get signal)

theorem Evidence.none {place : Location} (h : place ∉ places taken) :
    Evidence taken place Signals.none := by
  intro signal
  have hno : scoresAt taken signal place = ∅ :=
    Set.eq_empty_of_forall_notMem fun x ⟨hit, hmem, hloc, _⟩ =>
      h (List.mem_map.2 ⟨(signal, hit), hmem, hloc⟩)
  have hzero : (Signals.none : Signals ℝ).get signal = 0 := by
    cases signal <;> exact Score.zero_real
  rw [hno, hzero, insert_empty_eq]
  exact isGreatest_singleton

/-- A hit raises the evidence at its own place. -/
theorem Evidence.raise {hit : Hit ℝ} {s : Signals ℝ} (h : Evidence taken hit.location s)
    (signal : Signal) :
    Evidence (taken ++ [(signal, hit)]) hit.location (s.raise signal hit.score) := by
  intro other
  rw [Signals.get_raise]
  split
  · rename_i heq
    rw [← heq, scoresAt_concat_self, Set.insert_comm, Signals.best_real, max_comm]
    exact (h signal).insert hit.score
  · rename_i hne
    rw [scoresAt_concat_other fun heq => absurd heq hne]
    exact h other

/-- A hit leaves the evidence at other places as it was. -/
theorem Evidence.elsewhere {hit : Hit ℝ} {place : Location} {s : Signals ℝ}
    (h : Evidence taken place s) (signal : Signal) (hne : hit.location ≠ place) :
    Evidence (taken ++ [(signal, hit)]) place s := by
  intro other
  rw [scoresAt_concat_other fun _ => hne]
  exact h other

/-! ## The results of the hits taken -/

/-- Results gathered from hits: one for each place, in the order in which the places came up, with
the evidence there. -/
structure Gathers (taken : List (Signal × Hit ℝ)) (found : List (Gathered ℝ)) : Prop where
  mem_places : ∀ place, place ∈ found.map Gathered.location ↔ place ∈ places taken
  first_seen : (found.map Gathered.location).Pairwise fun p q =>
    (places taken).idxOf p < (places taken).idxOf q
  evidence : ∀ g ∈ found, Evidence taken g.location g.signals

namespace Gathers

theorem nil : Gathers [] [] :=
  ⟨fun _ => Iff.rfl, List.Pairwise.nil, fun _ h => absurd h List.not_mem_nil⟩

theorem nodup (h : Gathers taken found) : (found.map Gathered.location).Nodup :=
  h.first_seen.imp fun hlt heq => absurd (heq ▸ hlt) (Nat.lt_irrefl _)

/-- The places known so far keep their order, whatever is taken next. -/
theorem first_seen_append (h : Gathers taken found) (next : List Location) :
    (found.map Gathered.location).Pairwise fun p q =>
      (places taken ++ next).idxOf p < (places taken ++ next).idxOf q := by
  refine h.first_seen.imp_of_mem fun hp hq hlt => ?_
  rwa [List.idxOf_append_of_mem ((h.mem_places _).1 hp),
    List.idxOf_append_of_mem ((h.mem_places _).1 hq)]

/-- One more hit at a place that is known. -/
theorem known {before after : List (Gathered ℝ)} {g : Gathered ℝ} {hit : Hit ℝ} (signal : Signal)
    (h : Gathers taken (before ++ g :: after)) (hloc : g.location = hit.location) :
    Gathers (taken ++ [(signal, hit)])
      (before ++ ⟨absorb g.hit hit, g.signals.raise signal hit.score⟩ :: after) := by
  have hsame : (before ++ ⟨absorb g.hit hit, g.signals.raise signal hit.score⟩ :: after).map
      Gathered.location = (before ++ g :: after).map Gathered.location := by
    simp only [List.map_append, List.map_cons, location_absorb]
  have hknown : hit.location ∈ places taken :=
    (h.mem_places _).1 (hloc ▸ List.mem_map_of_mem (List.mem_append_right _ List.mem_cons_self))
  refine ⟨fun place => ?_, ?_, fun k hk => ?_⟩
  · rw [hsame, h.mem_places, places_concat, List.mem_append, List.mem_singleton]
    exact ⟨Or.inl, fun hp => hp.elim id fun heq => heq ▸ hknown⟩
  · rw [hsame, places_concat]
    exact h.first_seen_append _
  · have hapart : ∀ k ∈ before ++ after, hit.location ≠ k.location := by
      intro k hk heq
      have hnodup := h.nodup
      rw [List.map_append, List.map_cons, List.nodup_middle, List.nodup_cons,
        ← List.map_append] at hnodup
      exact hnodup.1 (hloc.trans heq ▸ List.mem_map_of_mem hk)
    rcases List.mem_append.1 hk with hk | hk
    · exact (h.evidence k (List.mem_append_left _ hk)).elsewhere signal
        (hapart k (List.mem_append_left _ hk))
    rcases List.mem_cons.1 hk with rfl | hk
    · have hown := h.evidence g (List.mem_append_right _ List.mem_cons_self)
      rw [hloc] at hown
      exact hloc ▸ hown.raise signal
    · exact (h.evidence k (List.mem_append_right _ (List.mem_cons_of_mem _ hk))).elsewhere signal
        (hapart k (List.mem_append_right _ hk))

theorem fresh {hit : Hit ℝ} (signal : Signal) (h : Gathers taken found)
    (hnew : hit.location ∉ found.map Gathered.location) :
    Gathers (taken ++ [(signal, hit)]) (found ++ [⟨hit, Signals.none.raise signal hit.score⟩]) := by
  have hunseen : hit.location ∉ places taken := fun hmem => hnew ((h.mem_places _).2 hmem)
  refine ⟨fun place => ?_, ?_, fun k hk => ?_⟩
  · rw [List.map_append, places_concat, List.mem_append, List.mem_append, h.mem_places]
    rfl
  · rw [List.map_append, List.pairwise_append, places_concat]
    refine ⟨h.first_seen_append _, List.pairwise_singleton _ _, fun p hp q hq => ?_⟩
    -- a place that is known was seen before the end, where the new one stands
    have hp := (h.mem_places p).1 hp
    rw [List.mem_singleton.1 hq, List.idxOf_append_of_mem hp]
    exact (List.idxOf_lt_length_iff.2 hp).trans_le
      (List.idxOf_append_of_notMem hunseen ▸ Nat.le_add_right _ _)
  · rcases List.mem_append.1 hk with hk | hk
    · exact (h.evidence k hk).elsewhere signal fun heq => hnew (heq ▸ List.mem_map_of_mem hk)
    · rw [List.mem_singleton.1 hk]
      exact (Evidence.none hunseen).raise signal

theorem one_more (signal : Signal) (hit : Hit ℝ) (h : Gathers taken found) :
    Gathers (taken ++ [(signal, hit)]) (place signal hit found) := by
  rcases place_cases signal hit found with ⟨before, g, after, hfound, hloc, hplace⟩ | ⟨hnew, hplace⟩
  · rw [hplace]
    exact known signal (hfound ▸ h) hloc
  · rw [hplace]
    exact h.fresh signal hnew

end Gathers

/-! ## The results of three searches -/

/-- The hits of a signal that count: those with a score above zero. -/
noncomputable def foundBy (signal : Signal) (hits : List (Hit ℝ)) : List (Signal × Hit ℝ) :=
  (hits.filter fun h => 0 < h.score).map fun h => (signal, h)

/-- The hits of three searches that count, in the order in which fusion takes them. -/
noncomputable def allFound (symbols fulltext semantic : List (Hit ℝ)) : List (Signal × Hit ℝ) :=
  foundBy .symbol symbols ++ foundBy .fulltext fulltext ++ foundBy .semantic semantic

theorem foundBy_cons (signal : Signal) (hit : Hit ℝ) (rest : List (Hit ℝ)) :
    foundBy signal (hit :: rest) =
      if hit.score ≤ 0 then foundBy signal rest else (signal, hit) :: foundBy signal rest := by
  rw [foundBy, List.filter_cons]
  by_cases h : hit.score ≤ 0
  · rw [if_pos h, if_neg (by simpa using h)]
    rfl
  · rw [if_neg h, if_pos (by simpa using h)]
    rfl

/-- All hits of a signal, one after the other. -/
theorem Gathers.all_of (signal : Signal) (hits : List (Hit ℝ)) (h : Gathers taken found) :
    Gathers (taken ++ foundBy signal hits) (gather signal found hits) := by
  induction hits generalizing taken found with
  | nil => simpa [foundBy, gather] using h
  | cons hit rest ih =>
    rw [gather, foundBy_cons, Score.zero_real]
    simp only [Score.le_real]
    split
    · exact ih h
    · rw [List.append_cons]
      exact ih (h.one_more signal hit)

theorem gathers_gathered (symbols fulltext semantic : List (Hit ℝ)) :
    Gathers (allFound symbols fulltext semantic) (gathered symbols fulltext semantic) :=
  ((Gathers.nil.all_of .symbol symbols).all_of .fulltext fulltext).all_of .semantic semantic

/-- A ranking of the places of hits: one result for each place, with the evidence there and the score
that the weights give it. The greatest score stands first, and of equal ones the place that came up
first. -/
structure IsRanking (w : Weights ℝ) (taken : List (Signal × Hit ℝ)) (results : List (Hit ℝ)) :
    Prop where
  nodup : (results.map Hit.location).Nodup
  mem_places : ∀ p, p ∈ results.map Hit.location ↔ p ∈ places taken
  scored : ∀ r ∈ results, ∃ s,
    r.breakdown = some s ∧ Evidence taken r.location s ∧ r.score = w.total s
  ordered : results.Pairwise fun a b => b.score < a.score ∨
    b.score = a.score ∧ (places taken).idxOf a.location < (places taken).idxOf b.location

theorem isRanking_ranking (w : Weights ℝ) (symbols fulltext semantic : List (Hit ℝ)) :
    IsRanking w (allFound symbols fulltext semantic) (ranking w symbols fulltext semantic) := by
  have h := gathers_gathered symbols fulltext semantic
  have hperm := Hit.byScore_perm ((gathered symbols fulltext semantic).map (Gathered.finish w))
  have hplaces : ((gathered symbols fulltext semantic).map (Gathered.finish w)).map Hit.location =
      (gathered symbols fulltext semantic).map Gathered.location := by
    simp only [List.map_map, Function.comp_def, location_finish]
  refine ⟨?_, fun p => ?_, fun r hr => ?_, ?_⟩
  · rw [ranking, (hperm.map _).nodup_iff, hplaces]
    exact h.nodup
  · rw [ranking, (hperm.map _).mem_iff, hplaces]
    exact h.mem_places p
  · obtain ⟨g, hg, rfl⟩ := List.mem_map.1 (hperm.mem_iff.1 hr)
    exact ⟨g.signals, rfl, h.evidence g hg, rfl⟩
  · have hfirst := List.pairwise_map.1 h.first_seen
    exact Hit.pairwise_byScore Score.ranksBy_real (List.pairwise_map.2 hfirst)

/-- **Fusion ranks the places that were hit.** With exact numbers, whatever the weights and the hits
are, the results are the start of one ranking of the places of the hits that score above zero, as
long as the limit allows. -/
theorem merge_ranks_places (w : Weights ℝ) (symbols fulltext semantic : List (Hit ℝ)) :
    ∃ results, IsRanking w (allFound symbols fulltext semantic) results ∧
      ∀ limit, merge w limit symbols fulltext semantic = results.take limit :=
  ⟨_, isRanking_ranking w symbols fulltext semantic, fun _ => rfl⟩

end Fusion

end CodeIndex
