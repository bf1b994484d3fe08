import CodeIndex.Source.Span
import Mathlib.Data.List.Basic
import Mathlib.Data.List.Pairwise
import Mathlib.Data.List.Sort

/-!
Which spans are kept.

* `resolve_subperm`: those that are kept are among those given, each as often at most, and
  `resolve_perm`: all are where no span that yields starts on a taken line;
* where all spans take their lines, none that is kept starts on a line of one before it
  (`resolve_pairwise`), so no two start on one line (`resolve_nodup`);
* and every one that is not kept starts on a line of one that is (`covers_resolve`).
-/
namespace CodeIndex.Span

variable {coverage : Coverage} {earlier l : List Span}

theorem keep_sublist (coverage : Coverage) (earlier l : List Span) :
    (keep coverage earlier l).Sublist l := by
  induction l generalizing earlier with
  | nil => exact .slnil
  | cons s l ih =>
    rw [keep]
    split
    · exact (ih earlier).cons s
    · exact (ih _).cons_cons s

theorem keep_everyBlock_cons (s : Span) :
    keep .everyBlock earlier (s :: l) =
      if earlier.any (·.covers s.first) then keep .everyBlock earlier l
      else s :: keep .everyBlock (s :: earlier) l := rfl

theorem not_covers_of_mem_keep {s t : Span} (hs : s ∈ keep .everyBlock earlier l)
    (ht : t ∈ earlier) : t.covers s.first = false := by
  induction l generalizing earlier with
  | nil => cases hs
  | cons u l ih =>
    rw [keep_everyBlock_cons] at hs
    split at hs
    · exact ih hs ht
    · rename_i hfree
      rcases List.mem_cons.1 hs with rfl | hs
      · exact Bool.eq_false_iff.2 fun h => hfree (List.any_eq_true.2 ⟨t, ht, h⟩)
      · exact ih hs (List.mem_cons_of_mem _ ht)

theorem keep_pairwise (earlier l : List Span) :
    (keep .everyBlock earlier l).Pairwise fun s t => s.covers t.first = false := by
  induction l generalizing earlier with
  | nil => exact .nil
  | cons s l ih =>
    rw [keep_everyBlock_cons]
    split
    · exact ih earlier
    · exact List.pairwise_cons.2
        ⟨fun t ht => not_covers_of_mem_keep ht List.mem_cons_self, ih _⟩

theorem covers_first {s : Span} (h : s.first ≤ s.last) : s.covers s.first = true := by
  simp [covers, h]

theorem covers_keep (earlier : List Span) (hl : ∀ s ∈ l, s.first ≤ s.last) {s : Span}
    (hs : s ∈ l) :
    ∃ t, (t ∈ earlier ∨ t ∈ keep .everyBlock earlier l) ∧ t.covers s.first = true := by
  induction l generalizing earlier with
  | nil => cases hs
  | cons u l ih =>
    have hrest : ∀ s ∈ l, s.first ≤ s.last := fun s hs => hl s (List.mem_cons_of_mem _ hs)
    rw [keep_everyBlock_cons]
    rcases List.mem_cons.1 hs with rfl | hs
    · split
      · rename_i htaken
        obtain ⟨t, ht, hcovers⟩ := List.any_eq_true.1 htaken
        exact ⟨t, .inl ht, hcovers⟩
      · exact ⟨s, .inr List.mem_cons_self, covers_first (hl s List.mem_cons_self)⟩
    · split
      · exact ih earlier hrest hs
      · obtain ⟨t, ht | ht, hcovers⟩ := ih (u :: earlier) hrest hs
        · rcases List.mem_cons.1 ht with rfl | ht
          · exact ⟨t, .inr List.mem_cons_self, hcovers⟩
          · exact ⟨t, .inl ht, hcovers⟩
        · exact ⟨t, .inr (List.mem_cons_of_mem _ ht), hcovers⟩

theorem keep_eq_self
    (h : ∀ s ∈ l, s.yields coverage = true → ∀ t, t ∈ earlier ∨ t ∈ l ∧ t.takes coverage = true →
      t.covers s.first = false) :
    keep coverage earlier l = l := by
  induction l generalizing earlier with
  | nil => rfl
  | cons s l ih =>
    have hfree : ¬ (s.yields coverage && earlier.any (·.covers s.first)) = true := by
      rw [Bool.and_eq_true, List.any_eq_true, not_and]
      rintro hyields ⟨t, ht, hcovers⟩
      rw [h s List.mem_cons_self hyields t (.inl ht)] at hcovers
      cases hcovers
    rw [keep, if_neg hfree, ih fun u hu hyields t ht => ?_]
    refine h u (List.mem_cons_of_mem _ hu) hyields t ?_
    rcases ht with ht | ⟨ht, htakes⟩
    · split at ht
      · rename_i htakes
        rcases List.mem_cons.1 ht with rfl | ht
        · exact .inr ⟨List.mem_cons_self, htakes⟩
        · exact .inl ht
      · exact .inl ht
    · exact .inr ⟨List.mem_cons_of_mem _ ht, htakes⟩

/-! ## Resolution -/

/-- What is kept is among the spans given, each as often at most. -/
theorem resolve_subperm (coverage : Coverage) (l : List Span) :
    (resolve coverage l).Subperm l :=
  (keep_sublist _ _ _).subperm.trans (List.mergeSort_perm l before).subperm

theorem mem_of_mem_resolve {s : Span} (h : s ∈ resolve coverage l) : s ∈ l :=
  (resolve_subperm coverage l).subset h

/-- Where no span that yields starts on a line of one that takes its lines, all are kept. -/
theorem resolve_perm (h : ∀ s ∈ l, s.yields coverage = true → ∀ t ∈ l, t.takes coverage = true →
    t.covers s.first = false) : (resolve coverage l).Perm l := by
  have hkeep : resolve coverage l = l.mergeSort before := by
    refine keep_eq_self fun s hs hyields t ht => ?_
    obtain ⟨ht, htakes⟩ := ht.resolve_left List.not_mem_nil
    exact h s (List.mem_mergeSort.1 hs) hyields t (List.mem_mergeSort.1 ht) htakes
  rw [hkeep]
  exact List.mergeSort_perm l before

theorem resolve_nodup_of_nodup (h : (l.map (·.first)).Nodup) :
    ((resolve coverage l).map (·.first)).Nodup := by
  have hsorted : ((l.mergeSort before).map (·.first)).Nodup :=
    ((List.mergeSort_perm l before).map _).nodup_iff.2 h
  exact hsorted.sublist ((keep_sublist _ _ _).map _)

theorem resolve_pairwise (l : List Span) :
    (resolve .everyBlock l).Pairwise fun s t => s.covers t.first = false :=
  keep_pairwise _ _

theorem before_trans {s t u : Span} (hst : s.before t = true) (htu : t.before u = true) :
    s.before u = true := by
  simp only [before, Bool.or_eq_true, Bool.and_eq_true, decide_eq_true_eq, beq_iff_eq] at *
  omega

theorem before_total (s t : Span) : (s.before t || t.before s) = true := by
  simp only [before, Bool.or_eq_true, Bool.and_eq_true, decide_eq_true_eq, beq_iff_eq]
  omega

theorem pairwise_mergeSort_before (l : List Span) :
    (l.mergeSort before).Pairwise fun s t => s.before t = true := by
  apply List.pairwise_mergeSort
  · exact fun _ _ _ => before_trans
  · exact before_total

theorem resolve_before (coverage : Coverage) (l : List Span) :
    (resolve coverage l).Pairwise fun s t => s.before t = true :=
  (pairwise_mergeSort_before l).sublist (keep_sublist coverage [] _)

theorem resolve_increasing (h : (l.map (·.first)).Nodup) :
    (resolve coverage l).Pairwise fun s t => s.first < t.first := by
  have hnodup : ((resolve coverage l).map (·.first)).Nodup := resolve_nodup_of_nodup h
  have hne := List.pairwise_map.1 hnodup
  refine (hne.and (resolve_before coverage l)).imp fun {s t} hst => ?_
  obtain ⟨hne, hbefore⟩ := hst
  simp only [before, Bool.or_eq_true, Bool.and_eq_true, decide_eq_true_eq, beq_iff_eq] at hbefore
  omega

/-- Where all spans take their lines, those that are kept are one after another. -/
theorem resolve_ordered (l : List Span) :
    (resolve .everyBlock l).Pairwise fun s t => s.last < t.first := by
  refine ((resolve_pairwise l).and (resolve_before .everyBlock l)).imp fun {s t} h => ?_
  obtain ⟨hfree, hbefore⟩ := h
  simp only [covers, before, Bool.and_eq_false_iff, decide_eq_false_iff_not, Bool.or_eq_true,
    Bool.and_eq_true, decide_eq_true_eq, beq_iff_eq] at hfree hbefore
  omega

/-- Where all spans take their lines, no two that are kept start on one line. -/
theorem resolve_nodup (hl : ∀ s ∈ l, s.first ≤ s.last) :
    ((resolve .everyBlock l).map (·.first)).Nodup := by
  refine List.pairwise_map.2 ((resolve_pairwise l).imp_of_mem fun hs _ hfree heq => ?_)
  rw [← heq, covers_first (hl _ (mem_of_mem_resolve hs))] at hfree
  cases hfree

/-- Where all spans take their lines, every one given starts on a line of one that is kept. -/
theorem covers_resolve (hl : ∀ s ∈ l, s.first ≤ s.last) {s : Span} (hs : s ∈ l) :
    ∃ t ∈ resolve .everyBlock l, t.covers s.first = true := by
  obtain ⟨t, ht | ht, hcovers⟩ := covers_keep []
    (fun s hs => hl s (List.mem_mergeSort.1 hs)) (List.mem_mergeSort.2 hs)
  · cases ht
  · exact ⟨t, ht, hcovers⟩

/-- Of two lists in order that are put together in order, each is what has its property. -/
theorem filter_of_perm {a b : List Span} {p : Span → Bool} (hperm : l.Perm (a ++ b))
    (hl : l.Pairwise fun s t => s.first < t.first) (ha : a.Pairwise fun s t => s.first < t.first)
    (hpa : ∀ s ∈ a, p s = true) (hpb : ∀ s ∈ b, p s = false) : l.filter p = a := by
  have hfilter : (l.filter p).Perm a := by
    have hnone : b.filter p = [] := List.filter_eq_nil_iff.2 fun s hs => by simp [hpb s hs]
    have hfiltered := hperm.filter p
    rwa [List.filter_append, List.filter_eq_self.2 hpa, hnone, List.append_nil] at hfiltered
  refine List.Perm.eq_of_pairwise (fun s t _ _ hst hts => ?_) (hl.filter p) ha hfilter
  exact absurd hts (Nat.lt_asymm hst)

end CodeIndex.Span
