import Mathlib.Data.List.Pairwise
import Mathlib.Data.List.Sort
import Mathlib.Order.Defs.LinearOrder

/-!
Sorted lists: what keeps its order when a list is sorted.

* `filter_mergeSort`: the elements that all compare with one another stand as they stood;
* `eq_of_filter_key_eq`: an ordered list is fixed by its elements of each key, in their order;
* `filter_mergeSort_comm`: so elements may be left out before the list is sorted or after.
-/
namespace CodeIndex

theorem mergeSort_pair {β : Type} (le : β → β → Bool) (a b : β) :
    [a, b].mergeSort le = if le a b then [a, b] else [b, a] := by
  simp [List.mergeSort, List.merge]

theorem filter_mergeSort {β : Type} {le : β → β → Bool}
    (trans : ∀ a b c, le a b = true → le b c = true → le a c = true)
    (total : ∀ a b, (le a b || le b a) = true) {p : β → Bool} {l : List β}
    (hp : ∀ a ∈ l, ∀ b ∈ l, p a = true → p b = true → le a b = true) :
    (l.mergeSort le).filter p = l.filter p := by
  have hties : (l.filter p).Pairwise fun a b => le a b = true :=
    List.pairwise_of_forall_mem_list fun a ha b hb =>
      hp a (List.mem_of_mem_filter ha) b (List.mem_of_mem_filter hb) (List.of_mem_filter ha)
        (List.of_mem_filter hb)
  have hsub : (l.filter p).Sublist ((l.mergeSort le).filter p) := by
    simpa only [List.filter_filter, Bool.and_self] using
      (List.sublist_mergeSort trans total hties List.filter_sublist).filter p
  exact (hsub.eq_of_length ((List.mergeSort_perm l le).filter p).length_eq.symm).symm

/-- Lists that are ordered by a key are equal if they have the same elements of each key in the same
order. -/
theorem eq_of_filter_key_eq {β κ : Type} [LinearOrder κ] {key : β → κ} {l l' : List β}
    (hl : l.Pairwise fun a b => key b ≤ key a) (hl' : l'.Pairwise fun a b => key b ≤ key a)
    (h : ∀ k, l.filter (fun a => key a = k) = l'.filter fun a => key a = k) : l = l' := by
  have hmem : ∀ a, a ∈ l ↔ a ∈ l' := fun a => by
    have ha := congrArg (a ∈ ·) (h (key a))
    simpa using ha
  induction l generalizing l' with
  | nil => exact (List.eq_nil_iff_forall_not_mem.2 fun a ha => by simpa using (hmem a).2 ha).symm
  | cons a l ih =>
    cases l' with
    | nil => simpa using hmem a
    | cons b l' =>
      rw [List.pairwise_cons] at hl hl'
      have hkey : key a = key b := by
        refine le_antisymm ?_ ?_
        · rcases List.mem_cons.1 ((hmem a).1 List.mem_cons_self) with rfl | ha
          · exact le_rfl
          · exact hl'.1 a ha
        · rcases List.mem_cons.1 ((hmem b).2 List.mem_cons_self) with rfl | hb
          · exact le_rfl
          · exact hl.1 b hb
      -- the heads have the same key, so they head the elements of that key
      obtain rfl : a = b := by
        have hheads := h (key a)
        simp only [hkey, decide_true, List.filter_cons_of_pos] at hheads
        exact (List.cons.inj hheads).1
      have htails : ∀ k, l.filter (fun a => key a = k) = l'.filter fun a => key a = k := fun k => by
        have hk := h k
        simp only [List.filter_cons] at hk
        split at hk
        · exact (List.cons.inj hk).2
        · exact hk
      rw [ih hl.2 hl'.2 htails fun c => by
        have hc := congrArg (c ∈ ·) (htails (key c))
        simpa using hc]

theorem filter_mergeSort_comm {β κ : Type} [LinearOrder κ] {key : β → κ} {le : β → β → Bool}
    (hle : ∀ a b, le a b = true ↔ key b ≤ key a) (p : β → Bool) (l : List β) :
    (l.mergeSort le).filter p = (l.filter p).mergeSort le := by
  have htrans : ∀ a b c, le a b = true → le b c = true → le a c = true := fun a b c hab hbc =>
    (hle _ _).2 (((hle _ _).1 hbc).trans ((hle _ _).1 hab))
  have htotal : ∀ a b, (le a b || le b a) = true := fun a b => by
    rw [Bool.or_eq_true, hle, hle]
    exact le_total _ _
  have hordered : ∀ l : List β, (l.mergeSort le).Pairwise fun a b => key b ≤ key a := fun l =>
    (List.pairwise_mergeSort htrans htotal l).imp (hle _ _).1
  have hties : ∀ (l : List β) (k : κ),
      (l.mergeSort le).filter (fun a => key a = k) = l.filter fun a => key a = k := fun l k =>
    filter_mergeSort htrans htotal fun a _ b _ ha hb => by
      rw [hle, of_decide_eq_true ha, of_decide_eq_true hb]
  refine eq_of_filter_key_eq ((hordered l).filter p) (hordered _) fun k => ?_
  rw [hties, List.filter_comm, hties, List.filter_comm]

end CodeIndex
