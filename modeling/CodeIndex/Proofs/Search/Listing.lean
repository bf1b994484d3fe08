import CodeIndex.Search.Row
import Mathlib.Data.List.Sort
import Mathlib.Data.Prod.Lex
import Mathlib.Data.String.Basic

/-!
Listings: the rows that a search reads, in their order, and limits on them.

A search reads the rows of a project that pass a test, ordered by some of their fields (`IsListing`), and
a limit cuts what it reads. A cut listing is a start of the whole one, and either it is all of it or the
limit has been reached (`isPrefix_atMost`, `atMost_cases`); nothing more is needed to see what a limit
can hide.

* `SymbolRow.before_iff`, `ChunkRow.before_iff` and `Component.before_iff`: the orders of rows are those
  of their keys, field by field;
* `Hit.unseen_eq_filter`: hits at different locations only have to be compared with those seen before.
-/
namespace CodeIndex

/-! ## Limits -/

section Limits

variable {α β : Type} {limit : Nat} {rows : List α}

theorem isPrefix_atMost (limit : Nat) (rows : List α) : atMost limit rows <+: rows := by
  rw [atMost]
  split
  · exact List.take_prefix _ _
  · exact List.prefix_rfl

theorem atMost_of_length_le (h : rows.length ≤ limit) : atMost limit rows = rows := by
  rw [atMost]
  split
  · exact List.take_of_length_le h
  · rfl

/-- Where a limit cuts something off, it has been reached. -/
theorem atMost_cases (limit : Nat) (rows : List α) :
    atMost limit rows = rows ∨ limit ≤ (atMost limit rows).length := by
  rw [atMost]
  split
  · rcases Nat.le_total rows.length limit with h | h
    · exact .inl (List.take_of_length_le h)
    · exact .inr (List.length_take_of_le h).ge
  · exact .inl rfl

theorem length_atMost_le (hlimit : limit < 2 ^ 63) (rows : List α) :
    (atMost limit rows).length ≤ limit := by
  have hcut : limit < Nat.pow 2 63 := hlimit
  rw [atMost, if_pos hcut]
  exact List.length_take_le _ _

/-- A negative limit cuts nothing, but there are no more rows than it says if these are counted by
words with a sign. -/
theorem length_atMost_le_of_few (hrows : rows.length ≤ 2 ^ 63) (limit : Nat) :
    (atMost limit rows).length ≤ limit := by
  rw [atMost]
  split
  · exact List.length_take_le _ _
  · rename_i hlimit
    exact hrows.trans (Nat.not_lt.1 hlimit)

theorem map_atMost (f : α → β) (limit : Nat) (rows : List α) :
    (atMost limit rows).map f = atMost limit (rows.map f) := by
  unfold atMost
  split
  · exact List.map_take
  · rfl

/-- What comes after the first `limit` entries is cut off. -/
theorem take_of_isPrefix {l l' : List α} (h : l <+: l') (hlimit : limit ≤ l.length) :
    l'.take limit = l.take limit := by
  obtain ⟨rest, rfl⟩ := h
  exact List.take_append_of_le_length hlimit

theorem isEmpty_or_eq_zero (hsome : rows ≠ []) (hpos : 0 < limit) :
    (rows.isEmpty || limit == 0) = false := by
  rw [Bool.or_eq_false_iff, List.isEmpty_eq_false_iff, beq_eq_false_iff_ne]
  exact ⟨hsome, Nat.ne_of_gt hpos⟩

variable {x x' : List α} {n : Nat}

theorem take_congr_of_le {m : Nat} (hmn : m ≤ n) (h : x.take n = x'.take n) :
    x.take m = x'.take m := by
  rw [← Nat.min_eq_left hmn, ← List.take_take, ← List.take_take, h]

theorem take_append_congr (l : List α)
    (h : x.take (n - l.length) = x'.take (n - l.length)) : (l ++ x).take n = (l ++ x').take n := by
  rw [List.take_append, List.take_append, h]

/-- A list that is cut where a limit has been reached hides nothing from what follows it. -/
theorem take_atMost_append (hn : n ≤ limit) (l : List α) (h : x.take n = x'.take n) :
    (atMost limit l ++ x).take n = (l ++ x').take n := by
  rcases atMost_cases limit l with heq | hfull
  · rw [heq]
    exact take_append_congr l (take_congr_of_le (Nat.sub_le _ _) h)
  · have hlen := hn.trans hfull
    rw [List.take_append_of_le_length hlen,
      List.take_append_of_le_length (hlen.trans (isPrefix_atMost limit l).length_le)]
    exact (take_of_isPrefix (isPrefix_atMost limit l) hlen).symm

end Limits

/-! ## Orders -/

/-- The fields by which symbols are ordered. -/
def SymbolRow.sortKey (r : SymbolRow) : String ×ₗ String ×ₗ Nat :=
  toLex (r.name, toLex (r.filePath, r.firstLine))

/-- The fields by which chunks are ordered. -/
def ChunkRow.sortKey (r : ChunkRow) : String ×ₗ Nat := toLex (r.filePath, r.firstLine)

/-- The fields by which components are ordered. -/
def ComponentRow.sortKey (r : ComponentRow) : String ×ₗ String :=
  toLex (r.component.name, r.component.filePath)

theorem then_isLE_iff {α β : Type} [LinearOrder α] [LinearOrder β] {a b : α} {rest : Ordering}
    {x y : β} (h : rest.isLE = true ↔ x ≤ y) :
    ((compare a b).then rest).isLE = true ↔ toLex (a, x) ≤ toLex (b, y) := by
  rw [Ordering.isLE_then_iff_or, compare_lt_iff_lt, compare_eq_iff_eq, h, Prod.Lex.toLex_le_toLex]

theorem SymbolRow.before_iff (a b : SymbolRow) : a.before b = true ↔ a.sortKey ≤ b.sortKey :=
  then_isLE_iff (then_isLE_iff Std.LawfulBCmp.isLE_iff_le)

theorem ChunkRow.before_iff (a b : ChunkRow) : a.before b = true ↔ a.sortKey ≤ b.sortKey :=
  then_isLE_iff Std.LawfulBCmp.isLE_iff_le

theorem ComponentRow.before_iff (a b : ComponentRow) :
    a.component.before b.component = true ↔ a.sortKey ≤ b.sortKey :=
  then_isLE_iff Std.LawfulBCmp.isLE_iff_le

/-! ## Listings -/

/-- The rows of a table that pass a test, in the order of a key. -/
structure IsListing {ρ κ : Type} [LE κ] (t : Table ρ) (test : ρ → Prop) [DecidablePred test]
    (key : ρ → κ) (listed : List ρ) : Prop where
  perm : listed.Perm (t.toList.filter fun r => test r)
  ordered : listed.Pairwise fun a b => key a ≤ key b

theorem isListing_filter_mergeSort {ρ κ : Type} [LinearOrder κ] {t : Table ρ} {key : ρ → κ}
    {before : ρ → ρ → Bool} (hbefore : ∀ a b, before a b = true ↔ key a ≤ key b)
    {first second : ρ → Bool} {test : ρ → Prop} [DecidablePred test]
    (htest : ∀ r ∈ t.toList, test r ↔ first r = true ∧ second r = true) :
    IsListing t test key (((t.toList.filter first).mergeSort before).filter second) := by
  refine ⟨?_, ?_⟩
  · refine ((List.mergeSort_perm _ _).filter _).trans (.of_eq ?_)
    rw [List.filter_filter]
    refine List.filter_congr fun r hr => ?_
    rw [Bool.eq_iff_iff, Bool.and_eq_true, decide_eq_true_eq, htest r hr, and_comm]
  · have htrans : ∀ a b c, before a b = true → before b c = true → before a c = true :=
      fun a b c => by simpa only [hbefore] using le_trans
    have htotal : ∀ a b, (before a b || before b a) = true :=
      fun a b => by simpa only [Bool.or_eq_true, hbefore] using le_total _ _
    have hsorted := List.pairwise_mergeSort htrans htotal (t.toList.filter first)
    exact (hsorted.imp (hbefore _ _).1).filter _

theorem IsListing.unique {ρ κ : Type} [LinearOrder κ] {t : Table ρ} {test : ρ → Prop}
    [DecidablePred test] {key : ρ → κ} {l l' : List ρ} (h : IsListing t test key l)
    (h' : IsListing t test key l') (hkey : ∀ a ∈ l', ∀ b ∈ l', key a = key b → a = b) : l = l' := by
  have hperm := h.perm.trans h'.perm.symm
  exact hperm.eq_of_pairwise (fun a b ha hb hab hba =>
    hkey a (hperm.mem_iff.1 ha) b hb (le_antisymm hab hba)) h.ordered h'.ordered

/-! ## Locations -/

/-- Hits at different locations are left out only for what was seen before all of them. -/
theorem Hit.unseen_eq_filter {α : Type} {hits : List (Hit α)}
    (hnodup : (hits.map Hit.location).Nodup) (seen : List (String × Option Nat)) :
    Hit.unseen seen hits = hits.filter fun h => h.location ∉ seen := by
  induction hits generalizing seen with
  | nil => rfl
  | cons h hits ih =>
    rw [List.map_cons, List.nodup_cons] at hnodup
    rw [unseen, List.filter_cons]
    by_cases hseen : h.location ∈ seen
    · simp [hseen, ih hnodup.2]
    · simp only [List.contains_eq_mem, hseen, decide_false, Bool.false_eq_true, if_false, not_false_eq_true,
        decide_true, if_true, ih hnodup.2]
      refine congrArg _ (List.filter_congr fun k hk => ?_)
      have hne : k.location ≠ h.location := fun heq => hnodup.1 (heq ▸ List.mem_map_of_mem hk)
      simp [hne]

end CodeIndex
