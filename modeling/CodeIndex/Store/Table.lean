/-!
Tables of numbered rows.

A row gets the number after the highest one ever given, so that no number stands for two rows, not
even when rows are taken out in between. A table carries this with it: its rows stand in the order of
their numbers, and none has a number that has not been given yet.

* `Table.insert` adds a row, and `Table.next` is the number it gets;
* `Table.keep` leaves only the rows that pass a test;
* `Table.find?` looks a row up by its number;
* `Table.ofRows?` takes rows that were read as a table, if their numbers allow it.
-/
namespace CodeIndex

/-- A row with its number. -/
structure Numbered (ρ : Type) where
  id : Nat
  row : ρ
deriving Repr, DecidableEq

/-- A table. The rows stand in the order in which they were added. -/
structure Table (ρ : Type) where
  rows : List (Numbered ρ)
  /-- The highest number given so far. -/
  last : Nat
  ordered : rows.Pairwise fun a b => a.id < b.id
  bounded : ∀ r ∈ rows, r.id ≤ last
deriving Repr, DecidableEq

namespace Table

variable {ρ : Type}

/-- The table that has never had a row. -/
def empty : Table ρ := ⟨[], 0, .nil, by simp⟩

/-- The number that the next row gets. -/
def next (t : Table ρ) : Nat := t.last + 1

theorem lt_next (t : Table ρ) {r : Numbered ρ} (h : r ∈ t.rows) : r.id < t.next :=
  Nat.lt_succ_of_le (t.bounded r h)

/-- The table with one more row. -/
def insert (t : Table ρ) (row : ρ) : Table ρ where
  rows := t.rows ++ [⟨t.next, row⟩]
  last := t.next
  ordered := by
    refine List.pairwise_append.2 ⟨t.ordered, List.pairwise_singleton .., fun a ha b hb => ?_⟩
    rw [List.mem_singleton.1 hb]
    exact t.lt_next ha
  bounded := by
    intro r hr
    rcases List.mem_append.1 hr with hr | hr
    · exact Nat.le_of_lt (t.lt_next hr)
    · obtain rfl := List.mem_singleton.1 hr
      exact Nat.le_refl _

/-- The table with only the rows that pass a test. -/
def keep (test : ρ → Bool) (t : Table ρ) : Table ρ where
  rows := t.rows.filter (test ·.row)
  last := t.last
  ordered := t.ordered.filter _
  bounded := fun r hr => t.bounded r (List.mem_filter.1 hr).1

/-- The row with a number. -/
def find? (t : Table ρ) (id : Nat) : Option ρ := (t.rows.find? (·.id == id)).map (·.row)

/-- The rows that pass a test, in order, with their numbers. -/
def select (test : ρ → Bool) (t : Table ρ) : List (Numbered ρ) := t.rows.filter (test ·.row)

/-- The rows without their numbers. -/
def toList (t : Table ρ) : List ρ := t.rows.map (·.row)

/-! ## Tables from rows -/

/-- Whether the numbers of rows increase from above `floor` and end no higher than `last`. -/
def inOrder (last floor : Nat) : List (Numbered ρ) → Bool
  | [] => floor ≤ last
  | r :: rest => floor < r.id && inOrder last r.id rest

theorem inOrder_le {last : Nat} {rows : List (Numbered ρ)} :
    ∀ {floor : Nat}, inOrder last floor rows = true → floor ≤ last := by
  induction rows with
  | nil => intro floor h; simpa [inOrder] using h
  | cons r rest ih =>
    intro floor h
    simp only [inOrder, Bool.and_eq_true, decide_eq_true_eq] at h
    exact Nat.le_trans (Nat.le_of_lt h.1) (ih h.2)

theorem inOrder_spec {last : Nat} {rows : List (Numbered ρ)} :
    ∀ {floor : Nat}, inOrder last floor rows = true →
      (∀ r ∈ rows, floor < r.id ∧ r.id ≤ last) ∧ rows.Pairwise fun a b => a.id < b.id := by
  induction rows with
  | nil => intro floor _; simp
  | cons r rest ih =>
    intro floor h
    simp only [inOrder, Bool.and_eq_true, decide_eq_true_eq] at h
    obtain ⟨hr, hrest⟩ := h
    obtain ⟨hall, hpair⟩ := ih hrest
    refine ⟨fun x hx => ?_, List.pairwise_cons.2 ⟨fun x hx => (hall x hx).1, hpair⟩⟩
    rcases List.mem_cons.1 hx with rfl | hx
    · exact ⟨hr, inOrder_le hrest⟩
    · exact ⟨Nat.lt_trans hr (hall x hx).1, (hall x hx).2⟩

/-- The table with the given rows, if their numbers increase and are among those given. -/
def ofRows? (rows : List (Numbered ρ)) (last : Nat) : Option (Table ρ) :=
  if h : inOrder last 0 rows = true then
    some ⟨rows, last, (inOrder_spec h).2, fun r hr => ((inOrder_spec h).1 r hr).2⟩
  else none

/-! ## Small facts -/

theorem eq_of_rows {t u : Table ρ} (hrows : t.rows = u.rows) (hlast : t.last = u.last) : t = u := by
  cases t; cases u; simp_all

@[simp] theorem toList_empty : (empty : Table ρ).toList = [] := rfl

@[simp] theorem toList_insert (t : Table ρ) (row : ρ) :
    (t.insert row).toList = t.toList ++ [row] := by
  simp [insert, toList]

@[simp] theorem toList_keep (test : ρ → Bool) (t : Table ρ) :
    (t.keep test).toList = t.toList.filter test := by
  simp [keep, toList, List.filter_map, Function.comp_def]

@[simp] theorem last_keep (test : ρ → Bool) (t : Table ρ) : (t.keep test).last = t.last := rfl

@[simp] theorem last_insert (t : Table ρ) (row : ρ) : (t.insert row).last = t.last + 1 := rfl

end Table

end CodeIndex
