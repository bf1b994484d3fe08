import CodeIndex.Store.Table
import Mathlib.Data.List.Basic
import Mathlib.Data.List.Nodup

/-!
Many rows added to a table.

Rows that are added one after another get numbers in a row, from the next one on, and so their numbers
are known from how many there are.

* `Table.insertAll` adds rows, `numbered` are rows with numbers in a row;
* `Table.rows_insertAll` and `Table.select_insertAll`: what is in the table then;
* `Table.find?_eq_some_iff` and `Table.find?_removed`: what is found by a number;
* `Table.UniqueBy` says that a key of the rows tells them apart, and `Table.uniqueBy_replaced` that it
  does so when a part of the rows has been replaced.
-/
namespace CodeIndex

variable {ρ ρ' : Type}

/-- The same number with what is made of the row. -/
def Numbered.map (f : ρ → ρ') (r : Numbered ρ) : Numbered ρ' := ⟨r.id, f r.row⟩

/-- Rows with numbers in a row, from `first` on. -/
def numbered (first : Nat) (rows : List ρ) : List (Numbered ρ) :=
  (rows.zipIdx first).map fun x => ⟨x.2, x.1⟩

@[simp] theorem numbered_nil (first : Nat) : numbered first ([] : List ρ) = [] := rfl

@[simp] theorem numbered_cons (first : Nat) (row : ρ) (rows : List ρ) :
    numbered first (row :: rows) = ⟨first, row⟩ :: numbered (first + 1) rows := rfl

theorem numbered_map (f : ρ → ρ') (first : Nat) (rows : List ρ) :
    (numbered first rows).map (Numbered.map f) = numbered first (rows.map f) := by
  induction rows generalizing first with
  | nil => rfl
  | cons row rows ih => simp [Numbered.map, ih]

theorem map_row_numbered (first : Nat) (rows : List ρ) :
    (numbered first rows).map (·.row) = rows := by
  induction rows generalizing first with
  | nil => rfl
  | cons row rows ih => simp [ih]

theorem le_of_mem_numbered {first : Nat} {rows : List ρ} {r : Numbered ρ}
    (h : r ∈ numbered first rows) : first ≤ r.id := by
  obtain ⟨x, hx, rfl⟩ := List.mem_map.1 h
  exact List.le_snd_of_mem_zipIdx hx

theorem row_of_mem_numbered {first : Nat} {rows : List ρ} {r : Numbered ρ}
    (h : r ∈ numbered first rows) : r.row ∈ rows :=
  map_row_numbered first rows ▸ List.mem_map_of_mem h

namespace Table

/-- The table with more rows. -/
def insertAll (t : Table ρ) (rows : List ρ) : Table ρ := rows.foldl insert t

@[simp] theorem insertAll_nil (t : Table ρ) : t.insertAll [] = t := rfl

theorem insertAll_append (t : Table ρ) (rows more : List ρ) :
    t.insertAll (rows ++ more) = (t.insertAll rows).insertAll more :=
  List.foldl_append

@[simp] theorem last_insertAll (t : Table ρ) (rows : List ρ) :
    (t.insertAll rows).last = t.last + rows.length := by
  induction rows generalizing t with
  | nil => rfl
  | cons row rows ih =>
    change ((t.insert row).insertAll rows).last = _
    rw [ih, last_insert, List.length_cons]
    omega

theorem next_insertAll (t : Table ρ) (rows : List ρ) :
    (t.insertAll rows).next = t.next + rows.length := by
  simp only [next, last_insertAll]
  omega

theorem rows_insertAll (t : Table ρ) (rows : List ρ) :
    (t.insertAll rows).rows = t.rows ++ numbered t.next rows := by
  induction rows generalizing t with
  | nil => simp
  | cons row rows ih =>
    change ((t.insert row).insertAll rows).rows = _
    rw [ih]
    simp [insert, next]

@[simp] theorem toList_insertAll (t : Table ρ) (rows : List ρ) :
    (t.insertAll rows).toList = t.toList ++ rows := by
  rw [toList, rows_insertAll, List.map_append, map_row_numbered]
  rfl

/-- Where every row passes the test, all rows stay. -/
theorem keep_eq_self {test : ρ → Bool} {t : Table ρ} (h : ∀ r ∈ t.rows, test r.row = true) :
    t.keep test = t :=
  eq_of_rows (List.filter_eq_self.2 h) rfl

theorem filter_numbered_eq_self {test : ρ → Bool} {rows : List ρ} (h : ∀ r ∈ rows, test r = true)
    (first : Nat) : (numbered first rows).filter (test ·.row) = numbered first rows :=
  List.filter_eq_self.2 fun _ hr => h _ (row_of_mem_numbered hr)

/-- The rows that pass a test are the new ones, if no old row passes it and every new one does. -/
theorem select_insertAll {test : ρ → Bool} {t : Table ρ} {rows : List ρ}
    (hold : ∀ r ∈ t.rows, test r.row = false) (hnew : ∀ r ∈ rows, test r = true) :
    (t.insertAll rows).select test = numbered t.next rows := by
  rw [select, rows_insertAll, List.filter_append, filter_numbered_eq_self hnew,
    List.filter_eq_nil_iff.2 fun r hr => by simp [hold r hr], List.nil_append]

/-! ## Rows by their numbers -/

/-- No two rows have the same number. -/
theorem eq_of_id_eq (t : Table ρ) {a b : Numbered ρ} (ha : a ∈ t.rows) (hb : b ∈ t.rows)
    (h : a.id = b.id) : a = b := by
  rcases List.pairwise_iff_getElem.1 t.ordered with hlt
  obtain ⟨i, hi, rfl⟩ := List.mem_iff_getElem.1 ha
  obtain ⟨j, hj, rfl⟩ := List.mem_iff_getElem.1 hb
  rcases Nat.lt_trichotomy i j with hij | rfl | hij
  · exact absurd h (Nat.ne_of_lt (hlt i j hi hj hij))
  · rfl
  · exact absurd h.symm (Nat.ne_of_lt (hlt j i hj hi hij))

/-- There are no more rows than numbers up to the highest one. -/
theorem length_toList_le (t : Table ρ) : t.toList.length ≤ t.last + 1 := by
  have hids : (t.rows.map (·.id)).Nodup := by
    rw [List.nodup_iff_pairwise_ne, List.pairwise_map]
    exact t.ordered.imp Nat.ne_of_lt
  have hsub : t.rows.map (·.id) ⊆ List.range (t.last + 1) := by
    intro id hid
    obtain ⟨r, hr, rfl⟩ := List.mem_map.1 hid
    exact List.mem_range.2 (Nat.lt_succ_of_le (t.bounded r hr))
  simpa [toList] using hids.length_le_of_subset hsub

theorem find?_eq_some_iff {t : Table ρ} {id : Nat} {row : ρ} :
    t.find? id = some row ↔ ⟨id, row⟩ ∈ t.rows := by
  rw [find?, Option.map_eq_some_iff]
  constructor
  · rintro ⟨r, hr, rfl⟩
    have hid : r.id = id := by simpa using List.find?_some hr
    exact hid ▸ List.mem_of_find?_eq_some hr
  · intro h
    -- the row that is found first has the number, so it is this one
    obtain ⟨r, hr⟩ : ∃ r, t.rows.find? (·.id == id) = some r :=
      Option.isSome_iff_exists.1 (List.find?_isSome.2 ⟨_, h, beq_self_eq_true id⟩)
    have hid : r.id = id := by simpa using List.find?_some hr
    exact ⟨r, hr, congrArg Numbered.row (t.eq_of_id_eq (List.mem_of_find?_eq_some hr) h hid)⟩

theorem find?_eq_none {t : Table ρ} {id : Nat} (h : ∀ r ∈ t.rows, r.id ≠ id) :
    t.find? id = none := by
  rw [find?, List.find?_eq_none.2 (by simpa using h)]
  rfl

/-- The number of a row that has been taken out stays without a row, however many are added. -/
theorem find?_removed {test : ρ → Bool} {t : Table ρ} {r : Numbered ρ} (hr : r ∈ t.rows)
    (hout : test r.row = false) (rows : List ρ) :
    ((t.keep test).insertAll rows).find? r.id = none := by
  refine find?_eq_none fun x hx => ?_
  rw [rows_insertAll] at hx
  rcases List.mem_append.1 hx with hx | hx
  · obtain ⟨hmem, hpass⟩ := List.mem_filter.1 hx
    rintro hid
    rw [t.eq_of_id_eq hmem hr hid, hout] at hpass
    cases hpass
  · have hnext : t.next ≤ x.id := le_of_mem_numbered hx
    have hlt := t.lt_next hr
    omega

/-! ## Keys of rows -/

/-- No two rows have the same key. -/
def UniqueBy {κ : Type} (k : ρ → κ) (t : Table ρ) : Prop :=
  ∀ a ∈ t.rows, ∀ b ∈ t.rows, k a.row = k b.row → a = b

theorem UniqueBy.nodup {κ : Type} {k : ρ → κ} {t : Table ρ} (h : t.UniqueBy k) :
    (t.toList.map k).Nodup := by
  have hrows : t.rows.Nodup := List.nodup_iff_pairwise_ne.2 <|
    t.ordered.imp fun hlt heq => Nat.ne_of_lt hlt (congrArg Numbered.id heq)
  rw [toList, List.map_map]
  exact hrows.map_on fun a ha b hb => h a ha b hb

theorem UniqueBy.nodup_filter {κ : Type} {k : ρ → κ} {test : ρ → Bool} {t : Table ρ}
    (h : (t.keep test).UniqueBy k) : ((t.toList.filter test).map k).Nodup :=
  toList_keep test t ▸ h.nodup

theorem eq_of_mem_numbered {κ : Type} {k : ρ → κ} {rows : List ρ} (hrows : (rows.map k).Nodup)
    {first : Nat} {a b : Numbered ρ} (ha : a ∈ numbered first rows) (hb : b ∈ numbered first rows)
    (h : k a.row = k b.row) : a = b := by
  have hmap : (numbered first rows).map (fun r => k r.row) = rows.map k := by
    rw [← map_row_numbered first rows, List.map_map, map_row_numbered]
    rfl
  exact List.inj_on_of_nodup_map (hmap ▸ hrows) ha hb h

/-- Where the rows that a test lets go are replaced by rows with new keys, keys still tell rows
apart. -/
theorem uniqueBy_replaced {κ : Type} {k : ρ → κ} {test : ρ → Bool} {t : Table ρ} {rows : List ρ}
    (ht : t.UniqueBy k) (hrows : (rows.map k).Nodup)
    (hnew : ∀ a, test a = true → ∀ b ∈ rows, k a ≠ k b) :
    ((t.keep test).insertAll rows).UniqueBy k := by
  intro a ha b hb h
  rw [rows_insertAll] at ha hb
  rcases List.mem_append.1 ha with ha | ha <;> rcases List.mem_append.1 hb with hb | hb
  · exact ht a (List.mem_filter.1 ha).1 b (List.mem_filter.1 hb).1 h
  · exact absurd h (hnew _ (List.mem_filter.1 ha).2 _ (row_of_mem_numbered hb))
  · exact absurd h.symm (hnew _ (List.mem_filter.1 hb).2 _ (row_of_mem_numbered ha))
  · exact eq_of_mem_numbered hrows ha hb h

end Table

end CodeIndex
