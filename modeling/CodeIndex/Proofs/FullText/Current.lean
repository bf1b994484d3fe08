import CodeIndex.Proofs.Store.Table
import CodeIndex.Proofs.Sync.History
import CodeIndex.Search.FullText

/-!
The full-text index and the chunks that are there.

The full-text index is made from all chunks at once and then stays as it is, while chunks come and go.
An entry is told from another by the number of its chunk. Since no number is given twice, not even when
a run is rolled back, the chunk that has the number of an entry is the one that the entry was made from.

* `Current` is the invariant, `Current.changed` that operations keep it, and `current_of_history` that
  it holds after every history;
* `Store.exists_of_mem_fulltextRows` says which chunks a search in the index comes to;
* `entries_of_live_chunks`: an entry that has the number of a chunk holds the texts of that chunk.
-/
namespace CodeIndex

/-! ## The invariant -/

/-- The entries of the full-text index were made from the chunks `indexed`, and whatever chunk has the
number of one of these is that one. -/
structure Current (s : Store) (indexed : List (Numbered ChunkRow)) : Prop where
  entries : s.fulltext.getD [] = indexed.map Store.fulltextRow
  given : ∀ r ∈ indexed, r.id ≤ s.chunks.last
  same : ∀ r ∈ indexed, ∀ live ∈ s.chunks.rows, live.id = r.id → live = r

namespace Current

variable {s s' : Store} {indexed : List (Numbered ChunkRow)}

theorem of_rebuilt (h : s.fulltext = some (s.chunks.rows.map Store.fulltextRow)) :
    Current s s.chunks.rows where
  entries := by rw [h, Option.getD_some]
  given := s.chunks.bounded
  same := fun _ hr _ hlive hid => s.chunks.eq_of_id_eq hlive hr hid

theorem of_empty (h : s.fulltext.getD [] = []) : Current s [] :=
  ⟨h, fun _ hr => absurd hr List.not_mem_nil, fun _ hr => absurd hr List.not_mem_nil⟩

theorem congr (h : Current s indexed) (hfulltext : s'.fulltext.getD [] = s.fulltext.getD [])
    (hchunks : s'.chunks = s.chunks) : Current s' indexed where
  entries := hfulltext.trans h.entries
  given := hchunks ▸ h.given
  same := hchunks ▸ h.same

/-- Chunks that come get numbers that have never been given, and the numbers of those that go stay
without a chunk. -/
theorem changed (h : Current s indexed) (hs : ChunksChanged s s') : Current s' indexed := by
  cases hs with
  | same hfulltext hchunks => exact h.congr (hfulltext ▸ rfl) hchunks
  | oneMore hfulltext hchunks =>
    refine ⟨hfulltext ▸ h.entries, fun r hr => ?_, fun r hr live hlive hid => ?_⟩
    · rw [hchunks, Table.last_insert]
      exact Nat.le_succ_of_le (h.given r hr)
    · rw [hchunks] at hlive
      rcases List.mem_append.1 hlive with hlive | hlive
      · exact h.same r hr live hlive hid
      · have hgiven := h.given r hr
        rw [← hid, List.mem_singleton.1 hlive] at hgiven
        exact absurd hgiven (Nat.not_succ_le_self _)
  | fewer hfulltext hchunks =>
    refine ⟨hfulltext ▸ h.entries, hchunks ▸ h.given, fun r hr live hlive hid => ?_⟩
    rw [hchunks] at hlive
    exact h.same r hr live (List.mem_of_mem_filter hlive) hid

end Current

/-! ## Histories keep it -/

variable {s : Store} {indexed : List (Numbered ChunkRow)}

theorem current_of_rebuild (h : Current s indexed) :
    Current (Operation.rebuildIndex.settle s).2 (Operation.rebuildIndex.indexedAfter s indexed) := by
  rw [Operation.settle, Operation.indexedAfter, Store.rebuildIndex, TextIndex.all, List.map_cons, inTurn]
  cases hfirst : Store.rebuild .chunks s with
  | error failure => exact h
  | ok s' =>
    have hnew : Current s' s'.chunks.rows := by
      rw [Store.rebuild_ok hfirst]
      exact .of_rebuilt rfl
    -- the indexes that are made new after it are others
    refine Store.inTurn_induction (P := fun s => Current s s'.chunks.rows) ?_ hnew
    rintro statement hstatement s s'' hs hok
    obtain ⟨i, hi, rfl⟩ := List.mem_map.1 hstatement
    rw [Store.rebuild_ok hok]
    cases i with
    | chunks => simp at hi
    | symbols | components => exact hs.congr rfl rfl

theorem current_of_operation (op : Operation) (h : Current s indexed) :
    Current (op.settle s).2 (op.indexedAfter s indexed) := by
  by_cases hop : op = .rebuildIndex
  · subst hop
    exact current_of_rebuild h
  · have hindexed : op.indexedAfter s indexed = indexed := by
      cases op with
      | rebuildIndex => exact absurd rfl hop
      | _ => rfl
    rw [hindexed]
    exact h.changed (op.changed s hop)

theorem current_of_run {β : Type} (project : Project β) (c : SyncConfig) (key now : String)
    (provider : Option Provider) (h : Current s indexed) :
    Current (Sync.run project c key now provider s).store
      ((Sync.run project c key now provider s).indexedAfter indexed) := by
  rw [Sync.Report.indexedAfter]
  cases hrun : (Sync.run project c key now provider s).outcome with
  | error failure =>
    -- what has been done by then is rolled back, the numbers that were given with it
    rw [(Sync.run_blocked (Sync.run_error_iff.1 hrun)).2]
    exact h
  | ok stats =>
    obtain ⟨w, -, -, hstore⟩ := Sync.run_ok hrun
    rw [hstore]
    exact .of_rebuilt rfl

theorem current_of_history (h : History s indexed) : Current s indexed := by
  induction h with
  | created => exact .of_empty rfl
  | operation op _ ih => exact current_of_operation op ih
  | run project c key now provider _ ih => exact current_of_run project c key now provider ih
  | indexDropped i _ ih =>
    cases i with
    | chunks => exact .of_empty rfl
    | symbols | components => exact ih.congr rfl rfl
  | reopened readOnly _ ih =>
    cases readOnly with
    | true => exact ih.congr rfl rfl
    | false => exact ih.congr rfl rfl

/-! ## Searches -/

theorem FullText.exists_of_mem_ranked {α : Type} [Score α] {rows : List Row} {phrases : List Phrase}
    {id : Nat} (h : id ∈ ranked α rows phrases) :
    ∃ entry ∈ rows, entry.id = id ∧ ∀ phrase ∈ phrases, 0 < entry.terms.frequency phrase := by
  unfold ranked at h
  split at h
  · cases h
  · obtain ⟨scored, hscored, rfl⟩ := List.mem_map.1 h
    obtain ⟨columns, hcolumns, rfl⟩ := List.mem_map.1 (List.mem_mergeSort.1 hscored)
    obtain ⟨hcolumns, hall⟩ := List.mem_filter.1 hcolumns
    obtain ⟨entry, hentry, rfl⟩ := List.mem_map.1 hcolumns
    exact ⟨entry, hentry, rfl, by simpa using hall⟩

/-- A search comes to the chunks of the project that have the number of an entry with all phrases. -/
theorem Store.exists_of_mem_fulltextRows {α : Type} [Score α] {project : String}
    {rows : List FullText.Row} {phrases : List FullText.Phrase} {r : ChunkRow}
    (h : r ∈ s.fulltextRows α project rows phrases) :
    ∃ entry ∈ rows, ⟨entry.id, r⟩ ∈ s.chunks.rows ∧ r.project = project ∧
      ∀ phrase ∈ phrases, 0 < entry.terms.frequency phrase := by
  obtain ⟨id, hid, hr⟩ := List.mem_filterMap.1 h
  obtain ⟨entry, hentry, rfl, hall⟩ := FullText.exists_of_mem_ranked hid
  obtain ⟨hfound, hproject⟩ := Option.filter_eq_some_iff.1 hr
  exact ⟨entry, hentry, Table.find?_eq_some_iff.1 hfound, by simpa using hproject, hall⟩

/-! ## Entries -/

/-- **An entry speaks of the chunk that has its number.** Whatever has been done to an index, an entry
of the full-text index with the number of a chunk holds the texts of that chunk as they are, and the
chunks that a search in the full-text index comes to are the ones that were indexed, unchanged. -/
theorem entries_of_live_chunks (h : History s indexed) :
    (∀ entry ∈ s.fulltext.getD [], ∀ live ∈ s.chunks.rows, live.id = entry.id →
      entry.content = live.row.content ∧ entry.filePath = live.row.filePath ∧
        entry.kind = live.row.kind.name ∧ entry.name = live.row.name) ∧
    ∀ (α : Type) [Score α] (project : String) (rows : List FullText.Row)
      (phrases : List FullText.Phrase), s.fulltext = some rows →
      ∀ r ∈ s.fulltextRows α project rows phrases,
        ∃ entry ∈ rows, ⟨entry.id, r⟩ ∈ s.chunks.rows ∧ ⟨entry.id, r⟩ ∈ indexed ∧
          r.project = project ∧ ∀ phrase ∈ phrases, 0 < entry.terms.frequency phrase := by
  have hcurrent := current_of_history h
  -- an entry was made from a chunk, and the chunk that has its number is that one
  have hmade : ∀ entry ∈ s.fulltext.getD [], ∀ live ∈ s.chunks.rows, live.id = entry.id →
      live ∈ indexed ∧ entry = Store.fulltextRow live := by
    intro entry hentry live hlive hid
    rw [hcurrent.entries] at hentry
    obtain ⟨made, hmade, rfl⟩ := List.mem_map.1 hentry
    obtain rfl := hcurrent.same made hmade live hlive hid
    exact ⟨hmade, rfl⟩
  refine ⟨fun entry hentry live hlive hid => ?_, fun α _ project rows phrases hrows r hr => ?_⟩
  · rw [(hmade entry hentry live hlive hid).2]
    exact ⟨rfl, rfl, rfl, rfl⟩
  · obtain ⟨entry, hentry, hlive, hproject, hall⟩ := Store.exists_of_mem_fulltextRows hr
    have hmem : entry ∈ s.fulltext.getD [] := by rwa [hrows]
    exact ⟨entry, hentry, hlive, (hmade entry hmem _ hlive rfl).1, hproject, hall⟩

namespace Sample

open Sync.Sample

/-- An index with a chunk of each of two projects, and a full-text index made from them. -/
def fresh : Store :=
  let shop := ((Operation.insertChunk "shop" chunk none).settle .created).2
  let both := ((Operation.insertChunk "mirror" chunk none).settle shop).2
  (Operation.rebuildIndex.settle both).2

/-- The same index when the chunk of one project has made room for another one. -/
def edited : Store :=
  let cleared := ((Operation.clearProject "shop").settle fresh).2
  ((Operation.insertChunk "shop" { chunk with name := some "B" } none).settle cleared).2

theorem exists_history : ∃ indexed, History edited indexed :=
  ⟨_, .operation _ (.operation _ (.operation _ (.operation _ (.operation _ .created))))⟩

end Sample

/-- The entry of the chunk that has gone has a number that is free, and the one of the chunk that has
stayed has the texts of that chunk. -/
theorem entries_of_live_chunks_edited :
    (Sample.edited.fulltext.getD []).map (·.id) = [1, 2] ∧
      Sample.edited.chunks.rows.map (·.id) = [2, 3] ∧
      ∀ entry ∈ Sample.edited.fulltext.getD [], ∀ live ∈ Sample.edited.chunks.rows,
        live.id = entry.id → entry.content = live.row.content ∧
          entry.filePath = live.row.filePath ∧ entry.kind = live.row.kind.name ∧
          entry.name = live.row.name := by
  obtain ⟨indexed, h⟩ := Sample.exists_history
  exact ⟨by decide, by decide, (entries_of_live_chunks h).1⟩

end CodeIndex
