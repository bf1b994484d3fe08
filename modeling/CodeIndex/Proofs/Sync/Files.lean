import CodeIndex.Proofs.Sync.Counts
import CodeIndex.Proofs.Sync.Distinct
import CodeIndex.Proofs.Sync.Isolation

/-!
The records of files that a run leaves.

A run does not take out the records of files when it starts. It puts in a new record for each file that
it can read, and takes out those of files that are gone in the end, if it is to. So an old record stays
as it was where a file was found that could not be read, and where a file is gone and records of such
files are kept.

* `records` are the new records, and `Stays` says which old ones stay;
* `filter_foldl_putRow` and `withFiles_files`: what putting in the new records makes of the old ones;
* `Recorded` says what a run leaves of records, and `run_records_files` that a run does so.
-/
namespace CodeIndex.Sync

/-- The records of the files that can be read, in order. -/
def records (found : List (String × Option String)) : List FileRecord :=
  found.filterMap fun file => file.2.map (fileRecord file.1)

/-- The old record of a path stays as it was if the file could not be read, and if there is no such
file and records of files that are gone are kept. -/
def Stays (c : SyncConfig) (found : List (String × Option String)) (path : String) : Prop :=
  (path, none) ∈ found ∨ c.pruneStaleFiles = false ∧ path ∉ found.map (·.1)

instance (c : SyncConfig) (found : List (String × Option String)) :
    DecidablePred (Stays c found) := fun _ => inferInstanceAs (Decidable (_ ∨ _ ∧ _))

/-! ## New records in place of old ones -/

/-- The rows with that of a record in place of an earlier one. -/
def putRow (key : String) (rows : List FileRow) (f : FileRecord) : List FileRow :=
  rows.filter (fun r => !r.isFor key f.filePath) ++ [.ofRecord key f]

variable {c : SyncConfig} {key : String} {found : List (String × Option String)}

theorem filePath_records : (records found).map (·.filePath) =
    (found.filter (·.2.isSome)).map (·.1) := by
  induction found with
  | nil => rfl
  | cons file found ih =>
    obtain ⟨relative, text⟩ := file
    cases text <;> simp_all [records, fileRecord]

theorem records_nodup (hnodup : (found.map (·.1)).Nodup) :
    ((records found).map (·.filePath)).Nodup := by
  rw [filePath_records]
  exact hnodup.sublist (List.filter_sublist.map _)

theorem filter_putRow (rows : List FileRow) (f : FileRecord) :
    (putRow key rows f).filter (·.project == key) =
      (rows.filter (·.project == key)).filter (fun r => r.filePath ≠ f.filePath) ++
        [.ofRecord key f] := by
  have hrow : [FileRow.ofRecord key f].filter (·.project == key) = [.ofRecord key f] := by
    simp [FileRow.ofRecord]
  rw [putRow, List.filter_append, hrow, List.filter_filter, List.filter_filter]
  congr 1
  refine List.filter_congr fun r _ => ?_
  rw [Bool.eq_iff_iff]
  by_cases hp : r.project = key <;> simp [FileRow.isFor, hp]

/-- Records of different files leave those of other files and go after them. -/
theorem filter_foldl_putRow {fs : List FileRecord} (hnodup : (fs.map (·.filePath)).Nodup)
    (rows : List FileRow) :
    (fs.foldl (putRow key) rows).filter (·.project == key) =
      (rows.filter (·.project == key)).filter (fun r => r.filePath ∉ fs.map (·.filePath)) ++
        fs.map (.ofRecord key) := by
  induction fs generalizing rows with
  | nil => simp
  | cons f fs ih =>
    rw [List.map_cons, List.nodup_cons] at hnodup
    -- no later record takes the place of the first one
    have hlater : [FileRow.ofRecord key f].filter (fun r => r.filePath ∉ fs.map (·.filePath)) =
        [.ofRecord key f] :=
      List.filter_eq_self.2 fun r hr => by
        rw [List.mem_singleton.1 hr]
        exact decide_eq_true hnodup.1
    rw [List.foldl_cons, ih hnodup.2, filter_putRow, List.filter_append, hlater, List.append_assoc,
      List.filter_filter]
    congr 1
    refine List.filter_congr fun r _ => ?_
    rw [Bool.eq_iff_iff]
    simp [and_comm]

theorem withChunks_files (key : String) (chunks : List Chunk) (e : Effect) :
    (chunks.foldl (Effect.withChunk c key) e).store.files = e.store.files :=
  foldl_unchanged (·.store.files) (fun e chunk => by rw [(withChunk_eq key chunk e).1]) chunks e

theorem withFiles_files (key : String) (found : List (String × Option String)) (e : Effect) :
    (found.foldl (Effect.withFile c key) e).store.files =
      (records found).foldl (putRow key) e.store.files := by
  induction found generalizing e with
  | nil => rfl
  | cons file found ih =>
    obtain ⟨relative, text⟩ := file
    rw [List.foldl_cons, ih]
    cases text with
    | none => rfl
    | some text =>
      exact congrArg (List.foldl (putRow key) · (records found)) (withChunks_files key _ _)

/-! ## Records of a project -/

/-- The records of a project before those of files that are gone are taken out. -/
theorem unpruned_files (s : Store) (provider : Option Provider) {w : Work} (hnodup : w.paths.Nodup) :
    (unpruned c key s provider w).store.files.filter (·.project == key) =
      (s.files.filter (·.project == key)).filter
          (fun r => r.filePath ∉ (records w.files).map (·.filePath)) ++
        (records w.files).map (.ofRecord key) := by
  have hfiles : (unpruned c key s provider w).store.files =
      (records w.files).foldl (putRow key) s.files :=
    (foldl_unchanged (g := Effect.withComponent c key) (·.store.files) (fun _ _ => rfl) _ _).trans
      (withFiles_files key w.files _)
  rw [hfiles, filter_foldl_putRow (records_nodup hnodup)]

theorem mem_records {path : String} (h : path ∈ (records found).map (·.filePath)) :
    ∃ text, (path, some text) ∈ found := by
  rw [filePath_records] at h
  obtain ⟨⟨relative, text⟩, hmem, rfl⟩ := List.mem_map.1 h
  obtain ⟨hfound, hsome⟩ := List.mem_filter.1 hmem
  obtain ⟨text, rfl⟩ := Option.isSome_iff_exists.1 hsome
  exact ⟨text, hfound⟩

/-- An old record stays if no new one takes its place and it is not taken out in the end. -/
theorem stays_iff (hnodup : (found.map (·.1)).Nodup) (path : String) :
    Stays c found path ↔ path ∉ (records found).map (·.filePath) ∧
      (c.pruneStaleFiles = true → path ∈ found.map (·.1)) := by
  constructor
  · rintro (hmem | ⟨hkept, hgone⟩)
    · refine ⟨fun hrecord => ?_, fun _ => List.mem_map_of_mem (f := Prod.fst) hmem⟩
      obtain ⟨text, htext⟩ := mem_records hrecord
      cases List.inj_on_of_nodup_map hnodup hmem htext rfl
    · refine ⟨fun hrecord => ?_, fun hpruned => ?_⟩
      · obtain ⟨text, htext⟩ := mem_records hrecord
        exact hgone (List.mem_map_of_mem (f := Prod.fst) htext)
      · rw [hkept] at hpruned
        cases hpruned
  · rintro ⟨hrecord, hpruned⟩
    by_cases hmem : path ∈ found.map (·.1)
    · obtain ⟨⟨relative, text⟩, hfile, rfl⟩ := List.mem_map.1 hmem
      cases text with
      | none => exact .inl hfile
      | some text =>
        refine absurd ?_ hrecord
        rw [filePath_records]
        exact List.mem_map_of_mem (f := Prod.fst) (List.mem_filter.2 ⟨hfile, rfl⟩)
    · exact .inr ⟨Bool.eq_false_iff.2 fun h => hmem (hpruned h), hmem⟩

/-- No file has an old record that stays and a new one. -/
theorem nodup_recorded (hnodup : (found.map (·.1)).Nodup) {old : List FileRow}
    (hold : (old.map (·.filePath)).Nodup) :
    ((old.filter (fun r : FileRow => Stays c found r.filePath) ++
      (records found).map (FileRow.ofRecord key)).map (·.filePath)).Nodup := by
  rw [List.map_append, List.map_map]
  refine List.nodup_append'.2 ⟨hold.sublist (List.filter_sublist.map _), records_nodup hnodup, ?_⟩
  intro path hstays hrecord
  obtain ⟨r, hr, rfl⟩ := List.mem_map.1 hstays
  exact ((stays_iff hnodup _).1 (of_decide_eq_true (List.mem_filter.1 hr).2)).1 hrecord

theorem length_staleFiles (s : Store) (keep : List String) :
    (s.staleFiles key keep).length =
      ((s.rowsOf key).files.filter fun r => r.filePath ∉ keep).length := by
  have hpaths : (s.staleFiles key keep).Perm
      (((s.rowsOf key).files.map (·.filePath)).filter fun path => !keep.contains path) :=
    (List.mergeSort_perm _ _).filter _
  rw [hpaths.length_eq, List.filter_map, List.length_map]
  simp [Function.comp_def]

theorem pruned_files (e : Effect) (w : Work) :
    ((e.pruned c key w).store.rowsOf key).files =
      (e.store.rowsOf key).files.filter fun r => c.pruneStaleFiles = true → r.filePath ∈ w.paths := by
  unfold Effect.pruned
  split
  · rename_i hpruned
    rw [Store.rowsOf, Store.rowsOf]
    simp only [Effect.counted, Effect.withStore, Store.dropStaleFiles, List.filter_filter]
    refine List.filter_congr fun r _ => ?_
    rw [Bool.eq_iff_iff]
    by_cases hp : r.project = key <;> simp [hp, hpruned]
  · rename_i hkept
    simp [hkept]

/-- What a run leaves of the records of files. -/
structure Recorded (c : SyncConfig) (key : String) (found : List (String × Option String))
    (s s' : Store) (stats : SyncStats) : Prop where
  /-- Some old records stay as they were, and each file that could be read has a new one. -/
  files : (s'.rowsOf key).files =
    (s.rowsOf key).files.filter (fun r => Stays c found r.filePath) ++
      (records found).map (.ofRecord key)
  /-- No file has two records, if none had before. -/
  unique : ((s.rowsOf key).files.map (·.filePath)).Nodup →
    ((s'.rowsOf key).files.map (·.filePath)).Nodup
  /-- Old records of files that are gone are counted where they are taken out. -/
  pruned : stats.prunedFiles =
    if c.pruneStaleFiles then ((s.rowsOf key).files.filter fun r => r.filePath ∉ found.map (·.1)).length
    else 0
  /-- Each file is counted once. -/
  counted : stats.files + stats.skippedFiles = found.length
  /-- Chunks are in files that have a record. -/
  chunks : ∀ r ∈ (s'.rowsOf key).chunks, r.row.filePath ∈ (s'.rowsOf key).files.map (·.filePath)
  /-- Symbols are in files that have a record. -/
  symbols : ∀ r ∈ (s'.rowsOf key).symbols, r.row.filePath ∈ (s'.rowsOf key).files.map (·.filePath)

section Finished

variable {s : Store} {w : Work} (provider : Option Provider) (now : String)

theorem filePath_mem_paths {r : FileRow} (h : r ∈ (records w.files).map (.ofRecord key)) :
    r.filePath ∈ w.paths := by
  obtain ⟨f, hf, rfl⟩ := List.mem_map.1 h
  obtain ⟨text, htext⟩ := mem_records (List.mem_map_of_mem (f := FileRecord.filePath) hf)
  exact List.mem_map_of_mem (f := Prod.fst) htext

theorem finished_files (hnodup : w.paths.Nodup) :
    ((((Effect.start s key provider).complete c key w).finished key now).rowsOf key).files =
      (s.rowsOf key).files.filter (fun r => Stays c w.files r.filePath) ++
        (records w.files).map (.ofRecord key) := by
  have hnew : ((records w.files).map (FileRow.ofRecord key)).filter
      (fun r => c.pruneStaleFiles = true → r.filePath ∈ w.paths) =
        (records w.files).map (FileRow.ofRecord key) :=
    List.filter_eq_self.2 fun r hr => decide_eq_true fun _ => filePath_mem_paths hr
  have hpruned : ((((Effect.start s key provider).complete c key w).finished key now).rowsOf key).files =
      (((unpruned c key s provider w).pruned c key w).store.rowsOf key).files := by
    rw [Store.rowsOf, Store.rowsOf, Effect.files_finished, complete_eq_pruned]
  rw [hpruned, pruned_files, Store.rowsOf, unpruned_files s provider hnodup, List.filter_append, hnew,
    List.filter_filter]
  congr 1
  refine List.filter_congr fun r _ => ?_
  rw [Bool.eq_iff_iff]
  simp only [Bool.and_eq_true, decide_eq_true_eq]
  exact (and_comm.trans (stays_iff hnodup r.filePath).symm)

theorem finished_prunedFiles (hnodup : w.paths.Nodup) :
    ((Effect.start s key provider).complete c key w).stats.prunedFiles =
      if c.pruneStaleFiles then
        ((s.rowsOf key).files.filter fun r => r.filePath ∉ w.paths).length
      else 0 := by
  -- new records are of files that are there, and no old one of a file that is gone has been replaced
  have hgone : (((unpruned c key s provider w).store.rowsOf key).files.filter
      fun r => r.filePath ∉ w.paths) = (s.rowsOf key).files.filter fun r => r.filePath ∉ w.paths := by
    have hnew : ((records w.files).map (FileRow.ofRecord key)).filter
        (fun r => r.filePath ∉ w.paths) = [] :=
      List.filter_eq_nil_iff.2 fun r hr hgone =>
        absurd (filePath_mem_paths hr) (of_decide_eq_true hgone)
    refine (congrArg (List.filter _) (unpruned_files s provider hnodup)).trans ?_
    rw [List.filter_append, hnew, List.append_nil, List.filter_filter]
    refine List.filter_congr fun r _ => ?_
    rw [Bool.eq_iff_iff]
    simp only [Bool.and_eq_true, decide_eq_true_eq, and_iff_left_iff_imp]
    intro hpath hrecord
    obtain ⟨text, htext⟩ := mem_records hrecord
    exact hpath (List.mem_map_of_mem (f := Prod.fst) htext)
  rw [complete_stats, length_staleFiles, hgone]

theorem filePath_mem_records {chunk : Chunk} (hkeys : ∀ path ∈ w.paths, Path.key path = path)
    (h : chunk ∈ w.chunks c) : chunk.filePath ∈ (records w.files).map (·.filePath) := by
  obtain ⟨⟨relative, text⟩, hfile, hchunk⟩ := List.mem_flatMap.1 h
  rw [(filePath_of_mem_fileChunks hchunk).1, hkeys relative (List.mem_map_of_mem (f := Prod.fst) hfile)]
  cases text with
  | none => cases hchunk
  | some text =>
    rw [filePath_records]
    exact List.mem_map_of_mem (f := Prod.fst) (List.mem_filter.2 ⟨hfile, rfl⟩)

end Finished

theorem filePath_chunkRows {e : Embedder} {chunks : List Chunk} {r : ChunkRow}
    (h : r ∈ chunkRows c key e chunks) : ∃ chunk ∈ chunks, chunk.filePath = r.filePath := by
  obtain ⟨chunk, hchunk, hbare⟩ := List.mem_map.1
    (map_bare_chunkRows e chunks ▸ List.mem_map_of_mem (f := ChunkRow.bare) h)
  exact ⟨chunk, hchunk, congrArg ChunkRow.filePath hbare⟩

theorem filePath_symbolRows {first : Nat} {chunks : List Chunk} {r : SymbolRow}
    (h : r ∈ symbolRows key first chunks) : ∃ chunk ∈ chunks, chunk.filePath = r.filePath := by
  obtain ⟨⟨chunk, id⟩, hchunk, hname⟩ := List.mem_flatMap.1 h
  obtain ⟨name, -, rfl⟩ := List.mem_map.1 hname
  exact ⟨chunk, List.fst_mem_of_mem_zipIdx hchunk, rfl⟩

/-- **A run records the files it has found.** When it succeeds, each file that could be read has one
record with its language, its length and its digest as they are; the record of each file that could not
be read is the one from before; and the records of files that are gone are taken out and counted, or all
kept, as the configuration says. Each file that was found is counted once, and every chunk and symbol is
in a file that has a record. -/
theorem run_records_files {β : Type} {project : Project β} {now : String}
    {provider : Option Provider} {s : Store} {stats : SyncStats}
    (h : (run project c key now provider s).outcome = .ok stats) :
    ∃ files, project.files c = .ok files ∧ (files.map (·.relative)).Nodup ∧
      Recorded c key (files.map fun d => (d.relative, project.text? d)) s
        (run project c key now provider s).store stats := by
  obtain ⟨w, hwork, hfree, -⟩ := run_ok h
  obtain ⟨files, components, hfiles, -, hw, -⟩ := work_ok hwork
  have hpaths := work_components_nodup hwork
  have hnodup := work_paths_nodup hwork
  rw [run_free hwork hfree] at h ⊢
  cases h
  refine ⟨files, hfiles, Project.files_nodup hfiles, ?_⟩
  rw [← hw]
  set s' := ((Effect.start s key provider).complete c key w).finished key now
  have hrecorded : (s'.rowsOf key).files = _ := finished_files provider now hnodup
  have hchunkPaths : ∀ chunk ∈ w.chunks c,
      chunk.filePath ∈ (s'.rowsOf key).files.map (·.filePath) := by
    intro chunk hchunk
    rw [hrecorded, List.map_append, List.map_map]
    exact List.mem_append_right _
      (filePath_mem_records (fun _ hpath => key_of_mem_work_paths hwork hpath) hchunk)
  refine ⟨hrecorded, fun hold => ?_, finished_prunedFiles provider hnodup, ?_, fun r hr => ?_,
    fun r hr => ?_⟩
  · rw [hrecorded]
    exact nodup_recorded hnodup hold
  · rw [complete_stats, unpruned_stats, List.length_eq_length_filter_add (l := w.files) (·.2.isSome)]
    simp only [Option.not_isSome]
  · rw [Store.rowsOf, finished_chunks provider now hpaths] at hr
    rw [select_replaced fun _ => project_chunkRows] at hr
    obtain ⟨chunk, hchunk, hpath⟩ := filePath_chunkRows (row_of_mem_numbered hr)
    exact hpath ▸ hchunkPaths chunk hchunk
  · rw [Store.rowsOf, finished_symbols provider now hpaths] at hr
    rw [select_replaced fun _ => project_symbolRows] at hr
    obtain ⟨chunk, hchunk, hpath⟩ := filePath_symbolRows (row_of_mem_numbered hr)
    exact hpath ▸ hchunkPaths chunk hchunk

namespace Sample

/-- The project with two files of declarations and a component, and an empty file that cannot be read. -/
def shopUnread : Project String :=
  ⟨⟨shop.tree.entries ++ [(["c.ts"], .file "")]⟩, [], fun text => if text = "" then none else some text⟩

/-- A configuration that finds all, and takes out the records of files that are gone. -/
def pruningConfig : SyncConfig :=
  { shopConfig with patterns := ["a.ts", "b.ts", "c.ts"], pruneStaleFiles := true }

/-- An index with old records of two of the files and of one that is gone. -/
def recorded : Store :=
  ["a.ts", "c.ts", "gone.ts"].foldl (fun s path => s.putFile "shop" ⟨path, "unknown", 0, ""⟩)
    Store.created

end Sample

/-- The record of the file that is gone has been taken out, that of the file that cannot be read is the old one,
and those of the other two are new: with their language, their length and their digest. The symbols are in
these. -/
theorem run_records_files_sample :
    let report := run Sample.shopUnread Sample.pruningConfig "shop" "now" (some Sample.steady)
      Sample.recorded
    (∃ stats, report.outcome = .ok stats ∧ stats.prunedFiles = 1 ∧
      stats.files + stats.skippedFiles = 3) ∧
      (report.store.rowsOf "shop").files = [⟨"shop", "c.ts", "unknown", 0, ""⟩,
        ⟨"shop", "a.ts", "typescript", 12,
          "665de682b44513bbe5d067484557236e3dcc2f84e31df3aa074238c5690f5513"⟩,
        ⟨"shop", "b.ts", "typescript", 17,
          "4e65120cbcc73e64d1c522ffc684889ee7bea4d227647c696d1a7b3de1d8e531"⟩] ∧
      ∀ r ∈ (report.store.rowsOf "shop").symbols, r.row.filePath ∈ ["c.ts", "a.ts", "b.ts"] := by
  intro report
  obtain ⟨w, hwork⟩ : ∃ w, work Sample.shopUnread Sample.pruningConfig = .ok w := ⟨_, rfl⟩
  have hfree : Free Sample.recorded "shop" := free_of_no_symbols rfl rfl rfl
  have h : report.outcome = .ok _ := congrArg Report.outcome (run_free hwork hfree)
  obtain ⟨files, hfiles, -, hrecorded⟩ := run_records_files h
  have hfound : Sample.shopUnread.files Sample.pruningConfig =
      .ok [⟨["a.ts"], "a.ts"⟩, ⟨["b.ts"], "b.ts"⟩, ⟨["c.ts"], "c.ts"⟩] := rfl
  rw [hfound] at hfiles
  cases hfiles
  have hpaths : (report.store.rowsOf "shop").files.map (·.filePath) = ["c.ts", "a.ts", "b.ts"] := by
    rw [hrecorded.files]
    decide +kernel
  refine ⟨⟨_, h, hrecorded.pruned.trans (by decide +kernel), hrecorded.counted⟩, ?_, fun r hr => ?_⟩
  · rw [hrecorded.files]
    decide +kernel
  · exact hpaths ▸ hrecorded.symbols r hr

end CodeIndex.Sync
