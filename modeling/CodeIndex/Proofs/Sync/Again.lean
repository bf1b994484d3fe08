import CodeIndex.Proofs.FullText.Statistics
import CodeIndex.Proofs.Sync.Calls
import CodeIndex.Proofs.Sync.Files
import CodeIndex.Proofs.Sync.References

/-!
A run over files that have not changed.

Each run takes out all rows of its project and puts in new ones with new numbers. When the files are as
they were, the new rows are the old ones but for their numbers, and they stand in the same order after
those of the other projects. A search uses numbers only to get from one row to another and to put rows
in order, so no search can tell the two indexes apart.

* `Alike` says that two indexes hold the same rows in the same order, and show the same of each symbol;
* `Alike.textSearch` and `Alike.shownByName`: searches find the same in both, for every project;
* `alike_again`: so it is with the indexes after a run and after another one;
* `stats_again`: both count the same, but for files that were gone before the first;
* `run_again_is_invisible` is what follows for runs.
-/
namespace CodeIndex

open Text

/-! ## Indexes that look alike -/

/-- Two indexes hold the same rows in the same order, and show the same of each symbol. The numbers of
rows do not count. -/
structure Alike (s s' : Store) : Prop where
  chunks : s.chunks.toList = s'.chunks.toList
  symbols : s.symbols.toList.map s.shown = s'.symbols.toList.map s'.shown
  components : s.components.toList = s'.components.toList

namespace Alike

variable {s s' : Store} (h : Alike s s') (project : String)
include h

theorem shownByName : s.shownByName project = s'.shownByName project := by
  have hfilter : ∀ s : Store, (s.symbols.toList.filter (·.project == project)).map s.shown =
      (s.symbols.toList.map s.shown).filter (·.1.project == project) := fun s => by
    rw [List.filter_map]
    rfl
  rw [Store.shownByName, Store.shownByName, hfilter, hfilter, h.symbols]

theorem textSearch (α : Type) [Score α] (hs : s.rebuilt .chunks = s) (hs' : s'.rebuilt .chunks = s')
    (text : String) (limit : Nat) :
    s.textSearch α project text limit = s'.textSearch α project text limit :=
  Store.textSearch_congr α (Store.indexHits_of_chunks α h.chunks hs hs')
    (Store.substringHits_congr (by rw [h.chunks]) _ _)
    (Store.componentHits_congr (by rw [h.components]) _ _)

end Alike

namespace Sync

variable {c : SyncConfig} {key now now' : String} {w : Work} {s : Store}
  {provider provider' : Option Provider}

/-! ## Rows without vectors -/

theorem chunkRows_idle {e : Embedder} (h : e.active = false) (chunks : List Chunk) :
    chunkRows c key e chunks = chunks.map (.ofChunk key · none) := by
  induction chunks with
  | nil => rfl
  | cons chunk chunks ih =>
    rw [chunkRows, show e.embed _ = (none, e) from Embedder.request_idle h (some _), ih]
    rfl

theorem componentRows_idle {e : Embedder} (h : e.active = false)
    (files : List (Component × Option String)) :
    componentRows c key e files = files.map fun file => ⟨key, file.1, none⟩ := by
  induction files with
  | nil => rfl
  | cons file files ih =>
    rw [componentRows, componentEmbedding_eq, Embedder.request_idle h, ih]
    rfl

theorem afterChunks_idle {e : Embedder} (h : e.active = false) (chunks : List Chunk) :
    afterChunks c e chunks = e := by
  rw [afterChunks_eq, Embedder.afterRequests_idle h]

/-! ## Rows that are put in twice -/

/-- Where rows are put in place of those of a project, and once more, the table looks the same through
functions that agree on the rows of other projects and on the new ones. -/
theorem map_toList_again {ρ γ : Type} {project : ρ → String} {t t' t'' : Table ρ}
    {rows rows' : List ρ} {f f' : ρ → γ} (hrows : ∀ r ∈ rows, project r = key)
    (ht' : t' = (t.keep (project · != key)).insertAll rows)
    (ht'' : t'' = (t'.keep (project · != key)).insertAll rows')
    (hother : ∀ r ∈ t'.toList, project r ≠ key → f' r = f r) (hnew : rows'.map f' = rows.map f) :
    t''.toList.map f' = t'.toList.map f := by
  have hlist : t'.toList = t.toList.filter (project · != key) ++ rows := by
    rw [ht', Table.toList_insertAll, Table.toList_keep]
  have hkept : t'.toList.filter (project · != key) = t.toList.filter (project · != key) := by
    have hgone : rows.filter (project · != key) = [] :=
      List.filter_eq_nil_iff.2 fun r hr => by simp [hrows r hr]
    rw [hlist, List.filter_append, hgone, List.append_nil, List.filter_filter]
    simp only [Bool.and_self]
  have hsame : (t'.toList.filter (project · != key)).map f' =
      (t'.toList.filter (project · != key)).map f := by
    refine List.map_congr_left fun r hr => ?_
    obtain ⟨hr, hproject⟩ := List.mem_filter.1 hr
    exact hother r hr (bne_iff_ne.1 hproject)
  calc t''.toList.map f'
    _ = (t'.toList.filter (project · != key)).map f' ++ rows'.map f' := by
      rw [ht'', Table.toList_insertAll, Table.toList_keep, List.map_append]
    _ = t'.toList.map f := by rw [hsame, hnew, hkept, ← List.map_append, ← hlist]

theorem toList_again {ρ : Type} {project : ρ → String} {t t' t'' : Table ρ} {rows : List ρ}
    (hrows : ∀ r ∈ rows, project r = key) (ht' : t' = (t.keep (project · != key)).insertAll rows)
    (ht'' : t'' = (t'.keep (project · != key)).insertAll rows) : t''.toList = t'.toList := by
  have h : t''.toList.map id = t'.toList.map id :=
    map_toList_again hrows ht' ht'' (fun _ _ _ => rfl) rfl
  rwa [List.map_id, List.map_id] at h

/-! ## What is shown of symbols -/

theorem shown_of_refersTo {y : SymbolRow} {r : Numbered ChunkRow} (hr : r ∈ s.chunks.rows)
    (href : y.RefersTo r) :
    s.shown y = ({ y with chunkId := 0 },
      some (r.row.content.toList.take Store.symbolPreviewChars)) := by
  rw [Store.shown, Store.symbolPreview, ← href, Table.find?_eq_some_iff.2 hr]
  rfl

/-- What is shown of new symbols does not depend on the numbers that their chunks are given. -/
theorem map_shown_symbolRows {chunks : List Chunk} {first : Nat} {e : Embedder}
    (h : ∀ r ∈ numbered first (chunkRows c key e chunks), r ∈ s.chunks.rows) :
    (symbolRows key first chunks).map s.shown = chunks.flatMap fun chunk =>
      chunk.symbols.map fun name => (.ofChunk key name chunk 0,
        some (chunk.content.toList.take Store.symbolPreviewChars)) := by
  induction chunks generalizing first e with
  | nil => rfl
  | cons chunk chunks ih =>
    rw [chunkRows, numbered_cons] at h
    rw [symbolRows_cons, List.map_append, List.flatMap_cons,
      ih fun r hr => h r (List.mem_cons_of_mem _ hr), List.map_map]
    refine congrArg (· ++ _) (List.map_congr_left fun name _ => ?_)
    exact shown_of_refersTo (h _ List.mem_cons_self) rfl

/-! ## The index after a run -/

/-- The index after a run that nothing stands in the way of. -/
abbrev Work.done (w : Work) (c : SyncConfig) (key now : String) (provider : Option Provider)
    (s : Store) : Store :=
  ((Effect.start s key provider).complete c key w).finished key now

section Done

variable (hpaths : (w.components.map (·.1.filePath)).Nodup)
include hpaths

/-- After a run that nothing stands in the way of nothing stands in the way of the next one. -/
theorem free_again (hs : s.Anchored) (hfree : Free s key) :
    Free (w.done c key now provider s) key where
  writable := (Effect.complete_access w (.start s key provider)).1.trans hfree.writable
  unheld := by
    rintro ⟨r, hr, y, hy, hproject, hid⟩
    obtain ⟨hr, hkey⟩ := List.mem_filter.1 hr
    rcases mem_finished_symbols hpaths hy with ⟨hold, -⟩ | ⟨r', hr', href, hwith⟩
    · obtain ⟨r', hr', href, hother⟩ := hs.of_other hfree.unheld hold hproject
      obtain rfl := Table.eq_of_id_eq _ (mem_finished_chunks hpaths hr' hother) hr (href.trans hid)
      exact hother (beq_iff_eq.1 hkey)
    · obtain rfl := Table.eq_of_id_eq _ hr' hr (href.trans hid)
      exact hproject (hwith.project.symm.trans (beq_iff_eq.1 hkey))
  indexed := rfl

theorem finished_chunks_idle (hquiet : (Embedder.start provider).active = false) :
    (w.done c key now provider s).chunks =
      (s.chunks.keep (·.project != key)).insertAll ((w.chunks c).map (.ofChunk key · none)) := by
  rw [finished_chunks provider now hpaths, chunkRows_idle hquiet]

theorem finished_components_idle (hquiet : (Embedder.start provider).active = false) :
    (w.done c key now provider s).components =
      (s.components.keep (·.project != key)).insertAll
        (w.components.map fun file => ⟨key, file.1, none⟩) := by
  rw [finished_components provider now hpaths, afterChunks_idle hquiet, componentRows_idle hquiet]

theorem shown_other (hs : s.Anchored) (hfree : Free s key) {y : SymbolRow}
    (hy : y ∈ s.symbols.toList) (hother : y.project ≠ key) :
    (w.done c key now provider s).shown y = s.shown y := by
  obtain ⟨r, hr, href, hchunk⟩ := hs.of_other hfree.unheld hy hother
  rw [shown_of_refersTo hr href, shown_of_refersTo (mem_finished_chunks hpaths hr hchunk) href]

theorem map_shown_newSymbols :
    (symbolRows key s.chunks.next (w.chunks c)).map (w.done c key now provider s).shown =
      (w.chunks c).flatMap fun chunk => chunk.symbols.map fun name => (.ofChunk key name chunk 0,
        some (chunk.content.toList.take Store.symbolPreviewChars)) :=
  map_shown_symbolRows (e := .start provider) fun r hr => by
    rw [finished_chunks provider now hpaths, Table.rows_insertAll]
    exact List.mem_append_right _ hr

theorem alike_again (hs : s.Anchored) (hfree : Free s key)
    (hquiet : (Embedder.start provider).active = false)
    (hquiet' : (Embedder.start provider').active = false) :
    Alike (w.done c key now' provider' (w.done c key now provider s))
      (w.done c key now provider s) where
  chunks := by
    refine toList_again (fun r hr => ?_) (finished_chunks_idle hpaths hquiet)
      (finished_chunks_idle hpaths hquiet')
    obtain ⟨chunk, -, rfl⟩ := List.mem_map.1 hr
    rfl
  symbols := by
    have hanchored : (w.done c key now provider s).Anchored := anchored_finished hpaths hs hfree
    refine map_toList_again (fun _ => project_symbolRows) (finished_symbols provider now hpaths)
      (finished_symbols provider' now' hpaths) (fun y hy hother => ?_) ?_
    · exact shown_other hpaths hanchored (free_again hpaths hs hfree) hy hother
    · rw [map_shown_newSymbols hpaths, map_shown_newSymbols hpaths]
  components := by
    refine toList_again (fun r hr => ?_) (finished_components_idle hpaths hquiet)
      (finished_components_idle hpaths hquiet')
    obtain ⟨file, -, rfl⟩ := List.mem_map.1 hr
    rfl

end Done

/-! ## What is counted -/

theorem unpruned_stats_again (hquiet : (Embedder.start provider).active = false)
    (hquiet' : (Embedder.start provider').active = false) (s s' : Store) :
    (unpruned c key s' provider' w).stats = (unpruned c key s provider w).stats := by
  rw [unpruned_stats, unpruned_stats, chunkRows_idle hquiet, chunkRows_idle hquiet',
    afterChunks_idle hquiet, afterChunks_idle hquiet', componentRows_idle hquiet,
    componentRows_idle hquiet']

theorem prunedFiles_again (hnodup : w.paths.Nodup) :
    ((Effect.start (w.done c key now provider s) key provider').complete c key w).stats.prunedFiles =
      0 := by
  rw [finished_prunedFiles provider' hnodup]
  split
  · rename_i hpruned
    rw [finished_files provider now hnodup, List.length_eq_zero_iff, List.filter_eq_nil_iff]
    intro r hr
    rw [decide_eq_true_eq, not_not]
    rcases List.mem_append.1 hr with hr | hr
    · have hstays := of_decide_eq_true (List.mem_filter.1 hr).2
      exact ((stays_iff hnodup _).1 hstays).2 hpruned
    · exact filePath_mem_paths hr
  · rfl

/-- A run without vectors and another such run count the same, but for the files that were gone. -/
theorem stats_again (hnodup : w.paths.Nodup) (hquiet : (Embedder.start provider).active = false)
    (hquiet' : (Embedder.start provider').active = false) :
    ((Effect.start (w.done c key now provider s) key provider').complete c key w).stats =
      { ((Effect.start s key provider).complete c key w).stats with prunedFiles := 0 } := by
  have hpruned : ((Effect.start (w.done c key now provider s) key provider').complete c key
      w).stats.prunedFiles = 0 := prunedFiles_again hnodup
  rw [complete_stats] at hpruned
  rw [complete_stats, complete_stats, unpruned_stats_again hquiet hquiet' s]
  exact congrArg (fun n => { (unpruned c key s provider w).stats with prunedFiles := n }) hpruned

/-! ## Runs -/

/-- **A second run is not to be seen.** After a run without vectors has succeeded, another one over the
same files succeeds and counts the same, but for the files that were gone before. Every search in every
project, for a name, a text or a vector and with every limit, finds the same before it and after it,
symbols in whatever orders their tables are read out; and yet no row of the project has a number that it
had before. The index is any in which the chunks of all symbols are there, as they are after every
history. -/
theorem run_again_is_invisible {β : Type} {project : Project β} {stats : SyncStats} (hs : s.Anchored)
    (hquiet : provider.any (·.available) = false)
    (h : (run project c key now provider s).outcome = .ok stats) (now' : String)
    (provider' : Option Provider) (hquiet' : provider'.any (·.available) = false) :
    let once := (run project c key now provider s).store
    let again := run project c key now' provider' once
    again.outcome = .ok { stats with prunedFiles := 0 } ∧
    (∀ other : String,
      (∀ e text limit,
        again.store.symbolSearch e other text limit = once.symbolSearch e other text limit) ∧
      (∀ e e' text limit, limit < 2 ^ 63 ∨ once.symbols.last < 2 ^ 63 →
        (once.symbolSearch e other text limit).Perm (again.store.symbolSearch e' other text limit)) ∧
      (∀ (α : Type) [Score α] (text : String) (limit : Nat),
        again.store.textSearch α other text limit = once.textSearch α other text limit) ∧
      ∀ nan vector limit,
        again.store.similar nan other vector limit = once.similar nan other vector limit) ∧
    (∀ r ∈ once.chunks.select (·.project == key), again.store.chunks.find? r.id = none) ∧
    (∀ r ∈ once.symbols.select (·.project == key), again.store.symbols.find? r.id = none) ∧
    ∀ r ∈ once.components.select (·.project == key), again.store.components.find? r.id = none := by
  obtain ⟨w, hwork, hfree, -⟩ := run_ok h
  have hpaths := work_components_nodup hwork
  have hnodup := work_paths_nodup hwork
  have hfree' : Free (w.done c key now provider s) key := free_again hpaths hs hfree
  rw [run_free hwork hfree] at h ⊢
  cases h
  intro once again
  have hagain : again = _ := run_free hwork hfree'
  have halike : Alike again.store once := by
    rw [hagain]
    exact alike_again hpaths hs hfree hquiet hquiet'
  have hreplaced : Replaced key (w.chunks c) (w.components.map (·.1)) once again.store := by
    rw [hagain]
    exact replaced_finished provider' now' hpaths
  refine ⟨?_, fun other => ⟨fun e text limit => ?_, fun e e' text limit hrows => ?_,
    fun α _ text limit => ?_, fun nan vector limit => ?_⟩,
    hreplaced.oldChunks, hreplaced.oldSymbols, hreplaced.oldComponents⟩
  · rw [hagain]
    exact congrArg Except.ok (stats_again hnodup hquiet hquiet')
  · simp only [Store.symbolSearch, Store.symbolTable_congr (halike.shownByName other)]
  · exact Store.symbolSearch_perm_congr (halike.shownByName other).symm e e' text hrows
  · exact halike.textSearch other α (by rw [hagain]; rfl) rfl text limit
  · exact Store.similar_congr (by rw [halike.chunks]) (by rw [halike.components]) nan vector limit

/-- The chunk of the class has another number, and the class is found as before. -/
theorem run_again_is_invisible_sample :
    let once := (run Sample.classes Sample.classesConfig "shop" "now" none .created).store
    let again := run Sample.classes Sample.classesConfig "shop" "later" none once
    (∃ stats, again.outcome = .ok stats ∧ stats.prunedFiles = 0) ∧
      again.store.symbolSearch .asFound "shop" "A" 5 = once.symbolSearch .asFound "shop" "A" 5 ∧
      (once.symbolSearch .asFound "shop" "A" 5).map (·.filePath) = ["a.ts"] ∧
      (once.chunks.find? 1).isSome ∧ again.store.chunks.find? 1 = none := by
  intro once again
  obtain ⟨w, hwork⟩ : ∃ w, work Sample.classes Sample.classesConfig = .ok w := ⟨_, rfl⟩
  have hfree : Free .created "shop" := free_of_no_symbols rfl rfl rfl
  have h : (run Sample.classes Sample.classesConfig "shop" "now" none .created).outcome = .ok _ :=
    congrArg Report.outcome (run_free hwork hfree)
  obtain ⟨houtcome, hsearches, hchunks, -⟩ :=
    run_again_is_invisible (anchored_of_history .created) rfl h "later" none rfl
  have hfirst : once.chunks.rows.map (fun r => (r.id, r.row.project)) = [(1, "shop")] := by
    decide +kernel
  obtain ⟨r, hr, hplace⟩ := List.mem_map.1 (hfirst ▸ List.mem_singleton_self _)
  obtain ⟨hid, hproject⟩ := Prod.mk.inj hplace
  have hgone := hchunks r (List.mem_filter.2 ⟨hr, beq_iff_eq.2 hproject⟩)
  have hthere : once.chunks.find? r.id = some r.row := Table.find?_eq_some_iff.2 hr
  rw [hid] at hgone hthere
  exact ⟨⟨_, houtcome, rfl⟩, (hsearches "shop").1 _ _ _, by decide +kernel, by rw [hthere]; rfl,
    hgone⟩

end Sync

end CodeIndex
