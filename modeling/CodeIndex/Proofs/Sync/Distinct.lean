import CodeIndex.Proofs.Source.Chunk
import CodeIndex.Proofs.Sync.Rows
import CodeIndex.Search.Row

/-!
Chunks are told apart by file and line.

In an index that has only been changed by runs, no two chunks of a project start on one line of a file,
and no two symbols of one name do. So hits for chunks at one location are hits for one chunk.

* `workChunks_nodup`: the chunks of a project have different places, since its files have different
  paths and the chunks of a file start on different lines;
* `Store.Distinct` is the invariant and `run_distinct` that a run keeps it;
* `reached_distinct` is that for every index that runs lead to.
-/
namespace CodeIndex

/-! ## Chunks of a project -/

/-- Where a chunk stands. -/
def Chunk.place (c : Chunk) : String × Nat := (c.filePath, c.firstLine)

namespace Sync

variable {β : Type} {project : Project β} {c : SyncConfig} {key : String}

theorem filePath_of_mem_fileChunks {relative : String} {text : Option String} {chunk : Chunk}
    (h : chunk ∈ fileChunks c (relative, text)) :
    chunk.filePath = Path.key relative ∧ chunk.symbols.Nodup := by
  cases text with
  | none => cases h
  | some text => exact Chunk.inFile_ofFile _ _ _ chunk h

theorem fileChunks_nodup (file : String × Option String) :
    ((fileChunks c file).map Chunk.place).Nodup := by
  obtain ⟨relative, text⟩ := file
  cases text with
  | none => exact List.nodup_nil
  | some text =>
    refine List.Nodup.of_map Prod.snd ?_
    rw [List.map_map]
    exact Chunk.ofFile_nodup c.chunkLimits relative text

/-- The chunks of a project have different places. -/
theorem workChunks_nodup {w : Work} (h : work project c = .ok w) :
    ((w.chunks c).map Chunk.place).Nodup := by
  obtain ⟨files, components, hfiles, -, hw, -⟩ := work_ok h
  rw [Work.chunks, hw, List.map_flatMap, List.flatMap_map]
  refine List.nodup_flatMap.2 ⟨fun d _ => fileChunks_nodup _, ?_⟩
  refine (List.pairwise_map.1 (Project.files_nodup hfiles)).imp_of_mem fun {d d'} hd hd' hne => ?_
  intro place hplace hplace'
  obtain ⟨chunk, hchunk, rfl⟩ := List.mem_map.1 hplace
  obtain ⟨chunk', hchunk', heq⟩ := List.mem_map.1 hplace'
  have hpath := congrArg Prod.fst heq
  simp only [Chunk.place, (filePath_of_mem_fileChunks hchunk).1,
    (filePath_of_mem_fileChunks hchunk').1, Project.files_key hfiles d hd,
    Project.files_key hfiles d' hd'] at hpath
  exact hne hpath.symm

theorem symbols_nodup_of_mem {w : Work} {chunk : Chunk} (h : chunk ∈ w.chunks c) :
    chunk.symbols.Nodup := by
  obtain ⟨⟨relative, text⟩, -, hchunk⟩ := List.mem_flatMap.1 h
  exact (filePath_of_mem_fileChunks hchunk).2

/-! ## Rows -/

/-- What tells the chunks of an index apart. -/
def chunkKey (r : ChunkRow) : String × String × Nat := (r.project, r.filePath, r.firstLine)

/-- What tells the symbols of an index apart. -/
def symbolKey (r : SymbolRow) : String × String × String × Nat :=
  (r.project, r.name, r.filePath, r.firstLine)

theorem map_chunkKey_chunkRows (e : Embedder) (chunks : List Chunk) :
    (chunkRows c key e chunks).map chunkKey = chunks.map fun x => (key, x.place) := by
  induction chunks generalizing e with
  | nil => rfl
  | cons chunk chunks ih =>
    rw [chunkRows, List.map_cons, List.map_cons, ih]
    rfl

theorem map_symbolKey_symbolRows (first : Nat) (chunks : List Chunk) :
    (symbolRows key first chunks).map symbolKey =
      chunks.flatMap fun x => x.symbols.map fun name => (key, name, x.place) := by
  induction chunks generalizing first with
  | nil => rfl
  | cons chunk chunks ih =>
    rw [symbolRows_cons, List.map_append, ih, List.map_map, List.flatMap_cons]
    rfl

theorem chunkRows_nodup {chunks : List Chunk} (h : (chunks.map Chunk.place).Nodup)
    (e : Embedder) : ((chunkRows c key e chunks).map chunkKey).Nodup := by
  rw [map_chunkKey_chunkRows]
  refine List.Nodup.of_map Prod.snd ?_
  rwa [List.map_map]

theorem symbolRows_nodup {chunks : List Chunk} (h : (chunks.map Chunk.place).Nodup)
    (hsymbols : ∀ chunk ∈ chunks, chunk.symbols.Nodup) (first : Nat) :
    ((symbolRows key first chunks).map symbolKey).Nodup := by
  rw [map_symbolKey_symbolRows]
  refine List.nodup_flatMap.2 ⟨fun chunk hchunk => ?_, ?_⟩
  · refine List.Nodup.of_map (fun x : String × String × String × Nat => x.2.1) ?_
    rw [List.map_map]
    change (chunk.symbols.map id).Nodup
    rw [List.map_id]
    exact hsymbols chunk hchunk
  · refine (List.pairwise_map.1 h).imp fun hne x hx hx' => hne ?_
    obtain ⟨name, -, rfl⟩ := List.mem_map.1 hx
    obtain ⟨name', -, heq⟩ := List.mem_map.1 hx'
    exact (congrArg (fun x => x.2.2) heq).symm

end Sync

/-! ## Indexes -/

/-- No two chunks of a project start on one line of a file, and no two symbols of one name do. -/
structure Store.Distinct (s : Store) : Prop where
  chunks : s.chunks.UniqueBy Sync.chunkKey
  symbols : s.symbols.UniqueBy Sync.symbolKey

namespace Sync

variable {β : Type} {project : Project β} {c : SyncConfig} {key now : String}
  {provider : Option Provider} {s : Store}

/-- **A run keeps chunks apart**, whether it succeeds or not. -/
theorem run_distinct (project : Project β) (c : SyncConfig) (key now : String)
    (provider : Option Provider) (h : s.Distinct) :
    (run project c key now provider s).store.Distinct := by
  rcases run_cases project c s key with ⟨failure, hblocked⟩ | ⟨w, hwork, hfree⟩
  · rw [(run_blocked hblocked).2]
    exact h
  · have hpaths := work_components_nodup hwork
    have hplaces := workChunks_nodup hwork
    rw [run_free hwork hfree]
    refine ⟨?_, ?_⟩
    · simp only [finished_chunks provider now hpaths]
      refine Table.uniqueBy_replaced h.chunks (chunkRows_nodup hplaces _) fun a ha b hb heq => ?_
      have hproject : a.project = b.project := congrArg Prod.fst heq
      rw [project_chunkRows hb] at hproject
      simp [hproject] at ha
    · simp only [finished_symbols provider now hpaths]
      refine Table.uniqueBy_replaced h.symbols
        (symbolRows_nodup hplaces (fun _ => symbols_nodup_of_mem) _) fun a ha b hb heq => ?_
      have hproject : a.project = b.project := congrArg Prod.fst heq
      rw [project_symbolRows hb] at hproject
      simp [hproject] at ha

/-- The indexes that runs lead to from one without chunks and symbols. -/
inductive Reached : Store → Prop
  | start {s : Store} (hchunks : s.chunks.rows = []) (hsymbols : s.symbols.rows = []) : Reached s
  | run {s : Store} {β : Type} (project : Project β) (c : SyncConfig) (key now : String)
    (provider : Option Provider) (h : Reached s) :
    Reached (run project c key now provider s).store

theorem distinct_of_reached (h : Reached s) : s.Distinct := by
  induction h with
  | start hchunks hsymbols =>
    refine ⟨fun a ha => ?_, fun a ha => ?_⟩
    · rw [hchunks] at ha
      cases ha
    · rw [hsymbols] at ha
      cases ha
  | run project c key now provider _ ih => exact run_distinct project c key now provider ih

/-- **Chunks are told apart by file and line.** Whatever runs have led to an index, of whichever
projects and in whichever order, no two chunks of a project start on one line of a file, no two symbols
of one name do, and hits for chunks of a project at one location are hits for one chunk. -/
theorem reached_distinct (h : Reached s) :
    (∀ a ∈ s.chunks.rows, ∀ b ∈ s.chunks.rows, a.row.project = b.row.project →
      a.row.filePath = b.row.filePath → a.row.firstLine = b.row.firstLine → a = b) ∧
    (∀ a ∈ s.symbols.rows, ∀ b ∈ s.symbols.rows, a.row.project = b.row.project →
      a.row.name = b.row.name → a.row.filePath = b.row.filePath →
      a.row.firstLine = b.row.firstLine → a = b) ∧
    ∀ project, ∀ a ∈ s.chunks.select (·.project == project),
      ∀ b ∈ s.chunks.select (·.project == project), ∀ p p' x x' m m',
      (a.row.hit p x m).location = (b.row.hit p' x' m').location → a = b := by
  obtain ⟨hchunks, hsymbols⟩ := distinct_of_reached h
  refine ⟨fun a ha b hb hproject hpath hline => ?_,
    fun a ha b hb hproject hname hpath hline => ?_, ?_⟩
  · exact hchunks a ha b hb (by rw [chunkKey, hproject, hpath, hline]; rfl)
  · exact hsymbols a ha b hb (by rw [symbolKey, hproject, hname, hpath, hline]; rfl)
  · intro project a ha b hb p p' x x' m m' hlocation
    obtain ⟨ha, hpa⟩ := List.mem_filter.1 ha
    obtain ⟨hb, hpb⟩ := List.mem_filter.1 hb
    simp only [beq_iff_eq] at hpa hpb
    simp only [Hit.location, ChunkRow.hit, Prod.mk.injEq, Option.some.injEq] at hlocation
    exact hchunks a ha b hb (by rw [chunkKey, chunkKey, hpa, hpb, hlocation.1, hlocation.2])

namespace Sample

/-- The index after two runs over the project, by way of one for another project with the same files. -/
def shopTwice : Store :=
  let once := (run shop shopConfig "shop" "now" (some steady) .created).store
  let mirrored := (run shop shopConfig "mirror" "now" none once).store
  (run shop shopConfig "shop" "later" (some steady) mirrored).store

end Sample

/-- Both projects have chunks on the first lines of both files, and within each project they are apart, with
their symbols. -/
theorem reached_distinct_sample :
    Sample.shopTwice.chunks.rows.map (fun r => (r.row.project, r.row.filePath, r.row.firstLine)) =
        [("mirror", "a.ts", 1), ("mirror", "b.ts", 1), ("shop", "a.ts", 1), ("shop", "b.ts", 1)] ∧
      (∀ a ∈ Sample.shopTwice.chunks.rows, ∀ b ∈ Sample.shopTwice.chunks.rows,
        a.row.project = b.row.project → a.row.filePath = b.row.filePath →
        a.row.firstLine = b.row.firstLine → a = b) ∧
      ∀ a ∈ Sample.shopTwice.symbols.rows, ∀ b ∈ Sample.shopTwice.symbols.rows,
        a.row.project = b.row.project → a.row.name = b.row.name → a.row.filePath = b.row.filePath →
        a.row.firstLine = b.row.firstLine → a = b := by
  have hreached : Reached Sample.shopTwice :=
    .run _ _ _ _ _ (.run _ _ _ _ _ (.run _ _ _ _ _ (.start rfl rfl)))
  obtain ⟨hchunks, hsymbols, -⟩ := reached_distinct hreached
  exact ⟨by decide +kernel, hchunks, hsymbols⟩

end Sync

end CodeIndex
