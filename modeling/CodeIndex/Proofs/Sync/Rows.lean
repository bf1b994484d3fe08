import CodeIndex.Proofs.Project.Discovery
import CodeIndex.Proofs.Store.Table
import CodeIndex.Proofs.Sync.Outcome

/-!
The rows that a run leaves.

* `Work.chunks` are the chunks of the files that can be read, in order; `chunkRows`, `symbolRows` and
  `componentRows` are the rows made of them, with what the provider gives;
* `withFiles_eq` and `withComponents_eq` say what the steps of a run make of the tables, and
  `complete_store` what they make of the index;
* `Replaced` says that the rows of a project have been replaced by new ones, and
  `run_replaces_rows` that a run does so.
-/
namespace CodeIndex

/-- The row of a chunk without its vector. -/
def ChunkRow.bare (r : ChunkRow) : ChunkRow := { r with embedding := none }

theorem ChunkRow.bare_ofChunk (project : String) (c : Chunk) (embedding : Option Embedding) :
    (ofChunk project c embedding).bare = ofChunk project c none := by
  simp only [bare, ofChunk, Option.map_none]

/-- The row of a component without its vector. -/
def ComponentRow.bare (r : ComponentRow) : ComponentRow := { r with embedding := none }

namespace Sync

/-! ## Rows -/

/-- The chunks of a file, if it can be read. -/
def fileChunks (c : SyncConfig) (file : String × Option String) : List Chunk :=
  match file.2 with
  | none => []
  | some text => Chunk.ofFile c.chunkLimits file.1 text

/-- The chunks of the files that can be read, in order. -/
def Work.chunks (w : Work) (c : SyncConfig) : List Chunk := w.files.flatMap (fileChunks c)

/-- The rows of chunks, with what is embedded one after another. -/
def chunkRows (c : SyncConfig) (key : String) : Embedder → List Chunk → List ChunkRow
  | _, [] => []
  | e, chunk :: rest =>
    let r := e.embed (Embedder.labelled (chunkLabel chunk) chunk.content c.embedChars)
    .ofChunk key chunk r.1 :: chunkRows c key r.2 rest

/-- The embedder after chunks. -/
def afterChunks (c : SyncConfig) : Embedder → List Chunk → Embedder :=
  List.foldl fun e chunk =>
    (e.embed (Embedder.labelled (chunkLabel chunk) chunk.content c.embedChars)).2

/-- The rows of the names that chunks declare, when the chunks are numbered from `first` on. -/
def symbolRows (key : String) (first : Nat) (chunks : List Chunk) : List SymbolRow :=
  (chunks.zipIdx first).flatMap fun (chunk, id) =>
    chunk.symbols.map fun name => .ofChunk key name chunk id

/-- The rows of components, with what is embedded one after another. -/
def componentRows (c : SyncConfig) (key : String) :
    Embedder → List (Component × Option String) → List ComponentRow
  | _, [] => []
  | e, file :: rest =>
    let r := Effect.componentEmbedding c e file
    ⟨key, file.1, r.1.map StoredVector.ofEmbedding⟩ :: componentRows c key r.2 rest

variable {c : SyncConfig} {key : String}

theorem chunkRows_append (e : Embedder) (chunks more : List Chunk) :
    chunkRows c key e (chunks ++ more) =
      chunkRows c key e chunks ++ chunkRows c key (afterChunks c e chunks) more := by
  induction chunks generalizing e with
  | nil => rfl
  | cons chunk chunks ih =>
    simp only [List.cons_append, chunkRows, ih]
    rfl

@[simp] theorem length_chunkRows (e : Embedder) (chunks : List Chunk) :
    (chunkRows c key e chunks).length = chunks.length := by
  induction chunks generalizing e with
  | nil => rfl
  | cons chunk chunks ih => simp [chunkRows, ih]

/-- Without the vectors the rows of chunks do not depend on the provider. -/
theorem map_bare_chunkRows (e : Embedder) (chunks : List Chunk) :
    (chunkRows c key e chunks).map ChunkRow.bare = chunks.map (ChunkRow.ofChunk key · none) := by
  induction chunks generalizing e with
  | nil => rfl
  | cons chunk chunks ih =>
    rw [chunkRows, List.map_cons, List.map_cons, ih, ChunkRow.bare_ofChunk]

/-- Without the vectors the rows of components do not depend on the provider. -/
theorem map_bare_componentRows (e : Embedder) (files : List (Component × Option String)) :
    (componentRows c key e files).map ComponentRow.bare =
      files.map fun file => ⟨key, file.1, none⟩ := by
  induction files generalizing e with
  | nil => rfl
  | cons file files ih =>
    rw [componentRows, List.map_cons, List.map_cons, ih]
    rfl

@[simp] theorem length_componentRows (e : Embedder) (files : List (Component × Option String)) :
    (componentRows c key e files).length = files.length := by
  induction files generalizing e with
  | nil => rfl
  | cons file files ih => simp [componentRows, ih]

theorem project_chunkRows {e : Embedder} {chunks : List Chunk} {r : ChunkRow}
    (h : r ∈ chunkRows c key e chunks) : r.project = key := by
  obtain ⟨chunk, -, hbare⟩ := List.mem_map.1
    (map_bare_chunkRows e chunks ▸ List.mem_map_of_mem (f := ChunkRow.bare) h)
  exact (congrArg ChunkRow.project hbare).symm

theorem project_symbolRows {first : Nat} {chunks : List Chunk} {r : SymbolRow}
    (h : r ∈ symbolRows key first chunks) : r.project = key := by
  obtain ⟨x, -, hx⟩ := List.mem_flatMap.1 h
  obtain ⟨name, -, rfl⟩ := List.mem_map.1 hx
  rfl

theorem project_componentRows {e : Embedder} {files : List (Component × Option String)}
    {r : ComponentRow} (h : r ∈ componentRows c key e files) : r.project = key := by
  obtain ⟨file, -, hbare⟩ := List.mem_map.1
    (map_bare_componentRows e files ▸ List.mem_map_of_mem (f := ComponentRow.bare) h)
  exact (congrArg ComponentRow.project hbare).symm

theorem symbolRows_cons (first : Nat) (chunk : Chunk) (chunks : List Chunk) :
    symbolRows key first (chunk :: chunks) =
      chunk.symbols.map (.ofChunk key · chunk first) ++ symbolRows key (first + 1) chunks := rfl

theorem symbolRows_append (first : Nat) (chunks more : List Chunk) :
    symbolRows key first (chunks ++ more) =
      symbolRows key first chunks ++ symbolRows key (first + chunks.length) more := by
  simp [symbolRows, List.zipIdx_append, List.flatMap_append]

/-! ## What the steps make of the tables -/

theorem withSymbols_eq (chunk : Chunk) (id : Nat) (names : List String) (e : Effect) :
    (names.foldl (Effect.withSymbol key chunk id) e).store =
        { e.store with
          symbols := e.store.symbols.insertAll (names.map (.ofChunk key · chunk id)) } ∧
      (names.foldl (Effect.withSymbol key chunk id) e).embedder = e.embedder := by
  induction names generalizing e with
  | nil => exact ⟨rfl, rfl⟩
  | cons name names ih =>
    obtain ⟨hstore, hembedder⟩ := ih (e.withSymbol key chunk id name)
    exact ⟨hstore, hembedder⟩

theorem withChunk_eq (key : String) (chunk : Chunk) (e : Effect) :
    let r := e.embedder.embed (Embedder.labelled (chunkLabel chunk) chunk.content c.embedChars)
    (e.withChunk c key chunk).store =
        { e.store with
          chunks := e.store.chunks.insert (.ofChunk key chunk r.1)
          symbols := e.store.symbols.insertAll
            (chunk.symbols.map (.ofChunk key · chunk e.store.chunks.next)) } ∧
      (e.withChunk c key chunk).embedder = r.2 :=
  withSymbols_eq chunk e.store.chunks.next chunk.symbols _

/-- Chunks go into the table of chunks, and what they declare into that of symbols, with the number
that the chunk has been given. -/
theorem withChunks_eq (key : String) (chunks : List Chunk) (e : Effect) :
    (chunks.foldl (Effect.withChunk c key) e).store =
        { e.store with
          chunks := e.store.chunks.insertAll (chunkRows c key e.embedder chunks)
          symbols := e.store.symbols.insertAll (symbolRows key e.store.chunks.next chunks) } ∧
      (chunks.foldl (Effect.withChunk c key) e).embedder = afterChunks c e.embedder chunks := by
  induction chunks generalizing e with
  | nil => exact ⟨rfl, rfl⟩
  | cons chunk chunks ih =>
    obtain ⟨hstore, hembedder⟩ := ih (e.withChunk c key chunk)
    obtain ⟨hone, hafter⟩ := withChunk_eq (c := c) key chunk e
    rw [hone, hafter] at hstore
    rw [hafter] at hembedder
    refine ⟨?_, hembedder⟩
    rw [List.foldl_cons, hstore, symbolRows_cons, Table.insertAll_append]
    rfl

theorem withFile_eq (key : String) (file : String × Option String) (e : Effect) :
    (e.withFile c key file).store =
        { e.store with
          chunks := e.store.chunks.insertAll (chunkRows c key e.embedder (fileChunks c file))
          symbols := e.store.symbols.insertAll
            (symbolRows key e.store.chunks.next (fileChunks c file))
          files := (e.withFile c key file).store.files } ∧
      (e.withFile c key file).embedder = afterChunks c e.embedder (fileChunks c file) := by
  obtain ⟨relative, text⟩ := file
  cases text with
  | none => exact ⟨rfl, rfl⟩
  | some text =>
    obtain ⟨hstore, hembedder⟩ := withChunks_eq (c := c) key
      (Chunk.ofFile c.chunkLimits relative text)
      (((e.withAnnounced relative).withStore
        (e.store.putFile key (fileRecord relative text))).counted fun n =>
          { n with files := n.files + 1 })
    have hfiles := congrArg Store.files hstore
    change (e.withFile c key (relative, some text)).store.files =
      (e.store.putFile key (fileRecord relative text)).files at hfiles
    rw [hfiles]
    exact ⟨hstore, hembedder⟩

/-- Files have their chunks one after another, and records. -/
theorem withFiles_eq (key : String) (files : List (String × Option String)) (e : Effect) :
    (files.foldl (Effect.withFile c key) e).store =
        { e.store with
          chunks := e.store.chunks.insertAll
            (chunkRows c key e.embedder (files.flatMap (fileChunks c)))
          symbols := e.store.symbols.insertAll
            (symbolRows key e.store.chunks.next (files.flatMap (fileChunks c)))
          files := (files.foldl (Effect.withFile c key) e).store.files } ∧
      (files.foldl (Effect.withFile c key) e).embedder =
        afterChunks c e.embedder (files.flatMap (fileChunks c)) := by
  induction files generalizing e with
  | nil => exact ⟨rfl, rfl⟩
  | cons file files ih =>
    obtain ⟨hstore, hembedder⟩ := ih (e.withFile c key file)
    obtain ⟨hone, hafter⟩ := withFile_eq (c := c) key file e
    rw [hone, hafter] at hstore
    rw [hafter] at hembedder
    refine ⟨?_, ?_⟩
    · rw [List.foldl_cons, hstore]
      simp only [List.flatMap_cons, chunkRows_append, symbolRows_append, Table.insertAll_append,
        Table.next_insertAll, length_chunkRows]
    · rw [List.foldl_cons, hembedder, List.flatMap_cons, afterChunks, List.foldl_append]

theorem withComponent_eq (key : String) (file : Component × Option String) (e : Effect)
    (hfresh : ∀ r ∈ e.store.components.rows, r.row.isFor key file.1.filePath = false) :
    let r := Effect.componentEmbedding c e.embedder file
    (e.withComponent c key file).store =
        { e.store with
          components := e.store.components.insert
            ⟨key, file.1, r.1.map StoredVector.ofEmbedding⟩ } ∧
      (e.withComponent c key file).embedder = r.2 := by
  have hkeep : e.store.components.keep (fun r => !r.isFor key file.1.filePath) =
      e.store.components := Table.keep_eq_self fun r hr => by rw [hfresh r hr]; rfl
  refine ⟨?_, rfl⟩
  change e.store.putComponent key file.1 (Effect.componentEmbedding c e.embedder file).1 = _
  rw [Store.putComponent, hkeep]

/-- Components with different paths, none of which is there, go into the table one after another. -/
theorem withComponents_eq (key : String) (files : List (Component × Option String)) (e : Effect)
    (hnodup : (files.map (·.1.filePath)).Nodup)
    (hfresh : ∀ file ∈ files, ∀ r ∈ e.store.components.rows,
      r.row.isFor key file.1.filePath = false) :
    (files.foldl (Effect.withComponent c key) e).store =
      { e.store with
        components := e.store.components.insertAll (componentRows c key e.embedder files) } := by
  induction files generalizing e with
  | nil => rfl
  | cons file files ih =>
    rw [List.map_cons, List.nodup_cons] at hnodup
    obtain ⟨hone, hafter⟩ := withComponent_eq (c := c) key file e
      (hfresh file List.mem_cons_self)
    have hstore := ih (e.withComponent c key file) hnodup.2 fun other hother r hr => by
      rw [hone] at hr
      rcases List.mem_append.1 hr with hr | hr
      · exact hfresh other (List.mem_cons_of_mem _ hother) r hr
      · rw [List.mem_singleton.1 hr]
        have hne : file.1.filePath ≠ other.1.filePath := fun heq =>
          hnodup.1 (heq ▸ List.mem_map_of_mem (f := fun x => x.1.filePath) hother)
        simp [ComponentRow.isFor, hne]
    rw [hone, hafter] at hstore
    rw [List.foldl_cons, hstore]
    rfl

/-- All there is to do replaces the old rows of the project; only the records of files depend on what
there was before. -/
theorem complete_store (key : String) (s : Store) {w : Work} (provider : Option Provider)
    (hnodup : (w.components.map (·.1.filePath)).Nodup) :
    let start : Effect := .start s key provider
    (start.complete c key w).store =
      { s.cleared key with
        chunks := (s.cleared key).chunks.insertAll (chunkRows c key start.embedder (w.chunks c))
        symbols := (s.cleared key).symbols.insertAll (symbolRows key s.chunks.next (w.chunks c))
        components := (s.cleared key).components.insertAll
          (componentRows c key (afterChunks c start.embedder (w.chunks c)) w.components)
        files := (start.complete c key w).store.files } := by
  intro start
  have hpruned : ∀ e : Effect, (e.pruned c key w).store =
      { e.store with files := (e.pruned c key w).store.files } := by
    intro e
    unfold Effect.pruned
    split <;> rfl
  obtain ⟨hfiles, hembedder⟩ := withFiles_eq (c := c) key w.files start
  have hcomponents := withComponents_eq (c := c) key w.components
    (w.files.foldl (Effect.withFile c key) start) hnodup fun file _ r hr => by
      rw [hfiles] at hr
      have hother := (List.mem_filter.1 hr).2
      have hne : r.row.project ≠ key := by simpa using hother
      simp [ComponentRow.isFor, hne]
  rw [hembedder, hfiles] at hcomponents
  have h := hpruned (w.components.foldl (Effect.withComponent c key)
    (w.files.foldl (Effect.withFile c key) start))
  rw [hcomponents] at h
  exact h

/-! ## Runs -/

/-- The rows of a project have been replaced by those of chunks and components, apart from the vectors.
All rows are new, and the names that a chunk declares refer to it. -/
structure Replaced (key : String) (chunks : List Chunk) (components : List Component)
    (s s' : Store) : Prop where
  newChunks : (s'.chunks.select (·.project == key)).map (Numbered.map ChunkRow.bare) =
    numbered s.chunks.next (chunks.map (ChunkRow.ofChunk key · none))
  newSymbols : s'.symbols.select (·.project == key) =
    numbered s.symbols.next (symbolRows key s.chunks.next chunks)
  newComponents : (s'.components.select (·.project == key)).map (Numbered.map ComponentRow.bare) =
    numbered s.components.next (components.map fun x => ⟨key, x, none⟩)
  oldChunks : ∀ r ∈ s.chunks.select (·.project == key), s'.chunks.find? r.id = none
  oldSymbols : ∀ r ∈ s.symbols.select (·.project == key), s'.symbols.find? r.id = none
  oldComponents : ∀ r ∈ s.components.select (·.project == key), s'.components.find? r.id = none

/-- A table whose rows for a project have been taken out, with new rows for the project. -/
theorem select_replaced {ρ : Type} {project : ρ → String} {t : Table ρ} {rows : List ρ}
    (hrows : ∀ r ∈ rows, project r = key) :
    ((t.keep (project · != key)).insertAll rows).select (project · == key) =
      numbered t.next rows :=
  Table.select_insertAll (fun r hr => by simpa using (List.mem_filter.1 hr).2)
    (fun r hr => by simpa using hrows r hr)

theorem filter_replaced {ρ : Type} {project : ρ → String} {t : Table ρ} {rows : List ρ}
    (hrows : ∀ r ∈ rows, project r = key) :
    ((t.keep (project · != key)).insertAll rows).toList.filter (project · == key) = rows := by
  have hselect := congrArg (List.map (·.row)) (select_replaced (t := t) hrows)
  rw [map_row_numbered] at hselect
  rw [Table.toList, List.filter_map]
  exact hselect

theorem find?_replaced {ρ : Type} (project : ρ → String) (t : Table ρ) (rows : List ρ) :
    ∀ r ∈ t.select (project · == key),
      ((t.keep (project · != key)).insertAll rows).find? r.id = none := by
  intro r hr
  obtain ⟨hmem, htest⟩ := List.mem_filter.1 hr
  exact Table.find?_removed hmem (by simpa using htest) rows

section Finished

variable {s : Store} {w : Work} (provider : Option Provider) (now : String)

theorem finished_chunks (hnodup : (w.components.map (·.1.filePath)).Nodup) :
    (((Effect.start s key provider).complete c key w).finished key now).chunks =
      (s.chunks.keep (·.project != key)).insertAll
        (chunkRows c key (.start provider) (w.chunks c)) := by
  rw [Effect.chunks_finished, complete_store key s provider hnodup]
  rfl

theorem finished_symbols (hnodup : (w.components.map (·.1.filePath)).Nodup) :
    (((Effect.start s key provider).complete c key w).finished key now).symbols =
      (s.symbols.keep (·.project != key)).insertAll
        (symbolRows key s.chunks.next (w.chunks c)) := by
  rw [Effect.symbols_finished, complete_store key s provider hnodup]
  rfl

theorem finished_components (hnodup : (w.components.map (·.1.filePath)).Nodup) :
    (((Effect.start s key provider).complete c key w).finished key now).components =
      (s.components.keep (·.project != key)).insertAll
        (componentRows c key (afterChunks c (.start provider) (w.chunks c)) w.components) := by
  rw [Effect.components_finished, complete_store key s provider hnodup]
  rfl

theorem replaced_finished (hnodup : (w.components.map (·.1.filePath)).Nodup) :
    Replaced key (w.chunks c) (w.components.map (·.1)) s
      (((Effect.start s key provider).complete c key w).finished key now) := by
  constructor
  · rw [finished_chunks provider now hnodup]
    refine (congrArg _ (select_replaced fun _ => project_chunkRows)).trans ?_
    rw [numbered_map, map_bare_chunkRows]
  · rw [finished_symbols provider now hnodup]
    exact select_replaced fun _ => project_symbolRows
  · rw [finished_components provider now hnodup]
    refine (congrArg _ (select_replaced fun _ => project_componentRows)).trans ?_
    rw [numbered_map, map_bare_componentRows, List.map_map]
    rfl
  · rw [finished_chunks provider now hnodup]
    exact find?_replaced _ _ _
  · rw [finished_symbols provider now hnodup]
    exact find?_replaced _ _ _
  · rw [finished_components provider now hnodup]
    exact find?_replaced _ _ _

end Finished

/-- The work of a project is made of its files and components. -/
theorem work_ok {β : Type} {project : Project β} {w : Work} (h : work project c = .ok w) :
    ∃ files components, project.files c = .ok files ∧ project.components c = .ok components ∧
      w.files = files.map (fun d => (d.relative, project.text? d)) ∧
      w.components = components.map fun d => (componentOf d.1.relative d.2, project.text? d.1) := by
  obtain ⟨files, hfiles, h⟩ := eq_ok_of_bind h
  obtain ⟨components, hcomponents, h⟩ := eq_ok_of_bind h
  cases h
  exact ⟨files, components, hfiles, hcomponents, rfl, rfl⟩

theorem work_components_nodup {β : Type} {project : Project β} {w : Work}
    (h : work project c = .ok w) : (w.components.map (·.1.filePath)).Nodup := by
  obtain ⟨files, components, -, hcomponents, -, hw⟩ := work_ok h
  rw [hw, List.map_map]
  exact Project.components_nodup hcomponents

theorem work_paths_nodup {β : Type} {project : Project β} {w : Work} (h : work project c = .ok w) :
    w.paths.Nodup := by
  obtain ⟨files, components, hfiles, -, hw, -⟩ := work_ok h
  rw [Work.paths, hw, List.map_map]
  exact Project.files_nodup hfiles

theorem key_of_mem_work_paths {β : Type} {project : Project β} {w : Work} (h : work project c = .ok w)
    {path : String} (hpath : path ∈ w.paths) : Path.key path = path := by
  obtain ⟨files, components, hfiles, -, hw, -⟩ := work_ok h
  rw [Work.paths, hw, List.map_map] at hpath
  obtain ⟨d, hd, rfl⟩ := List.mem_map.1 hpath
  exact Project.files_key hfiles d hd

theorem run_replaced {β : Type} {project : Project β} {now : String} {provider : Option Provider}
    {s : Store} {stats : SyncStats} (h : (run project c key now provider s).outcome = .ok stats) :
    ∃ w, work project c = .ok w ∧
      Replaced key (w.chunks c) (w.components.map (·.1)) s
        (run project c key now provider s).store := by
  obtain ⟨w, hwork, -, hstore⟩ := run_ok h
  rw [hstore]
  exact ⟨w, hwork, replaced_finished provider now (work_components_nodup hwork)⟩

/-- **A run replaces the rows of its project.** When it succeeds, the chunks are those of the files
that can be read, in the order of discovery, the symbols are those that the chunks declare and refer to
them, and the components are those discovered, one for each path. Whatever the provider does only the
vectors depend on it, and no row from before the run is left. -/
theorem run_replaces_rows {β : Type} {project : Project β} {now : String}
    {provider : Option Provider} {s : Store} {stats : SyncStats}
    (h : (run project c key now provider s).outcome = .ok stats) :
    ∃ files components,
      project.files c = .ok files ∧ (files.map (·.relative)).Nodup ∧
      project.components c = .ok components ∧ (components.map (·.1.relative)).Nodup ∧
      ∀ provider' : Option Provider,
        (∃ stats', (run project c key now provider' s).outcome = .ok stats') ∧
        Replaced key (files.flatMap fun d => fileChunks c (d.relative, project.text? d))
          (components.map fun d => componentOf d.1.relative d.2) s
          (run project c key now provider' s).store := by
  obtain ⟨w, hwork, hfree, -⟩ := run_ok h
  obtain ⟨files, components, hfiles, hcomponents, hwf, hwc⟩ := work_ok hwork
  refine ⟨files, components, hfiles, Project.files_nodup hfiles, hcomponents,
    Project.components_nodup hcomponents, fun provider' => ?_⟩
  have hchunks : w.chunks c =
      files.flatMap fun d => fileChunks c (d.relative, project.text? d) := by
    rw [Work.chunks, hwf, List.flatMap_map]
  have hnames : w.components.map (·.1) = components.map fun d => componentOf d.1.relative d.2 := by
    rw [hwc, List.map_map]
    rfl
  rw [run_free hwork hfree, ← hchunks, ← hnames]
  exact ⟨⟨_, rfl⟩, replaced_finished provider' now (work_components_nodup hwork)⟩

namespace Sample

/-- A project with a class, a function and a component. -/
def shop : Project String :=
  ⟨⟨[(["a.ts"], .file "class A \x7b\n\x7d\n"), (["b.ts"], .file "function f() \x7b\n\x7d\n"),
    (["Card.tsx"], .file "class Card \x7b\n\x7d\n")]⟩, [], some⟩

/-- A configuration that finds them. -/
def shopConfig : SyncConfig :=
  { patterns := ["a.ts", "b.ts"], componentPatterns := [⟨"Card.tsx", .component⟩],
    pruneStaleFiles := false }

/-- A provider that answers every text with one vector. -/
def steady : Provider := .scripted "m" true [] (some [⟨0x3f800000⟩]) none

/-- The files and the component of the project with their texts. -/
def shopWork : Work :=
  ⟨[("a.ts", some "class A \x7b\n\x7d\n"), ("b.ts", some "function f() \x7b\n\x7d\n")],
    [(⟨"Card", .component, "Card.tsx"⟩, some "class Card \x7b\n\x7d\n")]⟩

theorem work_shop : work shop shopConfig = .ok shopWork := by
  obtain ⟨w, hw⟩ : ∃ w, work shop shopConfig = .ok w := ⟨_, rfl⟩
  have hfound : (work shop shopConfig).toOption.map (fun w => (w.files, w.components)) =
      some (shopWork.files, shopWork.components) := by decide +kernel
  rw [hw] at hfound ⊢
  obtain ⟨files, components⟩ := w
  cases hfound
  rfl

theorem free_store : Free store "shop" := free_of_no_symbols rfl rfl rfl

/-- A run over the project, on an index that holds a chunk of an earlier one. -/
def shopReport : Report := run shop shopConfig "shop" "now" (some steady) store

end Sample

/-- The two chunks, which have vectors, their symbols, which refer to them, and the component have taken the
place of the chunk that was there. -/
theorem run_replaces_rows_sample :
    (Sample.shopReport.store.chunks.select (·.project == "shop")).map (Numbered.map ChunkRow.bare) =
      [⟨2, ⟨"shop", "a.ts", 0, "class A \x7b\n\x7d", .typescript, .classType, some "A", none, 1, 2,
          none⟩⟩,
        ⟨3, ⟨"shop", "b.ts", 0, "function f() \x7b\n\x7d", .typescript, .function, some "f", none, 1,
          2, none⟩⟩] ∧
      (Sample.shopReport.store.chunks.select (·.project == "shop")).all (·.row.embedding.isSome) ∧
      (Sample.shopReport.store.symbols.select (·.project == "shop")).map (fun y =>
          (y.id, y.row.name, y.row.filePath, y.row.chunkId)) =
        [(1, "A", "a.ts", 2), (2, "f", "b.ts", 3)] ∧
      (Sample.shopReport.store.components.select (·.project == "shop")).map
          (Numbered.map ComponentRow.bare) =
        [⟨1, ⟨"shop", ⟨"Card", .component, "Card.tsx"⟩, none⟩⟩] ∧
      Sample.shopReport.store.chunks.find? 1 = none := by
  have hrun : Sample.shopReport = _ := run_free Sample.work_shop Sample.free_store
  have h : (run Sample.shop Sample.shopConfig "shop" "now" (some Sample.steady) Sample.store).outcome =
      .ok _ := congrArg Report.outcome hrun
  obtain ⟨files, components, hfiles, -, hcomponents, -, hall⟩ := run_replaces_rows h
  obtain ⟨files', components', hfiles', hcomponents', hwf, hwc⟩ := work_ok Sample.work_shop
  rw [hfiles] at hfiles'
  rw [hcomponents] at hcomponents'
  cases hfiles'
  cases hcomponents'
  have hchunks : (files.flatMap fun d => fileChunks Sample.shopConfig (d.relative, Sample.shop.text? d)) =
      Sample.shopWork.files.flatMap (fileChunks Sample.shopConfig) := by
    rw [hwf, List.flatMap_map]
  have hnames : (components.map fun d => componentOf d.1.relative d.2) =
      Sample.shopWork.components.map (·.1) := by
    rw [hwc, List.map_map]
    rfl
  have hreplaced := (hall (some Sample.steady)).2
  rw [hchunks, hnames] at hreplaced
  refine ⟨hreplaced.newChunks.trans (by decide +kernel), ?_, ?_,
    hreplaced.newComponents.trans (by decide +kernel), ?_⟩
  · rw [hrun]
    decide +kernel
  · rw [show Sample.shopReport.store.symbols.select _ = _ from hreplaced.newSymbols]
    decide +kernel
  · exact hreplaced.oldChunks ⟨1, .ofChunk "shop" Sample.chunk none⟩ (by decide)

end Sync

end CodeIndex
