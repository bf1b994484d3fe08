import CodeIndex.Proofs.Sync.Rows

/-!
What a run counts.

A run counts one by one, in between what it does. In the end each count is the number of what it stands
for: of files, of the chunks in them and of the names that these declare, of components, and of the rows
with a vector.

* `withChunks_stats`, `withFiles_stats` and `withComponents_stats` say what the steps of a run add to its
  counts;
* `unpruned_stats` says what the counts are in the end, and `complete_stats` how many files that are gone
  have been taken out.
-/
namespace CodeIndex.Sync

/-- How many rows of chunks have a vector. -/
def embeddedChunks (rows : List ChunkRow) : Nat := (rows.filter (·.embedding.isSome)).length

/-- How many rows of components have a vector. -/
def embeddedComponents (rows : List ComponentRow) : Nat := (rows.filter (·.embedding.isSome)).length

theorem embeddedChunks_append (rows more : List ChunkRow) :
    embeddedChunks (rows ++ more) = embeddedChunks rows + embeddedChunks more := by
  rw [embeddedChunks, List.filter_append, List.length_append]
  rfl

/-- The names that chunks declare. -/
def declared (chunks : List Chunk) : List String := chunks.flatMap (·.symbols)

@[simp] theorem declared_cons (chunk : Chunk) (chunks : List Chunk) :
    declared (chunk :: chunks) = chunk.symbols ++ declared chunks := rfl

theorem declared_append (chunks more : List Chunk) :
    declared (chunks ++ more) = declared chunks ++ declared more := List.flatMap_append

theorem length_symbolRows (key : String) (first : Nat) (chunks : List Chunk) :
    (symbolRows key first chunks).length = (declared chunks).length := by
  induction chunks generalizing first with
  | nil => rfl
  | cons chunk chunks ih =>
    rw [symbolRows_cons, List.length_append, List.length_map, ih, declared_cons, List.length_append]

/-! ## Steps -/

section Steps

variable {c : SyncConfig} {key : String}

theorem embeddedChunks_cons (e : Embedder) (chunk : Chunk) (chunks : List Chunk) :
    let r := e.embed (Embedder.labelled (chunkLabel chunk) chunk.content c.embedChars)
    embeddedChunks (chunkRows c key e (chunk :: chunks)) =
      embeddingCount r.1 + embeddedChunks (chunkRows c key r.2 chunks) := by
  intro r
  rw [chunkRows, embeddedChunks, List.filter_cons, embeddingCount]
  cases r.1 <;> simp [r, ChunkRow.ofChunk, embeddedChunks, Nat.add_comm]

theorem embeddedComponents_cons (e : Embedder) (file : Component × Option String)
    (files : List (Component × Option String)) :
    let r := Effect.componentEmbedding c e file
    embeddedComponents (componentRows c key e (file :: files)) =
      embeddingCount r.1 + embeddedComponents (componentRows c key r.2 files) := by
  intro r
  rw [componentRows, embeddedComponents, List.filter_cons, embeddingCount]
  cases r.1 <;> simp [r, embeddedComponents, Nat.add_comm]

theorem withSymbols_stats (chunk : Chunk) (id : Nat) (names : List String) (e : Effect) :
    (names.foldl (Effect.withSymbol key chunk id) e).stats =
      { e.stats with symbols := e.stats.symbols + names.length } := by
  induction names generalizing e with
  | nil => rfl
  | cons name names ih =>
    rw [List.foldl_cons, ih, List.length_cons, Nat.add_comm names.length, ← Nat.add_assoc]
    rfl

theorem withChunk_stats (key : String) (chunk : Chunk) (e : Effect) :
    let r := e.embedder.embed (Embedder.labelled (chunkLabel chunk) chunk.content c.embedChars)
    (e.withChunk c key chunk).stats =
      { e.stats with
        chunks := e.stats.chunks + 1
        symbols := e.stats.symbols + chunk.symbols.length
        embeddings := e.stats.embeddings + embeddingCount r.1 } :=
  withSymbols_stats chunk e.store.chunks.next chunk.symbols _

/-- Each chunk counts, each name it declares, and each vector. -/
theorem withChunks_stats (key : String) (chunks : List Chunk) (e : Effect) :
    (chunks.foldl (Effect.withChunk c key) e).stats =
      { e.stats with
        chunks := e.stats.chunks + chunks.length
        symbols := e.stats.symbols + (declared chunks).length
        embeddings := e.stats.embeddings + embeddedChunks (chunkRows c key e.embedder chunks) } := by
  induction chunks generalizing e with
  | nil => rfl
  | cons chunk chunks ih =>
    rw [List.foldl_cons, ih, withChunk_stats, (withChunk_eq key chunk e).2, embeddedChunks_cons]
    simp only [List.length_cons, declared_cons, List.length_append, SyncStats.mk.injEq, and_true,
      true_and]
    omega

/-- A file that can be read counts with its chunks, and another one is skipped. -/
theorem withFile_stats (key : String) (file : String × Option String) (e : Effect) :
    let chunks := fileChunks c file
    (e.withFile c key file).stats =
      { e.stats with
        files := e.stats.files + (if file.2.isSome then 1 else 0)
        chunks := e.stats.chunks + chunks.length
        symbols := e.stats.symbols + (declared chunks).length
        embeddings := e.stats.embeddings + embeddedChunks (chunkRows c key e.embedder chunks)
        skippedFiles := e.stats.skippedFiles + (if file.2.isSome then 0 else 1) } := by
  obtain ⟨relative, text⟩ := file
  cases text with
  | none => rfl
  | some text => exact withChunks_stats key (Chunk.ofFile c.chunkLimits relative text) _

/-- Files that can be read count with their chunks, and the others are skipped. -/
theorem withFiles_stats (key : String) (files : List (String × Option String)) (e : Effect) :
    let chunks := files.flatMap (fileChunks c)
    (files.foldl (Effect.withFile c key) e).stats =
      { e.stats with
        files := e.stats.files + (files.filter (·.2.isSome)).length
        chunks := e.stats.chunks + chunks.length
        symbols := e.stats.symbols + (declared chunks).length
        embeddings := e.stats.embeddings + embeddedChunks (chunkRows c key e.embedder chunks)
        skippedFiles := e.stats.skippedFiles + (files.filter (·.2.isNone)).length } := by
  induction files generalizing e with
  | nil => rfl
  | cons file files ih =>
    rw [List.foldl_cons, ih, withFile_stats, (withFile_eq key file e).2, List.flatMap_cons]
    simp only [chunkRows_append, embeddedChunks_append, declared_append, List.length_append,
      SyncStats.mk.injEq, true_and]
    cases h : file.2 <;> simp [h] <;> omega

theorem withComponents_stats (key : String) (files : List (Component × Option String)) (e : Effect) :
    (files.foldl (Effect.withComponent c key) e).stats =
      { e.stats with
        components := e.stats.components + files.length
        embeddings := e.stats.embeddings +
          embeddedComponents (componentRows c key e.embedder files) } := by
  induction files generalizing e with
  | nil => rfl
  | cons file files ih =>
    rw [List.foldl_cons, ih, embeddedComponents_cons]
    simp only [Effect.withComponent, Effect.counted, Effect.withStore, Effect.withEmbedder,
      List.length_cons, SyncStats.mk.injEq, and_true, true_and]
    omega

end Steps

/-! ## In the end -/

/-- The effect of all there is to do but for taking out the files that are gone. -/
def unpruned (c : SyncConfig) (key : String) (s : Store) (provider : Option Provider) (w : Work) :
    Effect :=
  w.components.foldl (Effect.withComponent c key)
    (w.files.foldl (Effect.withFile c key) (.start s key provider))

variable {c : SyncConfig}

theorem complete_eq_pruned (key : String) (s : Store) (provider : Option Provider) (w : Work) :
    (Effect.start s key provider).complete c key w = (unpruned c key s provider w).pruned c key w := rfl

theorem unpruned_stats (key : String) (s : Store) (provider : Option Provider) (w : Work) :
    (unpruned c key s provider w).stats =
      { files := (w.files.filter (·.2.isSome)).length
        chunks := (w.chunks c).length
        symbols := (declared (w.chunks c)).length
        components := w.components.length
        embeddings := embeddedChunks (chunkRows c key (.start provider) (w.chunks c)) +
          embeddedComponents (componentRows c key
            (afterChunks c (.start provider) (w.chunks c)) w.components)
        skippedFiles := (w.files.filter (·.2.isNone)).length
        prunedFiles := 0 } := by
  rw [unpruned, withComponents_stats, withFiles_stats, (withFiles_eq key w.files _).2]
  simp [Effect.start, SyncStats.zero, Work.chunks]

/-- The files that have been taken out count in the end. -/
theorem complete_stats (key : String) (s : Store) (provider : Option Provider) (w : Work) :
    ((Effect.start s key provider).complete c key w).stats =
      { (unpruned c key s provider w).stats with
        prunedFiles := if c.pruneStaleFiles then
            ((unpruned c key s provider w).store.staleFiles key w.paths).length
          else 0 } := by
  rw [complete_eq_pruned]
  unfold Effect.pruned
  split
  · rfl
  · rw [unpruned_stats]

end CodeIndex.Sync
