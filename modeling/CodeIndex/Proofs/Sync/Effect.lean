import CodeIndex.Sync

/-!
The effect of a run in which nothing is refused.

The statements of a run are carried out on a connection and may be refused. On an index that may be
written none is, except for taking out the old chunks and making the full-text index new: every symbol
refers to a chunk that has just been added.

* `Effect` is what a run has done so far, without the connection, and `Effect.withChunk`,
  `Effect.withFile`, `Effect.withComponent` and `Effect.pruned` say what the steps add to it;
* `addChunk_run`, `addFile_run`, `addComponent_run` and `prune_run`: in a transaction the steps do
  just that, and succeed.
-/
namespace CodeIndex.Sync

/-! ## Effects -/

/-- What a run has done so far. -/
structure Effect where
  store : Store
  embedder : Embedder
  stats : SyncStats
  announced : List String

namespace Effect

/-- The run in a transaction that has had an effect; `stored` is the index as it is stored. -/
def progress (stored : Store) (e : Effect) : Progress :=
  ⟨⟨stored, some e.store⟩, e.embedder, e.stats, some e.announced⟩

/-- The effect with another index. -/
def withStore (e : Effect) (s : Store) : Effect := { e with store := s }

/-- The effect with another embedder. -/
def withEmbedder (e : Effect) (embedder : Embedder) : Effect := { e with embedder := embedder }

/-- The effect with other counts. -/
def counted (e : Effect) (f : SyncStats → SyncStats) : Effect := { e with stats := f e.stats }

/-- The effect with one more file announced. -/
def withAnnounced (e : Effect) (relative : String) : Effect :=
  { e with announced := e.announced ++ [relative] }

/-- The effect with one more name that a chunk declares. -/
def withSymbol (project : String) (chunk : Chunk) (id : Nat) (e : Effect) (name : String) : Effect :=
  (e.withStore (e.store.addSymbol project name chunk id)).counted fun n =>
    { n with symbols := n.symbols + 1 }

/-- The effect with one more chunk and the names it declares. -/
def withChunk (c : SyncConfig) (project : String) (e : Effect) (chunk : Chunk) : Effect :=
  let (embedding, embedder) :=
    e.embedder.embed (Embedder.labelled (chunkLabel chunk) chunk.content c.embedChars)
  let e := (e.withEmbedder embedder).counted fun n =>
    { n with embeddings := n.embeddings + embeddingCount embedding }
  let added := (e.withStore (e.store.addChunk project chunk embedding)).counted fun n =>
    { n with chunks := n.chunks + 1 }
  chunk.symbols.foldl (withSymbol project chunk e.store.chunks.next) added

/-- The effect with one more file. -/
def withFile (c : SyncConfig) (project : String) (e : Effect) (file : String × Option String) :
    Effect :=
  let e := e.withAnnounced file.1
  match file.2 with
  | none => e.counted fun n => { n with skippedFiles := n.skippedFiles + 1 }
  | some text =>
    let e := (e.withStore (e.store.putFile project (fileRecord file.1 text))).counted fun n =>
      { n with files := n.files + 1 }
    (Chunk.ofFile c.chunkLimits file.1 text).foldl (withChunk c project) e

/-- The embedding of a component, if it has a text that is not blank, and the embedder after it. -/
def componentEmbedding (c : SyncConfig) (e : Embedder) (file : Component × Option String) :
    Option Embedding × Embedder :=
  match file.2.filter fun text => !Text.allBlank text.toList with
  | some text => e.embed (Embedder.labelled file.1.name text c.embedChars)
  | none => (none, e)

/-- The effect with one more component. -/
def withComponent (c : SyncConfig) (project : String) (e : Effect)
    (file : Component × Option String) : Effect :=
  let (embedding, embedder) := componentEmbedding c e.embedder file
  let e := (e.withEmbedder embedder).counted fun n =>
    { n with embeddings := n.embeddings + embeddingCount embedding }
  (e.withStore (e.store.putComponent project file.1 embedding)).counted fun n =>
    { n with components := n.components + 1 }

/-- The effect without the files that are gone, if the configuration says so. -/
def pruned (c : SyncConfig) (project : String) (w : Work) (e : Effect) : Effect :=
  if c.pruneStaleFiles then
    (e.withStore (e.store.dropStaleFiles project w.paths)).counted fun n =>
      { n with prunedFiles := (e.store.staleFiles project w.paths).length }
  else e

end Effect

/-! ## Steps without refusal -/

theorem bind_ok {α β : Type} {x : Step α} {f : α → Step β} {p q : Progress} {a : α}
    (h : x.run p = .ok a q) : (x >>= f).run p = (f a).run q := by
  change EStateM.bind x f p = f a q
  rw [EStateM.bind, show x p = .ok a q from h]

theorem bind_error {α β : Type} {x : Step α} {f : α → Step β} {p q : Progress} {failure : Failure}
    (h : x.run p = .error failure q) : (x >>= f).run p = .error failure q := by
  change EStateM.bind x f p = .error failure q
  rw [EStateM.bind, show x p = .error failure q from h]

variable {c : SyncConfig} {project : String} {stored : Store} {e : Effect}

/-- Steps that add to the effect what `g` says add it one after another. -/
theorem forM_run {α : Type} {f : α → Step Unit} {g : Effect → α → Effect} {P : Effect → Prop}
    (hrun : ∀ x e, P e → (f x).run (e.progress stored) = .ok () ((g e x).progress stored))
    (hkeep : ∀ x e, P e → P (g e x)) (l : List α) (he : P e) :
    (l.forM f).run (e.progress stored) = .ok () ((l.foldl g e).progress stored) := by
  induction l generalizing e with
  | nil => rfl
  | cons x l ih =>
    change (f x >>= fun _ => l.forM f).run (e.progress stored) = _
    rw [bind_ok (hrun x e he), ih (hkeep x e he), List.foldl_cons]

theorem statement_run {α : Type} {f : Store → Except Failure α × Store} {a : α} {s : Store}
    (h : f e.store = (.ok a, s)) :
    (statement f).run (e.progress stored) = .ok a ((e.withStore s).progress stored) := by
  simp [statement, EStateM.run, Effect.progress, Effect.withStore, Connection.seen, Connection.leave, h]

theorem query_run {α : Type} {f : Store → Except Failure (α × Store)} {a : α} {s : Store}
    (h : f e.store = .ok (a, s)) :
    (query f).run (e.progress stored) = .ok a ((e.withStore s).progress stored) :=
  statement_run (by simp [h])

theorem change_run {f : Store → Except Failure Store} {s : Store} (h : f e.store = .ok s) :
    (change f).run (e.progress stored) = .ok () ((e.withStore s).progress stored) :=
  query_run (by simp [h, Except.map])

theorem count_run (f : SyncStats → SyncStats) :
    (count f).run (e.progress stored) = .ok () ((e.counted f).progress stored) := rfl

theorem announce_run (relative : String) :
    (announce relative).run (e.progress stored) =
      .ok () ((e.withAnnounced relative).progress stored) := rfl

theorem embed_run (text : String) :
    (embed text).run (e.progress stored) =
      .ok (e.embedder.embed text).1
        ((e.withEmbedder (e.embedder.embed text).2).progress stored) := rfl

/-! ## Chunks -/

/-- Whether an index may be written and holds a chunk with a number. -/
def Effect.HasChunk (id : Nat) (e : Effect) : Prop :=
  e.store.readOnly = false ∧ (e.store.chunks.find? id).isSome

/-- A symbol that refers to a chunk of the index is not refused. -/
theorem addSymbol_run {chunk : Chunk} {id : Nat} (name : String) (h : e.HasChunk id) :
    (addSymbol project chunk id name).run (e.progress stored) =
      .ok () ((e.withSymbol project chunk id name).progress stored) := by
  have hins : e.store.insertSymbol project name chunk id =
      .ok (e.store.addSymbol project name chunk id) := by
    simp [Store.insertSymbol, Store.writing, h.1, h.2]
  rw [addSymbol, bind_ok (change_run hins), count_run, Effect.withSymbol]

theorem addChunk_run (chunk : Chunk) (hw : e.store.readOnly = false) :
    (addChunk c project chunk).run (e.progress stored) =
      .ok () ((e.withChunk c project chunk).progress stored) := by
  generalize hr : e.embedder.embed (Embedder.labelled (chunkLabel chunk) chunk.content c.embedChars)
    = r
  obtain ⟨embedding, embedder⟩ := r
  have hins : e.store.insertChunk project chunk embedding =
      .ok (e.store.chunks.next, e.store.addChunk project chunk embedding) := by
    simp [Store.insertChunk, Store.writing, hw]
  rw [addChunk, bind_ok (embed_run _), hr, bind_ok (count_run _), bind_ok (query_run hins),
    bind_ok (count_run _), forM_run (P := Effect.HasChunk e.store.chunks.next)
      (fun name _ h => addSymbol_run name h) (fun _ _ h => h) chunk.symbols]
  · simp only [Effect.withChunk, hr]
    rfl
  · exact ⟨hw, by simp [Effect.counted, Effect.withStore, Store.addChunk, Table.find?, Table.insert]⟩

/-- What no step changes, no number of steps changes. -/
theorem foldl_unchanged {α γ : Type} {g : Effect → α → Effect} (v : Effect → γ)
    (hg : ∀ e x, v (g e x) = v e) (l : List α) (e : Effect) : v (l.foldl g e) = v e := by
  induction l generalizing e with
  | nil => rfl
  | cons x l ih => rw [List.foldl_cons, ih, hg]

theorem Effect.withChunk_readOnly (e : Effect) (chunk : Chunk) :
    (e.withChunk c project chunk).store.readOnly = e.store.readOnly :=
  foldl_unchanged (g := withSymbol project chunk e.store.chunks.next) (·.store.readOnly)
    (fun _ _ => rfl) _ _

theorem addChunks_run (chunks : List Chunk) (hw : e.store.readOnly = false) :
    (chunks.forM (addChunk c project)).run (e.progress stored) =
      .ok () ((chunks.foldl (Effect.withChunk c project) e).progress stored) :=
  forM_run (P := fun e => e.store.readOnly = false) (fun chunk _ h => addChunk_run chunk h)
    (fun chunk e h => (Effect.withChunk_readOnly e chunk).trans h) chunks hw

/-! ## Files and components -/

theorem addFile_run (file : String × Option String) (hw : e.store.readOnly = false) :
    (addFile c project file).run (e.progress stored) =
      .ok () ((e.withFile c project file).progress stored) := by
  obtain ⟨relative, text⟩ := file
  rw [addFile, bind_ok (announce_run _)]
  cases text with
  | none => exact count_run _
  | some text =>
    have hput : e.store.upsertFile project (fileRecord relative text) =
        .ok (e.store.putFile project (fileRecord relative text)) := by
      simp [Store.upsertFile, Store.writing, hw]
    simp only
    rw [bind_ok (change_run hput), bind_ok (count_run _), addChunks_run _ (by exact hw)]
    rfl

theorem Effect.withFile_readOnly (e : Effect) (file : String × Option String) :
    (e.withFile c project file).store.readOnly = e.store.readOnly := by
  obtain ⟨relative, text⟩ := file
  cases text with
  | none => rfl
  | some text => exact foldl_unchanged (·.store.readOnly) withChunk_readOnly _ _

theorem addFiles_run (files : List (String × Option String)) (hw : e.store.readOnly = false) :
    (files.forM (addFile c project)).run (e.progress stored) =
      .ok () ((files.foldl (Effect.withFile c project) e).progress stored) :=
  forM_run (P := fun e => e.store.readOnly = false) (fun file _ h => addFile_run file h)
    (fun file e h => (Effect.withFile_readOnly e file).trans h) files hw

theorem addComponent_run (file : Component × Option String) (hw : e.store.readOnly = false) :
    (addComponent c project file).run (e.progress stored) =
      .ok () ((e.withComponent c project file).progress stored) := by
  generalize hr : Effect.componentEmbedding c e.embedder file = r
  obtain ⟨embedding, embedder⟩ := r
  have hask : (embedComponent c file).run (e.progress stored) =
      .ok embedding ((e.withEmbedder embedder).progress stored) := by
    unfold Effect.componentEmbedding at hr
    unfold embedComponent
    cases htext : file.2.filter fun text => !Text.allBlank text.toList with
    | some text =>
      simp only [htext] at hr ⊢
      rw [embed_run, hr]
    | none =>
      simp only [htext, Prod.mk.injEq] at hr ⊢
      rw [← hr.1, ← hr.2]
      rfl
  have hput : e.store.insertComponent project file.1 embedding =
      .ok (e.store.putComponent project file.1 embedding) := by
    simp [Store.insertComponent, Store.writing, hw]
  rw [addComponent, bind_ok hask, bind_ok (count_run _), bind_ok (change_run hput), count_run]
  simp only [Effect.withComponent, hr]
  rfl

theorem addComponents_run (files : List (Component × Option String))
    (hw : e.store.readOnly = false) :
    (files.forM (addComponent c project)).run (e.progress stored) =
      .ok () ((files.foldl (Effect.withComponent c project) e).progress stored) :=
  forM_run (P := fun e => e.store.readOnly = false) (fun file _ h => addComponent_run file h)
    (fun _ _ h => h) files hw

/-- A file is one of those that are gone if it is not to be kept. -/
theorem any_staleFiles {s : Store} {keep : List String} {r : FileRow} (hr : r ∈ s.files) :
    (s.staleFiles project keep).any (fun path => r.isFor project path) =
      !(r.project != project || keep.contains r.filePath) := by
  rw [Bool.eq_iff_iff, List.any_eq_true]
  constructor
  · rintro ⟨path, hpath, hfor⟩
    simp only [FileRow.isFor, Bool.and_eq_true, beq_iff_eq] at hfor
    obtain ⟨rfl, rfl⟩ := hfor
    simpa using (List.mem_filter.1 hpath).2
  · intro hgone
    simp only [Bool.not_eq_true', Bool.or_eq_false_iff, bne_eq_false_iff_eq] at hgone
    refine ⟨r.filePath, List.mem_filter.2 ⟨?_, by rw [hgone.2]; rfl⟩, by simp [FileRow.isFor, hgone.1]⟩
    simp only [Store.indexedFiles, List.mem_mergeSort, List.mem_map, List.mem_filter, beq_iff_eq]
    exact ⟨r, ⟨hr, hgone.1⟩, rfl⟩

/-- Where no file is gone, taking out those that are gone changes nothing. -/
theorem dropStaleFiles_of_none {s : Store} {keep : List String}
    (h : s.staleFiles project keep = []) : s.dropStaleFiles project keep = s := by
  have hall : s.files.filter (fun r => r.project != project || keep.contains r.filePath) =
      s.files := by
    refine List.filter_eq_self.2 fun r hr => ?_
    have hgone : false = !(r.project != project || keep.contains r.filePath) := by
      rw [← any_staleFiles hr, h, List.any_nil]
    rwa [eq_comm, Bool.not_eq_false'] at hgone
  rw [Store.dropStaleFiles, hall]

/-- Taking out the files that are gone is not refused. -/
theorem prune_run (w : Work) (hw : e.store.readOnly = false) :
    (prune c project w).run (e.progress stored) =
      .ok () ((e.pruned c project w).progress stored) := by
  unfold prune Effect.pruned
  split
  · have hp : e.store.pruneFiles project w.paths =
        .ok ((e.store.staleFiles project w.paths).length,
          e.store.dropStaleFiles project w.paths) := by
      simp only [Store.pruneFiles]
      split
      · rename_i hnone
        rw [List.isEmpty_iff.1 hnone, dropStaleFiles_of_none (List.isEmpty_iff.1 hnone)]
        rfl
      · simp [Store.writing, hw]
    rw [bind_ok (query_run hp), count_run]
  · rfl

end CodeIndex.Sync
