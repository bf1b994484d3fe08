import CodeIndex.Proofs.Sync.Outcome

/-!
Histories of an index.

An index is changed by operations and by runs, it is closed and opened again, and it can lose a
full-text index. Each of these may be refused, and then leaves something too.

* `Operation` is a change of the index, and `Operation.settle` is its outcome with the index it leaves;
* `Operation.applied` is what it comes to where nothing is refused, and `Operation.settle_cases` says what
  else can be;
* `History` leads from the index that has just been created through any of these; it keeps the chunks
  as they stood when their full-text index was last made;
* `Operation.changed`: what an operation can do to the chunks.
-/
namespace CodeIndex

/-! ## Operations -/

/-- A change of an index, apart from runs. -/
inductive Operation where
  | setMetadata (key value : String)
  | insertChunk (project : String) (chunk : Chunk) (embedding : Option Embedding)
  | insertSymbol (project name : String) (chunk : Chunk) (chunkId : Nat)
  | insertComponent (project : String) (component : Component) (embedding : Option Embedding)
  | upsertFile (project : String) (file : FileRecord)
  | pruneFiles (project : String) (keep : List String)
  | clearProject (project : String)
  | rebuildIndex
  | recordEvent (project time kind stats : String)

/-- What a change leaves that is refused as a whole or not at all. -/
def Store.settled (s : Store) : Except Failure Store → Except Failure Unit × Store
  | .ok s' => (.ok (), s')
  | .error failure => (.error failure, s)

/-- The outcome of an operation, and the index it leaves. -/
def Operation.settle (s : Store) : Operation → Except Failure Unit × Store
  | setMetadata key value => s.settled (s.setMetadata key value)
  | insertChunk project chunk embedding =>
    s.settled ((s.insertChunk project chunk embedding).map (·.2))
  | insertSymbol project name chunk chunkId => s.settled (s.insertSymbol project name chunk chunkId)
  | insertComponent project component embedding =>
    s.settled (s.insertComponent project component embedding)
  | upsertFile project file => s.settled (s.upsertFile project file)
  | pruneFiles project keep => s.settled ((s.pruneFiles project keep).map (·.2))
  | clearProject project => s.clearProject project
  | rebuildIndex => s.rebuildIndex
  | recordEvent project time kind stats => s.settled (s.recordEvent project time kind stats)

/-! ## Histories -/

/-- The chunks that their full-text index was last made from, after an operation. It is the first index to be
made new, whatever becomes of the others. -/
def Operation.indexedAfter (s : Store) (indexed : List (Numbered ChunkRow)) :
    Operation → List (Numbered ChunkRow)
  | rebuildIndex =>
    match Store.rebuild .chunks s with
    | .ok s' => s'.chunks.rows
    | .error _ => indexed
  | _ => indexed

/-- The chunks that their full-text index was last made from, after a run. -/
def Sync.Report.indexedAfter (r : Report) (indexed : List (Numbered ChunkRow)) :
    List (Numbered ChunkRow) :=
  match r.outcome with
  | .ok _ => r.store.chunks.rows
  | .error _ => indexed

/-- The chunks that their full-text index was last made from, after an index has been lost. -/
def TextIndex.indexedAfter (indexed : List (Numbered ChunkRow)) : TextIndex → List (Numbered ChunkRow)
  | chunks => []
  | symbols | components => indexed

/-- A history that leads to an index; `indexed` are the chunks as they stood when their full-text index
was last made from them. -/
inductive History : Store → List (Numbered ChunkRow) → Prop
  | created : History .created []
  | operation {s : Store} {indexed : List (Numbered ChunkRow)} (op : Operation)
    (h : History s indexed) : History (op.settle s).2 (op.indexedAfter s indexed)
  | run {s : Store} {indexed : List (Numbered ChunkRow)} {β : Type} (project : Project β)
    (c : SyncConfig) (key now : String) (provider : Option Provider) (h : History s indexed) :
    History (Sync.run project c key now provider s).store
      ((Sync.run project c key now provider s).indexedAfter indexed)
  | indexDropped {s : Store} {indexed : List (Numbered ChunkRow)} (i : TextIndex)
    (h : History s indexed) : History (s.withoutIndex i) (i.indexedAfter indexed)
  | reopened {s : Store} {indexed : List (Numbered ChunkRow)} (readOnly : Bool)
    (h : History s indexed) : History (s.reopened readOnly) indexed

/-! ## What operations come to -/

namespace Store

variable {s : Store} {action : DatabaseAction}

theorem map_writing {α γ : Type} (f : α → γ) (change : Except Failure α) :
    (s.writing action change).map f = s.writing action (change.map f) := by
  unfold writing
  split <;> rfl

theorem writing_ok {α : Type} {change : Except Failure α} {a : α}
    (h : s.writing action change = .ok a) : change = .ok a := by
  unfold writing at h
  split at h
  · cases h
  · exact h

end Store

namespace Operation

/-- What an operation makes of an index that does not refuse it. -/
def applied (s : Store) : Operation → Store
  | setMetadata key value => s.putMetadata key value
  | insertChunk project chunk embedding => s.addChunk project chunk embedding
  | insertSymbol project name chunk chunkId => s.addSymbol project name chunk chunkId
  | insertComponent project component embedding => s.putComponent project component embedding
  | upsertFile project file => s.putFile project file
  | pruneFiles project keep => s.dropStaleFiles project keep
  | clearProject project => s.cleared project
  | rebuildIndex => s.reindexed
  | recordEvent project time kind stats => s.addEvent project time kind stats

/-- What has to hold of an index that may be written for an operation not to be refused. -/
def Fits (s : Store) : Operation → Prop
  | insertSymbol _ _ _ chunkId => (s.chunks.find? chunkId).isSome
  | clearProject project => ¬ s.HeldByOthers project
  | rebuildIndex => s.missingIndex? = none
  | _ => True

/-- An operation takes out the symbols of a project and is refused when it comes to the chunks. -/
structure StopsHalfway (s : Store) (op : Operation) (project : String) : Prop where
  clears : op = .clearProject project
  writable : s.readOnly = false
  held : s.HeldByOthers project

/-- An operation makes full-text indexes new and is refused when it comes to one that is not there. -/
structure StopsRebuilding (s : Store) (op : Operation) (i : TextIndex) : Prop where
  rebuilds : op = .rebuildIndex
  writable : s.readOnly = false
  missing : s.missingIndex? = some i

/-- What can become of an operation on an index. -/
inductive Settled (s : Store) (op : Operation) : Except Failure Unit × Store → Prop
  | done (h : op.Fits s) : Settled s op (.ok (), op.applied s)
  | refused (failure : Failure) : Settled s op (.error failure, s)
  | halfway {project : String} (h : op.StopsHalfway s project) :
    Settled s op (.error (.database .clearChunks .foreignKey), s.dropSymbols project)
  | rebuilding {i : TextIndex} (h : op.StopsRebuilding s i) :
    Settled s op (.error (.database .rebuildIndex (.missingTable i.table)), s.rebuiltBefore i)

theorem settled_writing {s : Store} {op : Operation} {action : DatabaseAction}
    {change : Except Failure Store} (h : ∀ s', change = .ok s' → op.Fits s ∧ s' = op.applied s) :
    Settled s op (s.settled (s.writing action change)) := by
  unfold Store.writing
  split
  · exact .refused _
  · cases change with
    | ok s' =>
      obtain ⟨hfits, rfl⟩ := h s' rfl
      exact .done hfits
    | error failure => exact .refused failure

theorem settled_writing_ok {s : Store} {op : Operation} {action : DatabaseAction} (h : op.Fits s) :
    Settled s op (s.settled (s.writing action (.ok (op.applied s)))) :=
  settled_writing fun _ hs => ⟨h, (Except.ok.inj hs).symm⟩

theorem settled_pruneFiles (s : Store) (project : String) (keep : List String) :
    Settled s (.pruneFiles project keep) ((pruneFiles project keep).settle s) := by
  rw [settle]
  dsimp only [Store.pruneFiles]
  split
  · -- no file is gone
    rename_i hnone
    have hdone : Settled s (.pruneFiles project keep) (.ok (), s.dropStaleFiles project keep) :=
      .done trivial
    rwa [Sync.dropStaleFiles_of_none (List.isEmpty_iff.1 hnone)] at hdone
  · rw [Store.map_writing]
    exact settled_writing_ok trivial

theorem settled_clearProject (s : Store) (project : String) :
    Settled s (.clearProject project) (s.clearProject project) := by
  cases hw : s.readOnly with
  | true =>
    rw [Store.clearProject, if_pos hw]
    exact .refused _
  | false =>
    by_cases hheld : s.HeldByOthers project
    · rw [Store.clearProject_held hw hheld]
      exact .halfway ⟨rfl, hw, hheld⟩
    · rw [Store.clearProject_free hw hheld]
      exact .done hheld

theorem settled_rebuildIndex (s : Store) : Settled s .rebuildIndex s.rebuildIndex := by
  cases hw : s.readOnly with
  | true =>
    obtain ⟨failure, hrefused⟩ := Store.rebuildIndex_readOnly hw
    rw [hrefused]
    exact .refused failure
  | false =>
    cases hindex : s.missingIndex? with
    | none =>
      rw [Store.rebuildIndex_indexed hw hindex]
      exact .done hindex
    | some i =>
      rw [Store.rebuildIndex_missing hw hindex]
      exact .rebuilding ⟨rfl, hw, hindex⟩

/-- An operation is done, or refused as a whole, or stops between its statements. -/
theorem settle_cases (s : Store) (op : Operation) : Settled s op (op.settle s) := by
  cases op with
  | setMetadata key value => exact settled_writing_ok trivial
  | insertChunk project chunk embedding =>
    rw [settle, Store.insertChunk, Store.map_writing]
    exact settled_writing_ok trivial
  | insertSymbol project name chunk chunkId =>
    refine settled_writing fun s' hs => ?_
    split at hs
    · cases hs
      exact ⟨‹_›, rfl⟩
    · cases hs
  | insertComponent project component embedding => exact settled_writing_ok trivial
  | upsertFile project file => exact settled_writing_ok trivial
  | pruneFiles project keep => exact settled_pruneFiles s project keep
  | clearProject project => exact settled_clearProject s project
  | rebuildIndex => exact settled_rebuildIndex s
  | recordEvent project time kind stats => exact settled_writing_ok trivial

/-- What holds of an index, of what an operation makes of it and of what is left between its statements holds
of the index in the end. -/
theorem settle_induction {P : Store → Prop} {s : Store} (op : Operation) (hs : P s)
    (hdone : op.Fits s → P (op.applied s))
    (hhalfway : ∀ project, op.StopsHalfway s project → P (s.dropSymbols project))
    (hrebuilding : ∀ i, op.StopsRebuilding s i → P (s.rebuiltBefore i)) :
    P (op.settle s).2 := by
  generalize hr : op.settle s = r
  cases hr ▸ op.settle_cases s with
  | done h => exact hdone h
  | refused failure => exact hs
  | halfway h => exact hhalfway _ h
  | rebuilding h => exact hrebuilding _ h

end Operation

/-! ## What operations do to the chunks -/

/-- The full-text index is as it was, and the chunks are as they were, with one more, or without
some. -/
inductive ChunksChanged (s s' : Store) : Prop
  | same (hfulltext : s'.fulltext = s.fulltext) (hchunks : s'.chunks = s.chunks)
  | oneMore (hfulltext : s'.fulltext = s.fulltext) {row : ChunkRow}
    (hchunks : s'.chunks = s.chunks.insert row)
  | fewer (hfulltext : s'.fulltext = s.fulltext) {test : ChunkRow → Bool}
    (hchunks : s'.chunks = s.chunks.keep test)

theorem Operation.changed (s : Store) (op : Operation) (hop : op ≠ .rebuildIndex) :
    ChunksChanged s (op.settle s).2 := by
  refine op.settle_induction (.same rfl rfl) (fun _ => ?_) (fun _ _ => .same rfl rfl)
    fun _ h => absurd h.rebuilds hop
  cases op with
  | rebuildIndex => exact absurd rfl hop
  | insertChunk project chunk embedding => exact .oneMore rfl rfl
  | clearProject project => exact .fewer rfl (show _ = s.chunks.keep (·.project != project) from rfl)
  | _ => exact .same rfl rfl

end CodeIndex
