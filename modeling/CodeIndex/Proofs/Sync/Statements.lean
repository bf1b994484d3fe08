import CodeIndex.Proofs.Sync.History

/-!
Operations as the statements that they send.

An operation opens no transaction. It sends one statement, or several one after another, and what a
statement has changed is stored before the next one is sent (`inTurn`). So an operation that is refused may
leave something behind, and `Operation.settle` has to agree with its statements.

* `Operation.statements` are the statements of an operation: one for each file that goes, three to clear a
  project, three to make the full-text indexes new, and otherwise a single one; `settle_eq_inTurn` says that
  `Operation.settle` is what comes of them;
* `refused_operation_keeps`: an operation that is refused has changed nothing, with two exceptions. Where a
  symbol of another project refers to a chunk of a project that is to be cleared, the symbols are gone; and
  where one of the full-text indexes is missing, those before it are new.
-/
namespace CodeIndex

/-! ## The statements of an operation -/

namespace Store

/-- The store without the record of a file. -/
def dropFile (s : Store) (project path : String) : Store :=
  { s with files := s.files.filter fun r => !r.isFor project path }

/-- Takes out the record of a file. -/
def deleteFile (project path : String) : Statement := fun s =>
  s.writing .pruneFile (.ok (s.dropFile project path))

/-- Takes out the symbols of a project. -/
def deleteSymbols (project : String) : Statement := fun s =>
  s.writing .clearSymbols (.ok (s.dropSymbols project))

/-- Takes out the chunks of a project, unless a symbol refers to one. -/
def deleteChunks (project : String) : Statement := fun s =>
  s.writing .clearChunks <|
    match s.dropChunks? project with
    | some s' => .ok s'
    | none => .error (.database .clearChunks .foreignKey)

/-- Takes out the components of a project. -/
def deleteComponents (project : String) : Statement := fun s =>
  s.writing .clearComponents (.ok (s.dropComponents project))

end Store

/-- The statements of an operation on an index. -/
def Operation.statements (s : Store) : Operation → List Statement
  | setMetadata key value => [fun s => s.setMetadata key value]
  | insertChunk project chunk embedding => [fun s => (s.insertChunk project chunk embedding).map (·.2)]
  | insertSymbol project name chunk chunkId => [fun s => s.insertSymbol project name chunk chunkId]
  | insertComponent project component embedding =>
    [fun s => s.insertComponent project component embedding]
  | upsertFile project file => [fun s => s.upsertFile project file]
  | pruneFiles project keep => (s.staleFiles project keep).map (Store.deleteFile project)
  | clearProject project =>
    [Store.deleteSymbols project, Store.deleteChunks project, Store.deleteComponents project]
  | rebuildIndex => TextIndex.all.map Store.rebuild
  | recordEvent project time kind stats => [fun s => s.recordEvent project time kind stats]

section Statements

variable {s : Store} {project : String}

theorem inTurn_single (statement : Statement) (s : Store) :
    inTurn [statement] s = s.settled (statement s) := by
  rw [inTurn]
  cases statement s with
  | ok s' => rfl
  | error failure => rfl

/-! ## Files one after another -/

theorem inTurn_deleteFiles (paths : List String) (hw : s.readOnly = false) :
    inTurn (paths.map (Store.deleteFile project)) s =
      (.ok (), paths.foldl (fun s path => s.dropFile project path) s) := by
  induction paths generalizing s with
  | nil => rfl
  | cons path paths ih =>
    have hdelete : Store.deleteFile project path s = .ok (s.dropFile project path) := by
      rw [Store.deleteFile, Store.writing, hw]
      rfl
    rw [List.map_cons, inTurn, hdelete]
    exact ih hw

theorem foldl_dropFile (paths : List String) (s : Store) :
    paths.foldl (fun s path => s.dropFile project path) s =
      { s with files := s.files.filter fun r => !paths.any fun path => r.isFor project path } := by
  induction paths generalizing s with
  | nil =>
    have hall : s.files.filter (fun r => !([].any fun path => r.isFor project path)) = s.files :=
      List.filter_eq_self.2 fun _ _ => rfl
    rw [List.foldl_nil, hall]
  | cons path paths ih =>
    rw [List.foldl_cons, ih]
    simp only [Store.dropFile, List.filter_filter, List.any_cons, Bool.not_or, Bool.and_comm]

theorem foldl_dropFile_stale (s : Store) (project : String) (keep : List String) :
    (s.staleFiles project keep).foldl (fun s path => s.dropFile project path) s =
      s.dropStaleFiles project keep := by
  rw [foldl_dropFile, Store.dropStaleFiles]
  congr 1
  exact List.filter_congr fun r hr => by rw [Sync.any_staleFiles hr, Bool.not_not]

/-- Files are taken out one after another as they are at once: an index that is open for reading only refuses
the first one already. -/
theorem inTurn_pruneFiles (s : Store) (project : String) (keep : List String) :
    inTurn ((s.staleFiles project keep).map (Store.deleteFile project)) s =
      s.settled ((s.pruneFiles project keep).map (·.2)) := by
  rw [Store.pruneFiles]
  cases hstale : s.staleFiles project keep with
  | nil => rfl
  | cons path paths =>
    cases hw : s.readOnly with
    | true => simp [inTurn, Store.deleteFile, Store.writing, hw, Store.settled, Except.map]
    | false =>
      rw [inTurn_deleteFiles _ hw, ← hstale, foldl_dropFile_stale]
      simp [hstale, Store.writing, hw, Store.settled, Except.map]

/-! ## All operations -/

theorem inTurn_clearProject (s : Store) (project : String) :
    inTurn [Store.deleteSymbols project, Store.deleteChunks project, Store.deleteComponents project] s =
      s.clearProject project := by
  cases hw : s.readOnly with
  | true => simp [inTurn, Store.deleteSymbols, Store.writing, hw, Store.clearProject]
  | false =>
    have hsymbols : Store.deleteSymbols project s = .ok (s.dropSymbols project) := by
      rw [Store.deleteSymbols, Store.writing, hw]
      rfl
    have hw' : (s.dropSymbols project).readOnly = false := hw
    rw [inTurn, hsymbols, Store.clearProject, if_neg (by simp [hw])]
    simp only [inTurn, Store.deleteChunks, Store.writing, hw', Bool.false_eq_true, if_false]
    cases hchunks : (s.dropSymbols project).dropChunks? project with
    | none => rfl
    | some s' =>
      have hw'' : s'.readOnly = false := by
        rw [Store.dropChunks?] at hchunks
        split at hchunks
        · cases hchunks
        · cases hchunks
          exact hw
      simp [Store.deleteComponents, Store.writing, hw'']

theorem settle_eq_inTurn (s : Store) (op : Operation) : op.settle s = inTurn (op.statements s) s := by
  cases op with
  | pruneFiles project keep => exact (inTurn_pruneFiles s project keep).symm
  | clearProject project => exact (inTurn_clearProject s project).symm
  | rebuildIndex => rfl
  | _ =>
    rw [Operation.statements, inTurn_single]
    rfl

end Statements

/-! ## What a refused operation leaves -/

/-- **A refused operation has changed nothing, with two exceptions.** The statements of an operation are
stored one by one, yet where one of them is refused nothing has been stored before it, but for two. Clearing a
project whose chunks symbols of other projects refer to ends at the chunks, when the symbols of the
project have been taken out; and making the full-text indexes new ends at the first one that is not there, when
those before it are new. Both always end so. -/
theorem refused_operation_keeps (s : Store) (op : Operation) :
    op.settle s = inTurn (op.statements s) s ∧
    (∀ failure s', op.settle s = (.error failure, s') → s' = s ∨
      (∃ project, op.StopsHalfway s project ∧ failure = .database .clearChunks .foreignKey ∧
        s' = s.dropSymbols project) ∨
      ∃ i, op.StopsRebuilding s i ∧ failure = .database .rebuildIndex (.missingTable i.table) ∧
        s' = s.rebuiltBefore i) ∧
    (∀ project, op.StopsHalfway s project →
      op.settle s = (.error (.database .clearChunks .foreignKey), s.dropSymbols project)) ∧
    ∀ i, op.StopsRebuilding s i →
      op.settle s = (.error (.database .rebuildIndex (.missingTable i.table)), s.rebuiltBefore i) := by
  refine ⟨settle_eq_inTurn s op, fun failure s' hsettle => ?_, fun project hstops => ?_,
    fun i hstops => ?_⟩
  · cases hsettle ▸ op.settle_cases s with
    | refused failure => exact .inl rfl
    | halfway hstops => exact .inr (.inl ⟨_, hstops, rfl, rfl⟩)
    | rebuilding hstops => exact .inr (.inr ⟨_, hstops, rfl, rfl⟩)
  · rw [hstops.clears]
    exact Store.clearProject_held hstops.writable hstops.held
  · rw [hstops.rebuilds]
    exact Store.rebuildIndex_missing hstops.writable hstops.missing

namespace Sync.Sample

theorem history_heldStore : History heldStore [] :=
  .operation (.insertSymbol "mirror" "A" chunk 1) <|
    .operation (.insertSymbol "shop" "A" chunk 1) <|
      .operation (.insertChunk "shop" chunk none) .created

theorem stopsHalfway_heldStore : (Operation.clearProject "shop").StopsHalfway heldStore "shop" where
  clears := rfl
  writable := rfl
  held := ⟨⟨1, .ofChunk "shop" chunk none⟩, List.mem_singleton_self _,
    .ofChunk "mirror" "A" chunk 1, by decide, by decide, rfl⟩

/-- The same index without the full-text index of the symbols. -/
def unnamedStore : Store := heldStore.withoutIndex .symbols

theorem stopsRebuilding_unnamedStore : Operation.rebuildIndex.StopsRebuilding unnamedStore .symbols :=
  ⟨rfl, rfl, rfl⟩

end Sync.Sample

/-- The symbol of the project is gone, and its chunk and the symbol of the other project are there. And where
the full-text index of the symbols is missing, that of the chunks has the chunk in the end. -/
theorem refused_operation_keeps_held :
    (∃ s', (Operation.clearProject "shop").settle Sync.Sample.heldStore =
        (.error (.database .clearChunks .foreignKey), s') ∧
      s'.symbols.toList = [.ofChunk "mirror" "A" Sync.Sample.chunk 1] ∧
      s'.chunks = Sync.Sample.heldStore.chunks) ∧
    ∃ s', Operation.rebuildIndex.settle Sync.Sample.unnamedStore =
        (.error (.database .rebuildIndex (.missingTable "symbols_fts")), s') ∧
      Sync.Sample.unnamedStore.fulltext = some [] ∧
      s'.fulltext.map (·.map (·.id)) = some [1] ∧ s'.chunks = Sync.Sample.unnamedStore.chunks :=
  ⟨⟨_, (refused_operation_keeps _ _).2.2.1 "shop" Sync.Sample.stopsHalfway_heldStore, by decide, rfl⟩,
    _, (refused_operation_keeps _ _).2.2.2 .symbols Sync.Sample.stopsRebuilding_unnamedStore, rfl,
    by decide, rfl⟩

/-- So an operation that is refused can leave an index that is not as it was. -/
theorem refused_clearing_takes_symbols :
    ¬ ∀ (s : Store) (indexed : List (Numbered ChunkRow)), History s indexed →
      ∀ (op : Operation) (failure : Failure), (op.settle s).1 = .error failure →
        (op.settle s).2 = s := by
  intro h
  have hsame := h _ _ Sync.Sample.history_heldStore (.clearProject "shop")
    (.database .clearChunks .foreignKey) rfl
  exact absurd hsame (by decide)

end CodeIndex
