import CodeIndex.Proofs.Store.Rebuild
import CodeIndex.Proofs.Sync.Effect
import CodeIndex.Proofs.Sync.Transaction

/-!
How a run ends.

A run fails only for a pattern that is refused, on an index that is open for reading only, when a
symbol of another project refers to one of the chunks that are to go, or when one of the full-text
indexes is not there. Where it fails it has changed nothing, and where it does not the index is the one that
`Effect.finished` describes.

* `Blocked` says what stands in the way of a run, and `run_error_iff` that nothing else does;
* `run_ok` is what a run that has succeeded leaves;
* `failed_run_changes_nothing`: after a failed run the index is as it was.
-/
namespace CodeIndex

namespace Store

/-- The index without the symbols, chunks and components of a project. -/
def cleared (s : Store) (project : String) : Store :=
  { s with
    symbols := s.symbols.keep (·.project != project)
    chunks := s.chunks.keep (·.project != project)
    components := s.components.keep (·.project != project) }

/-- A symbol of another project refers to a chunk of the project. -/
def HeldByOthers (s : Store) (project : String) : Prop :=
  ∃ r ∈ s.chunks.select (·.project == project), ∃ y ∈ s.symbols.toList,
    y.project ≠ project ∧ y.chunkId = r.id

theorem refersInto_dropSymbols (s : Store) (project : String) :
    (s.dropSymbols project).refersInto project = true ↔ s.HeldByOthers project := by
  simp only [refersInto, dropSymbols, Table.toList_keep, List.any_eq_true, List.mem_filter,
    bne_iff_ne, beq_iff_eq, HeldByOthers, and_assoc]

theorem clearProject_held {s : Store} {project : String} (hw : s.readOnly = false)
    (h : s.HeldByOthers project) :
    s.clearProject project =
      (.error (.database .clearChunks .foreignKey), s.dropSymbols project) := by
  simp [clearProject, hw, dropChunks?, (refersInto_dropSymbols s project).2 h]

theorem clearProject_free {s : Store} {project : String} (hw : s.readOnly = false)
    (h : ¬ s.HeldByOthers project) : s.clearProject project = (.ok (), s.cleared project) := by
  have hno : (s.dropSymbols project).refersInto project = false :=
    Bool.eq_false_iff.2 fun hr => h ((refersInto_dropSymbols s project).1 hr)
  simp only [clearProject, hw, dropChunks?, hno, Bool.false_eq_true, if_false]
  rfl

end Store

namespace Sync

/-! ## Runs without refusal -/

namespace Effect

/-- The effect of taking out the old rows. -/
def start (s : Store) (project : String) (provider : Option Provider) : Effect :=
  ⟨s.cleared project, .start provider, .zero, []⟩

/-- The effect of all there is to do. -/
def complete (c : SyncConfig) (project : String) (w : Work) (e : Effect) : Effect :=
  (w.components.foldl (withComponent c project)
    (w.files.foldl (withFile c project) e)).pruned c project w

/-- The index with the full-text indexes made new and the counts in the log. -/
def finished (project now : String) (e : Effect) : Store :=
  e.store.reindexed.addEvent project now eventKind e.stats.toJson.compact

theorem chunks_finished (project now : String) (e : Effect) :
    (e.finished project now).chunks = e.store.chunks := rfl

theorem symbols_finished (project now : String) (e : Effect) :
    (e.finished project now).symbols = e.store.symbols := rfl

theorem components_finished (project now : String) (e : Effect) :
    (e.finished project now).components = e.store.components := rfl

theorem files_finished (project now : String) (e : Effect) :
    (e.finished project now).files = e.store.files := rfl

variable {c : SyncConfig} {project : String}

theorem withChunk_missingIndex? (e : Effect) (chunk : Chunk) :
    (e.withChunk c project chunk).store.missingIndex? = e.store.missingIndex? :=
  foldl_unchanged (g := withSymbol project chunk e.store.chunks.next) (·.store.missingIndex?)
    (fun _ _ => rfl) _ _

theorem withFile_missingIndex? (e : Effect) (file : String × Option String) :
    (e.withFile c project file).store.missingIndex? = e.store.missingIndex? := by
  obtain ⟨relative, text⟩ := file
  cases text with
  | none => rfl
  | some text => exact foldl_unchanged (·.store.missingIndex?) withChunk_missingIndex? _ _

/-- Whether the index may be written and which full-text indexes are there stays as it is. -/
theorem complete_access (w : Work) (e : Effect) :
    (e.complete c project w).store.readOnly = e.store.readOnly ∧
      (e.complete c project w).store.missingIndex? = e.store.missingIndex? := by
  have hpruned : ∀ e : Effect, (e.pruned c project w).store.readOnly = e.store.readOnly ∧
      (e.pruned c project w).store.missingIndex? = e.store.missingIndex? := by
    intro e
    unfold pruned
    split <;> exact ⟨rfl, rfl⟩
  obtain ⟨hr, hf⟩ := hpruned (w.components.foldl (withComponent c project)
    (w.files.foldl (withFile c project) e))
  refine ⟨hr.trans ?_, hf.trans ?_⟩
  · rw [foldl_unchanged (g := withComponent c project) (·.store.readOnly) (fun _ _ => rfl),
      foldl_unchanged (g := withFile c project) (·.store.readOnly) withFile_readOnly]
  · rw [foldl_unchanged (g := withComponent c project) (·.store.missingIndex?) (fun _ _ => rfl),
      foldl_unchanged (g := withFile c project) (·.store.missingIndex?) withFile_missingIndex?]

end Effect

variable {c : SyncConfig} {key now : String} {s stored : Store} {e : Effect} {w : Work}
  {provider : Option Provider}

theorem finish_run (hw : e.store.readOnly = false) (hindex : e.store.missingIndex? = none) :
    (finish key now).run (e.progress stored) =
      .ok () ((e.withStore (e.finished key now)).progress stored) := by
  have hw' : e.store.reindexed.readOnly = false := hw
  rw [finish, bind_ok (statement_run (Store.rebuildIndex_indexed hw hindex))]
  refine (bind_ok (show EStateM.run get _ = .ok _ _ from rfl)).trans (change_run ?_)
  change e.store.reindexed.recordEvent _ _ _ _ = _
  rw [Store.recordEvent, Store.writing, if_neg (Bool.eq_false_iff.1 hw')]
  rfl

theorem finish_missing {i : TextIndex} (hw : e.store.readOnly = false)
    (hindex : e.store.missingIndex? = some i) :
    ∃ q, (finish key now).run (e.progress stored) =
      .error (.database .rebuildIndex (.missingTable i.table)) q := by
  refine ⟨(e.withStore (e.store.rebuiltBefore i)).progress stored, ?_⟩
  rw [finish, bind_error]
  simp [statement, EStateM.run, Effect.progress, Effect.withStore, Connection.seen, Connection.leave,
    Store.rebuildIndex_missing hw hindex]

/-- The start of a run, in its transaction. -/
def begun (s : Store) (provider : Option Provider) : Progress :=
  { Progress.start s provider with link := (Progress.start s provider).link.begun }

theorem body_refused {failure : Failure} (h : (s.clearProject key).1 = .error failure) :
    (body w c key now).run (begun s provider) =
      .error failure ⟨⟨s, some (s.clearProject key).2⟩, .start provider, .zero, none⟩ := by
  rw [body, bind_error]
  simp [statement, EStateM.run, begun, Progress.start, Connection.seen, Connection.leave,
    Connection.begun, Connection.idle, h]

/-- Where the old rows can be taken out, a run gets as far as its last statements. -/
theorem body_run (hw : s.readOnly = false) (hfree : ¬ s.HeldByOthers key) :
    (body w c key now).run (begun s provider) =
      (finish key now).run
        (((Effect.start s key provider).complete c key w).progress s) := by
  have hclear : (statement (·.clearProject key)).run (begun s provider) =
      .ok () ⟨⟨s, some (s.cleared key)⟩, .start provider, .zero, none⟩ := by
    simp [statement, EStateM.run, begun, Progress.start, Connection.seen, Connection.leave,
      Connection.begun, Connection.idle, Store.clearProject_free hw hfree]
  have hfiles : (w.files.foldl (Effect.withFile c key)
      (Effect.start s key provider)).store.readOnly = false :=
    (foldl_unchanged (·.store.readOnly) Effect.withFile_readOnly _ _).trans hw
  have hcomponents : (w.components.foldl (Effect.withComponent c key)
      (w.files.foldl (Effect.withFile c key)
        (Effect.start s key provider))).store.readOnly = false :=
    (foldl_unchanged (g := Effect.withComponent c key) (·.store.readOnly)
      (fun _ _ => rfl) _ _).trans hfiles
  rw [body, bind_ok hclear, bind_ok (show startAnnouncing.run _ =
    .ok () ((Effect.start s key provider).progress s) from rfl), bind_ok (addFiles_run _ hw),
    bind_ok (addComponents_run _ hfiles), bind_ok (prune_run w hcomponents)]
  rfl

/-! ## What stands in the way -/

/-- What stands in the way of a run that has the given work to do, and how the run then fails. -/
inductive Blocked (s : Store) (key : String) : Except PatternRefusal Work → Failure → Prop
  /-- A pattern is refused. -/
  | pattern (refusal : PatternRefusal) : Blocked s key (.error refusal) (.pattern refusal)
  /-- The index is open for reading only. -/
  | readOnly (w : Work) (h : s.readOnly = true) :
    Blocked s key (.ok w) (.database .clearSymbols .readOnly)
  /-- An old chunk is referred to by a symbol of another project. -/
  | held (w : Work) (hw : s.readOnly = false) (h : s.HeldByOthers key) :
    Blocked s key (.ok w) (.database .clearChunks .foreignKey)
  /-- A full-text index is not there. -/
  | noIndex (w : Work) (hw : s.readOnly = false) (hfree : ¬ s.HeldByOthers key) (i : TextIndex)
    (h : s.missingIndex? = some i) :
    Blocked s key (.ok w) (.database .rebuildIndex (.missingTable i.table))

/-- Nothing stands in the way of a run. -/
structure Free (s : Store) (key : String) : Prop where
  writable : s.readOnly = false
  unheld : ¬ s.HeldByOthers key
  indexed : s.missingIndex? = none

/-- Nothing stands in the way of a run where no symbol could refer to a chunk. -/
theorem free_of_no_symbols (hw : s.readOnly = false) (hsymbols : s.symbols.toList = [])
    (hindex : s.missingIndex? = none) : Free s key := by
  refine ⟨hw, ?_, hindex⟩
  rintro ⟨r, -, y, hy, -⟩
  rw [hsymbols] at hy
  cases hy

/-- A run whose body fails leaves the index as it was. -/
theorem runWork_error {failure : Failure}
    (h : ∃ q, (body w c key now).run (begun s provider) = .error failure q) :
    (runWork w c key now provider s).outcome = .error failure ∧
      (runWork w c key now provider s).store = s := by
  obtain ⟨q, hq⟩ := h
  have hrun := transaction_of_error (p := Progress.start s provider) hq
  have hlink := transaction_error (p := Progress.start s provider) (body_keeps (isolated_kept s) w now) hq
  rw [runWork, show transaction (body w c key now) (.start s provider) = _ from hrun]
  exact ⟨rfl, congrArg Connection.stored hlink⟩

theorem runWork_blocked {failure : Failure} (h : Blocked s key (.ok w) failure) :
    (runWork w c key now provider s).outcome = .error failure ∧
      (runWork w c key now provider s).store = s := by
  refine runWork_error ?_
  cases h with
  | readOnly _ h => exact ⟨_, body_refused (by simp [Store.clearProject, h])⟩
  | held _ hw h => exact ⟨_, body_refused (by rw [Store.clearProject_held hw h])⟩
  | noIndex _ hw hfree i h =>
    obtain ⟨hr, hindex⟩ := Effect.complete_access (c := c) w (.start s key provider)
    rw [body_run hw hfree]
    exact finish_missing (hr.trans hw) (hindex.trans h)

theorem runWork_free (h : Free s key) :
    let e := (Effect.start s key provider).complete c key w
    runWork w c key now provider s =
      ⟨some e.announced, .ok e.stats, e.finished key now, e.embedder.provider⟩ := by
  intro e
  obtain ⟨hr, hindex⟩ := Effect.complete_access w (.start s key provider)
  have hbody : (body w c key now).run (begun s provider) =
      .ok () ((e.withStore (e.finished key now)).progress s) := by
    rw [body_run h.writable h.unheld]
    exact finish_run (hr.trans h.writable) (hindex.trans h.indexed)
  have hrun := transaction_of_ok (p := Progress.start s provider) hbody
  rw [runWork, show transaction (body w c key now) (.start s provider) = _ from hrun]
  rfl

theorem blocked_or_free (s : Store) (key : String) (w : Work) :
    (∃ failure, Blocked s key (.ok w) failure) ∨ Free s key := by
  by_cases hr : s.readOnly = true
  · exact .inl ⟨_, .readOnly w hr⟩
  rw [Bool.not_eq_true] at hr
  by_cases hheld : s.HeldByOthers key
  · exact .inl ⟨_, .held w hr hheld⟩
  cases hindex : s.missingIndex? with
  | none => exact .inr ⟨hr, hheld, hindex⟩
  | some i => exact .inl ⟨_, .noIndex w hr hheld i hindex⟩

/-! ## Runs -/

section Runs

variable {β : Type} {project : Project β}

theorem run_blocked {failure : Failure} (h : Blocked s key (work project c) failure) :
    (run project c key now provider s).outcome = .error failure ∧
      (run project c key now provider s).store = s := by
  rw [run]
  cases hwork : work project c with
  | error refusal =>
    rw [hwork] at h
    cases h
    exact ⟨rfl, rfl⟩
  | ok w =>
    rw [hwork] at h
    exact runWork_blocked h

theorem run_free (hwork : work project c = .ok w) (h : Free s key) :
    let e := (Effect.start s key provider).complete c key w
    run project c key now provider s =
      ⟨some e.announced, .ok e.stats, e.finished key now, e.embedder.provider⟩ := by
  rw [run, hwork]
  exact runWork_free h

/-- A run is blocked or there is work and nothing in the way of it. -/
theorem run_cases (project : Project β) (c : SyncConfig) (s : Store) (key : String) :
    (∃ failure, Blocked s key (work project c) failure) ∨
      ∃ w, work project c = .ok w ∧ Free s key := by
  cases hwork : work project c with
  | error refusal => exact .inl ⟨_, .pattern refusal⟩
  | ok w =>
    rcases blocked_or_free s key w with hblocked | hfree
    · exact .inl hblocked
    · exact .inr ⟨w, rfl, hfree⟩

/-- **A run fails exactly where something stands in its way**, and for that reason. -/
theorem run_error_iff {failure : Failure} :
    (run project c key now provider s).outcome = .error failure ↔
      Blocked s key (work project c) failure := by
  refine ⟨fun h => ?_, fun h => (run_blocked h).1⟩
  rcases run_cases project c s key with ⟨reason, hblocked⟩ | ⟨w, hwork, hfree⟩
  · rw [(run_blocked hblocked).1] at h
    cases h
    exact hblocked
  · rw [run_free hwork hfree] at h
    cases h

theorem run_ok {stats : SyncStats}
    (h : (run project c key now provider s).outcome = .ok stats) :
    ∃ w, work project c = .ok w ∧ Free s key ∧
      (run project c key now provider s).store =
        ((Effect.start s key provider).complete c key w).finished key now := by
  rcases run_cases project c s key with ⟨reason, hblocked⟩ | ⟨w, hwork, hfree⟩
  · rw [(run_blocked hblocked).1] at h
    cases h
  · refine ⟨w, hwork, hfree, ?_⟩
    rw [run_free hwork hfree]

/-- **A failed run changes nothing.** Wherever it ends, be it for a pattern, at the first, a middle or
the last of its statements, the index is the one before it: every row of every project, the full-text
indexes and the numbers that rows get next. -/
theorem failed_run_changes_nothing {failure : Failure}
    (h : (run project c key now provider s).outcome = .error failure) :
    (run project c key now provider s).store = s ∧ Blocked s key (work project c) failure :=
  ⟨(run_blocked (run_error_iff.1 h)).2, run_error_iff.1 h⟩

end Runs

namespace Sample

/-- A chunk of two lines that declares a class. -/
def chunk : Chunk :=
  ⟨"a.ts", 0, "class A \x7b\n\x7d", .typescript, .classType, some "A", none, 1, 2, ["A"]⟩

/-- An index with that chunk. -/
def store : Store := Store.created.addChunk "shop" chunk none

/-- The same index with a symbol of the project, and one of another project, that refer to the chunk. -/
def heldStore : Store := (store.addSymbol "shop" "A" chunk 1).addSymbol "mirror" "A" chunk 1

/-- A project with one file. -/
def project : Project String := ⟨⟨[(["a.txt"], .file "one\n")]⟩, [], some⟩

/-- A configuration that finds it. -/
def config : SyncConfig := { patterns := ["a.txt"], componentPatterns := [] }

end Sample

/-- The symbol of the project has been taken out when that of the other project stops the run; then it
is there again. -/
theorem failed_run_changes_nothing_held :
    (Sample.heldStore.clearProject "shop").2 ≠ Sample.heldStore ∧
      (run Sample.project Sample.config "shop" "now" none Sample.heldStore).outcome =
        .error (.database .clearChunks .foreignKey) ∧
      (run Sample.project Sample.config "shop" "now" none Sample.heldStore).store =
        Sample.heldStore := by
  have h : (run Sample.project Sample.config "shop" "now" none Sample.heldStore).outcome =
      .error (.database .clearChunks .foreignKey) := rfl
  exact ⟨by decide, h, (failed_run_changes_nothing h).1⟩

end Sync

end CodeIndex
