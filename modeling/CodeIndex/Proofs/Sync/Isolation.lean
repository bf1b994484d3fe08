import CodeIndex.Proofs.Sync.Outcome

/-!
Projects that share an index do not touch one another.

All tables hold rows of any number of projects. `Store.rowsOf` are the rows of one of them with their
numbers, and each change that is made on behalf of a project leaves the rows of every other one as they
are (`Store.rowsOf_cleared`, `Store.rowsOf_putComponent`, …). So do the steps of a run one after another,
and so does a run that is rolled back.

* `run_keeps_others`: a run for one project, however it ends, leaves all rows of another.
-/
namespace CodeIndex

variable {ρ : Type}

/-- Taking out rows that fail a test leaves those for which it follows from another test. -/
theorem Table.select_keep_of_imp {test kept : ρ → Bool} (h : ∀ r, test r = true → kept r = true)
    (t : Table ρ) : (t.keep kept).select test = t.select test := by
  rw [select, keep, List.filter_filter]
  refine List.filter_congr fun r _ => ?_
  cases htest : test r.row with
  | false => rfl
  | true => rw [h _ htest]; rfl

theorem Table.select_insert_of_not {test : ρ → Bool} {row : ρ} (h : test row = false)
    (t : Table ρ) : (t.insert row).select test = t.select test := by
  simp [select, insert, h]

/-- The rows of a project, with their numbers where rows have numbers. -/
structure ProjectRows where
  chunks : List (Numbered ChunkRow)
  symbols : List (Numbered SymbolRow)
  components : List (Numbered ComponentRow)
  files : List FileRow
  events : List (Numbered EventRow)

namespace Store

/-- The rows of a project in an index. -/
def rowsOf (s : Store) (project : String) : ProjectRows where
  chunks := s.chunks.select (·.project == project)
  symbols := s.symbols.select (·.project == project)
  components := s.components.select (·.project == project)
  files := s.files.filter (·.project == project)
  events := s.events.select (·.project == project)

/-! ## Changes on behalf of a project -/

variable {key other : String}

theorem rowsOf_cleared (h : key ≠ other) (s : Store) :
    (s.cleared key).rowsOf other = s.rowsOf other := by
  have hkept : ∀ project : String, (project == other) = true → (project != key) = true := by
    rintro project hproject
    rw [beq_iff_eq] at hproject
    simpa [hproject] using h.symm
  simp only [rowsOf, cleared, Table.select_keep_of_imp fun r => hkept _]

theorem rowsOf_addChunk (h : key ≠ other) (s : Store) (c : Chunk) (embedding : Option Embedding) :
    (s.addChunk key c embedding).rowsOf other = s.rowsOf other := by
  rw [rowsOf, addChunk, Table.select_insert_of_not (by simpa [ChunkRow.ofChunk] using h), rowsOf]

theorem rowsOf_addSymbol (h : key ≠ other) (s : Store) (name : String) (c : Chunk) (id : Nat) :
    (s.addSymbol key name c id).rowsOf other = s.rowsOf other := by
  rw [rowsOf, addSymbol, Table.select_insert_of_not (by simpa [SymbolRow.ofChunk] using h), rowsOf]

/-- The component that goes is one of the project for which another one comes. -/
theorem rowsOf_putComponent (h : key ≠ other) (s : Store) (c : Component)
    (embedding : Option Embedding) :
    (s.putComponent key c embedding).rowsOf other = s.rowsOf other := by
  have hkept : ∀ r : ComponentRow, (r.project == other) = true →
      (!r.isFor key c.filePath) = true := by
    intro r hr
    rw [beq_iff_eq] at hr
    simp [ComponentRow.isFor, hr, h.symm]
  rw [rowsOf, putComponent, Table.select_insert_of_not (by simpa using h),
    Table.select_keep_of_imp hkept, rowsOf]

theorem rowsOf_putFile (h : key ≠ other) (s : Store) (f : FileRecord) :
    (s.putFile key f).rowsOf other = s.rowsOf other := by
  have hfiles : (s.putFile key f).files.filter (·.project == other) =
      s.files.filter (·.project == other) := by
    have hnew : [FileRow.ofRecord key f].filter (·.project == other) = [] := by
      simpa [FileRow.ofRecord] using h
    rw [putFile, List.filter_append, hnew, List.append_nil, List.filter_filter]
    refine List.filter_congr fun r _ => ?_
    by_cases hr : r.project = other
    · simp [FileRow.isFor, hr, h.symm]
    · simp [hr]
  rw [rowsOf, hfiles]
  rfl

theorem rowsOf_dropStaleFiles (h : key ≠ other) (s : Store) (keep : List String) :
    (s.dropStaleFiles key keep).rowsOf other = s.rowsOf other := by
  have hfiles : (s.dropStaleFiles key keep).files.filter (·.project == other) =
      s.files.filter (·.project == other) := by
    rw [dropStaleFiles, List.filter_filter]
    refine List.filter_congr fun r _ => ?_
    by_cases hr : r.project = other
    · simp [hr, h.symm]
    · simp [hr]
  rw [rowsOf, hfiles]
  rfl

theorem rowsOf_addEvent (h : key ≠ other) (s : Store) (time kind stats : String) :
    (s.addEvent key time kind stats).rowsOf other = s.rowsOf other := by
  rw [rowsOf, addEvent, Table.select_insert_of_not (by simpa using h), rowsOf]

end Store

namespace Sync

variable {c : SyncConfig} {key other : String}

/-! ## Steps -/

namespace Effect

theorem rowsOf_withChunk (h : key ≠ other) (e : Effect) (chunk : Chunk) :
    (e.withChunk c key chunk).store.rowsOf other = e.store.rowsOf other := by
  refine (foldl_unchanged (g := withSymbol key chunk e.store.chunks.next) (·.store.rowsOf other)
    (fun e name => Store.rowsOf_addSymbol h e.store name chunk _) _ _).trans ?_
  exact Store.rowsOf_addChunk h e.store chunk _

theorem rowsOf_withFile (h : key ≠ other) (e : Effect) (file : String × Option String) :
    (e.withFile c key file).store.rowsOf other = e.store.rowsOf other := by
  obtain ⟨relative, text⟩ := file
  cases text with
  | none => rfl
  | some text =>
    exact (foldl_unchanged (·.store.rowsOf other) (rowsOf_withChunk h) _ _).trans
      (Store.rowsOf_putFile h e.store _)

theorem rowsOf_withComponent (h : key ≠ other) (e : Effect) (file : Component × Option String) :
    (e.withComponent c key file).store.rowsOf other = e.store.rowsOf other :=
  Store.rowsOf_putComponent h e.store file.1 _

theorem rowsOf_pruned (h : key ≠ other) (w : Work) (e : Effect) :
    (e.pruned c key w).store.rowsOf other = e.store.rowsOf other := by
  unfold pruned
  split
  · exact Store.rowsOf_dropStaleFiles h e.store w.paths
  · rfl

theorem rowsOf_complete (h : key ≠ other) (w : Work) (e : Effect) :
    (e.complete c key w).store.rowsOf other = e.store.rowsOf other := by
  rw [complete, rowsOf_pruned h, foldl_unchanged (·.store.rowsOf other) (rowsOf_withComponent h),
    foldl_unchanged (·.store.rowsOf other) (rowsOf_withFile h)]

end Effect

/-! ## Runs -/

/-- **A run leaves other projects alone.** Whatever there is in the index and in the files, and whether
the run succeeds or is rolled back, every row of another project is there with its number, and no row
has come to it. -/
theorem run_keeps_others {β : Type} (project : Project β) (c : SyncConfig) (now : String)
    (provider : Option Provider) (s : Store) (h : key ≠ other) :
    (run project c key now provider s).store.rowsOf other = s.rowsOf other := by
  rcases run_cases project c s key with ⟨failure, hblocked⟩ | ⟨w, hwork, hfree⟩
  · rw [(run_blocked hblocked).2]
  · rw [run_free hwork hfree]
    calc (((Effect.start s key provider).complete c key w).finished key now).rowsOf other
      _ = ((Effect.start s key provider).complete c key w).store.rowsOf other :=
        Store.rowsOf_addEvent h _ _ _ _
      _ = (s.cleared key).rowsOf other := Effect.rowsOf_complete h w _
      _ = s.rowsOf other := Store.rowsOf_cleared h s

namespace Sample

/-- The index with a chunk of one project, and rows of another one in every table. -/
def sharedStore : Store :=
  ((((store.addChunk "mirror" chunk none).addSymbol "mirror" "A" chunk 2).putComponent "mirror"
    ⟨"A", .component, "a.ts"⟩ none).putFile "mirror" ⟨"a.ts", "typescript", 11, ""⟩).addEvent
      "mirror" "before" "sync" "\x7b\x7d"

end Sample

/-- The run succeeds and takes out the chunk of its project; the rows of the other project are there,
among them the symbol with the number of its chunk. -/
theorem run_keeps_others_shared :
    let r := run Sample.project Sample.config "shop" "now" none Sample.sharedStore
    (∃ stats, r.outcome = .ok stats) ∧ r.store.chunks.find? 1 = none ∧
      (r.store.rowsOf "mirror").chunks = [⟨2, .ofChunk "mirror" Sample.chunk none⟩] ∧
      (r.store.rowsOf "mirror").symbols = [⟨1, .ofChunk "mirror" "A" Sample.chunk 2⟩] ∧
      (r.store.rowsOf "mirror").files = [⟨"mirror", "a.ts", "typescript", 11, ""⟩] := by
  intro r
  have hkept : r.store.rowsOf "mirror" = Sample.sharedStore.rowsOf "mirror" :=
    run_keeps_others _ _ _ _ _ (by decide)
  obtain ⟨w, hwork⟩ : ∃ w, work Sample.project Sample.config = .ok w := ⟨_, rfl⟩
  have hfree : Free Sample.sharedStore "shop" := by
    refine ⟨rfl, ?_, rfl⟩
    rintro ⟨x, hx, y, hy, -, hid⟩
    obtain rfl := List.mem_singleton.1 hx
    obtain rfl := List.mem_singleton.1 hy
    cases hid
  refine ⟨⟨_, congrArg Report.outcome (run_free hwork hfree)⟩, by decide +kernel, ?_⟩
  rw [hkept]
  decide

end Sync

end CodeIndex
