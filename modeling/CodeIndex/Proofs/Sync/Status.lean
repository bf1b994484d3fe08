import CodeIndex.Proofs.Json.Written
import CodeIndex.Proofs.Source.Declaration
import CodeIndex.Proofs.Sync.Counts
import CodeIndex.Store.Status
import Mathlib.Algebra.BigOperators.Group.List.Lemmas

/-!
What an index says of a project after a run.

The counts of a run are bumped one by one while it goes, and the numbers of an index are counted in its
tables. They agree, whatever the index held before and whatever the provider does.

* `SyncStats.ofJson?_toJson`, `SyncStats.parse?_compact_toJson`: counts are read back from the log;
* `Store.sum_tally`: the numbers of a breakdown add up to the whole;
* `Sync.status_reports_counts`: after a run the numbers of the project are its counts.
-/
namespace CodeIndex

/-! ## Counts in the log -/

theorem Json.size?_nat {n : Nat} (h : n < 2 ^ 64) : size? (nat n) = some n := by
  rw [size?, nat, natBelow?, if_pos, Int.toNat_natCast]
  simp only [Bool.and_eq_true, decide_eq_true_eq]
  exact ⟨Int.natCast_nonneg n, Int.ofNat_lt.2 h⟩

theorem Record.required_of_mem {α β : Type} {r : Record β} (hnodup : (r.fields.map (·.1)).Nodup)
    {name : String} {b : β} (h : (name, b) ∈ r.fields) (read : β → Option α) :
    r.required name read = read b := by
  obtain ⟨field, hfield⟩ : ∃ field, r.fields.reverse.find? (·.1 == name) = some field :=
    Option.isSome_iff_exists.1 (List.find?_isSome.2 ⟨_, List.mem_reverse.2 h, beq_self_eq_true _⟩)
  have hname : field.1 = name := by simpa using List.find?_some hfield
  have hmem := List.mem_reverse.1 (List.mem_of_find?_eq_some hfield)
  rw [required, get?, hfield, List.inj_on_of_nodup_map hnodup hmem h hname]
  rfl

namespace SyncStats

/-- The counts in order of the names of the fields. -/
def counts (n : SyncStats) : List Nat :=
  [n.files, n.chunks, n.symbols, n.components, n.embeddings, n.skippedFiles, n.prunedFiles]

/-- Every count is a word of 64 bits. -/
def InWords (n : SyncStats) : Prop := ∀ x ∈ n.counts, x < 2 ^ 64

variable {n : SyncStats}

theorem ofJson?_of_required {j : Json} {r : Record Json} (hr : Record.ofJson? fieldNames j = some r)
    (h : ∀ field ∈ fieldNames.zip n.counts, r.required field.1 Json.size? = some field.2) :
    ofJson? j = some n := by
  simp only [fieldNames, counts, List.zip_cons_cons, List.zip_nil_right, List.forall_mem_cons] at h
  obtain ⟨hfiles, hchunks, hsymbols, hcomponents, hembeddings, hskipped, hpruned, -⟩ := h
  simp only [ofJson?, hr, Option.bind_eq_bind, Option.bind_some, hfiles, hchunks, hsymbols,
    hcomponents, hembeddings, hskipped, hpruned, Option.pure_def]

theorem ofJson?_toJson (h : n.InWords) : ofJson? n.toJson = some n := by
  refine ofJson?_of_required (r := ⟨true, fieldNames.zip (n.counts.map .nat)⟩) rfl
    fun field hfield => ?_
  have hwritten : (field.1, Json.nat field.2) ∈ fieldNames.zip (n.counts.map .nat) := by
    rw [List.zip_map_right]
    exact List.mem_map.2 ⟨field, hfield, rfl⟩
  have hnames : ((fieldNames.zip (n.counts.map Json.nat)).map (·.1)).Nodup :=
    show fieldNames.Nodup by decide
  rw [Record.required_of_mem hnames hwritten]
  exact Json.size?_nat (h field.2 (List.of_mem_zip hfield).2)

theorem exact_toJson (h : n.InWords) : Json.Exact 1 n.toJson := by
  have hmembers : n.toJson = .obj (fieldNames.zip (n.counts.map .nat)) := rfl
  rw [hmembers]
  refine .obj fun m hm => ?_
  obtain ⟨x, hx, hm⟩ := List.mem_map.1 (List.of_mem_zip hm).2
  have hword := h x hx
  rw [← hm]
  exact .int (by omega) (by omega)

theorem parse?_compact_toJson (h : n.InWords) : Json.parse? n.toJson.compact = some n.toJson :=
  Json.parse?_compact (exact_toJson h) (by decide)

end SyncStats

/-! ## Breakdowns and the log -/

namespace Store

theorem sum_tally (names : List String) : ((tally names).map (·.2)).sum = names.length := by
  have hnames : (names.eraseDups.mergeSort (· ≤ ·)).Perm names.dedup :=
    (List.mergeSort_perm _ _).trans <| (List.perm_ext_iff_of_nodup (Declaration.nodup_eraseDups _)
      (List.nodup_dedup _)).2 fun name => by rw [List.mem_eraseDups, List.mem_dedup]
  rw [tally, List.map_map, ← List.sum_map_count_dedup_eq_length names]
  exact (hnames.map _).sum_eq

theorem lastSync?_addEvent (s : Store) (project time kind stats : String) :
    (s.addEvent project time kind stats).lastSync? project =
      some ⟨time, kind, (Json.parse? stats).getD .null⟩ := by
  simp [lastSync?, addEvent, Table.select, Table.insert, List.filter_append]

end Store

namespace Sync

variable {c : SyncConfig} {key now : String} {s : Store} {w : Work}

/-- The numbers of a project after all has been done are those of its new rows. -/
theorem status_finished (key now : String) (s : Store) (provider : Option Provider)
    (hpaths : (w.components.map (·.1.filePath)).Nodup) :
    let e := (Effect.start s key provider).complete c key w
    let status := (e.finished key now).status key
    let chunks := chunkRows c key (.start provider) (w.chunks c)
    let components := componentRows c key (afterChunks c (.start provider) (w.chunks c)) w.components
    status.chunks = chunks.length ∧ status.embeddedChunks = embeddedChunks chunks ∧
      status.symbols = (symbolRows key s.chunks.next (w.chunks c)).length ∧
      status.components = components.length ∧
      status.embeddedComponents = embeddedComponents components := by
  intro e status chunks components
  have hchunks : (e.finished key now).chunks.toList.filter (·.project == key) = chunks := by
    rw [finished_chunks provider now hpaths]
    exact filter_replaced fun _ => project_chunkRows
  have hsymbols : (e.finished key now).symbols.toList.filter (·.project == key) =
      symbolRows key s.chunks.next (w.chunks c) := by
    rw [finished_symbols provider now hpaths]
    exact filter_replaced fun _ => project_symbolRows
  have hcomponents : (e.finished key now).components.toList.filter (·.project == key) =
      components := by
    rw [finished_components provider now hpaths]
    exact filter_replaced fun _ => project_componentRows
  simp only [status, Store.status, hchunks, hsymbols, hcomponents, embeddedChunks, embeddedComponents,
    and_self]

/-- **After a run the numbers of a project are its counts**, whatever the index held before and whatever
the provider did: of chunks, symbols and components, and of those with a vector. The breakdowns add up to
them, and the last entry of the log is for the run and is read back as its counts, which are words of 64
bits. -/
theorem status_reports_counts {β : Type} {project : Project β} {provider : Option Provider}
    {stats : SyncStats} (h : (run project c key now provider s).outcome = .ok stats) :
    let status := (run project c key now provider s).store.status key
    status.chunks = stats.chunks ∧ status.symbols = stats.symbols ∧
      status.components = stats.components ∧
      status.embeddedChunks + status.embeddedComponents = stats.embeddings ∧
      (status.languages.map (·.2)).sum = status.chunks ∧
      (status.symbolKinds.map (·.2)).sum = status.symbols ∧
      ∃ last, status.lastSync = some last ∧ last.time = now ∧ last.kind = "sync" ∧
        (stats.InWords → SyncStats.ofJson? last.stats = some stats) := by
  obtain ⟨w, hwork, hfree, -⟩ := run_ok h
  have hpaths := work_components_nodup hwork
  rw [run_free hwork hfree] at h ⊢
  cases h
  obtain ⟨hchunks, hembedded, hsymbols, hcomponents, hembedded'⟩ :=
    status_finished (c := c) key now s provider hpaths
  intro status
  refine ⟨?_, ?_, ?_, ?_, ?_, ?_, ?_⟩
  · rw [hchunks, complete_stats, unpruned_stats]
    exact length_chunkRows _ _
  · rw [hsymbols, complete_stats, unpruned_stats]
    exact length_symbolRows _ _ _
  · rw [hcomponents, complete_stats, unpruned_stats]
    exact length_componentRows _ _
  · rw [hembedded, hembedded', complete_stats, unpruned_stats]
  · exact (Store.sum_tally _).trans (List.length_map _)
  · exact (Store.sum_tally _).trans (List.length_map _)
  · refine ⟨_, Store.lastSync?_addEvent _ key now eventKind _, rfl, rfl, fun hwords => ?_⟩
    rw [SyncStats.parse?_compact_toJson hwords]
    exact SyncStats.ofJson?_toJson hwords

/-- The chunks and symbols of two files and a component are counted, all with vectors but the symbols, and the
log says so. -/
theorem status_reports_counts_sample :
    let status := Sample.shopReport.store.status "shop"
    let stats : SyncStats := ⟨2, 2, 2, 1, 3, 0, 0⟩
    Sample.shopReport.outcome = .ok stats ∧ status.chunks = 2 ∧ status.symbols = 2 ∧
      status.components = 1 ∧ status.embeddedChunks + status.embeddedComponents = 3 ∧
      (status.languages.map (·.2)).sum = 2 ∧ (status.symbolKinds.map (·.2)).sum = 2 ∧
      ∃ last, status.lastSync = some last ∧ last.time = "now" ∧
        SyncStats.ofJson? last.stats = some stats := by
  intro status stats
  have hrun : Sample.shopReport = _ := run_free Sample.work_shop Sample.free_store
  have h : (run Sample.shop Sample.shopConfig "shop" "now" (some Sample.steady) Sample.store).outcome =
      .ok stats := by
    refine (congrArg Report.outcome hrun).trans (congrArg Except.ok ?_)
    decide +kernel
  obtain ⟨hchunks, hsymbols, hcomponents, hembeddings, hlanguages, hkinds, last, hlast, htime, -, hread⟩ :=
    status_reports_counts h
  exact ⟨h, hchunks, hsymbols, hcomponents, hembeddings, hlanguages.trans hchunks, hkinds.trans hsymbols,
    last, hlast, htime, hread (by simp [SyncStats.InWords, SyncStats.counts, stats])⟩

end Sync

end CodeIndex
