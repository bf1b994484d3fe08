import CodeIndex.Proofs.Sync.Files

/-!
One key for one path.

A file is recorded under the key of its path, and its chunks are kept under the key of that key. Since a key
is its own key and tells all paths apart, both are the same text and belong to one path only.

* `Discovered.path` is the path of a file from the project as it is before it is put in the form it is kept
  in, and `Project.existsUnique_file`: of the files that patterns match each path is found once;
* `Keyed` says what a run leaves of the paths of files, and `run_keyed` that a run does so.
-/
namespace CodeIndex

open Discovery

/-- The path of a file from the project. -/
def Discovered.path (d : Discovered) : String := "/".intercalate (significant d.below)

/-- The components of the path of a file. -/
def Discovered.components (d : Discovered) : List Path.Component := Path.components d.path.toList

namespace Project

variable {β : Type} {project : Project β} {c : SyncConfig} {files : List Discovered}

theorem relative_of_mem_matching {t : Tree β} {root : Place} {excludeDirs : List String}
    {pattern : String} {found : List Discovered}
    (h : matching t root excludeDirs pattern = .ok found) {d : Discovered} (hd : d ∈ found) :
    d.relative = Path.key d.path := by
  obtain ⟨g, -, hmatched⟩ := matched_of_mem h hd
  exact hmatched.relative

theorem relative_of_mem_files (h : project.files c = .ok files) {d : Discovered} (hd : d ∈ files) :
    d.relative = Path.key d.path := by
  obtain ⟨pattern, -, found, hfound, hd⟩ := exists_matching_of_mem_files h hd
  exact relative_of_mem_matching hfound hd

theorem existsUnique_file (h : project.files c = .ok files) {pattern : String}
    (hpattern : pattern ∈ c.patterns) {found : List Discovered}
    (hfound : matching project.tree project.root c.excludeDirs pattern = .ok found) {d : Discovered}
    (hd : d ∈ found) : ∃! e, e ∈ files ∧ e.components = d.components := by
  have hsome : ∃ e ∈ files, e.relative = d.relative := by
    obtain ⟨lists, hlists, hfiles⟩ := eq_ok_of_bind h
    cases hfiles
    refine exists_mem_firstByPath _ ?_ List.not_mem_nil
    exact List.mem_flatten.2 ⟨found, mem_of_mem_mapM_ok hlists hpattern hfound, hd⟩
  obtain ⟨e, he, heq⟩ := hsome
  have hcomponents : e.components = d.components := by
    rwa [relative_of_mem_files h he, relative_of_mem_matching hfound hd, Path.key_eq_key_iff] at heq
  refine ⟨e, ⟨he, hcomponents⟩, fun e' ⟨he', hsame⟩ => ?_⟩
  refine List.inj_on_of_nodup_map (files_nodup h) he' he ?_
  rw [relative_of_mem_files h he', relative_of_mem_files h he]
  exact Path.key_eq_key_iff.2 (hsame.trans hcomponents.symm)

end Project

namespace Sync

variable {β : Type} {project : Project β} {c : SyncConfig} {key now : String}
  {provider : Option Provider} {s : Store} {stats : SyncStats}

/-! ## Paths in rows -/

theorem Replaced.chunkPaths {chunks : List Chunk} {components : List Component} {s' : Store}
    (h : Replaced key chunks components s s') :
    (s'.rowsOf key).chunks.map (·.row.filePath) = chunks.map (·.filePath) := by
  have hrows := congrArg (List.map fun r => r.row.filePath) h.newChunks
  have hnumbered := congrArg (List.map ChunkRow.filePath)
    (map_row_numbered s.chunks.next (chunks.map (ChunkRow.ofChunk key · none)))
  rw [List.map_map, List.map_map] at hnumbered
  rw [List.map_map] at hrows
  exact hrows.trans hnumbered

theorem filePaths_of_files {files : List Discovered} (h : project.files c = .ok files) :
    (files.flatMap fun d => fileChunks c (d.relative, project.text? d)).map (·.filePath) =
      files.flatMap fun d =>
        (fileChunks c (d.relative, project.text? d)).map fun _ => d.relative := by
  rw [List.map_flatMap]
  refine List.flatMap_congr fun d hd => List.map_congr_left fun chunk hchunk => ?_
  rw [(filePath_of_mem_fileChunks hchunk).1, Project.files_key h d hd]

/-- What a run leaves of the paths of files. -/
structure Keyed (project : Project β) (c : SyncConfig) (key : String) (files : List Discovered)
    (s' : Store) : Prop where
  /-- A file is found under the key of its path. -/
  relative : ∀ d ∈ files, d.relative = Path.key d.path
  /-- It is recorded under that key if it can be read. -/
  records : ∀ d ∈ files, ∀ text, project.text? d = some text →
    ∃ r ∈ (s'.rowsOf key).files, r.filePath = d.relative ∧
      r = .ofRecord key (fileRecord d.relative text)
  /-- Its chunks, file by file, are kept under the same key. -/
  chunks : (s'.rowsOf key).chunks.map (·.row.filePath) =
    files.flatMap fun d => (fileChunks c (d.relative, project.text? d)).map fun _ => d.relative
  /-- Each path that patterns match is that of one file. -/
  apart : ∀ pattern ∈ c.patterns, ∀ found,
    matching project.tree project.root c.excludeDirs pattern = .ok found →
      ∀ d ∈ found, ∃! e, e ∈ files ∧ e.components = d.components

theorem run_keyed (h : (run project c key now provider s).outcome = .ok stats) :
    ∃ files, project.files c = .ok files ∧
      Keyed project c key files (run project c key now provider s).store := by
  obtain ⟨w, hwork, -, hstore⟩ := run_ok h
  obtain ⟨files, components, hfiles, -, hw, -⟩ := work_ok hwork
  have hchunks : w.chunks c =
      files.flatMap fun d => fileChunks c (d.relative, project.text? d) := by
    rw [Work.chunks, hw, List.flatMap_map]
  have hreplaced : Replaced key (w.chunks c) (w.components.map (·.1)) s
      (((Effect.start s key provider).complete c key w).finished key now) :=
    replaced_finished provider now (work_components_nodup hwork)
  refine ⟨files, hfiles, fun d hd => Project.relative_of_mem_files hfiles hd, ?_, ?_,
    fun pattern hpattern found hfound d hd =>
      Project.existsUnique_file hfiles hpattern hfound hd⟩
  · intro d hd text htext
    refine ⟨_, ?_, rfl, rfl⟩
    rw [hstore, finished_files provider now (work_paths_nodup hwork)]
    refine List.mem_append_right _ (List.mem_map_of_mem ?_)
    refine List.mem_filterMap.2 ⟨(d.relative, some text), ?_, rfl⟩
    rw [hw]
    exact List.mem_map.2 ⟨d, hd, by rw [htext]⟩
  · rw [hstore, hreplaced.chunkPaths, hchunks, filePaths_of_files hfiles]

/-- **A path has one key, and a key belongs to one path.** The key of a key is that key, and two paths have
one key if and only if they have the same components. So a run records each file that can be read under
the key of its path and keeps the chunks of the file under that same key, though the key is made anew for
them; and each path that the patterns match is that of one file, not merged with another one. -/
theorem one_key_for_one_path :
    (∀ p, Path.key (Path.key p) = Path.key p) ∧
    (∀ p q, Path.key p = Path.key q ↔ Path.components p.toList = Path.components q.toList) ∧
    ∀ {β : Type} (project : Project β) (c : SyncConfig) (key now : String)
      (provider : Option Provider) (s : Store) (stats : SyncStats),
      (run project c key now provider s).outcome = .ok stats →
      ∃ files, project.files c = .ok files ∧
        Keyed project c key files (run project c key now provider s).store :=
  ⟨Path.key_key, fun _ _ => Path.key_eq_key_iff, fun _ _ _ _ _ _ _ h => run_keyed h⟩

namespace Sample

/-- A project with one file. -/
def guide : Project String :=
  ⟨⟨[(["docs"], .dir), (["docs", "a.txt"], .file "one\n")]⟩, [], some⟩

/-- A configuration with two patterns for it, written in different ways. -/
def guideConfig : SyncConfig :=
  { patterns := ["./docs/*.txt", "docs//a.txt"], componentPatterns := [] }

end Sample

/-- Both patterns match the one file, and its record and its chunk have one path. -/
theorem one_key_for_one_path_guide :
    let report := run Sample.guide Sample.guideConfig "shop" "now" none Store.created
    (∃ stats, report.outcome = .ok stats) ∧
      "docs/a.txt" ∈ (report.store.rowsOf "shop").files.map (·.filePath) ∧
      (report.store.rowsOf "shop").chunks.map (·.row.filePath) = ["docs/a.txt"] := by
  intro report
  obtain ⟨w, hwork⟩ : ∃ w, work Sample.guide Sample.guideConfig = .ok w := ⟨_, rfl⟩
  have hfree : Free Store.created "shop" := free_of_no_symbols rfl rfl rfl
  have h : report.outcome = .ok _ := congrArg Report.outcome (run_free hwork hfree)
  obtain ⟨files, hfiles, hkeyed⟩ := one_key_for_one_path.2.2 _ _ _ _ _ _ _ h
  have hfound : Sample.guide.files Sample.guideConfig =
      .ok [⟨["docs", "a.txt"], "docs/a.txt"⟩] := by decide +kernel
  rw [hfound] at hfiles
  cases hfiles
  obtain ⟨r, hr, hpath, -⟩ := hkeyed.records _ List.mem_cons_self _ rfl
  refine ⟨⟨_, h⟩, List.mem_map.2 ⟨r, hr, hpath⟩, hkeyed.chunks.trans ?_⟩
  decide +kernel

end Sync

end CodeIndex
