import CodeIndex.Proofs.Search.Symbols
import CodeIndex.Proofs.Source.Layout
import CodeIndex.Proofs.Sync.Rows

/-!
The names that a file in TypeScript or JavaScript declares, from its text to the search for symbols.

A name is among the symbols of the one chunk that has the line where it is declared, and after a run the
search for the name finds it there (`declared_names_kept`). Only a header that goes over the end of its
chunk may be lost. The limits of a configuration are small enough for a run never to stop at a file
(`ofFile?_of_config`).
-/
namespace CodeIndex.Sync

open Text Text.Pattern Declaration Chunk

variable {limits : ChunkLimits} {key path content name : String} {s : Store} {chunk : Chunk}

/-- **A run does not stop at a file**: the limits of a configuration can be added to the lines of any text that
has a place in memory. -/
theorem ofFile?_of_config (c : SyncConfig) (path : String) {content : String}
    (h : content.utf8ByteSize < 2 ^ 63) :
    ofFile? c.chunkLimits path content = some (ofFile c.chunkLimits path content) := by
  have hlines : (lines content.toList).length ≤ content.utf8ByteSize := by
    rw [← String.ofList_toList (s := content), utf8ByteSize_ofList, String.toList_ofList]
    exact length_lines_le _
  have hscan : c.chunkLimits.scanLines < 2 ^ 63 := c.scanLines_lt
  exact ofFile?_of_lines (by omega)

/-- The index after a run that succeeded, over a project that has a file with the path and the text. -/
inductive Indexed (limits : ChunkLimits) (key path content : String) : Store → Prop
  | run {β : Type} {project : Project β} {c : SyncConfig} {now : String}
      {provider : Option Provider} {s : Store} {stats : SyncStats} {files : List Discovered}
      {d : Discovered} (hlimits : c.chunkLimits = limits) (hfiles : project.files c = .ok files)
      (hd : d ∈ files) (hpath : d.relative = path) (htext : project.text? d = some content)
      (hrun : (run project c key now provider s).outcome = .ok stats) :
      Indexed limits key path content (run project c key now provider s).store

theorem mem_symbolRows {first : Nat} {chunks : List Chunk} (hchunk : chunk ∈ chunks)
    (hname : name ∈ chunk.symbols) :
    ∃ id, SymbolRow.ofChunk key name chunk id ∈ symbolRows key first chunks := by
  obtain ⟨i, hi, rfl⟩ := List.mem_iff_getElem.1 hchunk
  have hmem : (chunks[i], first + i) ∈ chunks.zipIdx first := by
    refine List.mem_iff_getElem.2 ⟨i, by simpa using hi, ?_⟩
    simp
  exact ⟨first + i, List.mem_flatMap.2 ⟨_, hmem, List.mem_map_of_mem hname⟩⟩

theorem Indexed.symbol (h : Indexed limits key path content s)
    (hchunk : chunk ∈ ofFile limits path content) (hname : name ∈ chunk.symbols) :
    ∃ id, SymbolRow.ofChunk key name chunk id ∈ s.symbols.toList := by
  cases h with
  | @run β project c now provider s₀ stats files d hlimits hfiles hd hpath htext hrun =>
    obtain ⟨w, hwork, hreplaced⟩ := run_replaced hrun
    obtain ⟨files', -, hfiles', -, hwf, -⟩ := work_ok hwork
    obtain rfl : files' = _ := Except.ok.inj (hfiles'.symm.trans hfiles)
    have hmem : chunk ∈ w.chunks c := by
      rw [Work.chunks, hwf]
      refine List.mem_flatMap.2 ⟨_, List.mem_map_of_mem hd, ?_⟩
      rw [fileChunks, htext, hlimits, hpath]
      exact hchunk
    obtain ⟨id, hid⟩ := mem_symbolRows hmem hname
    have hrows := map_row_numbered s₀.symbols.next (symbolRows key s₀.chunks.next (w.chunks c))
    rw [← hrows, ← hreplaced.newSymbols] at hid
    obtain ⟨r, hr, hrow⟩ := List.mem_map.1 hid
    exact ⟨id, List.mem_map.2 ⟨r, List.mem_of_mem_filter hr, hrow⟩⟩

/-- The search for a name finds it in a chunk, as soon as the limit lets in all symbols of that name. -/
def FindsName (s : Store) (key name : String) (chunk : Chunk) : Prop :=
  ∀ (e : Enumeration) (limit : Nat), (s.symbolsNamed key name).length ≤ limit → limit < 2 ^ 63 →
    ∃ h ∈ s.symbolSearch e key name limit,
      Store.symbolKey h = (some name, chunk.filePath, some chunk.firstLine)

theorem Indexed.findsName (h : Indexed limits key path content s)
    (hlanguage : languageOf path = .typescript ∨ languageOf path = .javascript)
    (hchunk : chunk ∈ ofFile limits path content) (hname : name ∈ chunk.symbols) :
    FindsName s key name chunk := by
  intro e limit hcount hlimit
  obtain ⟨id, hid⟩ := h.symbol hchunk hname
  obtain ⟨hsome, hblank⟩ := not_blank_of_mem_symbols hlanguage chunk hchunk name hname
  exact Store.exists_hit_of_name e hid rfl rfl (trim_of_not_blank hblank) hsome hcount hlimit

/-- **No declared name of TypeScript or JavaScript is lost**, unless its header goes over the end of its
chunk. Where the limit of the scan can be added to the lines of all declarations, the file is cut into chunks.
One of them has the line on which the match of a name starts, and the name is among its symbols
if the pattern matches no newline or the chunk has the line on which the match stops; so it is with
the name of each chunk, which is declared on its first line. After a run the search for symbols finds
what is among them. -/
theorem declared_names_kept (limits : ChunkLimits) {path : String} (content : String)
    (hlanguage : languageOf path = .typescript ∨ languageOf path = .javascript)
    (hlimit : LimitFits typescript limits.scanLines content.toList) :
    ∃ chunks, ofFile? limits path content = some chunks ∧
      (∀ rule f name, Captures typescript content.toList rule f name →
        ∃ chunk ∈ chunks, chunk.hasLine (startLine content.toList f) ∧
          (∀ other ∈ chunks, other.hasLine (startLine content.toList f) → other = chunk) ∧
          chunk.Shows content.toList rule f name) ∧
      (∀ chunk ∈ chunks, ∃ rule f name,
        Captures typescript content.toList rule f name ∧ chunk.name = some name ∧
          chunk.firstLine = startLine content.toList f + 1 ∧
          chunk.Shows content.toList rule f name) ∧
      ∀ key s, Indexed limits key path content s →
        ∀ chunk ∈ chunks, ∀ name ∈ chunk.symbols, FindsName s key name chunk :=
  ⟨_, (ofFile?_eq_some_iff hlanguage).2 ⟨hlimit, rfl⟩,
    fun _ _ _ h => exists_chunk_of_captures hlanguage h, captures_of_mem_ofFile hlanguage,
    fun _ _ h _ hchunk _ hname => h.findsName hlanguage hchunk hname⟩

namespace Sample

/-- A configuration that finds one file, and its limits. -/
def sourcesConfig : SyncConfig := { patterns := ["a.ts"], componentPatterns := [] }

def sourceLimits : ChunkLimits := sourcesConfig.chunkLimits

/-- A function with its parameters on a line of their own. -/
def kept : String := "const f = (\n  a,\n) => \x7b\n  return a;\n\x7d;\n"

/-- A function whose first parameter has braces, with another one on the next line. -/
def lost : String := "const f = (\x7b a \x7d,\n  b) => 1;\n"

/-- The rule of arrow functions. -/
def arrowRule : Rule := typescript[6]

/-- A project with the first function. -/
def sources : Project String := ⟨⟨[(["a.ts"], .file kept)]⟩, [], some⟩

end Sample

/-- The header of the function is in its chunk, so the chunk has the name and the search finds it. -/
theorem declared_names_kept_sample :
    (∃ chunks, ofFile? Sample.sourceLimits "a.ts" Sample.kept = some chunks ∧
      ∃ chunk ∈ chunks, chunk.hasLine 0 ∧ chunk.hasLine 2 ∧ "f" ∈ chunk.symbols) ∧
    ∃ h ∈ (run Sample.sources Sample.sourcesConfig "shop" "now" none .created).store.symbolSearch
        .asFound "shop" "f" 1,
      Store.symbolKey h = (some "f", "a.ts", some 1) := by
  have hlanguage : languageOf "a.ts" = .typescript ∨ languageOf "a.ts" = .javascript :=
    .inl (by decide +kernel)
  have hlimit : LimitFits typescript Sample.sourceLimits.scanLines Sample.kept.toList :=
    limitFits_of_lines headsLine_of_typescript (by decide +kernel)
  obtain ⟨chunks, hgiven, hnames, -, hsearch⟩ :=
    declared_names_kept Sample.sourceLimits Sample.kept hlanguage hlimit
  have hcaptures : Captures typescript Sample.kept.toList Sample.arrowRule ⟨0, 21, some ['f']⟩ "f" :=
    ⟨List.getElem_mem _, by decide +kernel, by decide +kernel⟩
  obtain ⟨chunk, hchunk, -, -, hshow⟩ := hnames _ _ _ hcaptures
  have hchunks : chunks.map (fun c => (c.filePath, c.firstLine, c.lastLine)) = [("a.ts", 1, 5)] := by
    obtain ⟨-, rfl⟩ := (ofFile?_eq_some_iff hlanguage).1 hgiven
    decide +kernel
  have hplace : (chunk.filePath, chunk.firstLine, chunk.lastLine) = ("a.ts", 1, 5) :=
    List.mem_singleton.1 (hchunks ▸ List.mem_map_of_mem hchunk)
  obtain ⟨hpath, hfirst, hlast⟩ : chunk.filePath = "a.ts" ∧ chunk.firstLine = 1 ∧
      chunk.lastLine = 5 := by simpa using hplace
  have hline : ∀ line ≤ 2, chunk.hasLine line := fun line h => by
    rw [hasLine, hfirst, hlast]
    omega
  have hstop : stopLine Sample.kept.toList ⟨0, 21, some ['f']⟩ = 2 := by decide +kernel
  have hname := hshow (.inr (hstop ▸ hline 2 (Nat.le_refl 2)))
  obtain ⟨w, hwork⟩ : ∃ w, work Sample.sources Sample.sourcesConfig = .ok w := ⟨_, rfl⟩
  have hfree : Free Store.created "shop" := free_of_no_symbols rfl rfl rfl
  have hrun : (run Sample.sources Sample.sourcesConfig "shop" "now" none .created).outcome = .ok _ :=
    congrArg Report.outcome (run_free hwork hfree)
  have hindexed : Indexed Sample.sourceLimits "shop" "a.ts" Sample.kept
      (run Sample.sources Sample.sourcesConfig "shop" "now" none .created).store :=
    .run rfl rfl (List.mem_singleton_self _) rfl rfl hrun
  refine ⟨⟨chunks, hgiven, chunk, hchunk, hline 0 (Nat.zero_le 2), hline 2 (Nat.le_refl 2), hname⟩, ?_⟩
  have hfound := hsearch _ _ hindexed chunk hchunk "f" hname .asFound 1 (by decide +kernel)
    (by decide)
  rwa [hpath, hfirst] at hfound

/-- A header that goes over the end of its chunk is lost: the braces around the first parameter end the
chunk of the function, which has no symbols then, not even its name. -/
theorem declared_name_lost :
    Captures typescript Sample.lost.toList Sample.arrowRule ⟨0, 25, some ['f']⟩ "f" ∧
      ∃ chunks, ofFile? Sample.sourceLimits "a.ts" Sample.lost = some chunks ∧
        (∃ chunk ∈ chunks, chunk.hasLine (startLine Sample.lost.toList ⟨0, 25, some ['f']⟩) ∧
          chunk.name = some "f") ∧
        ∀ chunk ∈ chunks, chunk.symbols = [] := by
  have hgiven : ofFile? Sample.sourceLimits "a.ts" Sample.lost =
      some (ofFile Sample.sourceLimits "a.ts" Sample.lost) := ofFile?_of_lines (by decide +kernel)
  have hchunks : (ofFile Sample.sourceLimits "a.ts" Sample.lost).map
      (fun c => (c.firstLine, c.lastLine, c.name, c.symbols)) = [(1, 1, some "f", [])] := by
    decide +kernel
  have hstart : startLine Sample.lost.toList ⟨0, 25, some ['f']⟩ = 0 := by decide +kernel
  have hplace : ∀ chunk ∈ ofFile Sample.sourceLimits "a.ts" Sample.lost,
      chunk.firstLine = 1 ∧ chunk.lastLine = 1 ∧ chunk.name = some "f" ∧ chunk.symbols = [] := by
    intro chunk hchunk
    have hmem := hchunks ▸ List.mem_map_of_mem
      (f := fun c : Chunk => (c.firstLine, c.lastLine, c.name, c.symbols)) hchunk
    simpa using hmem
  refine ⟨⟨List.getElem_mem _, by decide +kernel, by decide +kernel⟩, _, hgiven, ?_, ?_⟩
  · cases hcs : ofFile Sample.sourceLimits "a.ts" Sample.lost with
    | nil =>
      rw [hcs] at hchunks
      cases hchunks
    | cons chunk cs =>
      obtain ⟨hfirst, hlast, hname, -⟩ := hplace chunk (hcs ▸ List.mem_cons_self)
      refine ⟨chunk, List.mem_cons_self, ?_, hname⟩
      rw [hstart, hasLine, hfirst, hlast]
      omega
  · exact fun chunk hchunk => (hplace chunk hchunk).2.2.2

end CodeIndex.Sync
