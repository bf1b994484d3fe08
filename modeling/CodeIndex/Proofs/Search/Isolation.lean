import CodeIndex.Proofs.Search.Text
import CodeIndex.Proofs.Search.Tiers
import CodeIndex.Search.Semantic

/-!
A search sees the rows of one project only.

Two indexes can hold the same rows of a project and otherwise what they like. The rows have other
numbers then, so a symbol has another number for its chunk; but what a search shows of a symbol is the
text of its chunk, and not the number.

* `Store.symbolTable_congr`, `Store.substringHits_congr`, `Store.componentHits_congr` and
  `Store.similar_congr`: what of an index each search depends on;
* `SameRows` says that two indexes hold the same rows of a project, up to numbers;
* `SameRows.symbolTable`, `SameRows.substringHits`, `SameRows.componentHits` and `SameRows.similar`: each
  search has the same hits in both;
* `Store.searches_see_own_rows`: so no row of another project is seen or takes the place of a hit.
-/
namespace CodeIndex

open Text

/-- Two symbols are the same but for the numbers of their chunks, and these are at the same place among
the chunks of the project in one index and in the other. -/
structure SameSymbol (chunks chunks' : List (Numbered ChunkRow)) (r r' : SymbolRow) : Prop where
  same : { r with chunkId := r'.chunkId } = r'
  place : ∃ (n : Nat) (c c' : Numbered ChunkRow), chunks[n]? = some c ∧ c.id = r.chunkId ∧
    chunks'[n]? = some c' ∧ c'.id = r'.chunkId

/-- Two indexes hold the same rows of a project in the same order, and its symbols refer to chunks of the
project. Numbers do not count. -/
structure SameRows (project : String) (s s' : Store) : Prop where
  chunks : s.chunks.toList.filter (·.project == project) =
    s'.chunks.toList.filter (·.project == project)
  symbols : List.Forall₂
    (SameSymbol (s.chunks.select (·.project == project)) (s'.chunks.select (·.project == project)))
    (s.symbols.toList.filter (·.project == project)) (s'.symbols.toList.filter (·.project == project))
  components : s.components.toList.filter (·.project == project) =
    s'.components.toList.filter (·.project == project)

namespace Store

/-! ## What is shown of a symbol -/

/-- A symbol as a search shows it: without a number, and with the start of its chunk. -/
def shown (s : Store) (r : SymbolRow) : SymbolRow × Option (List Char) :=
  ({ r with chunkId := 0 }, s.symbolPreview r)

/-- The symbols of a project as a search shows them, by name, file and line. -/
def shownByName (s : Store) (project : String) : List (SymbolRow × Option (List Char)) :=
  ((s.symbols.toList.filter (·.project == project)).map s.shown).mergeSort
    fun a b => a.1.before b.1

variable {s s' : Store} {project : String} {query : List Char} {limit : Nat}

theorem map_shown_symbolsByName :
    (s.symbolsByName project).map s.shown = s.shownByName project :=
  List.map_mergeSort fun _ _ _ _ => rfl

theorem tierHits_eq_shown (tier : Tier) :
    s.tierHits project query limit tier =
      (atMost limit ((s.shownByName project).filter fun x => tier.accepts query x.1.name.toList)).map
        fun x => x.1.hit x.2 tier.score tier.matchKind := by
  rw [← map_shown_symbolsByName, List.filter_map, ← map_atMost, List.map_map]
  rfl

theorem addTiers_congr
    (h : ∀ room tier, s.tierHits project query room tier = s'.tierHits project query room tier)
    (table : List (Hit Float)) (tiers : List Tier) :
    s.addTiers project query limit table tiers = s'.addTiers project query limit table tiers := by
  induction tiers generalizing table with
  | nil => rfl
  | cons tier tiers ih => simp only [addTiers, h, ih]

/-! ## What the searches depend on -/

theorem symbolTable_congr (h : s.shownByName project = s'.shownByName project)
    (query : List Char) (limit : Nat) :
    s.symbolTable project query limit = s'.symbolTable project query limit :=
  addTiers_congr (fun room tier => by rw [tierHits_eq_shown, tierHits_eq_shown, h]) _ _

/-- The order in which the table of hits is read out does not count for what is found. -/
theorem symbolSearch_perm_congr (h : s.shownByName project = s'.shownByName project)
    (e e' : Enumeration) (text : String) {limit : Nat}
    (hrows : limit < 2 ^ 63 ∨ s.symbols.last < 2 ^ 63) :
    (s.symbolSearch e project text limit).Perm (s'.symbolSearch e' project text limit) := by
  by_cases hblank : trim text.toList = []
  · simp [symbolSearch, hblank]
  have hlen : (s.symbolTable project (trim text.toList) limit).length ≤ limit :=
    length_addTiers_le hrows (Nat.zero_le _) _
  have htable := symbolTable_congr h (trim text.toList) limit
  have hfound := symbolSearch_perm e rfl hblank hlen
  have hfound' := symbolSearch_perm e' rfl hblank (htable ▸ hlen)
  exact hfound.trans (htable ▸ hfound'.symm)

theorem substringHits_congr (h : s.chunks.toList.filter (·.project == project) =
    s'.chunks.toList.filter (·.project == project)) (query : List Char) (limit : Nat) :
    s.substringHits project query limit = s'.substringHits project query limit := by
  rw [substringHits, chunksByLine, h]
  rfl

theorem componentHits_congr (h : s.components.toList.filter (·.project == project) =
    s'.components.toList.filter (·.project == project)) (query : List Char) (limit : Nat) :
    s.componentHits project query limit = s'.componentHits project query limit := by
  rw [componentHits, componentsByName, h]
  rfl

theorem similar_congr
    (hchunks : s.chunks.toList.filter (·.project == project) =
      s'.chunks.toList.filter (·.project == project))
    (hcomponents : s.components.toList.filter (·.project == project) =
      s'.components.toList.filter (·.project == project)) (nan : NanRule) (query : Vector32)
    (limit : Nat) : s.similar nan project query limit = s'.similar nan project query limit := by
  have hnear : s.similarChunks nan project query = s'.similarChunks nan project query := by
    rw [similarChunks, chunksByFile, hchunks]
    rfl
  have hnear' : s.similarComponents nan project query = s'.similarComponents nan project query := by
    rw [similarComponents, componentsByFile, hcomponents]
    rfl
  rw [similar, similar, hnear, hnear']

end Store

namespace SameRows

variable {s s' : Store} {project : String} (h : SameRows project s s')
include h

/-! ## The searches one by one -/

/-- The chunks that two symbols refer to hold the same text. -/
theorem symbolPreview {r r' : SymbolRow}
    (hr : SameSymbol (s.chunks.select (·.project == project))
      (s'.chunks.select (·.project == project)) r r') :
    s.symbolPreview r = s'.symbolPreview r' := by
  obtain ⟨n, c, c', hc, hid, hc', hid'⟩ := hr.place
  -- the chunks have the same place in the project, and there the rows are the same
  have hrow : c.row = c'.row := by
    have hrows := congrArg (·[n]?) h.chunks
    simp only [Table.toList, List.filter_map, List.getElem?_map] at hrows
    change ((s.chunks.select (·.project == project))[n]?).map (·.row) =
      ((s'.chunks.select (·.project == project))[n]?).map (·.row) at hrows
    rw [hc, hc'] at hrows
    exact Option.some.inj hrows
  have hfound : s.chunks.find? r.chunkId = some c.row :=
    hid ▸ Table.find?_eq_some_iff.2 (List.mem_of_mem_filter (List.mem_of_getElem? hc))
  have hfound' : s'.chunks.find? r'.chunkId = some c'.row :=
    hid' ▸ Table.find?_eq_some_iff.2 (List.mem_of_mem_filter (List.mem_of_getElem? hc'))
  rw [Store.symbolPreview, Store.symbolPreview, hfound, hfound', hrow]

theorem shownByName : s.shownByName project = s'.shownByName project := by
  have hshown : (s.symbols.toList.filter (·.project == project)).map s.shown =
      (s'.symbols.toList.filter (·.project == project)).map s'.shown := by
    rw [← List.forall₂_eq_eq_eq, List.forall₂_map_left_iff, List.forall₂_map_right_iff]
    refine h.symbols.imp fun r r' hr => Prod.ext ?_ (h.symbolPreview hr)
    rw [Store.shown, Store.shown, ← hr.same]
  rw [Store.shownByName, Store.shownByName, hshown]

theorem symbolTable (query : List Char) (limit : Nat) :
    s.symbolTable project query limit = s'.symbolTable project query limit :=
  Store.symbolTable_congr h.shownByName query limit

theorem substringHits (query : List Char) (limit : Nat) :
    s.substringHits project query limit = s'.substringHits project query limit :=
  Store.substringHits_congr h.chunks query limit

theorem componentHits (query : List Char) (limit : Nat) :
    s.componentHits project query limit = s'.componentHits project query limit :=
  Store.componentHits_congr h.components query limit

theorem similar (nan : NanRule) (query : Vector32) (limit : Nat) :
    s.similar nan project query limit = s'.similar nan project query limit :=
  Store.similar_congr h.chunks h.components nan query limit

theorem symbolSearch_perm (e e' : Enumeration) (text : String) {limit : Nat}
    (hrows : limit < 2 ^ 63 ∨ s.symbols.last < 2 ^ 63) :
    (s.symbolSearch e project text limit).Perm (s'.symbolSearch e' project text limit) :=
  Store.symbolSearch_perm_congr h.shownByName e e' text hrows

end SameRows

namespace Store

variable {s s' : Store} {project : String}

/-- **Searches see their own project only.** In two indexes that hold the same rows of a project and any
other rows, every search for a text, a name or a vector has the same hits in the project with every
limit: symbols in whatever orders their tables are read out, chunks that contain a text, components that
mention it, and rows by their vectors. -/
theorem searches_see_own_rows (h : SameRows project s s') :
    (∀ e text limit,
      s.symbolSearch e project text limit = s'.symbolSearch e project text limit) ∧
    (∀ e e' text limit, limit < 2 ^ 63 ∨ s.symbols.last < 2 ^ 63 →
      (s.symbolSearch e project text limit).Perm (s'.symbolSearch e' project text limit)) ∧
    (∀ query limit,
      s.substringHits project query limit = s'.substringHits project query limit ∧
        s.componentHits project query limit = s'.componentHits project query limit) ∧
    ∀ nan vector limit, s.similar nan project vector limit = s'.similar nan project vector limit := by
  refine ⟨fun e text limit => ?_, fun e e' text limit => h.symbolSearch_perm e e' text,
    fun query limit => ⟨h.substringHits query limit, h.componentHits query limit⟩, h.similar⟩
  simp only [symbolSearch, h.symbolTable]

namespace Sample

/-- A chunk that declares a class. -/
def classChunk (filePath : String) : Chunk :=
  ⟨filePath, 0, "class A \x7b\n\x7d", .typescript, .classType, some "A", none, 1, 2, ["A"]⟩

/-- An index with a chunk and its symbol. -/
def alone : Store :=
  (Store.created.addChunk "shop" (classChunk "a.ts") none).addSymbol "shop" "A" (classChunk "a.ts") 1

/-- The same rows after those of another project, where the chunk has another number; the rows of the
other project stand first in every order. -/
def crowded : Store :=
  let other := (Store.created.addChunk "mirror" (classChunk "A.ts") none).addSymbol "mirror" "A"
    (classChunk "A.ts") 1
  (other.addChunk "shop" (classChunk "a.ts") none).addSymbol "shop" "A" (classChunk "a.ts") 2

theorem sameRows_crowded : SameRows "shop" alone crowded where
  chunks := by decide
  symbols := .cons ⟨rfl, 0, _, _, rfl, rfl, rfl, rfl⟩ .nil
  components := rfl

end Sample

/-- With room for one hit only, the symbol and the chunk of the project are found among those of
another. -/
theorem searches_see_own_rows_crowded :
    SameRows "shop" Sample.alone Sample.crowded ∧
      (Sample.crowded.symbolSearch .asFound "shop" "A" 1).map (·.filePath) = ["a.ts"] ∧
      Sample.alone.symbolSearch .asFound "shop" "A" 1 =
        Sample.crowded.symbolSearch .asFound "shop" "A" 1 ∧
      Sample.alone.substringHits "shop" "class".toList 1 =
        Sample.crowded.substringHits "shop" "class".toList 1 := by
  obtain ⟨hsymbols, -, htexts, -⟩ := searches_see_own_rows Sample.sameRows_crowded
  exact ⟨Sample.sameRows_crowded, by decide +kernel, hsymbols _ _ _, (htexts _ _).1⟩

end Store

end CodeIndex
