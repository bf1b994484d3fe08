import CodeIndex.Proofs.Project.Discovery
import CodeIndex.Proofs.Search.Listing
import CodeIndex.Proofs.Search.Order
import CodeIndex.Proofs.Store.Table
import CodeIndex.Search.FullText

/-!
What a limit leaves of the search in texts.

The search cuts each of its three listings at the limit before hits are compared, it looks for chunks
that contain the query only where the full-text index has left room, and it orders all hits by score in
the end. Still no limit hides a hit that it has room for: all results are starts of one ranking.

* `Store.indexHits`, `componentHit` and `substringHit` are the hits of the three listings without limit;
* `take_unseen`: cutting the chunks that contain the query before the known ones are left out is early,
  but not too early, since each hit of the index takes away one of them at most;
* `Store.textSearch_takes_ranking`: the results are the first hits of that ranking.
-/
namespace CodeIndex

open Text

/-! ## Cutting early -/

section Cutting

variable {limit : Nat} {hits : List (Hit Float)} {seen : List (String × Option Nat)}

/-- Hits at different locations lose no more of them than there are locations seen. -/
theorem length_le_unseen_add (hnodup : (hits.map Hit.location).Nodup) :
    hits.length ≤ (hits.filter fun h => h.location ∉ seen).length + seen.length := by
  have hknown : (hits.filter fun h => !decide (h.location ∉ seen)).length ≤ seen.length := by
    rw [← List.length_map Hit.location]
    refine List.Nodup.length_le_of_subset ?_ fun place hplace => ?_
    · exact hnodup.sublist (List.filter_sublist.map _)
    · obtain ⟨h, hh, rfl⟩ := List.mem_map.1 hplace
      simpa using (List.mem_filter.1 hh).2
  have hall := List.length_eq_length_filter_add (l := hits) fun h => decide (h.location ∉ seen)
  omega

/-- Cutting hits before those at known locations are left out leaves enough of them. -/
theorem take_unseen (hnodup : (hits.map Hit.location).Nodup) :
    (Hit.unseen seen (atMost limit hits)).take (limit - seen.length) =
      (hits.filter fun h => h.location ∉ seen).take (limit - seen.length) := by
  have hstart := isPrefix_atMost limit hits
  have hcut : ((atMost limit hits).map Hit.location).Nodup :=
    hnodup.sublist (hstart.sublist.map _)
  rw [Hit.unseen_eq_filter hcut]
  rcases atMost_cases limit hits with heq | hfull
  · rw [heq]
  · refine (take_of_isPrefix (hstart.filter _) ?_).symm
    have hloss : (atMost limit hits).length ≤
        ((atMost limit hits).filter fun h => h.location ∉ seen).length + seen.length :=
      length_le_unseen_add hcut
    omega

end Cutting

/-! ## Hits without a limit -/

/-- One of the texts contains a query, as it is compared. -/
def Mentions (query : List Char) (texts : List String) : Prop :=
  ∃ text ∈ texts, Like.accepts (Like.containing query) text.toList = true

instance (query : List Char) (texts : List String) : Decidable (Mentions query texts) :=
  inferInstanceAs (Decidable (∃ text ∈ texts, _))

/-- The texts of a chunk that a query is looked for in. -/
def ChunkRow.texts (r : ChunkRow) : List String := r.content :: r.name.toList

/-- The texts of a component that a query is looked for in. -/
def ComponentRow.texts (r : ComponentRow) : List String :=
  [r.component.name, r.component.filePath, r.component.kind.name]

namespace Store

/-- The hit for a chunk that contains a query. -/
def substringHit (query : List Char) (r : ChunkRow) : Hit Float :=
  r.hit (previewAt r.content.toList query substringPreviewChars) substringScore .substring

/-- The hit for a component that mentions a query. -/
def componentHit (r : ComponentRow) : Hit Float := r.hit componentScore .component

variable (α : Type) [Score α] {s : Store} {project : String} {query : List Char} {limit : Nat}

/-- All hits of the full-text index in the order of their rank; none if there is no index or it cannot
read the query. -/
def indexHits (s : Store) (project : String) (query : List Char) : List (Hit Float) :=
  match s.fulltext, FullText.phrases? query with
  | some rows, some phrases =>
    (s.fulltextRows α project rows phrases).map (fulltextHit phrases)
  | _, _ => []

theorem fulltextHits_eq :
    s.fulltextHits α project query limit = atMost limit (s.indexHits α project query) := by
  unfold fulltextHits indexHits
  cases s.fulltext with
  | none => exact (atMost_of_length_le (Nat.zero_le limit)).symm
  | some rows =>
    cases FullText.phrases? query with
    | none => exact (atMost_of_length_le (Nat.zero_le limit)).symm
    | some phrases => exact map_atMost _ _ _

theorem score_of_mem_indexHits {h : Hit Float} (hh : h ∈ s.indexHits α project query) :
    h.score = fulltextScore := by
  unfold indexHits at hh
  split at hh
  · obtain ⟨r, -, rfl⟩ := List.mem_map.1 hh
    rfl
  · cases hh

theorem matching_ok {ρ : Type} {texts : ρ → List String} {rows : List ρ}
    (haccepted : Like.tooComplex (Like.containing query) = false) :
    matching (Like.containing query) texts rows =
      .ok (rows.filter fun r => decide (Mentions query (texts r))) := by
  rw [matching, haccepted, Bool.false_and, if_neg Bool.false_ne_true]
  refine congrArg _ (List.filter_congr fun r _ => ?_)
  rw [Bool.eq_iff_iff, List.any_eq_true, decide_eq_true_eq]
  rfl

/-- The chunks of a project that contain a query, by file and line. -/
def chunksMentioning (s : Store) (project : String) (query : List Char) : List ChunkRow :=
  (s.chunksByLine project).filter fun r => Mentions query r.texts

/-- The components of a project that mention a query, by name and file. -/
def componentsMentioning (s : Store) (project : String) (query : List Char) : List ComponentRow :=
  (s.componentsByName project).filter fun r => Mentions query r.texts

theorem substringHits_ok (haccepted : Like.tooComplex (Like.containing query) = false) :
    s.substringHits project query limit =
      .ok (atMost limit ((s.chunksMentioning project query).map (substringHit query))) := by
  rw [substringHits, matching_ok haccepted, ← map_atMost]
  rfl

theorem componentHits_ok (haccepted : Like.tooComplex (Like.containing query) = false) :
    s.componentHits project query limit =
      .ok (atMost limit ((s.componentsMentioning project query).map componentHit)) := by
  rw [componentHits, matching_ok haccepted, ← map_atMost]
  rfl

theorem isListing_chunksMentioning (s : Store) (project : String) (query : List Char) :
    IsListing s.chunks (fun r => r.project = project ∧ Mentions query r.texts) ChunkRow.sortKey
      (s.chunksMentioning project query) :=
  isListing_filter_mergeSort ChunkRow.before_iff fun r _ => by simp

theorem isListing_componentsMentioning (s : Store) (project : String) (query : List Char) :
    IsListing s.components (fun r => r.project = project ∧ Mentions query r.texts)
      ComponentRow.sortKey (s.componentsMentioning project query) :=
  isListing_filter_mergeSort ComponentRow.before_iff fun r _ => by simp

theorem nodup_substringHits
    (hdistinct : (s.chunks.keep (·.project == project)).UniqueBy fun r => (r.filePath, r.firstLine)) :
    (((s.chunksMentioning project query).map (substringHit query)).map Hit.location).Nodup := by
  have hplaces : ((s.chunksMentioning project query).map fun r => (r.filePath, r.firstLine)).Nodup :=
    (((List.mergeSort_perm _ _).map _).nodup_iff.2 hdistinct.nodup_filter).sublist (List.filter_sublist.map _)
  have hlocations : ((s.chunksMentioning project query).map (substringHit query)).map Hit.location =
      ((s.chunksMentioning project query).map fun r => (r.filePath, r.firstLine)).map
        fun place => (place.1, some place.2) := by
    simp only [List.map_map]
    rfl
  rw [hlocations]
  refine hplaces.map fun a b h => ?_
  simpa [Prod.ext_iff] using h

/-! ## The ranking -/

/-- Hits of the three listings stand in the order of what they count. -/
theorem byScore_found_components_substrings {found components substrings : List (Hit Float)}
    (hfound : ∀ h ∈ found, h.score = fulltextScore)
    (hcomponents : ∀ h ∈ components, h.score = componentScore)
    (hsubstrings : ∀ h ∈ substrings, h.score = substringScore) :
    Hit.byScore (found ++ substrings ++ components) = found ++ components ++ substrings :=
  Hit.byScore_three_groups Score.ranksBy_orderKey (by decide +kernel) (by decide +kernel) hfound
    hcomponents hsubstrings

/-- The hits that are added for chunks that contain the query. -/
def addedSubstrings (s : Store) (project : String) (query : List Char) (limit : Nat)
    (found : List (Hit Float)) : List (Hit Float) :=
  if found.length < limit then
    Hit.unseen (found.map Hit.location)
      (atMost limit ((s.chunksMentioning project query).map (substringHit query)))
  else []

theorem withSubstrings_ok (found : List (Hit Float))
    (haccepted : Like.tooComplex (Like.containing query) = false) :
    s.withSubstrings project query limit found =
      .ok (found ++ s.addedSubstrings project query limit found) := by
  unfold withSubstrings addedSubstrings
  split
  · rw [substringHits_ok haccepted]
    rfl
  · rw [List.append_nil]

theorem mem_of_mem_unseen {β : Type} {h : Hit β} {hits : List (Hit β)}
    {seen : List (String × Option Nat)} (hh : h ∈ Hit.unseen seen hits) : h ∈ hits := by
  induction hits generalizing seen with
  | nil => exact hh
  | cons k hits ih =>
    rw [Hit.unseen] at hh
    split at hh
    · exact List.mem_cons_of_mem _ (ih hh)
    · rcases List.mem_cons.1 hh with rfl | hh
      · exact List.mem_cons_self
      · exact List.mem_cons_of_mem _ (ih hh)

theorem mem_of_substringHits {hits : List (Hit Float)}
    (h : s.substringHits project query limit = .ok hits) :
    ∀ hit ∈ hits, hit.score = substringScore ∧ hit.matchKinds = [.substring] := by
  obtain ⟨rows, -, h⟩ := eq_ok_of_bind h
  cases h
  intro hit hhit
  obtain ⟨r, -, rfl⟩ := List.mem_map.1 hhit
  exact ⟨rfl, rfl⟩

theorem mem_of_componentHits {hits : List (Hit Float)}
    (h : s.componentHits project query limit = .ok hits) :
    ∀ hit ∈ hits, hit.score = componentScore ∧ hit.matchKinds = [.component] := by
  obtain ⟨rows, -, h⟩ := eq_ok_of_bind h
  cases h
  intro hit hhit
  obtain ⟨r, -, rfl⟩ := List.mem_map.1 hhit
  exact ⟨rfl, rfl⟩

theorem score_of_mem_addedSubstrings {found : List (Hit Float)} {h : Hit Float}
    (hh : h ∈ s.addedSubstrings project query limit found) : h.score = substringScore := by
  unfold addedSubstrings at hh
  split at hh
  · obtain ⟨r, -, rfl⟩ := List.mem_map.1 ((isPrefix_atMost _ _).mem (mem_of_mem_unseen hh))
    rfl
  · cases hh

theorem textSearch_shows {text : String} (hquery : trim text.toList = query) (hblank : query ≠ [])
    (hpos : 0 < limit) (haccepted : Like.tooComplex (Like.containing query) = false) :
    let found := atMost limit (s.indexHits α project query)
    s.textSearch α project text limit =
      .ok ((found ++ atMost limit ((s.componentsMentioning project query).map componentHit) ++
        s.addedSubstrings project query limit found).take limit) := by
  intro found
  have hfound : ∀ h ∈ found, h.score = fulltextScore := fun h hh =>
    score_of_mem_indexHits α ((isPrefix_atMost _ _).mem hh)
  have hcomponents : ∀ h ∈ atMost limit ((s.componentsMentioning project query).map componentHit),
      h.score = componentScore := fun h hh => by
    obtain ⟨r, -, rfl⟩ := List.mem_map.1 ((isPrefix_atMost _ _).mem hh)
    rfl
  rw [← byScore_found_components_substrings hfound hcomponents
    fun _ hh => score_of_mem_addedSubstrings hh]
  unfold textSearch
  simp only [hquery, isEmpty_or_eq_zero hblank hpos, Bool.false_eq_true, if_false]
  rw [fulltextHits_eq, withSubstrings_ok _ haccepted, componentHits_ok haccepted]
  rfl

/-- All hits for a query in the order in which they are shown: those of the full-text index, then
components, then chunks that contain the query and are not among the first. -/
def textRanking (s : Store) (project : String) (query : List Char) : List (Hit Float) :=
  let found := s.indexHits α project query
  found ++ (s.componentsMentioning project query).map componentHit ++
    ((s.chunksMentioning project query).map (substringHit query)).filter
      fun h => h.location ∉ found.map Hit.location

/-- Whatever a limit cuts early, it leaves as many hits of the ranking as it allows. -/
theorem textSearch_eq {text : String} (hquery : trim text.toList = query) (hblank : query ≠ [])
    (haccepted : Like.tooComplex (Like.containing query) = false)
    (hdistinct : (s.chunks.keep (·.project == project)).UniqueBy fun r => (r.filePath, r.firstLine)) :
    s.textSearch α project text limit = .ok ((s.textRanking α project query).take limit) := by
  rcases Nat.eq_zero_or_pos limit with rfl | hpos
  · simp [textSearch]
  rw [textSearch_shows α hquery hblank hpos haccepted, textRanking]
  rcases atMost_cases limit (s.indexHits α project query) with hall | hfull
  · rw [hall, List.append_assoc, List.append_assoc]
    refine congrArg Except.ok (take_append_congr _ (take_atMost_append (Nat.sub_le _ _) _ ?_))
    unfold addedSubstrings
    split
    · have hknown : (s.indexHits α project query).length =
          ((s.indexHits α project query).map Hit.location).length := (List.length_map _).symm
      rw [hknown]
      exact take_unseen (nodup_substringHits hdistinct)
    · rename_i hroom
      rw [Nat.sub_eq_zero_of_le (Nat.not_lt.1 hroom)]
      rfl
  · have hstart := isPrefix_atMost limit (s.indexHits α project query)
    rw [List.append_assoc, List.append_assoc, List.take_append_of_le_length hfull,
      List.take_append_of_le_length (hfull.trans hstart.length_le), take_of_isPrefix hstart hfull]

/-- **A limit cuts one ranking.** All hits of the full-text index in the order of their rank, then all
components that mention the query by name and file, then all chunks that contain it by file and line,
without those at locations of the first: a search shows the first of these hits, as many as the limit
allows, be it a word with a sign or not. So a smaller limit shows a start of what a greater one shows,
and where fewer hits are shown than the limit allows, every location with a hit is among them. -/
theorem textSearch_takes_ranking (s : Store) (project : String) {text : String}
    (hblank : trim text.toList ≠ [])
    (haccepted : Like.tooComplex (Like.containing (trim text.toList)) = false)
    (hdistinct : (s.chunks.keep (·.project == project)).UniqueBy fun r => (r.filePath, r.firstLine)) :
    let query := trim text.toList
    let search := s.textSearch α project text
    ∃ components chunks,
      IsListing s.components (fun r => r.project = project ∧ Mentions query r.texts)
        ComponentRow.sortKey components ∧
      IsListing s.chunks (fun r => r.project = project ∧ Mentions query r.texts)
        ChunkRow.sortKey chunks ∧
      let found := s.indexHits α project query
      let substrings := chunks.map (substringHit query)
      let ranking := found ++ components.map componentHit ++
        substrings.filter fun h => h.location ∉ found.map Hit.location
      (∀ limit, search limit = .ok (ranking.take limit)) ∧
      (∀ limit more hits hits', limit ≤ more → search limit = .ok hits → search more = .ok hits' →
        hits <+: hits') ∧
      ∀ limit hits, search limit = .ok hits → hits.length < limit →
        ∀ h ∈ found ++ components.map componentHit ++ substrings,
          ∃ k ∈ hits, k.location = h.location := by
  intro query search
  refine ⟨s.componentsMentioning project query, s.chunksMentioning project query,
    isListing_componentsMentioning s project query, isListing_chunksMentioning s project query, ?_⟩
  intro found substrings ranking
  have hsearch : ∀ limit, search limit = .ok (ranking.take limit) := fun limit =>
    textSearch_eq α rfl hblank haccepted hdistinct
  refine ⟨hsearch, fun limit more hits hits' hle hhits hhits' => ?_,
    fun limit hits hhits hroom h hh => ?_⟩
  · obtain rfl := Except.ok.inj ((hsearch limit).symm.trans hhits)
    obtain rfl := Except.ok.inj ((hsearch more).symm.trans hhits')
    exact List.take_prefix_take_left hle
  · obtain rfl := Except.ok.inj ((hsearch limit).symm.trans hhits)
    have hall : ranking.take limit = ranking := by
      refine List.take_of_length_le (Nat.le_of_lt ?_)
      by_contra hlong
      rw [List.length_take_of_le (Nat.not_lt.1 hlong)] at hroom
      exact Nat.lt_irrefl _ hroom
    rw [hall]
    -- a hit that is left out is at the location of one of the first
    by_cases hknown : h.location ∈ found.map Hit.location
    · obtain ⟨k, hk, hlocation⟩ := List.mem_map.1 hknown
      exact ⟨k, List.mem_append_left _ (List.mem_append_left _ hk), hlocation⟩
    · refine ⟨h, ?_, rfl⟩
      rcases List.mem_append.1 hh with hh | hh
      · exact List.mem_append_left _ hh
      · exact List.mem_append_right _ (List.mem_filter.2 ⟨hh, by simpa using hknown⟩)

namespace Sample

/-- A chunk of one line. -/
def line (filePath content : String) : ChunkRow :=
  .ofChunk "shop" ⟨filePath, 0, content, .unknown, .file, none, none, 1, 1, []⟩ none

/-- A component. -/
def part : ComponentRow := ⟨"shop", ⟨"Auth", .component, "c.tsx"⟩, none⟩

/-- A chunk with a word, one with a longer word that contains it, and a component named by it. -/
def words : Store :=
  let chunks := (Table.empty.insert (line "z.txt" "auth")).insert (line "a.txt" "oauth")
  { Store.created with
    chunks := chunks
    components := Table.empty.insert part
    fulltext := some (chunks.rows.map fulltextRow) }

end Sample

/-- The chunk with the word comes first, then the component, and last the other chunk, although it
stands first among those that contain the word. -/
theorem textSearch_takes_ranking_words :
    ∃ ranking : List (Hit Float),
      ranking.map Hit.location = [("z.txt", some 1), ("c.tsx", none), ("a.txt", some 1)] ∧
      ∀ limit, Sample.words.textSearch Float "shop" " auth " limit = .ok (ranking.take limit) := by
  have hdistinct : (Sample.words.chunks.keep (·.project == "shop")).UniqueBy
      fun r => (r.filePath, r.firstLine) := by
    unfold Table.UniqueBy
    decide
  obtain ⟨components, chunks, hcomponents, hchunks, hsearch, -⟩ := textSearch_takes_ranking Float
    Sample.words "shop" (show trim " auth ".toList ≠ [] by decide) (by decide +kernel) hdistinct
  refine ⟨_, ?_, hsearch⟩
  have hparts : components = [Sample.part] :=
    hcomponents.unique ⟨by decide +kernel, List.pairwise_singleton _ _⟩ (by simp)
  have hlines : chunks = [Sample.line "a.txt" "oauth", Sample.line "z.txt" "auth"] :=
    hchunks.unique ⟨by decide +kernel, by decide +kernel⟩ (by decide +kernel)
  rw [hparts, hlines]
  decide +kernel

end Store

end CodeIndex
