import CodeIndex.Proofs.Search.Isolation

/-!
What the rows of other projects change in the search in texts.

All projects share one full-text index. A search takes the rows of its own project only, but in an order
that counts how rare a phrase is and how long a row is among all rows. So the rows of other projects can
change the order of the hits, and with a limit which of them are shown, and they change nothing else.

* `FullText.statistics` are the numbers that the order takes from all rows, and
  `FullText.relevance_congr` says that it takes nothing else from them;
* `Store.fulltextRows_eq`: the hits are the chunks of the project that hold all phrases, by relevance;
* `Store.textSearch_depends_on_statistics`: what is the same in two indexes that hold the same rows of a
  project, and `Store.other_rows_change_order`: what is not.
-/
namespace CodeIndex

open Text

/-! ## Numbers about all rows -/

namespace FullText

/-- Numbers about the rows of an index: how many there are, how many terms they hold, and how many of
them hold each of some phrases. -/
structure Statistics where
  rows : Nat
  terms : Nat
  holding : List Nat
deriving Repr, DecidableEq

/-- The numbers about the rows of an index for the phrases of a query. -/
def statistics (rows : List Row) (phrases : List Phrase) : Statistics where
  rows := rows.length
  terms := ((rows.map Row.terms).map Columns.size).foldr (· + ·) 0
  holding := phrases.map fun phrase =>
    ((rows.map Row.terms).filter fun r => 0 < r.frequency phrase).length

variable {α : Type} [Score α] {rows rows' : List Row} {phrases : List Phrase}

/-- Of the other rows only these numbers count for the relevance of a row. -/
theorem relevance_congr (h : statistics rows phrases = statistics rows' phrases) (r : Columns) :
    (relevance (rows.map Row.terms) phrases r : α) =
      relevance (rows'.map Row.terms) phrases r := by
  obtain ⟨hrows, hterms, hholding⟩ := Statistics.mk.inj h
  unfold relevance
  refine List.foldl_ext _ _ _ fun sum phrase hphrase => ?_
  rw [List.length_map, List.length_map, hrows, hterms, List.map_inj_left.1 hholding phrase hphrase]

theorem relevance_pair {p q : Phrase} {n total m k : Nat}
    (h : statistics rows [p, q] = ⟨n, total, [m, k]⟩) (r : Columns) :
    (relevance (rows.map Row.terms) [p, q] r : α) =
      Score.add (Score.add Score.zero
        (Score.mul (rarity n m) (saturation (r.frequency p) r.size total n)))
        (Score.mul (rarity n k) (saturation (r.frequency q) r.size total n)) := by
  simp only [statistics, List.map_cons, List.map_nil, Statistics.mk.injEq, List.cons.injEq,
    and_true] at h
  obtain ⟨rfl, rfl, rfl, rfl⟩ := h
  simp only [relevance, List.foldl_cons, List.foldl_nil, List.length_map]

theorem rarity_real (rows hits : Nat) :
    (rarity rows hits : ℝ) =
      if Real.log ((rows - hits + 1 / 2) / (hits + 1 / 2)) ≤ 0 then 1 / 1000000
      else Real.log ((rows - hits + 1 / 2) / (hits + 1 / 2)) := by
  simp only [rarity, Score.le_real, Score.zero_real]
  norm_num [Score.ratio, Score.add, Score.sub, Score.div, Score.ofNat, Score.ln]

theorem saturation_real (frequency size total rows : Nat) :
    (saturation frequency size total rows : ℝ) =
      frequency * (12 / 10 + 1) /
        (frequency + 12 / 10 * (1 - 3 / 4 + 3 / 4 * size / (total / rows))) := by
  norm_num [saturation, Score.ratio, Score.one, Score.add, Score.sub, Score.mul, Score.div,
    Score.ofNat]

/-- Numbers of elements stand in the order in which the elements themselves are sorted. -/
theorem map_snd_mergeSort {γ κ : Type} (le : κ → κ → Bool) (key : γ → κ) (number : γ → Nat)
    (l : List γ) :
    ((l.map fun x => (key x, number x)).mergeSort fun a b => le b.1 a.1).map (·.2) =
      (l.mergeSort fun a b => le (key b) (key a)).map number := by
  rw [← List.map_mergeSort (r := fun a b => le (key b) (key a)) fun _ _ _ _ => rfl, List.map_map]
  rfl

/-- A row holds all phrases of a query. -/
def Row.holds (phrases : List Phrase) (r : Row) : Bool :=
  phrases.all fun phrase => 0 < r.terms.frequency phrase

/-- The relevance of a row among the rows of an index. -/
def Row.relevance (α : Type) [Score α] (rows : List Row) (phrases : List Phrase) (r : Row) : α :=
  FullText.relevance (rows.map Row.terms) phrases r.terms

theorem ranked_eq (hsome : phrases ≠ []) :
    ranked α rows phrases =
      ((rows.filter (·.holds phrases)).mergeSort fun a b =>
        Score.le (b.relevance α rows phrases) (a.relevance α rows phrases)).map (·.id) := by
  rw [ranked, if_neg (by simpa using hsome)]
  simp only [List.filter_map, List.map_map]
  exact map_snd_mergeSort Score.le (Row.relevance α rows phrases) (·.id) _

end FullText

/-- The entry of the full-text index for a chunk, without a number. -/
def ChunkRow.entry (r : ChunkRow) : FullText.Row := Store.fulltextRow ⟨0, r⟩

namespace Store

/-- The numbers about the full-text index for a query. -/
def statistics (s : Store) (query : List Char) : FullText.Statistics :=
  FullText.statistics (s.fulltext.getD []) ((FullText.phrases? query).getD [])

theorem fulltext_of_rebuilt {s : Store} (h : s.rebuilt .chunks = s) :
    s.fulltext = some (s.chunks.rows.map fulltextRow) :=
  (congrArg fulltext h).symm

/-! ## Hits of the full-text index -/

section Hits

variable (α : Type) [Score α] {s s' : Store} {project : String} {rows : List FullText.Row}
  {phrases : List FullText.Phrase}

theorem relevance_fulltextRow (r : Numbered ChunkRow) :
    (fulltextRow r).relevance α rows phrases = r.row.entry.relevance α rows phrases := by
  have hfrequency : ∀ phrase, (fulltextRow r).terms.frequency phrase =
      r.row.entry.terms.frequency phrase := fun _ => rfl
  have hsize : (fulltextRow r).terms.size = r.row.entry.terms.size := rfl
  simp only [FullText.Row.relevance, FullText.relevance, hfrequency, hsize]

/-- A chunk with the first relevance may stand before one with the second. -/
def moreRelevant (rows : List FullText.Row) (phrases : List FullText.Phrase) (a b : ChunkRow) : Bool :=
  Score.le (b.entry.relevance α rows phrases) (a.entry.relevance α rows phrases)

/-- Numbers are ranked as the chunks are that have them. -/
theorem ranked_fulltextRows (s : Store) (hsome : phrases ≠ []) :
    FullText.ranked α (s.chunks.rows.map fulltextRow) phrases =
      ((s.chunks.rows.filter (·.row.entry.holds phrases)).mergeSort fun a b =>
        moreRelevant α (s.chunks.rows.map fulltextRow) phrases a.row b.row).map (·.id) := by
  rw [FullText.ranked_eq hsome, List.filter_map, ← List.map_mergeSort (r := fun a b =>
    moreRelevant α (s.chunks.rows.map fulltextRow) phrases a.row b.row), List.map_map]
  · rfl
  · intro a _ b _
    rw [moreRelevant, relevance_fulltextRow, relevance_fulltextRow]

/-- What is found in an index that is new: the chunks of the project that hold all phrases, by
relevance. -/
theorem fulltextRows_eq (s : Store) (hsome : phrases ≠ []) :
    s.fulltextRows α project (s.chunks.rows.map fulltextRow) phrases =
      ((s.chunks.toList.filter (·.entry.holds phrases)).mergeSort
        (moreRelevant α (s.chunks.rows.map fulltextRow) phrases)).filter (·.project == project) := by
  have hfound : ∀ r ∈ (s.chunks.rows.filter (·.row.entry.holds phrases)).mergeSort
      (fun a b => moreRelevant α (s.chunks.rows.map fulltextRow) phrases a.row b.row),
      (s.chunks.find? r.id).filter (·.project == project) =
        Option.guard (·.project == project) r.row := by
    intro r hr
    have hmem : r ∈ s.chunks.rows := List.mem_of_mem_filter (List.mem_mergeSort.1 hr)
    rw [Table.find?_eq_some_iff.2 hmem]
    rfl
  rw [fulltextRows, ranked_fulltextRows α s hsome, List.filterMap_map]
  refine (List.filterMap_congr hfound).trans ?_
  rw [Table.toList, List.filter_map,
    ← List.map_mergeSort (r := fun a b =>
      moreRelevant α (s.chunks.rows.map fulltextRow) phrases a.row b.row) fun _ _ _ _ => rfl,
    ← List.filterMap_eq_filter (p := fun r : ChunkRow => r.project == project), List.filterMap_map]
  rfl

theorem filter_holds_filter_project :
    (s.chunks.toList.filter (·.entry.holds phrases)).filter (·.project == project) =
      (s.chunks.toList.filter (·.project == project)).filter (·.entry.holds phrases) :=
  List.filter_comm _ _ _

theorem fulltextRows_perm (h : SameRows project s s') :
    (s.fulltextRows α project (s.chunks.rows.map fulltextRow) phrases).Perm
      (s'.fulltextRows α project (s'.chunks.rows.map fulltextRow) phrases) := by
  by_cases hsome : phrases = []
  · simp [fulltextRows, FullText.ranked, hsome]
  rw [fulltextRows_eq α s hsome, fulltextRows_eq α s' hsome]
  refine ((List.mergeSort_perm _ _).filter _).trans ?_
  refine .trans ?_ ((List.mergeSort_perm _ _).filter _).symm
  rw [filter_holds_filter_project, filter_holds_filter_project, h.chunks]

theorem moreRelevant_congr {rows' : List FullText.Row}
    (h : FullText.statistics rows phrases = FullText.statistics rows' phrases) :
    moreRelevant α rows phrases = moreRelevant α rows' phrases := by
  funext a b
  simp only [moreRelevant, FullText.Row.relevance, FullText.relevance_congr h]

theorem fulltextRows_congr {κ : Type} [LinearOrder κ] {key : α → κ} (hkey : Score.OrdersBy key)
    (h : SameRows project s s')
    (hstatistics : FullText.statistics (s.chunks.rows.map fulltextRow) phrases =
      FullText.statistics (s'.chunks.rows.map fulltextRow) phrases) :
    s.fulltextRows α project (s.chunks.rows.map fulltextRow) phrases =
      s'.fulltextRows α project (s'.chunks.rows.map fulltextRow) phrases := by
  by_cases hsome : phrases = []
  · simp [fulltextRows, FullText.ranked, hsome]
  have hle : ∀ a b, moreRelevant α (s'.chunks.rows.map fulltextRow) phrases a b = true ↔
      key (b.entry.relevance α (s'.chunks.rows.map fulltextRow) phrases) ≤
        key (a.entry.relevance α (s'.chunks.rows.map fulltextRow) phrases) := fun _ _ => hkey _ _
  rw [fulltextRows_eq α s hsome, fulltextRows_eq α s' hsome, moreRelevant_congr α hstatistics,
    filter_mergeSort_comm hle, filter_mergeSort_comm hle, filter_holds_filter_project,
    filter_holds_filter_project, h.chunks]

theorem statistics_fulltextRows (rows : List (Numbered ChunkRow)) :
    FullText.statistics (rows.map fulltextRow) phrases =
      FullText.statistics ((rows.map (·.row)).map ChunkRow.entry) phrases := by
  simp only [FullText.statistics, List.length_map, List.map_map, List.filter_map]
  rfl

/-- With the same chunks in the same order the hits are the same, whatever the numbers of chunks. -/
theorem fulltextRows_of_chunks (h : s.chunks.toList = s'.chunks.toList) :
    s.fulltextRows α project (s.chunks.rows.map fulltextRow) phrases =
      s'.fulltextRows α project (s'.chunks.rows.map fulltextRow) phrases := by
  by_cases hsome : phrases = []
  · simp [fulltextRows, FullText.ranked, hsome]
  have hstatistics : FullText.statistics (s.chunks.rows.map fulltextRow) phrases =
      FullText.statistics (s'.chunks.rows.map fulltextRow) phrases := by
    rw [statistics_fulltextRows, statistics_fulltextRows]
    exact congrArg (fun rows : List ChunkRow => FullText.statistics (rows.map ChunkRow.entry) phrases) h
  rw [fulltextRows_eq α s hsome, fulltextRows_eq α s' hsome, moreRelevant_congr α hstatistics, h]

variable {query : List Char}

theorem indexHits_of_rebuilt (hs : s.rebuilt .chunks = s) :
    s.indexHits α project query = (FullText.phrases? query).elim [] fun phrases =>
      (s.fulltextRows α project (s.chunks.rows.map fulltextRow) phrases).map
        (fulltextHit phrases) := by
  rw [indexHits, fulltext_of_rebuilt hs]
  cases FullText.phrases? query <;> rfl

theorem indexHits_perm (h : SameRows project s s') (hs : s.rebuilt .chunks = s)
    (hs' : s'.rebuilt .chunks = s') :
    (s.indexHits α project query).Perm (s'.indexHits α project query) := by
  rw [indexHits_of_rebuilt α hs, indexHits_of_rebuilt α hs']
  cases FullText.phrases? query with
  | none => exact .nil
  | some phrases => exact (fulltextRows_perm α h).map _

theorem indexHits_congr {κ : Type} [LinearOrder κ] {key : α → κ} (hkey : Score.OrdersBy key)
    (h : SameRows project s s') (hs : s.rebuilt .chunks = s) (hs' : s'.rebuilt .chunks = s')
    (hstatistics : s.statistics query = s'.statistics query) :
    s.indexHits α project query = s'.indexHits α project query := by
  rw [statistics, statistics, fulltext_of_rebuilt hs, fulltext_of_rebuilt hs'] at hstatistics
  rw [indexHits_of_rebuilt α hs, indexHits_of_rebuilt α hs']
  cases hphrases : FullText.phrases? query with
  | none => rfl
  | some phrases =>
    rw [hphrases] at hstatistics
    simp only [Option.getD_some] at hstatistics
    rw [Option.elim_some, Option.elim_some, fulltextRows_congr α hkey h hstatistics]

theorem indexHits_of_chunks (h : s.chunks.toList = s'.chunks.toList) (hs : s.rebuilt .chunks = s)
    (hs' : s'.rebuilt .chunks = s') :
    s.indexHits α project query = s'.indexHits α project query := by
  rw [indexHits_of_rebuilt α hs, indexHits_of_rebuilt α hs']
  simp only [fulltextRows_of_chunks α h]

end Hits

/-! ## The search -/

section Search

variable {found found' hits : List (Hit Float)}
  {substrings components : Except Failure (List (Hit Float))} {limit : Nat}

/-- The results of a search in texts, put together from its three listings. -/
def combined (limit : Nat) (found : List (Hit Float))
    (substrings components : Except Failure (List (Hit Float))) : Except Failure (List (Hit Float)) := do
  let chunks ← if found.length < limit then
      substrings.map fun more => found ++ Hit.unseen (found.map Hit.location) more
    else .ok found
  let components ← components
  pure ((Hit.byScore (chunks ++ components)).take limit)

theorem textSearch_eq_combined (α : Type) [Score α] (s : Store) (project : String) {text : String}
    (hblank : trim text.toList ≠ []) (hpos : 0 < limit) :
    let query := trim text.toList
    s.textSearch α project text limit =
      combined limit (atMost limit (s.indexHits α project query))
        (s.substringHits project query limit) (s.componentHits project query limit) := by
  intro query
  rw [textSearch, isEmpty_or_eq_zero hblank hpos, if_neg Bool.false_ne_true, fulltextHits_eq]
  unfold withSubstrings combined
  split
  · cases s.substringHits project query limit <;> rfl
  · rfl

theorem textSearch_congr (α : Type) [Score α] {s s' : Store} {project text : String}
    (hfound : s.indexHits α project (trim text.toList) = s'.indexHits α project (trim text.toList))
    (hsubstrings : s.substringHits project (trim text.toList) limit =
      s'.substringHits project (trim text.toList) limit)
    (hcomponents : s.componentHits project (trim text.toList) limit =
      s'.componentHits project (trim text.toList) limit) :
    s.textSearch α project text limit = s'.textSearch α project text limit := by
  simp only [textSearch, withSubstrings, fulltextHits_eq, hfound, hsubstrings, hcomponents]

theorem unseen_congr {seen seen' : List (String × Option Nat)} (h : ∀ x, x ∈ seen ↔ x ∈ seen')
    (hits : List (Hit Float)) : Hit.unseen seen hits = Hit.unseen seen' hits := by
  induction hits generalizing seen seen' with
  | nil => rfl
  | cons hit hits ih =>
    have hnext : ∀ x, x ∈ hit.location :: seen ↔ x ∈ hit.location :: seen' := fun x => by
      rw [List.mem_cons, List.mem_cons, h]
    simp only [Hit.unseen, List.contains_eq_mem, h, ih h, ih hnext]

theorem length_atMost_congr {γ : Type} {l l' : List γ} (h : l.length = l'.length) (limit : Nat) :
    (atMost limit l).length = (atMost limit l').length := by
  unfold atMost
  split
  · rw [List.length_take, List.length_take, h]
  · exact h

/-- Where there is room, components and then chunks that contain the query follow the hits of the
full-text index. -/
theorem combined_of_room (hroom : found.length < limit)
    (hfound : ∀ hit ∈ found, hit.score = fulltextScore)
    (hsubstrings : ∀ hits, substrings = .ok hits → ∀ hit ∈ hits, hit.score = substringScore)
    (hcomponents : ∀ hits, components = .ok hits → ∀ hit ∈ hits, hit.score = componentScore) :
    combined limit found substrings components = (do
      let more ← substrings
      let parts ← components
      pure ((found ++ (parts ++ Hit.unseen (found.map Hit.location) more)).take limit)) := by
  rw [combined, if_pos hroom]
  cases substrings with
  | error failure => rfl
  | ok more =>
    cases components with
    | error failure => rfl
    | ok parts =>
      have hadded : ∀ hit ∈ Hit.unseen (found.map Hit.location) more, hit.score = substringScore :=
        fun hit hhit => hsubstrings more rfl hit (mem_of_mem_unseen hhit)
      have horder := byScore_found_components_substrings hfound (hcomponents parts rfl) hadded
      rw [List.append_assoc found parts] at horder
      exact congrArg (fun hits => Except.ok (List.take limit hits)) horder

/-- Where the hits of the full-text index reach the limit, nothing that follows them is shown. -/
theorem combined_of_full (hfull : limit ≤ found.length)
    (hfound : ∀ hit ∈ found, hit.score = fulltextScore)
    (hcomponents : ∀ hits, components = .ok hits → ∀ hit ∈ hits, hit.score = componentScore) :
    combined limit found substrings components = components.map fun _ => found.take limit := by
  rw [combined, if_neg (Nat.not_lt.2 hfull)]
  cases components with
  | error failure => rfl
  | ok parts =>
    have horder := byScore_found_components_substrings hfound (hcomponents parts rfl) fun hit hhit =>
      absurd hhit List.not_mem_nil
    rw [List.append_nil, List.append_nil] at horder
    refine (congrArg (fun hits => Except.ok (List.take limit hits)) horder).trans ?_
    exact congrArg Except.ok (List.take_append_of_le_length hfull)

/-- Where the hits of the full-text index stand in another order, all else is the same. -/
theorem combined_of_perm (hperm : found.Perm found')
    (hfound : ∀ hit ∈ found, hit.score = fulltextScore)
    (hsubstrings : ∀ hits, substrings = .ok hits →
      ∀ hit ∈ hits, hit.score = substringScore ∧ hit.matchKinds = [.substring])
    (hcomponents : ∀ hits, components = .ok hits →
      ∀ hit ∈ hits, hit.score = componentScore ∧ hit.matchKinds = [.component]) :
    (∃ failure, combined limit (atMost limit found) substrings components = .error failure ∧
      combined limit (atMost limit found') substrings components = .error failure) ∨
    ∃ rest, (∀ hit ∈ rest, hit.matchKinds = [.component] ∨ hit.matchKinds = [.substring]) ∧
      combined limit (atMost limit found) substrings components = .ok ((found ++ rest).take limit) ∧
      combined limit (atMost limit found') substrings components =
        .ok ((found' ++ rest).take limit) := by
  have hfound' : ∀ hit ∈ found', hit.score = fulltextScore := fun hit hhit =>
    hfound hit (hperm.mem_iff.2 hhit)
  have hmore : ∀ hits, substrings = .ok hits → ∀ hit ∈ hits, hit.score = substringScore :=
    fun hits h hit hhit => (hsubstrings hits h hit hhit).1
  have hparts : ∀ hits, components = .ok hits → ∀ hit ∈ hits, hit.score = componentScore :=
    fun hits h hit hhit => (hcomponents hits h hit hhit).1
  have hlength := length_atMost_congr hperm.length_eq limit
  by_cases hroom : (atMost limit found).length < limit
  · have hroom' := hlength ▸ hroom
    have hall := (atMost_cases limit found).resolve_right (Nat.not_le_of_lt hroom)
    have hall' := (atMost_cases limit found').resolve_right (Nat.not_le_of_lt hroom')
    rw [hall] at hroom ⊢
    rw [hall'] at hroom' ⊢
    rw [combined_of_room hroom hfound hmore hparts, combined_of_room hroom' hfound' hmore hparts]
    -- which chunks are added depends on the places seen, and not on their order
    have hseen : ∀ x, x ∈ found.map Hit.location ↔ x ∈ found'.map Hit.location := fun x =>
      (hperm.map _).mem_iff
    cases substrings with
    | error failure => exact .inl ⟨failure, rfl, rfl⟩
    | ok more =>
      cases components with
      | error failure => exact .inl ⟨failure, rfl, rfl⟩
      | ok parts =>
        refine .inr ⟨parts ++ Hit.unseen (found.map Hit.location) more, fun hit hhit => ?_, rfl, ?_⟩
        · rcases List.mem_append.1 hhit with hhit | hhit
          · exact .inl (hcomponents parts rfl hit hhit).2
          · exact .inr (hsubstrings more rfl hit (mem_of_mem_unseen hhit)).2
        · rw [unseen_congr hseen]
          rfl
  · have hfull := Nat.le_of_not_lt hroom
    have hfull' := hlength ▸ hfull
    -- the limit is reached in both, and components still can make the search fail
    have hcut := isPrefix_atMost limit found
    have hcut' := isPrefix_atMost limit found'
    rw [combined_of_full hfull (fun hit h => hfound hit (hcut.mem h)) hparts,
      combined_of_full hfull' (fun hit h => hfound' hit (hcut'.mem h)) hparts,
      ← take_of_isPrefix hcut hfull, ← take_of_isPrefix hcut' hfull']
    cases components with
    | error failure => exact .inl ⟨failure, rfl, rfl⟩
    | ok parts =>
      refine .inr ⟨[], fun hit hhit => absurd hhit List.not_mem_nil, ?_, ?_⟩
      · rw [List.append_nil]
        rfl
      · rw [List.append_nil]
        rfl

theorem indexHits_nil (α : Type) [Score α] (s : Store) (project : String) :
    s.indexHits α project [] = [] := by
  unfold indexHits
  cases s.fulltext <;> rfl

/-- Searches in two indexes that hold the same rows of a project differ at most in the order of the hits
of the full-text index. -/
theorem textSearch_of_perm (α : Type) [Score α] {s s' : Store} {project text : String}
    (h : SameRows project s s')
    (hperm : (s.indexHits α project (trim text.toList)).Perm
      (s'.indexHits α project (trim text.toList))) (limit : Nat) :
    (∃ failure, s.textSearch α project text limit = .error failure ∧
      s'.textSearch α project text limit = .error failure) ∨
    ∃ rest, (∀ hit ∈ rest, hit.matchKinds = [.component] ∨ hit.matchKinds = [.substring]) ∧
      s.textSearch α project text limit =
        .ok ((s.indexHits α project (trim text.toList) ++ rest).take limit) ∧
      s'.textSearch α project text limit =
        .ok ((s'.indexHits α project (trim text.toList) ++ rest).take limit) := by
  by_cases hblank : trim text.toList = []
  · refine .inr ⟨[], fun hit hhit => absurd hhit List.not_mem_nil, ?_, ?_⟩ <;>
      simp [textSearch, hblank, indexHits_nil]
  rcases Nat.eq_zero_or_pos limit with rfl | hpos
  · refine .inr ⟨[], fun hit hhit => absurd hhit List.not_mem_nil, ?_, ?_⟩ <;> simp [textSearch]
  rw [textSearch_eq_combined α _ _ hblank hpos, textSearch_eq_combined α _ _ hblank hpos,
    ← h.substringHits, ← h.componentHits]
  exact combined_of_perm hperm (fun hit hhit => score_of_mem_indexHits α hhit)
    (fun _ => mem_of_substringHits) fun _ => mem_of_componentHits

end Search

/-- **Only the order of the hits of the full-text index depends on other projects**, and on nothing but
three numbers of theirs. In two indexes that hold the same rows of a project and have a full-text index
that is new, the same chunks of the project are hits of the full-text index, with the same marks. With
every limit a search for a text fails for the same reason in both, or it shows these hits and then the
same components and chunks that contain the text, cut at the limit. And if as many rows are indexed in
both, with as many terms, and as many hold each phrase, then the results are the same, hit by hit. -/
theorem textSearch_depends_on_statistics (α : Type) [Score α] {κ : Type} [LinearOrder κ] {s s' : Store}
    {project : String} (h : SameRows project s s') (hs : s.rebuilt .chunks = s)
    (hs' : s'.rebuilt .chunks = s') (text : String) :
    let query := trim text.toList
    let search := s.textSearch α project text
    let search' := s'.textSearch α project text
    let found := s.indexHits α project query
    let found' := s'.indexHits α project query
    found.Perm found' ∧
    (∀ limit, (∃ failure, search limit = .error failure ∧ search' limit = .error failure) ∨
      ∃ rest, (∀ hit ∈ rest, hit.matchKinds = [.component] ∨ hit.matchKinds = [.substring]) ∧
        search limit = .ok ((found ++ rest).take limit) ∧
        search' limit = .ok ((found' ++ rest).take limit)) ∧
    ∀ key : α → κ, Score.OrdersBy key → s.statistics query = s'.statistics query →
      ∀ limit, search limit = search' limit := by
  intro query search search' found found'
  have hperm : found.Perm found' := indexHits_perm α h hs hs'
  have hresults := textSearch_of_perm α h hperm
  refine ⟨hperm, hresults, fun key hkey hstatistics limit => ?_⟩
  have hsame : found = found' := indexHits_congr α hkey h hs hs' hstatistics
  rcases hresults limit with ⟨failure, hfail, hfail'⟩ | ⟨rest, -, hok, hok'⟩
  · exact hfail.trans hfail'.symm
  · refine hok.trans (.trans ?_ hok'.symm)
    exact congrArg (fun hits => Except.ok (List.take limit (hits ++ rest))) hsame

/-! ## Rows of another project that change the order -/

namespace Sample

/-- A file of words. -/
def note (filePath content : String) : Chunk :=
  ⟨filePath, 0, content, .unknown, .file, none, none, 1, 1, []⟩

/-- An index of two files of a project, of the same length and with the same two words, and of three
files of another project that hold one word each. -/
def notes (word : String) : Store :=
  let own := (Store.created.addChunk "shop" (note "a.txt" "read read write") none).addChunk "shop"
    (note "b.txt" "read write write") none
  let all := ["c.txt", "d.txt", "e.txt"].foldl
    (fun s path => s.addChunk "mirror" (note path word) none) own
  { all with fulltext := some (all.chunks.rows.map fulltextRow) }

theorem sameRows_notes (word word' : String) : SameRows "shop" (notes word) (notes word') where
  chunks := rfl
  symbols := .nil
  components := rfl

theorem rebuilt_notes (word : String) : (notes word).rebuilt .chunks = notes word := rfl

/-- The rows of the two files. -/
def rowA : ChunkRow := .ofChunk "shop" (note "a.txt" "read read write") none

@[inherit_doc rowA]
def rowB : ChunkRow := .ofChunk "shop" (note "b.txt" "read write write") none

/-- The two words as phrases. -/
def twoWords : List FullText.Phrase := ["read".toList, "write".toList].map fun word => [word]

theorem phrases_twoWords : FullText.phrases? "read write".toList = some twoWords := by decide +kernel

theorem statistics_notes :
    (notes "write").statistics "read write".toList = ⟨5, 24, [2, 5]⟩ ∧
      (notes "read").statistics "read write".toList = ⟨5, 24, [5, 2]⟩ := by
  decide +kernel

theorem rarity_lt : (FullText.rarity 5 5 : ℝ) < FullText.rarity 5 2 := by
  have hcommon : Real.log ((5 - 5 + 1 / 2) / (5 + 1 / 2)) ≤ 0 :=
    Real.log_nonpos (by norm_num) (by norm_num)
  have hrare : 2 / 7 ≤ Real.log ((5 - 2 + 1 / 2) / (2 + 1 / 2)) := by
    refine le_trans ?_ (Real.one_sub_inv_le_log_of_pos (by norm_num))
    norm_num
  rw [FullText.rarity_real, FullText.rarity_real, Nat.cast_ofNat, Nat.cast_ofNat, if_pos hcommon,
    if_neg (by linarith)]
  linarith

theorem saturation_lt : (FullText.saturation 1 6 24 5 : ℝ) < FullText.saturation 2 6 24 5 := by
  norm_num [FullText.saturation_real]

theorem relevance_notes {word : String} {n m f g : Nat} {r : ChunkRow}
    (h : (notes word).statistics "read write".toList = ⟨5, 24, [n, m]⟩)
    (hr : twoWords.map r.entry.terms.frequency = [f, g] ∧ r.entry.terms.size = 6) :
    r.entry.relevance ℝ ((notes word).chunks.rows.map fulltextRow) twoWords =
      FullText.rarity 5 n * FullText.saturation f 6 24 5 +
        FullText.rarity 5 m * FullText.saturation g 6 24 5 := by
  rw [statistics, phrases_twoWords] at h
  obtain ⟨hfrequency, hsize⟩ := hr
  obtain ⟨hf, hg⟩ := List.cons.inj hfrequency
  have hrelevance := FullText.relevance_pair (α := ℝ) h r.entry.terms
  rw [hsize, hf, (List.cons.inj hg).1, Score.zero_real] at hrelevance
  exact hrelevance.trans (congrArg (· + _) (zero_add _))

theorem moreRelevant_notes {word : String} {n m : Nat}
    (h : (notes word).statistics "read write".toList = ⟨5, 24, [n, m]⟩) :
    moreRelevant ℝ ((notes word).chunks.rows.map fulltextRow) twoWords rowA rowB = true ↔
      (FullText.rarity 5 m : ℝ) ≤ FullText.rarity 5 n := by
  -- the two files hold the words the other way round, so the rarer word decides
  have hgap := sub_pos.2 saturation_lt
  have hdifference : ∀ x y : ℝ,
      x * FullText.saturation 2 6 24 5 + y * FullText.saturation 1 6 24 5 -
        (x * FullText.saturation 1 6 24 5 + y * FullText.saturation 2 6 24 5) =
      (x - y) * (FullText.saturation 2 6 24 5 - FullText.saturation 1 6 24 5) := fun x y => by ring
  rw [moreRelevant, Score.le_real, relevance_notes h (f := 1) (g := 2) (by decide +kernel),
    relevance_notes h (f := 2) (g := 1) (by decide +kernel), ← sub_nonneg, hdifference,
    mul_nonneg_iff_of_pos_right hgap, sub_nonneg]

theorem textSearch_notes {word : String} {n m : Nat}
    (h : (notes word).statistics "read write".toList = ⟨5, 24, [n, m]⟩)
    (hholds : (notes word).chunks.toList.filter (·.entry.holds twoWords) = [rowA, rowB]) :
    ((notes word).textSearch ℝ "shop" "read write" 1).map (·.map (·.filePath)) =
      .ok [if (FullText.rarity 5 m : ℝ) ≤ FullText.rarity 5 n then "a.txt" else "b.txt"] := by
  have htrim : trim "read write".toList = "read write".toList := by decide +kernel
  have hhits : (notes word).indexHits ℝ "shop" "read write".toList =
      (if (FullText.rarity 5 m : ℝ) ≤ FullText.rarity 5 n then [rowA, rowB]
        else [rowB, rowA]).map (fulltextHit twoWords) := by
    rw [indexHits_of_rebuilt ℝ (rebuilt_notes word), phrases_twoWords, Option.elim_some,
      fulltextRows_eq ℝ _ (by decide), hholds, mergeSort_pair]
    simp only [moreRelevant_notes h]
    split <;> rfl
  have hcomponents : (notes word).componentHits "shop" "read write".toList 1 = .ok [] := by
    have hnone : (notes word).components.toList = [] := rfl
    rw [componentHits, componentsByName, hnone, List.filter_nil, List.mergeSort_nil]
    rfl
  have hfull : 1 ≤ (atMost 1 ((notes word).indexHits ℝ "shop" "read write".toList)).length := by
    rw [hhits]
    split <;> decide
  rw [textSearch_eq_combined ℝ _ _ (by rw [htrim]; decide) one_pos, htrim, hcomponents,
    combined_of_full hfull (fun hit hhit =>
      score_of_mem_indexHits ℝ ((isPrefix_atMost 1 _).mem hhit)) fun _ h => by
        cases h
        exact fun _ h => absurd h List.not_mem_nil,
    hhits]
  split <;> rfl

end Sample

/-- **Rows of another project change the order of hits**, and with a limit which of them are shown. -/
theorem other_rows_change_order :
    SameRows "shop" (Sample.notes "write") (Sample.notes "read") ∧
      (Sample.notes "write").rebuilt .chunks = Sample.notes "write" ∧
      (Sample.notes "read").rebuilt .chunks = Sample.notes "read" ∧
      ((Sample.notes "write").textSearch ℝ "shop" "read write" 1).map (·.map (·.filePath)) =
        .ok ["a.txt"] ∧
      ((Sample.notes "read").textSearch ℝ "shop" "read write" 1).map (·.map (·.filePath)) =
        .ok ["b.txt"] := by
  obtain ⟨hwrite, hread⟩ := Sample.statistics_notes
  refine ⟨Sample.sameRows_notes _ _, Sample.rebuilt_notes _, Sample.rebuilt_notes _, ?_, ?_⟩
  · rw [Sample.textSearch_notes hwrite (by decide +kernel), if_pos Sample.rarity_lt.le]
  · rw [Sample.textSearch_notes hread (by decide +kernel), if_neg Sample.rarity_lt.not_ge]

/-- Words of the other project that the query does not hold do not change the results. -/
theorem textSearch_depends_on_statistics_notes :
    SameRows "shop" (Sample.notes "list") (Sample.notes "next") ∧
      (Sample.notes "list").rebuilt .chunks = Sample.notes "list" ∧
      (Sample.notes "next").rebuilt .chunks = Sample.notes "next" ∧
      ∀ limit, (Sample.notes "list").textSearch ℝ "shop" "read write" limit =
        (Sample.notes "next").textSearch ℝ "shop" "read write" limit := by
  have hsame := Sample.sameRows_notes "list" "next"
  have hrebuilt := Sample.rebuilt_notes "list"
  have hrebuilt' := Sample.rebuilt_notes "next"
  exact ⟨hsame, hrebuilt, hrebuilt',
    (textSearch_depends_on_statistics ℝ hsame hrebuilt hrebuilt' "read write").2.2 id
      Score.ordersBy_real (by decide +kernel)⟩

end Store

end CodeIndex
