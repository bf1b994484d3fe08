import CodeIndex.Proofs.Search.Symbols
import CodeIndex.Proofs.Store.Table
import CodeIndex.Proofs.Text.Occurrence

/-!
What a limit leaves of the search for symbols.

The four ways in which a name can match share out the names that contain the query if the case of ASCII
letters does not count: each of these matches in one way and no other name in any. So no symbol comes up
twice, every way of matching fills the room that the ones before it have left, and the results are the
first hits of one ranking.

* `Tier.Holds` says of names what each way of matching means, and `Tier.accepts_iff` that it is what is
  compared;
* `Tier.existsUnique_holds`: the ways exclude one another and leave nothing out;
* `Store.perm_groups`: the symbols, group by group, are those whose names contain the query;
* `Store.addTiers_eq_take`: room that is handed from one way to the next cuts the list of all their hits;
* `Store.symbolSearch_takes_tiers`: the results are the first hits of the ranking.
-/
namespace CodeIndex

open Text

/-! ## The ways of matching -/

namespace Tier

/-- What each way of matching means. -/
def Holds (query name : List Char) : Tier → Prop
  | exact => name = query
  | start => query <+: name ∧ name ≠ query
  | contains => query <:+: name ∧ ¬ query <+: name
  | anyCase => folded query <:+: folded name ∧ ¬ query <:+: name

instance (query name : List Char) : (tier : Tier) → Decidable (tier.Holds query name)
  | exact => inferInstanceAs (Decidable (name = query))
  | start => inferInstanceAs (Decidable (query <+: name ∧ name ≠ query))
  | contains => inferInstanceAs (Decidable (query <:+: name ∧ ¬ query <+: name))
  | anyCase => inferInstanceAs (Decidable (folded query <:+: folded name ∧ ¬ query <:+: name))

variable {query name : List Char} {tier tier' : Tier}

/-- A name without a character of code zero is compared as it is meant. -/
theorem accepts_iff (hnul : '\x00' ∉ name) : tier.accepts query name = true ↔ tier.Holds query name := by
  cases tier with
  | exact => simp [accepts, Holds]
  | start =>
    -- a query that a name starts with has no such character either
    have hcounted : query <+: name → untilNul query = query := fun hstart =>
      untilNul_of_not_mem fun hmem => hnul (hstart.mem hmem)
    simp only [accepts, Holds, Bool.and_eq_true, beq_iff_eq, bne_iff_ne, List.isPrefixOf_iff_prefix]
    exact ⟨fun h => ⟨h.1.2, h.2⟩, fun h => ⟨⟨hcounted h.1, h.1⟩, h.2⟩⟩
  | contains => exact indexOf?_pos_iff
  | anyCase =>
    simp only [accepts, Holds, Bool.and_eq_true, Bool.not_eq_true', ← Bool.not_eq_true, occurs_iff]

theorem Holds.folded_infix (h : tier.Holds query name) : folded query <:+: folded name := by
  have hfold : query <:+: name → folded query <:+: folded name := fun hinfix => hinfix.map asciiLower
  cases tier with
  | exact => exact hfold (h ▸ List.infix_rfl)
  | start => exact hfold h.1.isInfix
  | contains => exact hfold h.1
  | anyCase => exact h.1

theorem Holds.unique (h : tier.Holds query name) (h' : tier'.Holds query name) : tier = tier' := by
  have hself : name = query → query <+: name := fun heq => heq ▸ List.prefix_rfl
  have hinfix : query <+: name → query <:+: name := List.IsPrefix.isInfix
  cases tier <;> cases tier' <;> simp only [Holds] at h h' <;> tauto

/-- A name that contains the query, the case of ASCII letters left out of account, matches in just one
way, and no other name matches. -/
theorem existsUnique_holds : folded query <:+: folded name ↔ ∃! tier : Tier, tier.Holds query name := by
  constructor
  · intro hfold
    have hsome : ∃ tier : Tier, tier.Holds query name := by
      by_cases hinfix : query <:+: name
      · by_cases hstart : query <+: name
        · by_cases heq : name = query
          · exact ⟨exact, heq⟩
          · exact ⟨start, hstart, heq⟩
        · exact ⟨contains, hinfix, hstart⟩
      · exact ⟨anyCase, hfold, hinfix⟩
    obtain ⟨tier, h⟩ := hsome
    exact ⟨tier, h, fun tier' h' => h'.unique h⟩
  · rintro ⟨tier, h, -⟩
    exact h.folded_infix

theorem mem_all (tier : Tier) : tier ∈ all := by cases tier <;> decide

end Tier

namespace Store

variable {s : Store} {project : String} {query : List Char} {limit : Nat}

/-! ## Groups of symbols -/

/-- The symbols of a project that match in one way, by name, file and line. -/
def group (s : Store) (project : String) (query : List Char) (tier : Tier) : List SymbolRow :=
  (s.symbolsByName project).filter fun r => tier.accepts query r.name.toList

/-- The symbols of a project whose names contain a query, the case of ASCII letters left out of
account. -/
def symbolsContaining (s : Store) (project : String) (query : List Char) : List SymbolRow :=
  s.symbols.toList.filter fun r =>
    r.project = project ∧ Tier.folded query <:+: Tier.folded r.name.toList

theorem symbolsContaining_sublist (s : Store) (project : String) (query : List Char) :
    (s.symbolsContaining project query).Sublist (s.symbols.toList.filter (·.project == project)) :=
  List.monotone_filter_right _ fun r hr => by simpa using And.left (of_decide_eq_true hr)

section Groups

variable (hnul : ∀ r ∈ s.symbols.toList, r.project = project → '\x00' ∉ r.name.toList)
include hnul

theorem isListing_group (tier : Tier) :
    IsListing s.symbols (fun r => r.project = project ∧ tier.Holds query r.name.toList)
      SymbolRow.sortKey (s.group project query tier) := by
  refine isListing_filter_mergeSort SymbolRow.before_iff fun r hr => ?_
  rw [beq_iff_eq]
  exact and_congr_right fun hproject => (Tier.accepts_iff (hnul r hr hproject)).symm

theorem mem_group {r : SymbolRow} {tier : Tier} :
    r ∈ s.group project query tier ↔
      r ∈ s.symbols.toList ∧ r.project = project ∧ tier.Holds query r.name.toList := by
  simp [(isListing_group hnul tier).perm.mem_iff]

theorem eq_of_mem_group {r : SymbolRow} {tier tier' : Tier} (h : r ∈ s.group project query tier)
    (h' : r ∈ s.group project query tier') : tier = tier' :=
  ((mem_group hnul).1 h).2.2.unique ((mem_group hnul).1 h').2.2

theorem mem_symbolsContaining_iff {r : SymbolRow} :
    r ∈ s.symbolsContaining project query ↔ ∃! tier, r ∈ s.group project query tier := by
  simp only [mem_group hnul, symbolsContaining, List.mem_filter, decide_eq_true_eq,
    Tier.existsUnique_holds]
  constructor
  · rintro ⟨hr, hproject, tier, h, honly⟩
    exact ⟨tier, ⟨hr, hproject, h⟩, fun tier' h' => honly tier' h'.2.2⟩
  · rintro ⟨tier, ⟨hr, hproject, h⟩, -⟩
    exact ⟨hr, hproject, tier, h, fun tier' h' => h'.unique h⟩

theorem perm_groups (hrows : (s.symbols.toList.filter (·.project == project)).Nodup) :
    (Tier.all.flatMap (s.group project query)).Perm (s.symbolsContaining project query) := by
  have hlisted : (s.symbolsByName project).Nodup := (List.mergeSort_perm _ _).nodup_iff.2 hrows
  have hcontaining : (s.symbolsContaining project query).Nodup :=
    hrows.sublist (symbolsContaining_sublist s project query)
  have hgroups : (Tier.all.flatMap (s.group project query)).Nodup := by
    refine List.nodup_flatMap.2 ⟨fun tier _ => hlisted.filter _, ?_⟩
    have hall : Tier.all.Nodup := by decide
    exact hall.imp fun hne r h h' => hne (eq_of_mem_group hnul h h')
  refine (List.perm_ext_iff_of_nodup hgroups hcontaining).2 fun r => ?_
  rw [List.mem_flatMap, mem_symbolsContaining_iff hnul]
  constructor
  · rintro ⟨tier, -, h⟩
    exact ⟨tier, h, fun tier' h' => eq_of_mem_group hnul h' h⟩
  · rintro ⟨tier, h, -⟩
    exact ⟨tier, Tier.mem_all tier, h⟩

end Groups

/-! ## Room handed on -/

/-- The hit for a symbol that matches in one way. -/
def symbolHit (s : Store) (tier : Tier) (r : SymbolRow) : Hit Float :=
  r.hit (s.symbolPreview r) tier.score tier.matchKind

/-- All hits of one way of matching. -/
def groupHits (s : Store) (project : String) (query : List Char) (tier : Tier) : List (Hit Float) :=
  (s.group project query tier).map (s.symbolHit tier)

/-- All hits of all ways of matching. -/
def symbolRanking (s : Store) (project : String) (query : List Char) : List (Hit Float) :=
  Tier.all.flatMap (s.groupHits project query)

theorem tierHits_eq (tier : Tier) :
    s.tierHits project query limit tier = atMost limit (s.groupHits project query tier) :=
  map_atMost _ _ _

variable {table hits : List (Hit Float)}

theorem addNew_eq_append (hkeys : ((table ++ hits).map symbolKey).Nodup) :
    addNew table hits = table ++ hits := by
  induction hits generalizing table with
  | nil => rw [addNew, List.append_nil]
  | cons h hits ih =>
    have hnew : (table.any fun k => symbolKey k == symbolKey h) = false := by
      rw [List.any_eq_false]
      intro k hk heq
      rw [List.map_append, List.nodup_append] at hkeys
      exact hkeys.2.2 _ (List.mem_map_of_mem hk) _ (List.mem_map_of_mem List.mem_cons_self)
        (eq_of_beq heq)
    rw [List.append_cons] at hkeys ⊢
    rw [addNew, hnew, if_neg Bool.false_ne_true, ih hkeys]

/-- Each way of matching fills the room that is left, so the table is the list of all hits, cut at the
limit. -/
theorem addTiers_eq_take (hrows : limit < 2 ^ 63 ∨ s.symbols.last < 2 ^ 63) {tiers : List Tier}
    (hlen : table.length ≤ limit)
    (hkeys : ((table ++ tiers.flatMap (s.groupHits project query)).map symbolKey).Nodup) :
    s.addTiers project query limit table tiers =
      (table ++ tiers.flatMap (s.groupHits project query)).take limit := by
  induction tiers generalizing table with
  | nil => rw [addTiers, List.flatMap_nil, List.append_nil, List.take_of_length_le hlen]
  | cons tier tiers ih =>
    rw [addTiers]
    split
    · rename_i hfull
      have hreached : limit ≤ table.length := Nat.le_of_sub_eq_zero hfull
      rw [List.take_append_of_le_length hreached, List.take_of_length_le hlen]
    · rw [tierHits_eq]
      set room := limit - table.length
      set cut := atMost room (s.groupHits project query tier)
      have hcut : cut <+: s.groupHits project query tier := isPrefix_atMost _ _
      rw [List.flatMap_cons, ← List.append_assoc] at hkeys
      have hadded : ((table ++ cut).map symbolKey).Nodup := by
        refine hkeys.sublist (List.Sublist.map _ ?_)
        exact (hcut.sublist.append_left table).trans (List.sublist_append_left _ _)
      have hcutlen : cut.length ≤ room :=
        (congrArg List.length (tierHits_eq tier)).symm.trans_le
          (length_tierHits_le hrows (Nat.sub_le _ _) tier)
      rw [addNew_eq_append hadded, ih, List.append_assoc, List.flatMap_cons]
      · exact take_append_congr _ (take_atMost_append (Nat.le_refl _) _ rfl)
      · rw [List.length_append]
        omega
      · refine hkeys.sublist (List.Sublist.map _ ?_)
        exact (hcut.sublist.append_left table).append_right _

/-! ## The ranking -/

theorem length_symbolRanking :
    (s.symbolRanking project query).length = (Tier.all.flatMap (s.group project query)).length := by
  simp [symbolRanking, groupHits]

theorem nodup_symbolRanking
    (hnul : ∀ r ∈ s.symbols.toList, r.project = project → '\x00' ∉ r.name.toList)
    (hdistinct : (s.symbols.keep (·.project == project)).UniqueBy
      fun r => (r.name, r.filePath, r.firstLine)) :
    ((s.symbolRanking project query).map symbolKey).Nodup := by
  have hplaces := hdistinct.nodup_filter
  have hperm : (Tier.all.flatMap (s.group project query)).Perm (s.symbolsContaining project query) :=
    perm_groups hnul hplaces.of_map
  have hgroups := (hperm.map fun r => (r.name, r.filePath, r.firstLine)).nodup_iff.2
    (hplaces.sublist ((symbolsContaining_sublist s project query).map _))
  have hkeys : (s.symbolRanking project query).map symbolKey =
      ((Tier.all.flatMap (s.group project query)).map fun r => (r.name, r.filePath, r.firstLine)).map
        fun place => (some place.1, place.2.1, some place.2.2) := by
    rw [List.map_map, symbolRanking, List.map_flatMap, List.map_flatMap]
    simp only [groupHits, List.map_map]
    rfl
  rw [hkeys]
  refine hgroups.map fun a b h => ?_
  simpa [Prod.ext_iff] using h

/-- **A limit cuts one ranking.** The symbols of a project whose names contain the query if the case of
ASCII letters does not count fall into four groups, each by name, file and line: names that are the
query, those that start with it, those that contain it later on, and those that contain it in another
case only. A search finds the first of them, group by group, as many as the limit allows, and they count
1.0, 0.8, 0.5 and 0.4. A limit that is negative as a word with a sign does not cut, but no store has as
many rows as it allows: the numbers of rows are words with a sign. -/
theorem symbolSearch_takes_tiers (s : Store) (project : String) {text : String}
    (hblank : trim text.toList ≠ [])
    (hnul : ∀ r ∈ s.symbols.toList, r.project = project → '\x00' ∉ r.name.toList)
    (hdistinct : (s.symbols.keep (·.project == project)).UniqueBy
      fun r => (r.name, r.filePath, r.firstLine)) :
    let query := trim text.toList
    let found := s.symbols.toList.filter fun r =>
      r.project = project ∧ Tier.folded query <:+: Tier.folded r.name.toList
    ∃ group : Tier → List SymbolRow,
      (∀ tier, IsListing s.symbols (fun r => r.project = project ∧ tier.Holds query r.name.toList)
        SymbolRow.sortKey (group tier)) ∧
      (∀ r, r ∈ found ↔ ∃! tier, r ∈ group tier) ∧
      let hits := fun tier => (group tier).map (s.symbolHit tier)
      let ranking := hits .exact ++ hits .start ++ hits .contains ++ hits .anyCase
      ranking.length = found.length ∧
      ranking.map Hit.score =
        List.replicate (group .exact).length 1.0 ++ List.replicate (group .start).length 0.8 ++
          List.replicate (group .contains).length 0.5 ++
          List.replicate (group .anyCase).length 0.4 ∧
      ∀ e limit, limit < 2 ^ 63 ∨ s.symbols.last < 2 ^ 63 →
        (s.symbolSearch e project text limit).Perm (ranking.take (min limit found.length)) := by
  intro query found
  refine ⟨s.group project query, isListing_group hnul, fun r => mem_symbolsContaining_iff hnul, ?_⟩
  intro hits ranking
  have hranking : ranking = s.symbolRanking project query := by
    simp [ranking, hits, symbolRanking, Tier.all, groupHits]
  have hkeys : ((s.symbolRanking project query).map symbolKey).Nodup :=
    nodup_symbolRanking hnul hdistinct
  have hlength : ranking.length = found.length := by
    rw [hranking, length_symbolRanking,
      (perm_groups hnul hdistinct.nodup_filter.of_map).length_eq]
    rfl
  have hscores : ∀ tier, (hits tier).map Hit.score = List.replicate (s.group project query tier).length
      tier.score := fun tier => by
    rw [List.map_map, ← List.map_const']
    rfl
  refine ⟨hlength, ?_, fun e limit hrows => ?_⟩
  · simp only [ranking, List.map_append, hscores]
    rfl
  · have htable : s.symbolTable project query limit = ranking.take limit := by
      rw [hranking]
      have hempty : ([] : List (Hit Float)).length ≤ limit := Nat.zero_le limit
      exact addTiers_eq_take hrows hempty hkeys
    rw [← hlength, ← List.take_eq_take_min, ← htable]
    refine symbolSearch_perm e rfl hblank ?_
    rw [htable]
    exact List.length_take_le _ _

namespace Sample

/-- A function that is declared on a line of one file. -/
def function (name : String) (firstLine : Nat) : SymbolRow :=
  ⟨"shop", "a.ts", name, .function, none, .typescript, firstLine, firstLine, 1⟩

/-- Functions with a word in their names, and one without. -/
def functions : Store :=
  { Store.created with
    symbols := Table.empty.insertAll
      [function "useAuth" 1, function "AUTHOR" 2, function "login" 3, function "AuthService" 4,
        function "isAuthed" 5, function "Auth" 6] }

end Sample

/-- The names come in the order of their groups, and by the alphabet where there are two in one. -/
theorem symbolSearch_takes_tiers_functions :
    ∃ ranking : List (Hit Float),
      ranking.map Hit.name =
        [some "Auth", some "AuthService", some "isAuthed", some "useAuth", some "AUTHOR"] ∧
      ∀ e limit, (Sample.functions.symbolSearch e "shop" " Auth " limit).Perm
        (ranking.take (min limit 5)) := by
  have hnul : ∀ r ∈ Sample.functions.symbols.toList, r.project = "shop" → '\x00' ∉ r.name.toList := by
    decide
  have hdistinct : (Sample.functions.symbols.keep (·.project == "shop")).UniqueBy
      fun r => (r.name, r.filePath, r.firstLine) := by
    unfold Table.UniqueBy
    decide
  obtain ⟨group, hgroup, -, -, -, hsearch⟩ := symbolSearch_takes_tiers Sample.functions "shop"
    (show trim " Auth ".toList ≠ [] by decide) hnul hdistinct
  refine ⟨_, ?_, fun e limit => hsearch e limit (.inr (by decide))⟩
  have hexact : group .exact = [Sample.function "Auth" 6] :=
    (hgroup .exact).unique ⟨by decide +kernel, List.pairwise_singleton _ _⟩ (by simp)
  have hstart : group .start = [Sample.function "AuthService" 4] :=
    (hgroup .start).unique ⟨by decide +kernel, List.pairwise_singleton _ _⟩ (by simp)
  have hcontains : group .contains = [Sample.function "isAuthed" 5, Sample.function "useAuth" 1] :=
    (hgroup .contains).unique ⟨by decide +kernel, by decide +kernel⟩ (by decide +kernel)
  have hanyCase : group .anyCase = [Sample.function "AUTHOR" 2] :=
    (hgroup .anyCase).unique ⟨by decide +kernel, List.pairwise_singleton _ _⟩ (by simp)
  simp only [hexact, hstart, hcontains, hanyCase]
  rfl

end Store

end CodeIndex
