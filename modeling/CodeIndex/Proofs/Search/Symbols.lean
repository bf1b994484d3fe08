import CodeIndex.Proofs.Search.Listing
import CodeIndex.Proofs.Search.Order
import CodeIndex.Proofs.Store.Table
import CodeIndex.Search.Symbols

/-!
What the search for symbols finds.

The results are what is in the table of hits, if that does not grow past the limit
(`symbolSearch_perm`). The table only grows, so every hit that gets into it is among the results
(`mem_symbolSearch`). A symbol of a project is found by its name as soon as the limit lets in all symbols
of that name (`exists_hit_of_name`).
-/
namespace CodeIndex

open Text

namespace Store

/-! ## The table of hits -/

variable {table hits : List (Hit Float)} {h : Hit Float}

theorem addNew_sublist (table hits : List (Hit Float)) :
    (addNew table hits).Sublist (table ++ hits) := by
  induction hits generalizing table with
  | nil => exact (List.append_nil table).symm ▸ List.Sublist.refl table
  | cons h hits ih =>
    rw [addNew]
    split
    · exact (ih table).trans ((List.sublist_cons_self h hits).append_left table)
    · refine (ih _).trans ?_
      rw [List.append_assoc, List.singleton_append]

theorem length_addNew_le (table hits : List (Hit Float)) :
    (addNew table hits).length ≤ table.length + hits.length :=
  (addNew_sublist table hits).length_le.trans_eq List.length_append

theorem mem_addNew_of_mem (hmem : h ∈ table) : h ∈ addNew table hits := by
  induction hits generalizing table with
  | nil => exact hmem
  | cons k hits ih =>
    rw [addNew]
    refine ih ?_
    split
    · exact hmem
    · exact List.mem_append_left _ hmem

/-- What is added has its place in the table, if not taken by itself then by an earlier hit. -/
theorem exists_key_addNew (hmem : h ∈ hits) : ∃ k ∈ addNew table hits, symbolKey k = symbolKey h := by
  induction hits generalizing table with
  | nil => cases hmem
  | cons k hits ih =>
    rw [addNew]
    rcases List.mem_cons.1 hmem with rfl | hmem
    · split
      · rename_i htaken
        obtain ⟨k, hk, heq⟩ := List.any_eq_true.1 htaken
        exact ⟨k, mem_addNew_of_mem hk, eq_of_beq heq⟩
      · exact ⟨h, mem_addNew_of_mem (List.mem_append_right _ (List.mem_singleton_self h)), rfl⟩
    · exact ih hmem

variable {s : Store} {project : String} {query : List Char} {limit : Nat}

/-- A way of matching takes no more room than it is given. A limit may be negative as a word with a sign
and cut nothing, but then it is out of the reach of the rows. -/
theorem length_tierHits_le (hrows : limit < 2 ^ 63 ∨ s.symbols.last < 2 ^ 63) {room : Nat}
    (hroom : room ≤ limit) (tier : Tier) :
    (s.tierHits project query room tier).length ≤ room := by
  rw [tierHits, List.length_map]
  rcases hrows with hlimit | hlast
  · exact length_atMost_le (hroom.trans_lt hlimit) _
  · refine length_atMost_le_of_few ?_ room
    calc ((s.symbolsByName project).filter fun r => tier.accepts query r.name.toList).length
        ≤ (s.symbolsByName project).length := List.length_filter_le _ _
      _ = (s.symbols.toList.filter (·.project == project)).length := List.length_mergeSort _
      _ ≤ s.symbols.toList.length := List.length_filter_le _ _
      _ ≤ s.symbols.last + 1 := s.symbols.length_toList_le
      _ ≤ 2 ^ 63 := hlast

theorem length_addTiers_le (hrows : limit < 2 ^ 63 ∨ s.symbols.last < 2 ^ 63)
    (hlen : table.length ≤ limit) (tiers : List Tier) :
    (s.addTiers project query limit table tiers).length ≤ limit := by
  induction tiers generalizing table with
  | nil => exact hlen
  | cons tier tiers ih =>
    rw [addTiers]
    split
    · exact hlen
    · refine ih (Nat.le_trans (length_addNew_le _ _) ?_)
      have hadded : (s.tierHits project query (limit - table.length) tier).length ≤
          limit - table.length := length_tierHits_le hrows (Nat.sub_le limit table.length) tier
      omega

theorem mem_addTiers_of_mem (hmem : h ∈ table) (tiers : List Tier) :
    h ∈ s.addTiers project query limit table tiers := by
  induction tiers generalizing table with
  | nil => exact hmem
  | cons tier tiers ih =>
    rw [addTiers]
    split
    · exact hmem
    · exact ih (mem_addNew_of_mem hmem)

/-! ## Results -/

theorem symbolSearch_perm (e : Enumeration) {text : String} (hquery : trim text.toList = query)
    (hblank : query ≠ []) (hlen : (s.symbolTable project query limit).length ≤ limit) :
    (s.symbolSearch e project text limit).Perm (s.symbolTable project query limit) := by
  rcases Nat.eq_zero_or_pos limit with rfl | hpos
  · rw [List.eq_nil_of_length_eq_zero (Nat.le_zero.1 hlen)]
    simp [symbolSearch]
  have hperm := (Hit.byScore_perm (e.order (s.symbolTable project query limit))).trans (e.perm _)
  simp only [symbolSearch, hquery, isEmpty_or_eq_zero hblank hpos, Bool.false_eq_true, if_false]
  rwa [List.take_of_length_le (hperm.length_eq.trans_le hlen)]

theorem mem_symbolSearch (e : Enumeration) {text : String} (htext : trim text.toList ≠ [])
    (hlimit : limit < 2 ^ 63) (hmem : h ∈ s.symbolTable project (trim text.toList) limit) :
    h ∈ s.symbolSearch e project text limit :=
  (symbolSearch_perm e rfl htext
    (length_addTiers_le (.inl hlimit) (Nat.zero_le _) _)).mem_iff.2 hmem

/-- The symbols of a project with a name. -/
def symbolsNamed (s : Store) (project name : String) : List SymbolRow :=
  s.symbols.toList.filter fun r => r.project == project && r.name == name

theorem perm_symbolsNamed (s : Store) (project name : String) :
    ((s.symbolsByName project).filter fun r => Tier.accepts name.toList r.name.toList .exact).Perm
      (s.symbolsNamed project name) := by
  have hperm : (s.symbolsByName project).Perm (s.symbols.toList.filter (·.project == project)) :=
    List.mergeSort_perm _ _
  refine (hperm.filter _).trans ?_
  rw [List.filter_filter, symbolsNamed]
  refine .of_eq (List.filter_congr fun r _ => ?_)
  rw [Bool.and_comm, Tier.accepts]
  congr 1
  rw [Bool.eq_iff_iff, beq_iff_eq, beq_iff_eq, String.toList_inj]

/-- **A symbol is found by its name.** -/
theorem exists_hit_of_name (e : Enumeration) {name : String} {r : SymbolRow}
    (hr : r ∈ s.symbols.toList) (hproject : r.project = project) (hrow : r.name = name)
    (hname : trim name.toList = name.toList) (hsome : name.toList ≠ [])
    (hcount : (s.symbolsNamed project name).length ≤ limit) (hlimit : limit < 2 ^ 63) :
    ∃ h ∈ s.symbolSearch e project name limit,
      symbolKey h = (some name, r.filePath, some r.firstLine) := by
  subst hrow
  have hperm := perm_symbolsNamed s project r.name
  have hmem : r ∈ s.symbolsNamed project r.name := by
    simp [symbolsNamed, hr, hproject]
  have hpos : 0 < limit := Nat.lt_of_lt_of_le (List.length_pos_of_mem hmem) hcount
  have hhit : r.hit (s.symbolPreview r) Tier.exact.score Tier.exact.matchKind ∈
      s.tierHits project r.name.toList limit .exact := by
    rw [tierHits, atMost_of_length_le (hperm.length_eq ▸ hcount)]
    exact List.mem_map.2 ⟨r, hperm.mem_iff.2 hmem, rfl⟩
  obtain ⟨k, hk, hkey⟩ : ∃ k ∈ addNew [] _, symbolKey k = _ := exists_key_addNew hhit
  have hroom : ¬ limit - ([] : List (Hit Float)).length = 0 := Nat.ne_of_gt hpos
  refine ⟨k, mem_symbolSearch e (hname.symm ▸ hsome) hlimit ?_, hkey⟩
  rw [hname, symbolTable, Tier.all, addTiers]
  simp only [if_neg hroom]
  exact mem_addTiers_of_mem hk _

end Store

end CodeIndex
