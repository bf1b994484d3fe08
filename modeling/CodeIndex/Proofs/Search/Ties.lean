import CodeIndex.Proofs.Search.Tiers

/-!
In which order the search for symbols gives hits that tie.

Every way of matching reads the symbols by name, file and line, and the table of hits is filled in that
order (`symbolTable_ordered`). The table is then read out in some order, and the sort that follows looks
at scores only. So hits of one score stand as they were read out (`symbolSearch_ties`): by name, file and
line if the table is read out as it was filled, but in no fixed order otherwise (`ties_not_in_order`).
-/
namespace CodeIndex.Store

open Text

variable {s : Store} {project : String} {query : List Char} {limit : Nat} {tier : Tier}
  {table hits : List (Hit Float)} {h : Hit Float}

/-! ## The order in which hits are found -/

/-- The name, file and line of a hit for a symbol, as the rows of symbols are ordered by them. -/
def place (h : Hit Float) : String ×ₗ String ×ₗ Nat :=
  toLex (h.name.getD "", toLex (h.filePath, h.line.getD 0))

/-- Of two hits with one score the first one is that whose place comes first. -/
def TiesInOrder (a b : Hit Float) : Prop := orderKey b.score = orderKey a.score → place a ≤ place b

theorem tierHits_ordered (tier : Tier) :
    (s.tierHits project query limit tier).Pairwise fun a b => place a ≤ place b := by
  have hlisting : IsListing s.symbols
      (fun r => (r.project == project) = true ∧ tier.accepts query r.name.toList = true)
      SymbolRow.sortKey (s.group project query tier) :=
    isListing_filter_mergeSort SymbolRow.before_iff fun _ _ => Iff.rfl
  rw [tierHits, List.pairwise_map]
  exact hlisting.ordered.sublist (isPrefix_atMost _ _).sublist

theorem score_of_mem_tierHits (hmem : h ∈ s.tierHits project query limit tier) :
    h.score = tier.score := by
  obtain ⟨r, -, rfl⟩ := List.mem_map.1 hmem
  rfl

theorem eq_of_orderKey_score {tier tier' : Tier} (h : orderKey tier.score = orderKey tier'.score) :
    tier = tier' := by
  revert h
  cases tier <;> cases tier' <;> decide +kernel

theorem addTiers_ordered {tiers : List Tier} (htiers : tiers.Nodup)
    (hother : ∀ tier ∈ tiers, ∀ h ∈ table, orderKey h.score ≠ orderKey tier.score)
    (htable : table.Pairwise TiesInOrder) :
    (s.addTiers project query limit table tiers).Pairwise TiesInOrder := by
  induction tiers generalizing table with
  | nil => exact htable
  | cons tier tiers ih =>
    rw [addTiers]
    split
    · exact htable
    · set hits := s.tierHits project query (limit - table.length) tier
      have hadded : (addNew table hits).Sublist (table ++ hits) := addNew_sublist table hits
      obtain ⟨hnew, htiers⟩ := List.nodup_cons.1 htiers
      refine ih htiers (fun next hnext h hh => ?_) (List.Pairwise.sublist hadded ?_)
      · rcases List.mem_append.1 (hadded.subset hh) with hh | hh
        · exact hother next (List.mem_cons_of_mem _ hnext) h hh
        · rw [score_of_mem_tierHits hh]
          exact fun heq => hnew (eq_of_orderKey_score heq ▸ hnext)
      · have hhits : hits.Pairwise TiesInOrder :=
          List.Pairwise.imp (S := TiesInOrder) (fun hle _ => hle) (tierHits_ordered tier)
        refine List.pairwise_append.2 ⟨htable, hhits, fun a ha b hb htie => ?_⟩
        rw [score_of_mem_tierHits hb] at htie
        exact absurd htie.symm (hother tier List.mem_cons_self a ha)

/-- **The table is filled by name, file and line**, as far as hits tie. -/
theorem symbolTable_ordered (s : Store) (project : String) (query : List Char) (limit : Nat) :
    (s.symbolTable project query limit).Pairwise TiesInOrder :=
  addTiers_ordered (by decide) (fun _ _ _ hh => absurd hh List.not_mem_nil) .nil

/-! ## The order in which hits are given -/

theorem symbolSearch_cases (s : Store) (project text : String) (limit : Nat) :
    (∀ e, s.symbolSearch e project text limit = []) ∨
      trim text.toList ≠ [] ∧ ∀ e, s.symbolSearch e project text limit =
        (Hit.byScore (e.order (s.symbolTable project (trim text.toList) limit))).take limit := by
  by_cases hnone : (trim text.toList).isEmpty || limit == 0
  · exact .inl fun e => if_pos hnone
  · refine .inr ⟨fun hblank => hnone (by rw [hblank]; rfl), fun e => if_neg hnone⟩

/-- The hits of a list that have a score with the given key. -/
def scored (k : Int) (hits : List (Hit Float)) : List (Hit Float) :=
  hits.filter fun h => orderKey h.score = k

/-- **Hits stand by score, and those of one score as the table is read out.** If it is read out as it was
filled, they stand by name, file and line; and so they do if it is read out in an order that leaves the
hits of each score as they were put in, for then the results are the same. Else they are the same up to
their order. A limit that is negative as a word with a sign lets in all rows, of which there are no more
than it says. -/
theorem symbolSearch_ties (s : Store) (project text : String) (limit : Nat) :
    let search := fun e => s.symbolSearch e project text limit
    let table := s.symbolTable project (trim text.toList) limit
    ((search .asFound).Pairwise fun a b => orderKey b.score < orderKey a.score ∨
      orderKey b.score = orderKey a.score ∧ place a ≤ place b) ∧
    ∀ e, ((search e).Pairwise fun a b => orderKey b.score ≤ orderKey a.score) ∧
      (∀ k, scored k (search e) <+: scored k (e.order table)) ∧
      ((∀ k, scored k (e.order table) = scored k table) → search e = search .asFound) ∧
      (limit < 2 ^ 63 ∨ s.symbols.last < 2 ^ 63 → (search e).Perm (search .asFound)) := by
  intro search table
  rcases symbolSearch_cases s project text limit with hnone | ⟨hblank, hsome⟩
  · have hnone : ∀ e, search e = [] := hnone
    simp only [hnone]
    exact ⟨.nil, fun e => ⟨.nil, fun k => List.nil_prefix, fun _ => trivial, fun _ => .refl _⟩⟩
  · have hsome : ∀ e, search e = (Hit.byScore (e.order table)).take limit := hsome
    refine ⟨?_, fun e => ⟨?_, fun k => ?_, fun hsame => ?_, fun hrows => ?_⟩⟩
    · rw [hsome]
      have hties := Hit.pairwise_byScore Score.ranksBy_orderKey
        (symbolTable_ordered s project (trim text.toList) limit)
      exact (hties.imp fun h => h.imp_right fun ⟨htie, hplace⟩ => ⟨htie, hplace htie⟩).sublist
        (List.take_sublist _ _)
    · rw [hsome]
      exact (Hit.byScore_ordered Score.ranksBy_orderKey _).sublist (List.take_sublist _ _)
    · rw [hsome, scored, scored, ← Hit.filter_byScore Score.ranksBy_orderKey (e.order table)]
      exact (List.take_prefix _ _).filter _
    · have hsort : Hit.byScore (e.order table) = Hit.byScore table :=
        Hit.byScore_eq Score.ranksBy_orderKey (Hit.byScore_ordered Score.ranksBy_orderKey _)
          fun k => (hsame k).trans (Hit.filter_byScore Score.ranksBy_orderKey table k).symm
      rw [hsome, hsome, hsort]
      rfl
    · have hempty : ([] : List (Hit Float)).length ≤ limit := Nat.zero_le limit
      have hlen : table.length ≤ limit := length_addTiers_le hrows hempty Tier.all
      exact (symbolSearch_perm e rfl hblank hlen).trans (symbolSearch_perm .asFound rfl hblank hlen).symm

namespace Sample

/-- Hits are read out by score. -/
def sorted : Enumeration := ⟨Hit.byScore, Hit.byScore_perm⟩

/-- Hits are read out from the last to the first. -/
def reversed : Enumeration := ⟨List.reverse, List.reverse_perm⟩

/-- Two functions whose names start alike. -/
def pair : Store :=
  { Store.created with symbols := Table.empty.insertAll [function "load" 1, function "log" 2] }

theorem symbolTable_pair : pair.symbolTable "shop" "lo".toList 10 =
    [pair.symbolHit .start (function "load" 1), pair.symbolHit .start (function "log" 2)] := by
  have hrows : pair.symbolsByName "shop" = [function "load" 1, function "log" 2] := by
    have hfilter : pair.symbols.toList.filter (·.project == "shop") =
        [function "load" 1, function "log" 2] := by decide
    rw [symbolsByName, hfilter, mergeSort_pair, if_pos (by decide)]
  simp only [symbolTable, addTiers, Tier.all, tierHits, hrows]
  rfl

theorem symbolSearch_pair {e : Enumeration} {a b : Hit Float}
    (horder : e.order (pair.symbolTable "shop" "lo".toList 10) = [a, b])
    (htie : a.score = b.score) : pair.symbolSearch e "shop" "lo" 10 = [a, b] := by
  have htrim : trim "lo".toList = "lo".toList := by decide
  have hranks : Score.ranks a.score b.score = true :=
    (Score.ranksBy_orderKey _ _).2 (htie ▸ le_rfl)
  have hsort : Hit.byScore [a, b] = [a, b] := by
    rw [Hit.byScore, mergeSort_pair, if_pos hranks]
  have hsome : ¬ (("lo".toList.isEmpty || (10 : Nat) == 0) = true) := by decide
  simp only [symbolSearch, htrim, if_neg hsome]
  rw [horder, hsort]
  rfl

end Sample

/-- Both functions are found in whatever order the table is read out, and in one order if it is read out
by score. -/
theorem symbolSearch_ties_pair :
    (∀ e, (Sample.pair.symbolSearch e "shop" "lo" 10).Perm
      (Sample.pair.symbolSearch .asFound "shop" "lo" 10)) ∧
    Sample.pair.symbolSearch Sample.sorted "shop" "lo" 10 =
      Sample.pair.symbolSearch .asFound "shop" "lo" 10 := by
  obtain ⟨-, hties⟩ := symbolSearch_ties Sample.pair "shop" "lo" 10
  refine ⟨fun e => (hties e).2.2.2 (.inl (by decide)), (hties Sample.sorted).2.2.1 fun k => ?_⟩
  exact Hit.filter_byScore Score.ranksBy_orderKey _ k

/-- **Hits that tie do not always stand by name, file and line**, and the results of a search are not
always the same: read out from the last to the first, two names that start with the query come in the
reverse order. -/
theorem ties_not_in_order :
    (¬ ∀ (s : Store) (project text : String) (limit : Nat) (e : Enumeration),
      (s.symbolSearch e project text limit).Pairwise fun a b => orderKey b.score < orderKey a.score ∨
        orderKey b.score = orderKey a.score ∧ place a ≤ place b) ∧
    ¬ ∀ (s : Store) (project text : String) (limit : Nat) (e e' : Enumeration),
      s.symbolSearch e project text limit = s.symbolSearch e' project text limit := by
  have hreversed := Sample.symbolSearch_pair (e := Sample.reversed)
    (congrArg List.reverse Sample.symbolTable_pair) rfl
  have hfound := Sample.symbolSearch_pair (e := .asFound) Sample.symbolTable_pair rfl
  refine ⟨fun hall => ?_, fun hall => ?_⟩
  · have hordered := hall Sample.pair "shop" "lo" 10 Sample.reversed
    rw [hreversed, List.pairwise_pair] at hordered
    rcases hordered with hlt | ⟨-, hle⟩
    · exact absurd hlt (lt_irrefl _)
    · exact absurd hle (by decide)
  · have hsame := hall Sample.pair "shop" "lo" 10 Sample.reversed .asFound
    rw [hreversed, hfound] at hsame
    have hnames := congrArg (List.map Hit.name) hsame
    exact absurd hnames (by decide)

end CodeIndex.Store
