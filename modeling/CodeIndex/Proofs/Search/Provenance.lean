import CodeIndex.Proofs.Search.Fusion
import CodeIndex.Proofs.Search.Text
import CodeIndex.Proofs.Search.Ties
import CodeIndex.Search.Hybrid

/-!
What a result of fusion has from which hit.

The result at a place is the hits that were taken there, joined one after the other: one more hit changes
the result at its own place and no other (`resultAt_place`), so this holds of a list of hits and of the three
lists (`resultAt_gathered`). Joining goes field by field and signal by signal (`foldl_join_cons`), and what
each field comes to can be read off the hits.

* `merge_sums_hits`: a result lists the kinds of matches of its hits once each as they came up, has each
  field from the first hit that has it, and has a score for just those signals it lists a kind of match of,
  as long as the scores are numbers.

A score that is no number is taken and counts for nothing: its kind of match is listed, and there is no score
for it (`hit_without_number_is_listed`).
-/
namespace CodeIndex

/-! ## Scores that count -/

namespace Score

variable {α : Type} [Score α]

/-- Whether a score is taken: it is not zero or less. -/
def isTaken (x : α) : Bool := !le x zero

theorem isPositive_zero : isPositive (zero : α) = false := by
  rw [isPositive, Bool.and_not_self]

theorem le_float {x y : Float} : le x y = true ↔ x.toModel.unpack.le y.toModel.unpack = true := by
  rw [show le x y = decide (x ≤ y) from rfl, decide_eq_true_iff]
  exact decide_eq_true_iff (p := x.toModel ≤ y.toModel)

/-- A double is taken if it is above zero, or else it is no number. -/
theorem isTaken_eq_isPositive {x : Float} (hnumber : x.isNaN = false) : isTaken x = isPositive x := by
  by_cases hle : le x zero = true
  · rw [isTaken, isPositive, hle, Bool.not_true, Bool.and_false]
  have hpositive : le zero x = true := by
    have hzero : (zero : Float).toModel.unpack = .zero .positive := rfl
    rw [le_float, hzero] at hle ⊢
    replace hnumber : x.toModel.unpack.isNaN = false := hnumber
    cases hx : x.toModel.unpack with
    | infinity sign =>
      rw [hx] at hle
      cases sign with
      | positive => rfl
      | negative => exact absurd rfl hle
    | notANumber =>
      rw [hx] at hnumber
      cases hnumber
    | zero sign => rfl
    | finite sign mantissa exponent hpos =>
      rw [hx] at hle
      cases sign with
      | positive => rfl
      | negative => exact absurd rfl hle
  rw [isTaken, isPositive, hpositive, Bool.true_and]

end Score

theorem Signals.get_none {α : Type} [Score α] (signal : Signal) :
    (Signals.none : Signals α).get signal = Score.zero := by
  cases signal <;> rfl

/-- The best of a kept score, if there is one, and one above zero is above zero. -/
theorem Signals.isPositive_best {α : Type} [Score α] {kept new : α}
    (hkept : Score.isPositive kept = true ∨ kept = Score.zero) (hnew : Score.isPositive new = true) :
    Score.isPositive (best kept new) = true := by
  rcases hkept with hkept | rfl
  · rw [best]
    split
    · exact hnew
    · exact hkept
  · rw [best, ← Score.isPositive, if_pos hnew]
    exact hnew

namespace Fusion

variable {α : Type}

/-! ## Joining the hits at a place -/

/-- Kinds of matches are added once each, as they come up. -/
theorem addMatches_eraseDups (kept more : List MatchKind) :
    addMatches kept.eraseDups more = (kept ++ more).eraseDups := by
  induction more generalizing kept with
  | nil => rw [List.append_nil, addMatches]
  | cons m more ih =>
    have hone : (if kept.eraseDups.contains m then kept.eraseDups else kept.eraseDups ++ [m]) =
        (kept ++ [m]).eraseDups := by
      have hm : [m].eraseDups = [m] := rfl
      rw [List.eraseDups_append]
      by_cases hkept : m ∈ kept
      · simp [List.removeAll, hkept]
      · simp [List.removeAll, hkept, hm]
    rw [addMatches, hone, ih, List.append_assoc, List.singleton_append]

theorem matchKinds_foldl_absorb (first : Hit α) (later : List (Hit α)) {kept : List MatchKind}
    (hfirst : first.matchKinds = kept.eraseDups) :
    (later.foldl absorb first).matchKinds = (kept ++ later.flatMap Hit.matchKinds).eraseDups := by
  induction later generalizing first kept with
  | nil =>
    rw [List.flatMap_nil, List.append_nil]
    exact hfirst
  | cons hit later ih =>
    rw [List.foldl_cons, List.flatMap_cons, ← List.append_assoc]
    refine ih _ ?_
    rw [← addMatches_eraseDups, ← hfirst]
    rfl

/-- What a hit may lack is that of the first hit that has it. -/
theorem findSome?_foldl_absorb {β : Type} {field : Hit α → Option β}
    (habsorb : ∀ kept other, field (absorb kept other) = (field kept).or (field other))
    (first : Hit α) (later : List (Hit α)) :
    field (later.foldl absorb first) = (first :: later).findSome? field := by
  induction later generalizing first with
  | nil => simp
  | cons hit later ih =>
    rw [List.foldl_cons, ih, List.findSome?_cons, List.findSome?_cons, List.findSome?_cons, habsorb]
    cases field first with
    | none => rfl
    | some value => rfl

theorem first_foldl_absorb {β : Type} {field : Hit α → β}
    (habsorb : ∀ kept other, field (absorb kept other) = field kept) (first : Hit α)
    (later : List (Hit α)) : field (later.foldl absorb first) = field first := by
  induction later generalizing first with
  | nil => rfl
  | cons hit later ih => rw [List.foldl_cons, ih, habsorb]

/-! ## The result at a place -/

/-- The hits at a place. -/
def takenAt (p : Location) (taken : List (Signal × Hit α)) : List (Signal × Hit α) :=
  taken.filter fun t => t.2.location = p

theorem takenAt_cons (p : Location) (t : Signal × Hit α) (ts : List (Signal × Hit α)) :
    takenAt p (t :: ts) = if t.2.location = p then t :: takenAt p ts else takenAt p ts := by
  rw [takenAt, List.filter_cons]
  by_cases hp : t.2.location = p
  · simp [hp, takenAt]
  · simp [hp, takenAt]

/-- The first result at a place. -/
def resultAt (p : Location) (found : List (Gathered α)) : Option (Gathered α) :=
  found.find? fun g => g.location = p

theorem resultAt_cons (p : Location) (g : Gathered α) (rest : List (Gathered α)) :
    resultAt p (g :: rest) = if g.location = p then some g else resultAt p rest := by
  rw [resultAt, List.find?_cons]
  by_cases hp : g.location = p
  · simp [hp]
  · simp [hp, resultAt]

theorem resultAt_of_mem {g : Gathered α} {found : List (Gathered α)}
    (h : (found.map Gathered.location).Nodup) (hg : g ∈ found) : resultAt g.location found = some g := by
  induction found with
  | nil => cases hg
  | cons k found ih =>
    rw [List.map_cons, List.nodup_cons] at h
    rw [resultAt_cons]
    rcases List.mem_cons.1 hg with rfl | hg
    · rw [if_pos rfl]
    · have hne : k.location ≠ g.location := fun heq => h.1 (heq ▸ List.mem_map_of_mem hg)
      rw [if_neg hne, ih h.2 hg]

variable [Score α]

/-- A result with one more hit at its place, which may be the first. -/
def join (found? : Option (Gathered α)) (t : Signal × Hit α) : Option (Gathered α) :=
  match found? with
  | none => some ⟨t.2, Signals.none.raise t.1 t.2.score⟩
  | some g => some ⟨absorb g.hit t.2, g.signals.raise t.1 t.2.score⟩

/-- Signals with the scores of hits. -/
def raised (s : Signals α) (ts : List (Signal × Hit α)) : Signals α :=
  ts.foldl (fun s t => s.raise t.1 t.2.score) s

theorem foldl_join_some (g : Gathered α) (ts : List (Signal × Hit α)) :
    ts.foldl join (some g) = some ⟨(ts.map (·.2)).foldl absorb g.hit, raised g.signals ts⟩ := by
  induction ts generalizing g with
  | nil => rfl
  | cons t ts ih =>
    rw [List.foldl_cons, join, ih]
    rfl

/-- The hits at a place are joined field by field, and their scores signal by signal. -/
theorem foldl_join_cons (t : Signal × Hit α) (ts : List (Signal × Hit α)) :
    (t :: ts).foldl join none =
      some ⟨(ts.map (·.2)).foldl absorb t.2, raised Signals.none (t :: ts)⟩ := by
  rw [List.foldl_cons, join, foldl_join_some]
  rfl

/-- If all hits score above zero, a signal has a score above zero just when a hit is of that signal or it
had one before. -/
theorem isPositive_raised {ts : List (Signal × Hit α)} (hts : ∀ t ∈ ts, Score.isPositive t.2.score = true)
    {s : Signals α} (hs : ∀ signal, Score.isPositive (s.get signal) = true ∨ s.get signal = Score.zero)
    (signal : Signal) : Score.isPositive ((raised s ts).get signal) = true ↔
      Score.isPositive (s.get signal) = true ∨ ∃ t ∈ ts, t.1 = signal := by
  induction ts generalizing s with
  | nil => simp [raised]
  | cons t ts ih =>
    obtain ⟨ht, hts⟩ := List.forall_mem_cons.1 hts
    have hbest := Signals.isPositive_best (hs t.1) ht
    have hraise : ∀ other, Score.isPositive ((s.raise t.1 t.2.score).get other) = true ∨
        (s.raise t.1 t.2.score).get other = Score.zero := by
      intro other
      rw [Signals.get_raise]
      split
      · rename_i heq
        exact Or.inl (heq ▸ hbest)
      · exact hs other
    rw [raised, List.foldl_cons, ← raised, ih hts hraise, Signals.get_raise, List.exists_mem_cons_iff]
    by_cases heq : t.1 = signal
    · subst heq
      simp [hbest]
    · simp [heq]

/-- The hits of a signal that are taken. -/
def takenBy (signal : Signal) (hits : List (Hit α)) : List (Signal × Hit α) :=
  (hits.filter fun h => Score.isTaken h.score).map fun h => (signal, h)

/-- The hits of three searches that are taken, in the order in which fusion takes them. -/
def allTaken (symbols fulltext semantic : List (Hit α)) : List (Signal × Hit α) :=
  takenBy .symbol symbols ++ takenBy .fulltext fulltext ++ takenBy .semantic semantic

theorem takenBy_cons (signal : Signal) (hit : Hit α) (hits : List (Hit α)) :
    takenBy signal (hit :: hits) =
      if Score.le hit.score Score.zero then takenBy signal hits
      else (signal, hit) :: takenBy signal hits := by
  rw [takenBy, List.filter_cons]
  by_cases h : Score.le hit.score Score.zero = true
  · simp [Score.isTaken, h, takenBy]
  · simp [Score.isTaken, h, takenBy]

theorem resultAt_place (signal : Signal) (hit : Hit α) (found : List (Gathered α)) (p : Location) :
    resultAt p (place signal hit found) =
      if hit.location = p then join (resultAt p found) (signal, hit) else resultAt p found := by
  induction found with
  | nil =>
    rw [place, resultAt_cons]
    rfl
  | cons g rest ih =>
    rw [place, resultAt_cons]
    split
    · rename_i heq
      rw [resultAt_cons, location_absorb]
      by_cases hp : g.location = p
      · rw [if_pos hp, if_pos hp, if_pos (heq.symm.trans hp)]
        rfl
      · rw [if_neg hp, if_neg hp, if_neg fun h => hp (heq.trans h)]
    · rename_i hne
      rw [resultAt_cons, ih]
      by_cases hp : g.location = p
      · rw [if_pos hp, if_pos hp, if_neg fun h => hne (hp.trans h.symm)]
      · rw [if_neg hp, if_neg hp]

theorem resultAt_gather (signal : Signal) (hits : List (Hit α)) (found : List (Gathered α))
    (p : Location) :
    resultAt p (gather signal found hits) =
      (takenAt p (takenBy signal hits)).foldl join (resultAt p found) := by
  induction hits generalizing found with
  | nil => rfl
  | cons hit hits ih =>
    rw [gather, ih, takenBy_cons]
    split
    · rfl
    · rw [resultAt_place, takenAt_cons]
      split
      · rfl
      · rfl

/-- The result at a place is the hits taken there, joined one after the other. -/
theorem resultAt_gathered (symbols fulltext semantic : List (Hit α)) (p : Location) :
    resultAt p (gathered symbols fulltext semantic) =
      (takenAt p (allTaken symbols fulltext semantic)).foldl join none := by
  rw [gathered, resultAt_gather, resultAt_gather, resultAt_gather, allTaken, takenAt, takenAt, takenAt,
    takenAt, List.filter_append, List.filter_append, List.foldl_append, List.foldl_append]
  rfl

theorem nodup_gather (signal : Signal) (hits : List (Hit α)) {found : List (Gathered α)}
    (h : (found.map Gathered.location).Nodup) :
    ((gather signal found hits).map Gathered.location).Nodup := by
  induction hits generalizing found with
  | nil => exact h
  | cons hit hits ih =>
    rw [gather]
    refine ih ?_
    split
    · exact h
    · rcases place_cases signal hit found with ⟨before, g, after, rfl, -, hplace⟩ | ⟨hnew, hplace⟩
      · rw [hplace, List.map_append, List.map_cons, location_absorb, ← List.map_cons, ← List.map_append]
        exact h
      · rw [hplace, List.map_append, List.map_singleton]
        exact List.nodup_append'.2 ⟨h, List.nodup_singleton _, by simpa [Gathered.location] using hnew⟩

end Fusion

/-! ## What a result says -/

section
variable {α : Type}

/-- A hit as the search of a signal gives it: it lists a kind of match, none of them twice, and only kinds
that are evidence for the signal. -/
structure Hit.LabelledBy (signal : Signal) (h : Hit α) : Prop where
  ne_nil : h.matchKinds ≠ []
  nodup : h.matchKinds.Nodup
  signal : ∀ m ∈ h.matchKinds, m.signal = signal

theorem Hit.LabelledBy.single {h : Hit α} {m : MatchKind} (hh : h.matchKinds = [m]) :
    h.LabelledBy m.signal where
  ne_nil := hh ▸ List.cons_ne_nil _ _
  nodup := hh ▸ List.nodup_singleton m
  signal := by
    intro k hk
    rw [hh, List.mem_singleton] at hk
    rw [hk]

/-- What a result says of hits at one place: the kinds of matches of all, once each as they came up; what a
hit may lack, from the first one that has it; and what every hit has, from the first. -/
structure Hit.Sums (hits : List (Hit α)) (r : Hit α) : Prop where
  matchKinds : r.matchKinds = (hits.flatMap Hit.matchKinds).eraseDups
  name : r.name = hits.findSome? Hit.name
  parent : r.parent = hits.findSome? Hit.parent
  language : r.language = hits.findSome? Hit.language
  lastLine : r.lastLine = hits.findSome? Hit.lastLine
  preview : r.preview = hits.findSome? Hit.preview
  first : ∃ first ∈ hits.head?, r.filePath = first.filePath ∧ r.line = first.line ∧
    r.what = first.what ∧ r.kind = first.kind

/-- The hits at a place whose scores pass. -/
def hitsAt (passes : α → Bool) (p : Location) (hits : List (Hit α)) : List (Hit α) :=
  hits.filter fun h => passes h.score && decide (h.location = p)

theorem hitsAt_append (passes : α → Bool) (p : Location) (hits more : List (Hit α)) :
    hitsAt passes p (hits ++ more) = hitsAt passes p hits ++ hitsAt passes p more :=
  List.filter_append _ _

theorem eraseDups_of_nodup {β : Type} [BEq β] [LawfulBEq β] {l : List β} (h : l.Nodup) :
    l.eraseDups = l := by
  induction l with
  | nil => rfl
  | cons a l ih =>
    obtain ⟨ha, hl⟩ := List.nodup_cons.1 h
    have hother : l.filter (fun b => !b == a) = l := by
      refine List.filter_eq_self.2 fun b hb => ?_
      have hne : b ≠ a := fun heq => ha (heq ▸ hb)
      simpa using hne
    rw [List.eraseDups_cons, hother, ih hl]

theorem Hit.sums_foldl_absorb {first : Hit α} (hfirst : first.matchKinds.Nodup) (later : List (Hit α)) :
    (later.foldl Fusion.absorb first).Sums (first :: later) where
  matchKinds := by
    rw [List.flatMap_cons]
    exact Fusion.matchKinds_foldl_absorb first later (eraseDups_of_nodup hfirst).symm
  name := Fusion.findSome?_foldl_absorb (fun _ _ => rfl) first later
  parent := Fusion.findSome?_foldl_absorb (fun _ _ => rfl) first later
  language := Fusion.findSome?_foldl_absorb (fun _ _ => rfl) first later
  lastLine := Fusion.findSome?_foldl_absorb (fun _ _ => rfl) first later
  preview := Fusion.findSome?_foldl_absorb (fun _ _ => rfl) first later
  first := ⟨first, rfl, Fusion.first_foldl_absorb (fun _ _ => rfl) first later,
    Fusion.first_foldl_absorb (fun _ _ => rfl) first later,
    Fusion.first_foldl_absorb (fun _ _ => rfl) first later,
    Fusion.first_foldl_absorb (fun _ _ => rfl) first later⟩

end

namespace Fusion

section
variable {α : Type} [Score α] {symbols fulltext semantic : List (Hit α)}

theorem map_takenAt_takenBy (signal : Signal) (p : Location) (hits : List (Hit α)) :
    (takenAt p (takenBy signal hits)).map (·.2) = hitsAt Score.isTaken p hits := by
  rw [takenAt, takenBy, List.filter_map, List.map_map, List.filter_filter, hitsAt]
  simp [Function.comp_def, Bool.and_comm]

theorem map_takenAt_allTaken (p : Location) :
    (takenAt p (allTaken symbols fulltext semantic)).map (·.2) =
      hitsAt Score.isTaken p (symbols ++ fulltext ++ semantic) := by
  rw [takenAt, allTaken, List.filter_append, List.filter_append, List.map_append, List.map_append,
    ← takenAt, ← takenAt, ← takenAt, map_takenAt_takenBy, map_takenAt_takenBy, map_takenAt_takenBy,
    hitsAt_append, hitsAt_append]

/-- Every hit that is taken lists kinds of matches of the signal it is taken for. -/
theorem labelledBy_of_mem_allTaken (hsymbols : ∀ h ∈ symbols, h.LabelledBy .symbol)
    (hfulltext : ∀ h ∈ fulltext, h.LabelledBy .fulltext)
    (hsemantic : ∀ h ∈ semantic, h.LabelledBy .semantic) :
    ∀ t ∈ allTaken symbols fulltext semantic, t.2.LabelledBy t.1 := by
  intro t ht
  have htaken : ∀ {signal : Signal} {hits : List (Hit α)}, (∀ h ∈ hits, h.LabelledBy signal) →
      t ∈ takenBy signal hits → t.2.LabelledBy t.1 := by
    intro signal hits hhits ht
    obtain ⟨h, hh, rfl⟩ := List.mem_map.1 ht
    exact hhits h (List.mem_of_mem_filter hh)
  rcases List.mem_append.1 ht with ht | ht
  · rcases List.mem_append.1 ht with ht | ht
    · exact htaken hsymbols ht
    · exact htaken hfulltext ht
  · exact htaken hsemantic ht

omit [Score α] in
theorem exists_matchKind_iff {ts : List (Signal × Hit α)} (h : ∀ t ∈ ts, t.2.LabelledBy t.1)
    (signal : Signal) : (∃ m ∈ ((ts.map (·.2)).flatMap Hit.matchKinds).eraseDups, m.signal = signal) ↔
      ∃ t ∈ ts, t.1 = signal := by
  simp only [List.mem_eraseDups, List.mem_flatMap, List.mem_map]
  constructor
  · rintro ⟨m, ⟨hit, ⟨t, ht, rfl⟩, hm⟩, rfl⟩
    exact ⟨t, ht, ((h t ht).signal m hm).symm⟩
  · rintro ⟨t, ht, rfl⟩
    obtain ⟨m, hm⟩ := List.exists_mem_of_ne_nil _ (h t ht).ne_nil
    exact ⟨m, ⟨t.2, ⟨t, ht, rfl⟩, hm⟩, (h t ht).signal m hm⟩

/-- What is gathered at a place sums up the hits that are taken there; and if these score above zero, it has
a score for just those signals that it lists a kind of match of. -/
theorem sums_of_mem_gathered
    (hlabelled : ∀ t ∈ allTaken symbols fulltext semantic, t.2.LabelledBy t.1) {g : Gathered α}
    (hg : g ∈ gathered symbols fulltext semantic) :
    g.hit.Sums (hitsAt Score.isTaken g.location (symbols ++ fulltext ++ semantic)) ∧
    ((∀ h ∈ hitsAt Score.isTaken g.location (symbols ++ fulltext ++ semantic),
        Score.isPositive h.score = true) →
      ∀ signal, Score.isPositive (g.signals.get signal) = true ↔
        ∃ m ∈ g.hit.matchKinds, m.signal = signal) := by
  -- No other result is at the place, so the first one there is this one.
  have hnodup : ((gathered symbols fulltext semantic).map Gathered.location).Nodup :=
    nodup_gather _ _ (nodup_gather _ _ (nodup_gather _ _ List.nodup_nil))
  have hjoined := resultAt_of_mem hnodup hg
  rw [resultAt_gathered] at hjoined
  rw [← map_takenAt_allTaken]
  replace hlabelled : ∀ t ∈ takenAt g.location (allTaken symbols fulltext semantic),
      t.2.LabelledBy t.1 := fun t ht => hlabelled t (List.mem_of_mem_filter ht)
  generalize takenAt g.location (allTaken symbols fulltext semantic) = ts at hjoined hlabelled ⊢
  cases ts with
  | nil => cases hjoined
  | cons t ts =>
    rw [foldl_join_cons] at hjoined
    cases hjoined
    have hsums := Hit.sums_foldl_absorb (hlabelled t List.mem_cons_self).nodup (ts.map (·.2))
    refine ⟨hsums, ?_⟩
    intro hpositive signal
    have hraised := isPositive_raised (fun t ht => hpositive t.2 (List.mem_map_of_mem ht))
      (fun signal => Or.inr (Signals.get_none signal)) signal
    rw [Signals.get_none, Score.isPositive_zero, ← exists_matchKind_iff hlabelled] at hraised
    rw [hsums.matchKinds]
    simpa using hraised

theorem sums_of_mem_merge (hsymbols : ∀ h ∈ symbols, h.LabelledBy .symbol)
    (hfulltext : ∀ h ∈ fulltext, h.LabelledBy .fulltext)
    (hsemantic : ∀ h ∈ semantic, h.LabelledBy .semantic) {w : Weights α} {limit : Nat} {r : Hit α}
    (hr : r ∈ merge w limit symbols fulltext semantic) :
    r.Sums (hitsAt Score.isTaken r.location (symbols ++ fulltext ++ semantic)) ∧
    ∃ s, r.breakdown = some s ∧
      ((∀ h ∈ hitsAt Score.isTaken r.location (symbols ++ fulltext ++ semantic),
          Score.isPositive h.score = true) →
        ∀ signal, Score.isPositive (s.get signal) = true ↔ ∃ m ∈ r.matchKinds, m.signal = signal) := by
  obtain ⟨g, hg, rfl⟩ := List.mem_map.1 (List.mem_mergeSort.1 (List.mem_of_mem_take hr))
  obtain ⟨hsums, hsignals⟩ :=
    sums_of_mem_gathered (labelledBy_of_mem_allTaken hsymbols hfulltext hsemantic) hg
  exact ⟨⟨hsums.matchKinds, hsums.name, hsums.parent, hsums.language, hsums.lastLine, hsums.preview,
    hsums.first⟩, g.signals, rfl, hsignals⟩

end

/-- **A result says what its hits say.** If the hits of each search list only kinds of matches of its own
signal, a result lists the kinds of matches of the hits that are taken at its place, once each as they came
up; each field that a hit may lack is that of the first one, of the symbols, the full text and the meaning in
this order, that has it, and the others are those of the first. As long as the scores there are numbers, the
hits that are taken are those that score above zero, and the result has a score above zero for just those
signals that it lists a kind of match of. -/
theorem merge_sums_hits {symbols fulltext semantic : List (Hit Float)}
    (hsymbols : ∀ h ∈ symbols, h.LabelledBy .symbol) (hfulltext : ∀ h ∈ fulltext, h.LabelledBy .fulltext)
    (hsemantic : ∀ h ∈ semantic, h.LabelledBy .semantic) (w : Weights Float) (limit : Nat)
    {r : Hit Float} (hr : r ∈ merge w limit symbols fulltext semantic) :
    r.Sums (hitsAt Score.isTaken r.location (symbols ++ fulltext ++ semantic)) ∧
    ∃ s, r.breakdown = some s ∧
      ((∀ h ∈ symbols ++ fulltext ++ semantic, h.location = r.location → h.score.isNaN = false) →
        hitsAt Score.isTaken r.location (symbols ++ fulltext ++ semantic) =
          hitsAt Score.isPositive r.location (symbols ++ fulltext ++ semantic) ∧
        ∀ signal, Score.isPositive (s.get signal) = true ↔ ∃ m ∈ r.matchKinds, m.signal = signal) := by
  obtain ⟨hsums, s, hbreakdown, hsignals⟩ := sums_of_mem_merge hsymbols hfulltext hsemantic hr
  refine ⟨hsums, s, hbreakdown, ?_⟩
  intro hnumbers
  have hpositive : hitsAt Score.isTaken r.location (symbols ++ fulltext ++ semantic) =
      hitsAt Score.isPositive r.location (symbols ++ fulltext ++ semantic) := by
    refine List.filter_congr fun h hh => ?_
    by_cases hplace : h.location = r.location
    · rw [Score.isTaken_eq_isPositive (hnumbers h hh hplace)]
    · simp [hplace]
  refine ⟨hpositive, hsignals ?_⟩
  intro h hh
  rw [hpositive, hitsAt, List.mem_filter, Bool.and_eq_true] at hh
  exact hh.2.1

/-- The hit for a symbol on the first line of a file. -/
def declaredHere : Hit Float where
  what := .symbol
  name := some "load"
  filePath := "a.ts"
  line := some 1
  lastLine := some 3
  kind := "function"
  parent := none
  language := none
  preview := none
  score := 1.0
  matchKinds := [.symbolExact]
  breakdown := none

/-- The hit for a chunk there that contains the name. -/
def mentionedHere : Hit Float :=
  { declaredHere with
    what := .codeChunk
    name := none
    lastLine := some 9
    kind := "file"
    preview := some "load()"
    score := 0.6
    matchKinds := [.substring] }

/-- The hit for a chunk there with another meaning. -/
def unlikeHere : Hit Float :=
  { mentionedHere with
    preview := some "store()"
    score := -0.5
    matchKinds := [.semantic] }

/-- The name and the last line are those of the symbol, and the preview is that of the chunk that contains
it; the hit by meaning is left out, and its signal has no score. -/
theorem merge_sums_hits_overlap :
    ∃ r ∈ merge Weights.standard 10 [declaredHere] [mentionedHere] [unlikeHere],
      r.matchKinds = [.symbolExact, .substring] ∧ r.name = some "load" ∧ r.lastLine = some 3 ∧
        r.preview = some "load()" ∧
        ∃ s, r.breakdown = some s ∧ Score.isPositive (s.get .fulltext) = true ∧
          Score.isPositive (s.get .semantic) = false := by
  obtain ⟨r, hr⟩ : ∃ r, r ∈ merge Weights.standard 10 [declaredHere] [mentionedHere] [unlikeHere] :=
    List.exists_mem_of_ne_nil _ (by decide +kernel)
  have hplace : ∀ r ∈ merge Weights.standard 10 [declaredHere] [mentionedHere] [unlikeHere],
      r.location = ("a.ts", some 1) := by decide +kernel
  obtain ⟨hsums, s, hbreakdown, hnumbers⟩ := merge_sums_hits
    (List.forall_mem_singleton.2 (.single (m := .symbolExact) rfl))
    (List.forall_mem_singleton.2 (.single (m := .substring) rfl))
    (List.forall_mem_singleton.2 (.single (m := .semantic) rfl)) _ _ hr
  have htaken : hitsAt Score.isTaken r.location ([declaredHere] ++ [mentionedHere] ++ [unlikeHere]) =
      [declaredHere, mentionedHere] := by
    rw [hplace r hr]
    decide +kernel
  have hnoNaN : ∀ h ∈ [declaredHere] ++ [mentionedHere] ++ [unlikeHere], h.score.isNaN = false := by
    decide +kernel
  obtain ⟨-, hsignals⟩ := hnumbers fun h hh _ => hnoNaN h hh
  rw [htaken] at hsums
  have hlabels := hsums.matchKinds
  refine ⟨r, hr, hlabels, hsums.name, hsums.lastLine, hsums.preview, s, hbreakdown, ?_, ?_⟩
  · exact (hsignals .fulltext).2 (by rw [hlabels]; decide)
  · rw [Bool.eq_false_iff, ne_eq, hsignals, hlabels]
    decide

/-- The hit for a chunk whose likeness to the query is no number. -/
def unmeasuredHere : Hit Float :=
  { unlikeHere with score := 0.0 / 0.0 }

/-- A hit whose score is no number does not score above zero, and still its kind of match is listed; there
is no score for its signal. -/
theorem hit_without_number_is_listed :
    unmeasuredHere.LabelledBy .semantic ∧ Score.isPositive unmeasuredHere.score = false ∧
      (merge Weights.standard 10 [] [] [unmeasuredHere]).map (fun r =>
        (r.matchKinds, hitsAt Score.isPositive r.location [unmeasuredHere],
          r.breakdown.map fun s => Score.isPositive (s.get .semantic))) =
            [([.semantic], [], some false)] :=
  ⟨.single (m := .semantic) rfl, by decide +kernel, by decide +kernel⟩

end Fusion

/-! ## The three searches -/

namespace Store

variable {s : Store} {project : String} {query : List Char} {limit : Nat} {h : Hit Float}

theorem labelledBy_of_mem_tierHits {tier : Tier} (hh : h ∈ s.tierHits project query limit tier) :
    h.LabelledBy .symbol := by
  obtain ⟨r, -, rfl⟩ := List.mem_map.1 hh
  have hsignal : tier.matchKind.signal = .symbol := by cases tier <;> rfl
  exact hsignal ▸ Hit.LabelledBy.single rfl

theorem labelledBy_of_mem_addTiers {table : List (Hit Float)} {tiers : List Tier}
    (htable : ∀ k ∈ table, k.LabelledBy .symbol)
    (hh : h ∈ s.addTiers project query limit table tiers) : h.LabelledBy .symbol := by
  induction tiers generalizing table with
  | nil => exact htable h hh
  | cons tier tiers ih =>
    rw [addTiers] at hh
    split at hh
    · exact htable h hh
    · refine ih (fun k hk => ?_) hh
      rcases List.mem_append.1 ((addNew_sublist _ _).subset hk) with hk | hk
      · exact htable k hk
      · exact labelledBy_of_mem_tierHits hk

theorem labelledBy_of_mem_symbolSearch {e : Enumeration} {text : String}
    (hh : h ∈ s.symbolSearch e project text limit) : h.LabelledBy .symbol := by
  rcases symbolSearch_cases s project text limit with hnone | ⟨-, hsome⟩
  · rw [hnone] at hh
    cases hh
  · rw [hsome] at hh
    have hh := (e.perm _).mem_iff.1 (List.mem_mergeSort.1 (List.mem_of_mem_take hh))
    exact labelledBy_of_mem_addTiers (fun k hk => absurd hk List.not_mem_nil) hh

theorem labelledBy_of_scored? {nan : NanRule} {query : Vector32} {kept : Option StoredVector}
    {hit : Float → Hit Float} {scored : Scored} (hhit : ∀ score, (hit score).LabelledBy .semantic)
    (h : scored? nan query kept hit = some scored) : scored.hit.LabelledBy .semantic := by
  obtain ⟨v, -, hv⟩ := Option.bind_eq_some_iff.1 h
  obtain ⟨score, -, rfl⟩ := Option.map_eq_some_iff.1 hv
  exact hhit score

theorem labelledBy_of_mem_similar {nan : NanRule} {vector : Vector32}
    (hh : h ∈ s.similar nan project vector limit) : h.LabelledBy .semantic := by
  obtain ⟨scored, hscored, rfl⟩ := List.mem_map.1 hh
  rcases List.mem_append.1 (List.mem_mergeSort.1 (List.mem_of_mem_take hscored)) with hscored | hscored
  · obtain ⟨r, -, hr⟩ := List.mem_filterMap.1 hscored
    exact labelledBy_of_scored? (fun _ => .single (m := .semantic) rfl) hr
  · obtain ⟨r, -, hr⟩ := List.mem_filterMap.1 hscored
    exact labelledBy_of_scored? (fun _ => .single (m := .semantic) rfl) hr

theorem labelledBy_of_semanticSearch {nan : NanRule} {p : Provider} {text : String}
    (hh : h ∈ orNone (s.semanticSearch nan project p text limit).1) : h.LabelledBy .semantic := by
  unfold semanticSearch at hh
  split at hh
  · cases hh
  · split at hh
    · cases hh
    · split at hh
      · exact labelledBy_of_mem_similar hh
      · cases hh

theorem labelledBy_of_mem_fulltextHits {α : Type} [Score α]
    (hh : h ∈ s.fulltextHits α project query limit) : h.LabelledBy .fulltext := by
  unfold fulltextHits at hh
  split at hh
  · obtain ⟨r, -, rfl⟩ := List.mem_map.1 hh
    exact Hit.LabelledBy.single (m := .fulltext) rfl
  · cases hh

theorem labelledBy_of_textSearch {α : Type} [Score α] {text : String}
    (hh : h ∈ orNone (s.textSearch α project text limit)) : h.LabelledBy .fulltext := by
  cases hsearch : s.textSearch α project text limit with
  | error failure =>
    rw [hsearch] at hh
    cases hh
  | ok hits =>
    replace hh : h ∈ hits := by rwa [hsearch] at hh
    simp only [textSearch] at hsearch
    split at hsearch
    · cases hsearch
      cases hh
    · obtain ⟨chunks, hchunks, hsearch⟩ := eq_ok_of_bind hsearch
      obtain ⟨components, hcomponents, hsearch⟩ := eq_ok_of_bind hsearch
      cases hsearch
      rcases List.mem_append.1 (List.mem_mergeSort.1 (List.mem_of_mem_take hh)) with hh | hh
      · unfold withSubstrings at hchunks
        split at hchunks
        · obtain ⟨more, hmore, hchunks⟩ := eq_ok_of_bind hchunks
          cases hchunks
          rcases List.mem_append.1 hh with hh | hh
          · exact labelledBy_of_mem_fulltextHits hh
          · exact .single (mem_of_substringHits hmore h (mem_of_mem_unseen hh)).2
        · cases hchunks
          exact labelledBy_of_mem_fulltextHits hh
      · exact .single (mem_of_componentHits hcomponents h hh).2

/-- The search by all signals gives results that sum up the hits of the three searches. -/
theorem hybridSearch_sums {α : Type} [Score α] {e : Enumeration} {nan : NanRule} {p p' : Provider}
    {w : Weights Float} {text : String} {results : List (Hit Float)}
    (hsearch : s.hybridSearch α e nan project p w text limit = (.ok results, p')) {r : Hit Float}
    (hr : r ∈ results) :
    r.Sums (hitsAt Score.isTaken r.location
      (s.symbolSearch e project text (fetchCount limit) ++
        orNone (s.textSearch α project text (fetchCount limit)) ++
        orNone (s.semanticSearch nan project p text (fetchCount limit)).1)) := by
  unfold hybridSearch at hsearch
  split at hsearch
  · cases hsearch
  · cases hsearch
    exact (Fusion.sums_of_mem_merge (fun _ => labelledBy_of_mem_symbolSearch)
      (fun _ => labelledBy_of_textSearch) (fun _ => labelledBy_of_semanticSearch) hr).1

end Store

end CodeIndex
