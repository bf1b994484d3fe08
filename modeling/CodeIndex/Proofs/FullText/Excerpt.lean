import CodeIndex.FullText.Highlight
import CodeIndex.Proofs.Text.Blank
import CodeIndex.Proofs.Text.Occurrence

/-!
What an excerpt shows of the first match.

* Terms are read off in order, each starts with a character of a term and is not empty, and a run of terms
  goes from its first to its last; so a stretch of a match starts with a character that is neither blank
  nor of code zero (`startsTerm_of_mem_stretches`).
* A window on a text shows a mark and the start of what follows it if the window reaches so far
  (`trim_window`).
* `excerpt_shows_first_match`: the window starts before the first `>>>`. This is the mark of the first match,
  or at most two characters before it, if the text before the match holds no `>>>` of its own. If it does,
  the match is shown only as far as the window still reaches (`excerpt_misses_match`).
-/
namespace CodeIndex.FullText

open Text

/-! ## Characters of terms -/

theorem isTermChar_blankCodes : ∀ n ∈ blankCodes, isTermChar (Char.ofNat n) = false := by
  decide +kernel

theorem isBlank_of_isTermChar {c : Char} (h : isTermChar c = true) : isBlank c = false := by
  rw [Bool.eq_false_iff]
  intro hblank
  obtain ⟨n, hn, rfl⟩ := List.mem_map.1 (mem_blankCodes hblank)
  rw [isTermChar_blankCodes n hn] at h
  cases h

theorem toNat_ne_zero_of_isTermChar {c : Char} (h : isTermChar c = true) : c.toNat ≠ 0 := by
  intro hzero
  rw [← Char.ofNat_toNat c, hzero] at h
  exact absurd h (by decide)

/-! ## Matches start with a term -/

/-- The stretch is not empty and starts with a character of a term. -/
structure Stretch.StartsTerm (span : Stretch) (s : List Char) : Prop where
  start_lt_stop : span.start < span.stop
  isTermChar : ∃ c, s[span.start]? = some c ∧ isTermChar c = true

section
variable {t : List Char}

/-- The stretch that a term covers. -/
def stretchOf (term : Term) : Stretch := ⟨term.start, term.stop⟩

theorem drop_succ_of_cons {c : Char} {s : List Char} {position : Nat} (h : c :: s = t.drop position) :
    t[position]? = some c ∧ s = t.drop (position + 1) := by
  constructor
  · rw [← Nat.add_zero position, ← List.getElem?_drop, ← h]
    rfl
  · rw [← List.drop_drop, ← h]
    rfl

/-- Terms of a text in order, from a place on. -/
structure TermsOf (t : List Char) (start : Nat) (terms : List Term) : Prop where
  startsTerm : ∀ term ∈ terms, (stretchOf term).StartsTerm t
  le_start : ∀ term ∈ terms, start ≤ term.start
  pairwise : terms.Pairwise (·.start ≤ ·.start)

theorem TermsOf.mono {start later : Nat} {terms : List Term} (h : TermsOf t later terms)
    (hle : start ≤ later) : TermsOf t start terms :=
  ⟨h.startsTerm, fun term hterm => hle.trans (h.le_start term hterm), h.pairwise⟩

theorem TermsOf.cons {later : Nat} {term : Term} {terms : List Term} (h : TermsOf t later terms)
    (hterm : (stretchOf term).StartsTerm t) (hle : term.start ≤ later) :
    TermsOf t term.start (term :: terms) where
  startsTerm := List.forall_mem_cons.2 ⟨hterm, h.startsTerm⟩
  le_start := List.forall_mem_cons.2 ⟨le_rfl, (h.mono hle).le_start⟩
  pairwise := List.pairwise_cons.2 ⟨(h.mono hle).le_start, h.pairwise⟩

/-- What is read off starts where the term that is being read does, or else here. -/
theorem termsOf_termsFrom {s : List Char} {open? : Option (List Char × Nat)} {position : Nat}
    (hs : s = t.drop position) (hopen : ∀ read ∈ open?, Stretch.StartsTerm ⟨read.2, position⟩ t) :
    TermsOf t (open?.elim position (·.2)) (termsFrom open? position s) := by
  have hnone : ∀ next, ∀ read ∈ (none : Option (List Char × Nat)),
      Stretch.StartsTerm ⟨read.2, next⟩ t := by
    rintro next read ⟨⟩
  fun_induction termsFrom open? position s with
  | case1 position text start =>
    have hread : (stretchOf ⟨text.reverse, start, position⟩).StartsTerm t := hopen _ rfl
    exact TermsOf.cons ⟨by simp, by simp, List.Pairwise.nil⟩ hread hread.start_lt_stop.le
  | case2 position => exact ⟨by simp, by simp, List.Pairwise.nil⟩
  | case3 position c s text start hmore ih =>
    refine ih (drop_succ_of_cons hs).2 ?_
    rintro read ⟨⟩
    exact ⟨Nat.lt_succ_of_lt (hopen _ rfl).start_lt_stop, (hopen _ rfl).isTermChar⟩
  | case4 position c s text start hend ih =>
    have hread : (stretchOf ⟨text.reverse, start, position⟩).StartsTerm t := hopen _ rfl
    exact (ih (drop_succ_of_cons hs).2 (hnone _)).cons hread
      (Nat.le_succ_of_le hread.start_lt_stop.le)
  | case5 position c s hfirst ih =>
    refine ih (drop_succ_of_cons hs).2 ?_
    rintro read ⟨⟩
    exact ⟨Nat.lt_succ_self position, c, (drop_succ_of_cons hs).1, hfirst⟩
  | case6 position c s hother ih =>
    exact (ih (drop_succ_of_cons hs).2 (hnone _)).mono (Nat.le_succ position)

theorem termsOf_termSpans (t : List Char) : TermsOf t 0 (termSpans t) := by
  have hopen : ∀ read ∈ (none : Option (List Char × Nat)), Stretch.StartsTerm ⟨read.2, 0⟩ t := by
    rintro read ⟨⟩
  exact termsOf_termsFrom rfl hopen

end

theorem le_of_mem_mergeRunsFrom {run : Nat × Nat} {rest : List (Nat × Nat)} (hrun : run.1 ≤ run.2)
    (hrest : ∀ r ∈ rest, r.1 ≤ r.2) : ∀ r ∈ mergeRunsFrom run rest, r.1 ≤ r.2 := by
  induction rest generalizing run with
  | nil => simpa [mergeRunsFrom] using hrun
  | cons next rest ih =>
    obtain ⟨hnext, hrest⟩ := List.forall_mem_cons.1 hrest
    rw [mergeRunsFrom]
    split
    · exact ih (hrun.trans (le_max_left _ _)) hrest
    · exact List.forall_mem_cons.2 ⟨hrun, ih hnext hrest⟩

theorem le_of_mem_mergeRuns {runs : List (Nat × Nat)} (h : ∀ r ∈ runs, r.1 ≤ r.2) :
    ∀ r ∈ mergeRuns runs, r.1 ≤ r.2 := by
  cases runs with
  | nil => simp [mergeRuns]
  | cons run rest =>
    obtain ⟨hrun, hrest⟩ := List.forall_mem_cons.1 h
    exact le_of_mem_mergeRunsFrom hrun hrest

theorem le_of_mem_occurrenceRuns {phrases : List Phrase} (h : [] ∉ phrases)
    (column : List (List Char)) : ∀ r ∈ occurrenceRuns phrases column, r.1 ≤ r.2 := by
  intro r hr
  rw [occurrenceRuns, List.mem_mergeSort, List.mem_flatMap] at hr
  obtain ⟨phrase, hphrase, hr⟩ := hr
  obtain ⟨first, -, rfl⟩ := List.mem_map.1 hr
  have hpos : 0 < phrase.length := List.length_pos_iff.2 fun hnil => h (hnil ▸ hphrase)
  show first ≤ first + phrase.length - 1
  omega

/-- The stretch of a match goes from the start of a term to the end of that term or a later one. -/
theorem startsTerm_of_mem_stretches {phrases : List Phrase} {s : List Char} {span : Stretch}
    (h : [] ∉ phrases) (hspan : span ∈ stretches phrases s) : span.StartsTerm s := by
  obtain ⟨⟨first, last⟩, hrun, hspan⟩ := List.mem_filterMap.1 hspan
  have hle : first ≤ last :=
    le_of_mem_mergeRuns (le_of_mem_occurrenceRuns h _) (first, last) hrun
  cases ha : (termSpans s)[first]? with
  | none => simp [ha] at hspan
  | some a =>
    cases hb : (termSpans s)[last]? with
    | none => simp [ha, hb] at hspan
    | some b =>
      simp only [ha, hb, Option.some.injEq] at hspan
      subst hspan
      have hterms := termsOf_termSpans s
      obtain ⟨hfirst, rfl⟩ := List.getElem?_eq_some_iff.1 ha
      obtain ⟨hlast, rfl⟩ := List.getElem?_eq_some_iff.1 hb
      have hstart : (termSpans s)[first].start ≤ (termSpans s)[last].start := by
        rcases hle.lt_or_eq with hlt | rfl
        · exact List.pairwise_iff_getElem.1 hterms.pairwise first last hfirst hlast hlt
        · exact le_rfl
      refine ⟨hstart.trans_lt ?_, (hterms.startsTerm _ (List.getElem_mem hfirst)).isTermChar⟩
      exact (hterms.startsTerm _ (List.getElem_mem hlast)).start_lt_stop

/-! ## What a window shows -/

/-- What a marked text holds of the text before its first stretch. -/
def Stretch.before (span : Stretch) (s : List Char) : List Char := untilNul (s.take span.start)

/-- What a marked text holds of a stretch. -/
def Stretch.found (span : Stretch) (s : List Char) : List Char :=
  untilNul ((s.drop span.start).take (span.stop - span.start))

/-- The first `room` characters of a stretch are shown: after the end of what stands before the stretch come
the mark and these characters, of which trimming may take blanks off the end, but leaves some. -/
structure Stretch.ShownIn (span : Stretch) (s shown : List Char) (room : Nat) : Prop where
  ne_nil : trimEnd ((span.found s).take room) ≠ []
  shown : ∃ lead tail, lead <:+ span.before s ∧
    shown = lead ++ openMark ++ trimEnd ((span.found s).take room) ++ tail

variable {span : Stretch} {content : List Char}

theorem marked_cons (span : Stretch) (spans : List Stretch) (content : List Char) :
    ∃ after, marked (span :: spans) content =
      span.before content ++ (openMark ++ (span.found content ++ after)) := by
  refine ⟨closeMark ++ markedFrom span.stop (content.drop span.stop) spans, ?_⟩
  simp [marked, markedFrom, Stretch.before, Stretch.found]

theorem Stretch.StartsTerm.trimEnd_ne_nil (h : span.StartsTerm content) {room : Nat} (hroom : 0 < room) :
    trimEnd ((span.found content).take room) ≠ [] := by
  obtain ⟨c, hc, hterm⟩ := h.isTermChar
  obtain ⟨hstart, rfl⟩ := List.getElem?_eq_some_iff.1 hc
  obtain ⟨length, hlength⟩ := Nat.exists_eq_add_one_of_ne_zero (Nat.sub_ne_zero_of_lt h.start_lt_stop)
  obtain ⟨room, rfl⟩ := Nat.exists_eq_add_one_of_ne_zero hroom.ne'
  have hfound : span.found content =
      content[span.start] :: untilNul ((content.drop (span.start + 1)).take length) := by
    rw [Stretch.found, hlength, List.drop_eq_getElem_cons hstart, List.take_succ_cons, untilNul,
      List.takeWhile_cons_of_pos (by simpa using toNat_ne_zero_of_isTermChar hterm)]
    rfl
  rw [hfound, List.take_succ_cons, ← List.nil_append (content[span.start] :: _),
    trimEnd_append_cons [] (isBlank_of_isTermChar hterm)]
  exact List.cons_ne_nil _ _

theorem Stretch.ShownIn.mono {shown : List Char} {room less : Nat} (h : span.ShownIn content shown room)
    (hle : less ≤ room) (hne : trimEnd ((span.found content).take less) ≠ []) :
    span.ShownIn content shown less := by
  obtain ⟨lead, tail, hlead, hshown⟩ := h.shown
  obtain ⟨rest, hrest⟩ : trimEnd ((span.found content).take less) <+:
      trimEnd ((span.found content).take room) := by
    obtain ⟨more, rfl⟩ := Nat.exists_eq_add_of_le hle
    rw [List.take_add]
    exact trimEnd_isPrefix_append _ _
  refine ⟨hne, lead, rest ++ tail, hlead, ?_⟩
  rw [hshown, ← hrest]
  simp only [List.append_assoc]

theorem trim_append_openMark (s t : List Char) :
    trim (s ++ (openMark ++ t)) = trimStart s ++ openMark ++ trimEnd t := by
  rw [trim, openMark, List.cons_append, trimStart_append_cons s (by decide)]
  have hend := trimEnd_append_cons (trimStart s ++ ['>', '>']) (c := '>') (by decide) t
  simpa using hend

/-- A window that starts before the mark and goes beyond it shows what follows as far as it reaches. -/
theorem trim_window (before found after : List Char) {start count : Nat} (hstart : start ≤ before.length)
    (hcount : before.length - start + openMark.length ≤ count) :
    ∃ lead tail, lead <:+ before ∧
      trim (((before ++ (openMark ++ (found ++ after))).drop start).take count) =
        lead ++ openMark ++ trimEnd (found.take (count - (before.length - start + openMark.length))) ++
          tail := by
  obtain ⟨room, rfl⟩ := Nat.exists_eq_add_of_le hcount
  rw [Nat.add_sub_cancel_left]
  have hwindow : ((before ++ (openMark ++ (found ++ after))).drop start).take
      (before.length - start + openMark.length + room) =
        before.drop start ++ (openMark ++ (found ++ after).take room) := by
    rw [List.drop_append_of_le_length hstart, Nat.add_assoc, ← List.length_drop, List.take_length_add_append,
      List.take_length_add_append]
  obtain ⟨tail, htail⟩ : trimEnd (found.take room) <+: trimEnd ((found ++ after).take room) := by
    rw [List.take_append]
    exact trimEnd_isPrefix_append _ _
  refine ⟨trimStart (before.drop start), tail, ?_, ?_⟩
  · exact (List.dropWhile_suffix _).trans (List.drop_suffix _ _)
  · rw [hwindow, trim_append_openMark, ← htail, List.append_assoc _ _ tail]

theorem indexOf?_openMark (before rest : List Char) :
    ∃ place ≤ before.length, indexOf? openMark (before ++ (openMark ++ rest)) = some place := by
  have hoccurs : openMark <:+: before ++ (openMark ++ rest) := ⟨before, rest, List.append_assoc _ _ _⟩
  rw [← occurs_iff, occurs, Option.isSome_iff_exists] at hoccurs
  obtain ⟨place, hplace⟩ := hoccurs
  refine ⟨place, ?_, hplace⟩
  by_contra hlater
  refine (indexOf?_eq_some_iff.1 hplace).2.2 before.length (by omega) ?_
  rw [List.drop_left]
  exact List.prefix_append _ _

/-- If the text before the mark holds none itself, the first mark starts at most two characters before:
where that text ends with the sign that the mark is made of. -/
theorem length_le_of_not_isInfix {before rest : List Char} {place : Nat}
    (h : ¬ openMark <:+: before)
    (hplace : indexOf? openMark (before ++ (openMark ++ rest)) = some place) :
    before.length ≤ place + 2 := by
  -- A mark that ends before the text does would stand in the text.
  by_contra hearlier
  obtain ⟨-, hhere, -⟩ := indexOf?_eq_some_iff.1 hplace
  rw [List.drop_append_of_le_length (by omega)] at hhere
  refine h (List.IsInfix.trans (List.IsPrefix.isInfix ?_) (List.drop_suffix place before).isInfix)
  refine List.prefix_of_prefix_length_le hhere (List.prefix_append _ _) ?_
  rw [List.length_drop, openMark, List.length_cons, List.length_cons, List.length_cons, List.length_nil]
  omega

/-- **What an excerpt shows of the first match.** An excerpt is never longer than it may be. Its window starts
a little before the first `>>>` of the marked text, which is at the first match or before it: if the window
reaches beyond the mark of the match, the excerpt shows the mark and then the start of the match, and
otherwise nothing of the match. The first happens always if the text before the match holds no `>>>` of its
own and the excerpt is long enough for what it shows before the match. -/
theorem excerpt_shows_first_match (hspan : span.StartsTerm content) (spans : List Stretch) (count : Nat) :
    (excerpt (marked (span :: spans) content) count).length ≤ count ∧
    (¬ openMark <:+: span.before content → excerptLead + 2 + openMark.length < count →
      span.ShownIn content (excerpt (marked (span :: spans) content) count)
        (count - (excerptLead + 2 + openMark.length))) ∧
    ∃ place ≤ (span.before content).length,
      indexOf? openMark (marked (span :: spans) content) = some place ∧
      ∀ ahead, ahead = (span.before content).length - (place - excerptLead) →
        (ahead + openMark.length < count →
          span.ShownIn content (excerpt (marked (span :: spans) content) count)
            (count - (ahead + openMark.length))) ∧
        (count ≤ ahead + openMark.length →
          excerpt (marked (span :: spans) content) count =
            trim (((span.before content ++ openMark).drop (place - excerptLead)).take count)) := by
  obtain ⟨after, hmarked⟩ := marked_cons span spans content
  obtain ⟨place, hle, hplace⟩ :=
    indexOf?_openMark (span.before content) (span.found content ++ after)
  rw [hmarked, excerpt, hplace, Option.getD_some]
  have hstart : place - excerptLead ≤ (span.before content).length := (Nat.sub_le _ _).trans hle
  -- What a window from that place shows; the two cases differ in how far it is to the match.
  have hshows : (span.before content).length - (place - excerptLead) + openMark.length < count →
      span.ShownIn content
        (trim (((span.before content ++ (openMark ++ (span.found content ++ after))).drop
          (place - excerptLead)).take count))
        (count - ((span.before content).length - (place - excerptLead) + openMark.length)) := by
    intro hcount
    exact ⟨hspan.trimEnd_ne_nil (Nat.sub_pos_of_lt hcount), trim_window _ _ _ hstart hcount.le⟩
  refine ⟨(length_trim_le _).trans (List.length_take_le _ _), ?_, place, hle, rfl, ?_⟩
  · intro hnone hcount
    have hnear := length_le_of_not_isInfix hnone hplace
    exact (hshows (by omega)).mono (by omega) (hspan.trimEnd_ne_nil (Nat.sub_pos_of_lt hcount))
  · rintro ahead rfl
    refine ⟨hshows, ?_⟩
    intro hcount
    rw [← List.append_assoc, List.drop_append_of_le_length (by rw [List.length_append]; omega),
      List.take_append_of_le_length (by rw [List.length_drop, List.length_append]; omega)]

/-- The text before the match ends with two signs of the mark, so the first mark is found two characters
before that of the match; both are shown. -/
theorem excerpt_shows_first_match_shifted :
    (stretches [["hit".toList]] "x>>hit".toList = [⟨3, 6⟩] ∧ ¬ openMark <:+: "x>>".toList) ∧
      Stretch.ShownIn ⟨3, 6⟩ "x>>hit".toList
        (excerpt (marked [⟨3, 6⟩] "x>>hit".toList) 200) 155 := by
  have hstretches : stretches [["hit".toList]] "x>>hit".toList = [⟨3, 6⟩] := by decide +kernel
  have hfirst : ⟨3, 6⟩ ∈ stretches [["hit".toList]] "x>>hit".toList := by
    rw [hstretches]
    exact List.mem_singleton_self _
  have hspan := startsTerm_of_mem_stretches (by decide) hfirst
  refine ⟨⟨hstretches, by decide⟩, ?_⟩
  exact (excerpt_shows_first_match hspan [] 200).2.1 (by decide) (by decide)

/-- Where the text holds a `>>>` long before its first match, the window does not reach the match. -/
theorem excerpt_misses_match :
    stretches [["hit".toList]] (">>> ".toList ++ List.replicate 200 '.' ++ " hit".toList) =
        [⟨205, 208⟩] ∧
      ¬ openMark ++ ['h'] <:+: excerpt (marked
        (stretches [["hit".toList]] (">>> ".toList ++ List.replicate 200 '.' ++ " hit".toList))
        (">>> ".toList ++ List.replicate 200 '.' ++ " hit".toList)) 200 := by
  decide +kernel

end CodeIndex.FullText
