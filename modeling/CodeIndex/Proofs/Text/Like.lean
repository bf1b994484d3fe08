import CodeIndex.Text.Like
import CodeIndex.Proofs.Text.Lines
import CodeIndex.Proofs.Text.Occurrence

/-!
What the pattern of the texts that contain a given one matches.

The comparison LIKE tries every end of a text where a pattern has a `%`. `Like.Matches` says without a
search how items match a text, and the comparison decides it (`matchItems_iff`). In the pattern of the
texts that contain a given one no character of that text is a sign (`items_containing`), so it matches
those that have a stretch with characters that compare as equal (`accepts_containing_iff`). What
compares as equal is equal up to the case of letters of ASCII, but for the last characters of the first
plane: where these do not meet (`TellsApart`), a match is an occurrence (`TellsApart.isInfix_iff`).
-/
namespace CodeIndex.Text

namespace Like

/-! ## Matching -/

/-- How items match a text as a whole. -/
inductive Matches : List Item → List Char → Prop
  | done : Matches [] []
  | anyText {is s} (t : List Char) : Matches is s → Matches (.anyText :: is) (t ++ s)
  | anyChar {is s} (c : Char) : Matches is s → Matches (.anyChar :: is) (c :: s)
  | char {is s c d} : compared c = compared d → Matches is s → Matches (.char c :: is) (d :: s)

variable {is : List Item} {q s : List Char}

theorem someSuffix_iff {test : List Char → Bool} :
    someSuffix test s = true ↔ ∃ t u, s = t ++ u ∧ test u = true := by
  induction s with
  | nil => simp [someSuffix]
  | cons c s ih =>
    rw [someSuffix, Bool.or_eq_true, ih]
    constructor
    · rintro (h | ⟨t, u, rfl, h⟩)
      · exact ⟨[], c :: s, rfl, h⟩
      · exact ⟨c :: t, u, rfl, h⟩
    · rintro ⟨t, u, htext, h⟩
      rcases List.cons_eq_append_iff.1 htext with ⟨-, rfl⟩ | ⟨t, -, rfl⟩
      · exact Or.inl h
      · exact Or.inr ⟨t, u, rfl, h⟩

theorem matchItems_iff : matchItems is s = true ↔ Matches is s := by
  constructor
  · intro h
    induction is generalizing s with
    | nil =>
      rw [matchItems, List.isEmpty_iff] at h
      exact h ▸ .done
    | cons i is ih =>
      cases i with
      | anyText =>
        obtain ⟨t, u, rfl, hu⟩ := someSuffix_iff.1 h
        exact .anyText t (ih hu)
      | anyChar =>
        cases s with
        | nil => cases h
        | cons c s => exact .anyChar c (ih h)
      | char c =>
        cases s with
        | nil => cases h
        | cons d s =>
          rw [matchItems, Bool.and_eq_true, beq_iff_eq] at h
          exact .char h.1 (ih h.2)
  · intro h
    induction h with
    | done => rfl
    | anyText t _ ih => exact someSuffix_iff.2 ⟨t, _, rfl, ih⟩
    | anyChar c _ ih => exact ih
    | char heq _ ih => rw [matchItems, heq, ih, beq_self_eq_true, Bool.and_true]

theorem matches_anyText_iff :
    Matches (.anyText :: is) s ↔ ∃ t u, s = t ++ u ∧ Matches is u := by
  constructor
  · intro h
    cases h with
    | anyText t hu => exact ⟨t, _, rfl, hu⟩
  · rintro ⟨t, u, rfl, hu⟩
    exact .anyText t hu

/-- Characters match a stretch that compares as they do. -/
theorem matches_chars_append_iff :
    Matches (q.map .char ++ is) s ↔
      ∃ t u, s = t ++ u ∧ t.map compared = q.map compared ∧ Matches is u := by
  induction q generalizing s with
  | nil => simp
  | cons c q ih =>
    rw [List.map_cons, List.cons_append]
    constructor
    · intro h
      cases h with
      | @char _ _ _ d hd h =>
        obtain ⟨t, u, rfl, ht, hu⟩ := ih.1 h
        exact ⟨d :: t, u, rfl, by rw [List.map_cons, List.map_cons, hd, ht], hu⟩
    · rintro ⟨t, u, rfl, ht, hu⟩
      cases t with
      | nil => cases ht
      | cons d t =>
        rw [List.map_cons, List.map_cons, List.cons.injEq] at ht
        exact .char ht.1.symm (ih.2 ⟨t, u, rfl, ht.2, hu⟩)

/-! ## The pattern of the texts that contain a given one -/

/-- Whether a character would be a sign in a pattern. -/
def isSign (c : Char) : Bool := c = '\\' || c = '%' || c = '_'

theorem escape_eq (c : Char) : escape c = if isSign c then ['\\', c] else [c] := rfl

theorem items_escape (c : Char) (p : List Char) :
    items (escape c ++ p) = (items p).map (.char c :: ·) := by
  rw [escape_eq]
  split
  · rfl
  · rename_i hsign
    simp only [isSign, Bool.or_eq_true, decide_eq_true_eq, not_or] at hsign
    rw [List.singleton_append, items, if_neg hsign.1.2, if_neg hsign.2]
    · intro d t hc
      exact absurd hc hsign.1.1
    · intro hc
      exact absurd hc hsign.1.1

theorem items_escaped_append (q p : List Char) :
    items (q.flatMap escape ++ p) = (items p).map (q.map .char ++ ·) := by
  induction q with
  | nil => simp
  | cons c q ih =>
    rw [List.flatMap_cons, List.append_assoc, items_escape, ih, Option.map_map]
    rfl

theorem items_containing (q : List Char) :
    items (containing q) = some (.anyText :: (q.map .char ++ [.anyText])) := by
  have hsign : items ['%'] = some [.anyText] := by decide
  have hrest : items (q.flatMap escape ++ ['%']) = some (q.map .char ++ [.anyText]) := by
    rw [items_escaped_append, hsign, Option.map_some]
  rw [containing, List.cons_append, items, hrest]
  · rfl
  · rintro d t ⟨⟩
  · rintro ⟨⟩

theorem not_mem_containing (h : '\x00' ∉ q) : '\x00' ∉ containing q := by
  intro hmem
  rw [containing, List.cons_append, List.mem_cons, List.mem_append, List.mem_flatMap,
    List.mem_singleton] at hmem
  rcases hmem with hc | ⟨c, hc, hzero⟩ | hc
  · exact absurd hc (by decide)
  · rw [escape_eq] at hzero
    split at hzero
    · simp only [List.mem_cons, List.not_mem_nil, or_false] at hzero
      rcases hzero with hc' | rfl
      · exact absurd hc' (by decide)
      · exact h hc
    · rw [List.mem_singleton] at hzero
      exact h (hzero ▸ hc)
  · exact absurd hc (by decide)

theorem bytes_escape (c : Char) : bytes (escape c) = c.utf8Size + if isSign c then 1 else 0 := by
  rw [escape_eq]
  split
  · exact Nat.add_comm _ _
  · rfl

/-- The pattern has a byte more for each character that would be a sign, and two more. -/
theorem bytes_containing (q : List Char) :
    bytes (containing q) = bytes q + q.countP isSign + 2 := by
  have hescaped : bytes (q.flatMap escape) = bytes q + q.countP isSign := by
    induction q with
    | nil => rfl
    | cons c q ih =>
      rw [List.flatMap_cons, bytes_append, bytes_escape, ih, bytes_cons, List.countP_cons]
      omega
  have hpercent : bytes ['%'] = 1 := rfl
  rw [containing, ← List.singleton_append, bytes_append, bytes_append, hescaped, hpercent]
  omega

theorem tooComplex_containing (q : List Char) :
    tooComplex (containing q) = decide (maxBytes < bytes q + q.countP isSign + 2) := by
  rw [tooComplex, utf8ByteSize_ofList, bytes_containing]

theorem map_isInfix_map_iff {β : Type} {f : Char → β} :
    q.map f <:+: s.map f ↔ ∃ before t after, s = before ++ (t ++ after) ∧ t.map f = q.map f := by
  constructor
  · rintro ⟨x, y, hxy⟩
    rw [List.append_assoc] at hxy
    obtain ⟨before, r, rfl, -, hr⟩ := List.map_eq_append_iff.1 hxy.symm
    obtain ⟨t, after, rfl, ht, -⟩ := List.map_eq_append_iff.1 hr
    exact ⟨before, t, after, rfl, ht⟩
  · rintro ⟨before, t, after, rfl, ht⟩
    exact ⟨before.map f, after.map f, by rw [← ht, List.map_append, List.map_append, List.append_assoc]⟩

/-- The pattern matches the texts that contain the given one, as characters are compared. -/
theorem accepts_containing_iff (hq : '\x00' ∉ q) (hs : '\x00' ∉ s) :
    accepts (containing q) s = true ↔ q.map compared <:+: s.map compared := by
  rw [accepts, untilNul_of_not_mem (not_mem_containing hq), items_containing,
    untilNul_of_not_mem hs, map_isInfix_map_iff]
  simp only [matchItems_iff, matches_anyText_iff, matches_chars_append_iff]
  constructor
  · rintro ⟨before, r, rfl, t, after, rfl, ht, -⟩
    exact ⟨before, t, after, rfl, ht⟩
  · rintro ⟨before, t, after, rfl, ht⟩
    exact ⟨before, t ++ after, rfl, t, after, rfl, ht, after, [], by simp, .done⟩

/-! ## What compares as equal -/

/-- No character of one text compares as equal to another one of the other, up to case. -/
def TellsApart (q s : List Char) : Prop :=
  ∀ c ∈ q, ∀ d ∈ s, compared c = compared d → asciiLower c = asciiLower d

theorem compared_of_ne {c : Char} (hfffe : c ≠ '\uFFFE') (hffff : c ≠ '\uFFFF') :
    compared c = asciiLower c := by
  rw [compared, if_neg]
  simp only [Bool.or_eq_true, beq_iff_eq, not_or]
  constructor
  · intro hcode
    exact hfffe (Char.ext (UInt32.toNat_inj.1 hcode))
  · intro hcode
    exact hffff (Char.ext (UInt32.toNat_inj.1 hcode))

/-- Texts without the two characters that are read as another one are told apart. -/
theorem tellsApart_of_not_mem (hfffe : '\uFFFE' ∉ q ++ s) (hffff : '\uFFFF' ∉ q ++ s) :
    TellsApart q s := by
  have hplain : ∀ c ∈ q ++ s, compared c = asciiLower c := by
    intro c hc
    exact compared_of_ne (fun h => hfffe (h ▸ hc)) (fun h => hffff (h ▸ hc))
  intro c hc d hd hcompared
  rwa [hplain c (List.mem_append_left _ hc), hplain d (List.mem_append_right _ hd)] at hcompared

theorem compared_asciiLower (c : Char) : compared (asciiLower c) = compared c := by
  have hletters : ∀ n < 91, 65 ≤ n → compared (Char.ofNat (n + 32)) = compared (Char.ofNat n) := by
    decide
  rcases asciiLower_cases c with hsame | ⟨n, hfrom, hto, rfl, hlower⟩
  · rw [hsame]
  · rw [hlower, hletters n hto hfrom]

namespace TellsApart

/-- A stretch that compares as equal is equal up to case. -/
theorem map_eq {t : List Char} (h : TellsApart q s) (ht : t ⊆ s)
    (heq : t.map compared = q.map compared) : t.map asciiLower = q.map asciiLower := by
  induction q generalizing t with
  | nil =>
    rw [List.map_nil, List.map_eq_nil_iff] at heq
    rw [heq]
  | cons c q ih =>
    cases t with
    | nil => cases heq
    | cons d t =>
      rw [List.map_cons, List.map_cons, List.cons.injEq] at heq
      have hhead := h c List.mem_cons_self d (ht List.mem_cons_self) heq.1.symm
      have htail : TellsApart q s := fun e he => h e (List.mem_cons_of_mem c he)
      rw [List.map_cons, List.map_cons, hhead, ih htail (List.subset_of_cons_subset ht) heq.2]

/-- Texts that are told apart compare as containing one another just when they do, up to case. -/
theorem isInfix_iff (h : TellsApart q s) :
    q.map compared <:+: s.map compared ↔ q.map asciiLower <:+: s.map asciiLower := by
  constructor
  · rw [map_isInfix_map_iff, map_isInfix_map_iff]
    rintro ⟨before, t, after, rfl, ht⟩
    refine ⟨before, t, after, rfl, h.map_eq (fun c hc => ?_) ht⟩
    exact List.mem_append_right _ (List.mem_append_left _ hc)
  · intro hlower
    simpa only [List.map_map, Function.comp_def, compared_asciiLower] using hlower.map compared

end TellsApart

end Like

end CodeIndex.Text
