import CodeIndex.Source.Indent
import Mathlib.Data.List.TakeWhile

/-!
Blocks by indentation, and how they lie to each other.

* `blockEnd_spec` says what the block of a line is without the scan that finds it: the lines of code in
  it are indented further than the first one, it ends on such a line, and it ends only for a line of
  code that is not;
* a `Region` is a header with the decorators above it and its block: of two regions the later one comes
  after the earlier one or lies in it (`Region.after_or_within`);
* `enclosingClass_eq_some` says which class a line stands in.
-/
namespace CodeIndex.Indent

open Text

variable {ls : List (List Char)}

/-- The indentation of a line, counted from zero. -/
def depth (ls : List (List Char)) (k : Nat) : Nat := indentWidth (ls.getD k [])

/-- Whether there is code on a line. -/
def codeAt (ls : List (List Char)) (k : Nat) : Bool := isCode (ls.getD k [])

/-- Whether a line is blank. -/
def blankAt (ls : List (List Char)) (k : Nat) : Bool := allBlank (ls.getD k [])

/-! ## Lines of code -/

theorem not_isCode_of_allBlank {l : List Char} (h : allBlank l = true) : isCode l = false := by
  have hnil : trimStart l = [] := List.dropWhile_eq_nil_iff.2 (List.all_eq_true.1 h)
  rw [isCode, hnil]

theorem not_blank_of_code {k : Nat} (h : codeAt ls k = true) : blankAt ls k = false := by
  refine Bool.eq_false_iff.2 fun hblank => ?_
  rw [codeAt, not_isCode_of_allBlank hblank] at h
  cases h

theorem isCode_of_head? {l : List Char} {c : Char} (h : (trimStart l).head? = some c)
    (hc : c ≠ '#') : isCode l = true := by
  obtain ⟨t, ht⟩ := List.head?_eq_some_iff.1 h
  simp [isCode, ht, hc]

/-! ## Ends of blocks -/

/-- What the scan from `line` on answers, when `last` is the last line so far that belongs to a block
indented by `base`. -/
structure Scanned (ls : List (List Char)) (base last line stop : Nat) : Prop where
  ends : stop = last ∨
    line ≤ stop ∧ stop < ls.length ∧ blankAt ls stop = false ∧ base < depth ls stop
  inside : ∀ k, line ≤ k → k ≤ stop → codeAt ls k = true → base < depth ls k
  closed : ∀ k, line ≤ k → stop < k → k < ls.length → blankAt ls k = false → base < depth ls k →
    ∃ j, line ≤ j ∧ stop < j ∧ j < k ∧ codeAt ls j = true ∧ depth ls j ≤ base

/-- A line that is passed over: no code that ends the block, and not the last line of it so far. -/
theorem Scanned.pass {base last line stop : Nat} (h : Scanned ls base last (line + 1) stop)
    (hcode : codeAt ls line = true → base < depth ls line)
    (hnone : blankAt ls line = false → ¬ base < depth ls line) : Scanned ls base last line stop where
  ends := h.ends.imp id fun ⟨hle, hrest⟩ => ⟨by omega, hrest⟩
  inside k hle hk hc := by
    rcases Nat.eq_or_lt_of_le hle with rfl | hlt
    · exact hcode hc
    · exact h.inside k hlt hk hc
  closed k hle hlt hlen hblank hdepth := by
    rcases Nat.eq_or_lt_of_le hle with rfl | hk
    · exact absurd hdepth (hnone hblank)
    · obtain ⟨j, hj, hrest⟩ := h.closed k hk hlt hlen hblank hdepth
      exact ⟨j, by omega, hrest⟩

theorem Scanned.take {base last line stop : Nat} (h : Scanned ls base line (line + 1) stop)
    (hlen : line < ls.length) (hblank : blankAt ls line = false) (hdepth : base < depth ls line) :
    Scanned ls base last line stop := by
  have hle : line ≤ stop := by
    rcases h.ends with hstop | ⟨hle, -⟩
    · exact Nat.le_of_eq hstop.symm
    · omega
  refine ⟨.inr ?_, ?_, ?_⟩
  · rcases h.ends with rfl | ⟨-, hrest⟩
    · exact ⟨hle, hlen, hblank, hdepth⟩
    · exact ⟨hle, hrest⟩
  · intro k hk hstop hc
    rcases Nat.eq_or_lt_of_le hk with rfl | hlt
    · exact hdepth
    · exact h.inside k hlt hstop hc
  · intro k hk hlt hlen hblank hdepth
    obtain ⟨j, hj, hrest⟩ := h.closed k (by omega) hlt hlen hblank hdepth
    exact ⟨j, by omega, hrest⟩

theorem getD_of_drop {line : Nat} {l : List Char} {rest : List (List Char)}
    (h : ls.drop line = l :: rest) :
    line < ls.length ∧ ls.getD line [] = l ∧ ls.drop (line + 1) = rest := by
  have hlen : line < ls.length := by
    by_contra hge
    rw [List.drop_eq_nil_of_le (Nat.le_of_not_lt hge)] at h
    cases h
  refine ⟨hlen, ?_, ?_⟩
  · rw [List.getD_eq_getElem?_getD, ← List.head?_drop, h]
    rfl
  · rw [← List.tail_drop, h]
    rfl

theorem scanned_blockEndFrom (base : Nat) {last line : Nat} {rest : List (List Char)}
    (hrest : ls.drop line = rest) (hlt : last < line) :
    Scanned ls base last line (blockEndFrom base last line rest) := by
  induction rest generalizing last line with
  | nil =>
    have hlen := List.drop_eq_nil_iff.1 hrest
    rw [blockEndFrom]
    exact ⟨.inl rfl, fun k hle hk => by omega, fun k hle _ hk => by omega⟩
  | cons l rest ih =>
    obtain ⟨hlen, rfl, hnext⟩ := getD_of_drop hrest
    rw [blockEndFrom]
    split
    · rename_i hblank
      refine (ih hnext (by omega)).pass (fun hcode => ?_) fun hnot => ?_
      · rw [codeAt, not_isCode_of_allBlank hblank] at hcode
        cases hcode
      · rw [blankAt, hblank] at hnot
        cases hnot
    · rename_i hblank
      rw [Bool.not_eq_true] at hblank
      split
      · rename_i hend
        rw [Bool.and_eq_true, decide_eq_true_eq] at hend
        refine ⟨.inl rfl, fun k hle hk => by omega, fun k hle hk hlen _ hdepth => ?_⟩
        refine ⟨line, Nat.le_refl _, hlt, ?_, hend⟩
        rcases Nat.eq_or_lt_of_le hle with rfl | hlt
        · exact absurd hdepth (Nat.not_lt.2 hend.2)
        · exact hlt
      · rename_i hgo
        rw [Bool.and_eq_true, decide_eq_true_eq, not_and, Nat.not_le] at hgo
        split
        · rename_i hdepth
          exact (ih hnext (Nat.lt_succ_self _)).take hlen hblank hdepth
        · rename_i hdepth
          exact (ih hnext (by omega)).pass hgo fun _ => hdepth

/-- What a block is, from its first line to its last. -/
structure Block (ls : List (List Char)) (first last : Nat) : Prop where
  first_le : first ≤ last
  last_lt : last < ls.length
  /-- It ends on its first line or on one that is indented further. -/
  ends : last = first ∨ blankAt ls last = false ∧ depth ls first < depth ls last
  /-- All code in it is indented further. -/
  inside : ∀ k, first < k → k ≤ last → codeAt ls k = true → depth ls first < depth ls k
  /-- A later line that is indented further comes after code that is not. -/
  closed : ∀ k, last < k → k < ls.length → blankAt ls k = false → depth ls first < depth ls k →
    ∃ j, last < j ∧ j < k ∧ codeAt ls j = true ∧ depth ls j ≤ depth ls first

/-- **The block of a line goes up to the first code that is not indented further**, and ends on the last
line before that is. -/
theorem blockEnd_spec {first : Nat} (h : first < ls.length) :
    Block ls first (blockEnd ls first) := by
  rw [blockEnd]
  split
  · rename_i hnil
    exact absurd (List.drop_eq_nil_iff.1 hnil) (Nat.not_le.2 h)
  · rename_i l rest hdrop
    obtain ⟨-, rfl, hrest⟩ := getD_of_drop hdrop
    have hscan := scanned_blockEndFrom (depth ls first) hrest (Nat.lt_succ_self first)
    refine ⟨?_, ?_, hscan.ends.imp id fun hend => hend.2.2, hscan.inside, ?_⟩
    · rcases hscan.ends with hend | ⟨hle, -⟩
      · exact Nat.le_of_eq hend.symm
      · exact Nat.le_of_succ_le hle
    · rcases hscan.ends with hend | ⟨-, hlt, -⟩
      · exact Nat.lt_of_le_of_lt (Nat.le_of_eq hend) h
      · exact hlt
    · intro k hk hlen hblank hdepth
      have hle : first + 1 ≤ k := by
        rcases hscan.ends with hend | ⟨hle, -⟩
        · exact hend ▸ hk
        · exact Nat.le_trans hle (Nat.le_of_lt hk)
      obtain ⟨j, -, hj⟩ := hscan.closed k hle hk hlen hblank hdepth
      exact ⟨j, hj⟩

/-! ## Decorators -/

/-- A decorator is above a header, and everything between them is one with the same indentation. -/
theorem decoratorStartFrom_spec (lines : List (List Char)) (indent line : Nat) :
    decoratorStartFrom lines indent line ≤ line ∧
      ∀ k, decoratorStartFrom lines indent line ≤ k → k < line →
        isDecorator (lines.getD k []) = true ∧ depth lines k = indent := by
  induction line with
  | zero => exact ⟨Nat.le_refl _, fun k _ hk => absurd hk (Nat.not_lt_zero k)⟩
  | succ line ih =>
    rw [decoratorStartFrom]
    split
    · rename_i habove
      rw [Bool.and_eq_true, beq_iff_eq] at habove
      refine ⟨Nat.le_succ_of_le ih.1, fun k hle hlt => ?_⟩
      rcases Nat.lt_or_eq_of_le (Nat.le_of_lt_succ hlt) with hlt | rfl
      · exact ih.2 k hle hlt
      · exact habove
    · exact ⟨Nat.le_refl _, fun k hle hlt => by omega⟩

theorem decoratorStart_le (lines : List (List Char)) (line : Nat) :
    decoratorStart lines line ≤ line := (decoratorStartFrom_spec lines _ line).1

theorem isCode_of_isDecorator {l : List Char} (h : isDecorator l = true) : isCode l = true := by
  rw [isDecorator, beq_iff_eq] at h
  exact isCode_of_head? h (by decide)

/-! ## Regions -/

/-- A header and its first line, which is the first of the decorators above it. -/
structure Region (ls : List (List Char)) (first header : Nat) : Prop where
  first_le : first ≤ header
  header_lt : header < ls.length
  code : codeAt ls header = true
  /-- A header is no decorator itself. -/
  plain : isDecorator (ls.getD header []) = false
  decorators : ∀ k, first ≤ k → k < header →
    isDecorator (ls.getD k []) = true ∧ depth ls k = depth ls header

variable {first header first' header' : Nat}

theorem Region.decorated (h : Region ls first header) :
    Region ls (decoratorStart ls header) header :=
  ⟨decoratorStart_le ls header, h.header_lt, h.code, h.plain,
    (decoratorStartFrom_spec ls _ header).2⟩

theorem Region.block (h : Region ls first header) : Block ls header (blockEnd ls header) :=
  blockEnd_spec h.header_lt

/-- The lines of a region up to its header are code, and indented as the header is. -/
theorem Region.above (h : Region ls first header) {k : Nat} (hle : first ≤ k) (hk : k ≤ header) :
    codeAt ls k = true ∧ depth ls k = depth ls header := by
  rcases Nat.eq_or_lt_of_le hk with rfl | hlt
  · exact ⟨h.code, rfl⟩
  · obtain ⟨hmark, hdepth⟩ := h.decorators k hle hlt
    exact ⟨isCode_of_isDecorator hmark, hdepth⟩

/-- A later region starts after the header of an earlier one, which would be a decorator else. -/
theorem Region.header_lt_first (h : Region ls first header) (h' : Region ls first' header')
    (hlt : header < header') : header < first' := by
  by_contra hle
  have hmark := (h'.decorators header (Nat.le_of_not_lt hle) hlt).1
  rw [h.plain] at hmark
  cases hmark

/-- **A later region comes after an earlier one or lies in it.** -/
theorem Region.after_or_within (h : Region ls first header) (h' : Region ls first' header')
    (hlt : header < header') :
    blockEnd ls header < first' ∨
      header < first' ∧ header' ≤ blockEnd ls header ∧ depth ls header < depth ls header' ∧
        blockEnd ls header' ≤ blockEnd ls header := by
  have hfirst := h.header_lt_first h' hlt
  rcases Nat.lt_or_ge (blockEnd ls header) first' with hafter | hinto
  · exact .inl hafter
  · -- the first line of the later region is code in the block, so that region is indented further
    have hdeep : depth ls header < depth ls header' := by
      obtain ⟨hcode, hdepth⟩ := h'.above (Nat.le_refl _) h'.first_le
      have hinside := h.block.inside first' hfirst hinto hcode
      omega
    -- code that ends the block would stand among the decorators, which are indented as their header
    have hheader : header' ≤ blockEnd ls header := by
      by_contra hout
      obtain ⟨j, hj, hjlt, -, hjdepth⟩ := h.block.closed header' (Nat.lt_of_not_le hout) h'.header_lt
        (not_blank_of_code h'.code) hdeep
      have hsame := (h'.above (k := j) (by omega) (by omega)).2
      omega
    -- or in the block of the later one, where all code is indented further still
    have hlast : blockEnd ls header' ≤ blockEnd ls header := by
      by_contra hout
      rcases h'.block.ends with hend | ⟨hblank, hdepth⟩
      · omega
      · obtain ⟨j, hj, hjlt, hcode, hjdepth⟩ := h.block.closed (blockEnd ls header')
          (Nat.lt_of_not_le hout) h'.block.last_lt hblank (by omega)
        have hinside := h'.block.inside j (by omega) (by omega) hcode
        omega
    exact .inr ⟨hfirst, hheader, hdeep, hlast⟩

/-! ## Classes around a line -/

variable {line : Nat} {classes : List Span}

theorem foldl_later (l : List Span) (best : Option Span) :
    (l.foldl later best = none ↔ best = none ∧ l = []) ∧
      ∀ t, l.foldl later best = some t →
        (best = some t ∨ t ∈ l) ∧ (∀ s ∈ best, s.first ≤ t.first) ∧ ∀ s ∈ l, s.first ≤ t.first := by
  induction l generalizing best with
  | nil =>
    refine ⟨by simp, fun t ht => ⟨.inl ht, fun s hs => ?_, by simp⟩⟩
    rw [show best = some t from ht, Option.mem_some_iff] at hs
    exact Nat.le_of_eq (congrArg Span.first hs.symm)
  | cons u l ih =>
    -- of the best so far and the next span one is kept, and both start no later than it
    obtain ⟨b, hb, hchoice, hu, hbest⟩ : ∃ b, later best u = some b ∧ (best = some b ∨ b = u) ∧
        u.first ≤ b.first ∧ ∀ s ∈ best, s.first ≤ b.first := by
      cases best with
      | none => exact ⟨u, rfl, .inr rfl, Nat.le_refl _, by simp⟩
      | some s =>
        by_cases hle : s.first ≤ u.first
        · exact ⟨u, by simp [later, hle], .inr rfl, Nat.le_refl _, by simpa using hle⟩
        · exact ⟨s, by simp [later, hle], .inl rfl, by omega, by simp⟩
    rw [List.foldl_cons, hb]
    refine ⟨by simp [(ih (some b)).1], fun t ht => ?_⟩
    obtain ⟨hmem, hfirst, hrest⟩ := (ih (some b)).2 t ht
    have hbt : b.first ≤ t.first := hfirst b rfl
    refine ⟨?_, fun s hs => Nat.le_trans (hbest s hs) hbt, fun s hs => ?_⟩
    · rcases hmem with hsame | hmem
      · obtain rfl := Option.some.inj hsame
        exact hchoice.imp id fun hsame => List.mem_cons.2 (.inl hsame)
      · exact .inr (List.mem_cons_of_mem _ hmem)
    · rcases List.mem_cons.1 hs with rfl | hs
      · exact Nat.le_trans hu hbt
      · exact hrest s hs

theorem enclosingClass_eq_none :
    enclosingClass ls line classes = none ↔ ∀ c ∈ classes, encloses ls line c = false := by
  rw [enclosingClass, Option.map_eq_none_iff, (foldl_later _ none).1]
  simp

theorem enclosingClass_eq_some {name : String} (h : enclosingClass ls line classes = some name) :
    ∃ c ∈ classes, encloses ls line c = true ∧ c.name = name ∧
      ∀ d ∈ classes, encloses ls line d = true → d.first ≤ c.first := by
  rw [enclosingClass] at h
  obtain ⟨c, hc, hname⟩ := Option.map_eq_some_iff.1 h
  obtain ⟨hmem, -, hlatest⟩ := (foldl_later _ none).2 c hc
  obtain ⟨hmem, hencloses⟩ := List.mem_filter.1 (hmem.resolve_left (by simp))
  exact ⟨c, hmem, hencloses, hname, fun d hd hde => hlatest d (List.mem_filter.2 ⟨hd, hde⟩)⟩

end CodeIndex.Indent
