import CodeIndex.Proofs.Text.Lines

/-!
Pieces of a text that are made of whole lines.

Lines that are joined again are the piece of the text they come from, less the carriage returns at the
ends of its lines (`joined_lines`).

* `dropReturns` takes these returns out, and `Torn` says that two parts come apart inside of a line end;
* `Piece` says that a text has a piece of whole lines between what is before and what is after.
-/
namespace CodeIndex.Text

/-! ## Carriage returns -/

/-- A text without the carriage returns before its newlines. -/
def dropReturns : List Char → List Char
  | [] => []
  | c :: s => if c = '\r' ∧ s.head? = some '\n' then dropReturns s else c :: dropReturns s

/-- Two parts of a text come apart inside of a line end. -/
def Torn (x y : List Char) : Prop := x.getLast? = some '\r' ∧ y.head? = some '\n'

theorem not_torn_nil (y : List Char) : ¬ Torn [] y := by
  rintro ⟨h, -⟩
  cases h

theorem dropReturns_return {s : List Char} (h : s.head? = some '\n') :
    dropReturns ('\r' :: s) = dropReturns s := by
  rw [dropReturns, if_pos ⟨rfl, h⟩]

theorem dropReturns_cons {c : Char} {s : List Char} (h : ¬ Torn [c] s) :
    dropReturns (c :: s) = c :: dropReturns s := by
  rw [dropReturns, if_neg]
  rintro ⟨rfl, hs⟩
  exact h ⟨rfl, hs⟩

theorem dropReturns_newline (s : List Char) : dropReturns ('\n' :: s) = '\n' :: dropReturns s :=
  dropReturns_cons fun h => by cases h.1

theorem dropReturns_lineEnd (s : List Char) :
    dropReturns ('\r' :: '\n' :: s) = '\n' :: dropReturns s := by
  rw [dropReturns_return rfl, dropReturns_newline]

theorem torn_singleton {c : Char} {s : List Char} :
    Torn [c] s ↔ c = '\r' ∧ s.head? = some '\n' := by
  simp [Torn]

theorem torn_cons {c d : Char} {x y : List Char} : Torn (c :: d :: x) y ↔ Torn (d :: x) y := by
  rw [Torn, List.getLast?_cons_cons]
  rfl

theorem torn_append {x y z : List Char} (hy : y ≠ []) : Torn (x ++ y) z ↔ Torn y z := by
  rw [Torn, List.getLast?_append_of_ne_nil _ hy]
  rfl

theorem dropReturns_append {x y : List Char} (h : ¬ Torn x y) :
    dropReturns (x ++ y) = dropReturns x ++ dropReturns y := by
  induction x with
  | nil => rfl
  | cons c x ih =>
    cases x with
    | nil =>
      rw [List.singleton_append, dropReturns_cons h, dropReturns_cons (by simp [Torn])]
      rfl
    | cons d x =>
      have ih := ih fun htorn => h (torn_cons.2 htorn)
      by_cases hc : Torn [c] (d :: x)
      · obtain ⟨rfl, hd⟩ := torn_singleton.1 hc
        rw [dropReturns_return hd, ← ih]
        exact dropReturns_return hd
      · rw [dropReturns_cons hc]
        change dropReturns (c :: (d :: x ++ y)) = c :: (dropReturns (d :: x) ++ dropReturns y)
        rw [← ih]
        exact dropReturns_cons fun htorn => hc ⟨htorn.1, htorn.2⟩

theorem getLast?_dropReturns (x : List Char) : (dropReturns x).getLast? = x.getLast? := by
  induction x with
  | nil => rfl
  | cons c x ih =>
    cases x with
    | nil => simp [dropReturns]
    | cons d x =>
      rw [List.getLast?_cons_cons, ← ih]
      by_cases hc : Torn [c] (d :: x)
      · obtain ⟨rfl, hd⟩ := torn_singleton.1 hc
        rw [dropReturns_return hd]
      · have hne : dropReturns (d :: x) ≠ [] := by
          intro hnil
          rw [hnil] at ih
          exact absurd ih.symm (by simp [List.getLast?_cons])
        rw [dropReturns_cons hc]
        obtain ⟨a, l, hl⟩ := List.exists_cons_of_ne_nil hne
        rw [hl, List.getLast?_cons_cons]

theorem dropReturns_of_not_mem {x : List Char} (h : '\n' ∉ x) : dropReturns x = x := by
  induction x with
  | nil => rfl
  | cons c x ih =>
    rw [List.mem_cons, not_or] at h
    rw [dropReturns_cons, ih h.2]
    rintro ⟨-, hx⟩
    exact h.2 (List.mem_of_head? hx)

/-- A place in the text without returns comes from a place in the text. -/
theorem split_of_dropReturns {s a b : List Char} (h : dropReturns s = a ++ b) :
    ∃ x y, s = x ++ y ∧ ¬ Torn x y ∧ dropReturns x = a ∧ dropReturns y = b := by
  induction s generalizing a with
  | nil =>
    obtain ⟨rfl, rfl⟩ := List.append_eq_nil_iff.1 h.symm
    exact ⟨[], [], rfl, not_torn_nil _, rfl, rfl⟩
  | cons c s ih =>
    cases a with
    | nil => exact ⟨[], c :: s, rfl, not_torn_nil _, rfl, h⟩
    | cons d a =>
      by_cases hc : Torn [c] s
      · obtain ⟨rfl, hs⟩ := torn_singleton.1 hc
        rw [dropReturns_return hs] at h
        obtain ⟨x, y, rfl, hxy, hx, hy⟩ := ih h
        have hne : x ≠ [] := by
          rintro rfl
          cases hx
        have hhead : x.head? = some '\n' := by
          rwa [List.head?_append_of_ne_nil _ hne] at hs
        refine ⟨'\r' :: x, y, rfl, ?_, by rw [dropReturns_return hhead, hx], hy⟩
        rw [← List.singleton_append, torn_append hne]
        exact hxy
      · rw [dropReturns_cons hc, List.cons_append, List.cons.injEq] at h
        obtain ⟨rfl, h⟩ := h
        obtain ⟨x, y, rfl, hxy, rfl, hy⟩ := ih h
        have hcx : ¬ Torn [c] x := by
          rintro ⟨hr, hx⟩
          refine hc ⟨hr, ?_⟩
          cases x with
          | nil => cases hx
          | cons e x => exact hx
        refine ⟨c :: x, y, rfl, ?_, dropReturns_cons hcx, hy⟩
        cases x with
        | nil => exact hc
        | cons e x => rwa [torn_cons]

/-- Places keep their order when the returns are dropped. -/
theorem exists_of_dropReturns_lt {s x y x' y' : List Char} (h : s = x ++ y) (h' : s = x' ++ y')
    (hxy' : ¬ Torn x' y') (hlt : bytes (dropReturns x) < bytes (dropReturns x')) :
    ∃ d, d ≠ [] ∧ x' = x ++ d := by
  rcases List.append_eq_append_iff.1 (h.symm.trans h') with ⟨d, rfl, -⟩ | ⟨d, rfl, rfl⟩
  · refine ⟨d, ?_, rfl⟩
    rintro rfl
    rw [List.append_nil] at hlt
    exact absurd hlt (Nat.lt_irrefl _)
  · have hd : ¬ Torn x' d := by
      rintro ⟨hlast, hhead⟩
      exact hxy' ⟨hlast, by rw [List.head?_append, hhead]; rfl⟩
    rw [dropReturns_append hd, bytes_append] at hlt
    omega

/-! ## Pieces -/

/-- A text of whole lines between what is before it in a text and what is after it: a line starts where
it starts, and where it ends there is a line end or the end of the text. -/
structure Piece (pre body tail : List Char) : Prop where
  start : AtLineStart pre
  stop : ∀ c, tail.head? = some c → c = '\n' ∨ c = '\r'
  whole : ¬ Torn body tail

theorem dropReturn_cases (l : List Char) :
    dropReturn l = l ∧ l.getLast? ≠ some '\r' ∨ l = dropReturn l ++ ['\r'] := by
  unfold dropReturn
  split
  · rename_i hlast
    obtain ⟨t, rfl⟩ := List.getLast?_eq_some_iff.1 hlast
    exact .inr (by simp)
  · rename_i hlast
    exact .inl ⟨rfl, hlast⟩

theorem prefix_dropReturn_of_last {x l : List Char} (h : x <+: l) (hx : x.getLast? ≠ some '\r') :
    x <+: dropReturn l := by
  rcases dropReturn_cases l with ⟨heq, -⟩ | heq
  · rwa [heq]
  · rw [heq] at h
    rcases List.prefix_concat_iff.1 h with rfl | h
    · simp at hx
    · exact h

/-- A part of a text that ends in its first line is a part of that line. -/
theorem prefix_of_count_eq_zero {x y l t : List Char} (h : l ++ '\n' :: t = x ++ y)
    (hx : x.count '\n' = 0) : x <+: l := by
  rcases List.append_eq_append_iff.1 h with ⟨a, rfl, ha⟩ | ⟨a, rfl, -⟩
  · cases a with
    | nil => simp
    | cons c a =>
      rw [List.cons_append, List.cons.injEq] at ha
      obtain ⟨rfl, -⟩ := ha
      simp at hx
  · exact List.prefix_append _ _

/-- The end of the first line as the end of a piece. -/
theorem first_line {l t : List Char} (hl : '\n' ∉ l) :
    ∃ tail, l ++ '\n' :: t = dropReturn l ++ tail ∧ dropReturn l = dropReturns (dropReturn l) ∧
      (∀ c, tail.head? = some c → c = '\n' ∨ c = '\r') ∧ ¬ Torn (dropReturn l) tail := by
  have hnot : '\n' ∉ dropReturn l := by
    rcases dropReturn_cases l with ⟨heq, -⟩ | heq
    · rwa [heq]
    · intro hmem
      exact hl (heq ▸ List.mem_append_left _ hmem)
  refine (dropReturn_cases l).elim (fun ⟨heq, hlast⟩ => ?_) (fun heq => ?_)
  · refine ⟨'\n' :: t, by rw [heq], (dropReturns_of_not_mem hnot).symm, by simp, ?_⟩
    rw [heq]
    exact fun h => hlast h.1
  · refine ⟨'\r' :: '\n' :: t, ?_, (dropReturns_of_not_mem hnot).symm, by simp, by simp [Torn]⟩
    nth_rewrite 1 [heq]
    simp

theorem dropReturns_line {l : List Char} (hl : '\n' ∉ l) (s : List Char) :
    dropReturns (l ++ '\n' :: s) = dropReturn l ++ '\n' :: dropReturns s := by
  rcases dropReturn_cases l with ⟨heq, hlast⟩ | heq
  · rw [heq, dropReturns_append fun h => hlast h.1, dropReturns_of_not_mem hl, dropReturns_newline]
  · have hnot : '\n' ∉ dropReturn l := fun hmem => hl (heq ▸ List.mem_append_left _ hmem)
    have htext : l ++ '\n' :: s = dropReturn l ++ '\r' :: '\n' :: s := by
      nth_rewrite 1 [heq]
      simp
    have hwhole : ¬ Torn (dropReturn l) ('\r' :: '\n' :: s) := by simp [Torn]
    rw [htext, dropReturns_append hwhole, dropReturns_of_not_mem hnot, dropReturns_lineEnd]

theorem joinLines_cons_cons (l m : List Char) (ls : List (List Char)) :
    joinLines (l :: m :: ls) = l ++ '\n' :: joinLines (m :: ls) := by
  simp [joinLines, List.intercalate_cons_cons]

/-- How joined lines are a piece of a text: `body` is the piece and `tail` what is after it, and places
in the first `k + 1` lines that are not at the end of one are places in the piece. -/
structure Joined (k : Nat) (rest body tail : List Char) : Prop where
  text : rest = body ++ tail
  joined : joinLines ((lines rest).take (k + 1)) = dropReturns body
  stop : ∀ c, tail.head? = some c → c = '\n' ∨ c = '\r'
  whole : ¬ Torn body tail
  within : ∀ x y, rest = x ++ y → x.count '\n' ≤ k → x.getLast? ≠ some '\n' →
    x.getLast? ≠ some '\r' → x <+: body

theorem joined_of_not_mem (k : Nat) {rest : List Char} (h : '\n' ∉ rest) :
    Joined k rest rest [] where
  text := by simp
  joined := by
    rw [lines_of_not_mem h, dropReturns_of_not_mem h]
    split
    · rename_i hnil
      rw [hnil]
      rfl
    · simp [joinLines]
  stop := by simp
  whole := by simp [Torn]
  within := by
    rintro x y rfl - - -
    exact List.prefix_append _ _

/-- The first line, when no other is joined to it. -/
theorem joined_first {k : Nat} {l t : List Char} (hl : '\n' ∉ l) (ht : (lines t).take k = [])
    (hk : k = 0 ∨ t = []) : ∃ tail, Joined k (l ++ '\n' :: t) (dropReturn l) tail := by
  obtain ⟨tail, htail, hdrop, hstop, hwhole⟩ := first_line (t := t) hl
  refine ⟨tail, htail, ?_, hstop, hwhole, fun x y hxy hcount hn hr => ?_⟩
  · rw [lines_of_newline hl, List.take_succ_cons, ht, ← hdrop]
    simp [joinLines]
  · refine prefix_dropReturn_of_last (prefix_of_count_eq_zero hxy ?_) hr
    rcases hk with rfl | rfl
    · exact Nat.le_zero.1 hcount
    · rcases List.append_eq_append_iff.1 hxy with ⟨a, rfl, ha⟩ | ⟨a, rfl, -⟩
      · cases a with
        | nil => simpa using List.count_eq_zero.2 hl
        | cons c a =>
          rw [List.cons_append, List.cons.injEq] at ha
          obtain ⟨rfl, ha⟩ := ha
          rw [(List.append_eq_nil_iff.1 ha.symm).1] at hn
          simp at hn
      · exact List.count_eq_zero.2 fun hmem => hl (List.mem_append_left _ hmem)

/-- The first line, when others are joined to it. -/
theorem Joined.cons {k : Nat} {l t body tail : List Char} (hl : '\n' ∉ l) (ht : t ≠ [])
    (h : Joined k t body tail) : Joined (k + 1) (l ++ '\n' :: t) (l ++ '\n' :: body) tail where
  text := by rw [h.text]; simp
  joined := by
    have hne : (lines t).take (k + 1) ≠ [] := by simp [lines_ne_nil ht]
    obtain ⟨m, ls, hls⟩ := List.exists_cons_of_ne_nil hne
    rw [lines_of_newline hl, List.take_succ_cons, hls, joinLines_cons_cons, ← hls, h.joined,
      dropReturns_line hl]
  stop := h.stop
  whole := by
    rw [torn_append (List.cons_ne_nil _ _)]
    cases body with
    | nil => simp [Torn]
    | cons c body => rw [torn_cons]; exact h.whole
  within := by
    intro x y hxy hcount hn hr
    rcases List.append_eq_append_iff.1 hxy with ⟨a, rfl, ha⟩ | ⟨a, rfl, -⟩
    · cases a with
      | nil => simp
      | cons c a =>
        rw [List.cons_append, List.cons.injEq] at ha
        obtain ⟨rfl, rfl⟩ := ha
        have hne : a ≠ [] := by
          rintro rfl
          simp at hn
        have hlast : (l ++ '\n' :: a).getLast? = a.getLast? := by
          rw [List.getLast?_append_of_ne_nil _ (List.cons_ne_nil _ _)]
          obtain ⟨d, a, rfl⟩ := List.exists_cons_of_ne_nil hne
          rw [List.getLast?_cons_cons]
        rw [hlast] at hn hr
        have hshort : a.count '\n' ≤ k := by
          rw [List.count_append, List.count_cons_self] at hcount
          omega
        obtain ⟨z, hz⟩ := h.within a y rfl hshort hn hr
        exact ⟨z, by rw [← hz]; simp⟩
    · rw [List.append_assoc]
      exact List.prefix_append _ _

/-- **Joined lines are a piece of the text**, without its returns. -/
theorem joined_lines (k : Nat) (rest : List Char) : ∃ body tail, Joined k rest body tail := by
  induction k generalizing rest with
  | zero =>
    rcases line_cases rest with hrest | ⟨l, t, hl, rfl⟩
    · exact ⟨rest, [], joined_of_not_mem 0 hrest⟩
    · exact ⟨_, joined_first hl List.take_zero (.inl rfl)⟩
  | succ k ih =>
    rcases line_cases rest with hrest | ⟨l, t, hl, rfl⟩
    · exact ⟨rest, [], joined_of_not_mem _ hrest⟩
    · rcases eq_or_ne t [] with rfl | ht
      · exact ⟨_, joined_first hl rfl (.inr rfl)⟩
      · obtain ⟨body, tail, h⟩ := ih t
        exact ⟨_, tail, h.cons hl ht⟩

theorem Joined.piece {k : Nat} {pre rest body tail : List Char} (hpre : AtLineStart pre)
    (h : Joined k rest body tail) : Piece pre body tail := ⟨hpre, h.stop, h.whole⟩

end CodeIndex.Text
