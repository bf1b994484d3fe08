import CodeIndex.Proofs.Text.Cut

/-!
Patterns that match on one line.

A pattern of one line matches at the start of a line only, passes no line end and looks at nothing
outside of the line. So it finds at the start of a line of a text what it finds on that line alone
(`foundAt_lineStart`), also when the line was joined with others (`onLine_getD_joinLines`).

* `OnLine` says that two cursors stand at one place of a line, in a text and in the line alone, and
  `ends_onLine` that a pattern then has the same ways from both;
* `Pattern.oneLine` are the patterns of one line and `Pattern.onLine` is what they find on a line.
-/
namespace CodeIndex.Text

/-- A text that goes on after a line: with a line end, or not at all. -/
def LineEnd (tail : List Char) : Prop := ∀ c, tail.head? = some c → c = '\n' ∨ c = '\r'

/-! ## Lines -/

theorem isPrefix_dropReturn (l : List Char) : dropReturn l <+: l := by
  rw [dropReturn]
  split
  · exact List.dropLast_prefix l
  · exact List.prefix_rfl

theorem newline_not_mem_linesFrom {line s : List Char} (hline : '\n' ∉ line) :
    ∀ l ∈ linesFrom line s, '\n' ∉ l := by
  induction s generalizing line with
  | nil =>
    intro l hl
    rw [linesFrom] at hl
    split at hl
    · cases hl
    · rw [List.mem_singleton.1 hl, List.mem_reverse]
      exact hline
  | cons c s ih =>
    intro l hl
    rw [linesFrom] at hl
    split at hl
    · rcases List.mem_cons.1 hl with rfl | hl
      · intro hmem
        exact hline (List.mem_reverse.1 ((isPrefix_dropReturn _).subset hmem))
      · exact ih List.not_mem_nil l hl
    · rename_i hc
      refine ih ?_ l hl
      rw [List.mem_cons, not_or]
      exact ⟨Ne.symm hc, hline⟩

theorem newline_not_mem_lines {s : List Char} : ∀ l ∈ lines s, '\n' ∉ l :=
  newline_not_mem_linesFrom List.not_mem_nil

/-- The first line of a text, as it is read, and what is after it. -/
theorem exists_first_line (s : List Char) :
    ∃ tail, s = (lines s).headD [] ++ tail ∧ LineEnd tail := by
  rcases line_cases s with hs | ⟨l, t, hl, rfl⟩
  · refine ⟨[], ?_, by simp [LineEnd]⟩
    rw [lines_of_not_mem hs, List.append_nil]
    split
    · assumption
    · rfl
  · obtain ⟨tail, htail, -, hend, -⟩ := first_line (t := t) hl
    rw [lines_of_newline hl]
    exact ⟨tail, htail, hend⟩

theorem exists_atLineStart {s : List Char} {i : Nat} (h : i < (lines s).length) :
    ∃ pre rest, s = pre ++ rest ∧ AtLineStart pre ∧ pre.count '\n' = i := by
  induction i generalizing s with
  | zero => exact ⟨[], s, rfl, .inl rfl, rfl⟩
  | succ i ih =>
    rcases line_cases s with hs | ⟨l, t, hl, rfl⟩
    · rw [lines_of_not_mem hs] at h
      split at h
      · cases h
      · simp at h
    · rw [lines_of_newline hl, List.length_cons] at h
      obtain ⟨pre, rest, rfl, hpre, hcount⟩ := ih (Nat.lt_of_succ_lt_succ h)
      refine ⟨l ++ '\n' :: pre, rest, by simp, .inr ?_, ?_⟩
      · rw [List.getLast?_append_of_ne_nil _ (List.cons_ne_nil _ _)]
        rcases hpre with rfl | hlast
        · rfl
        · rw [List.getLast?_cons, hlast]
          rfl
      · rw [List.count_append, List.count_eq_zero.2 hl, List.count_cons_self, hcount, Nat.zero_add]

/-! ## Cursors on a line -/

/-- Two cursors stand at one place of a line, in a text and in the line alone, and have the same
name. -/
def OnLine (pre l tail : List Char) (w k : Cursor) : Prop :=
  ∃ x, w.After (pre ++ (l ++ tail)) (pre ++ x) ∧ k.After l x ∧ w.name = k.name

variable {pre l tail : List Char} {w k w' k' : Cursor}

theorem onLine_between (pre l tail : List Char) :
    OnLine pre l tail (.between pre (l ++ tail)) (.between [] l) :=
  ⟨[], by rw [List.append_nil]; exact Cursor.after_between _ _, Cursor.after_between [] l, rfl⟩

theorem OnLine.rest (h : OnLine pre l tail w k) : w.rest = k.rest ++ tail := by
  obtain ⟨x, hw, hk, -⟩ := h
  have htext := hw.text
  rw [← hk.text, List.append_assoc, List.append_assoc] at htext
  exact List.append_cancel_left (List.append_cancel_left htext)

theorem OnLine.advance (h : OnLine pre l tail w k) {c : Char} {r : List Char} (hk : k.rest = c :: r) :
    OnLine pre l tail (w.advance c (r ++ tail)) (k.advance c r) := by
  have hw : w.rest = c :: (r ++ tail) := by rw [h.rest, hk, List.cons_append]
  obtain ⟨x, hx, hx', hname⟩ := h
  exact ⟨x ++ [c], List.append_assoc pre x [c] ▸ hx.advance hw, hx'.advance hk, hname⟩

namespace Pattern

/-! ## Patterns inside of a line -/

/-- A match has no line end in it and does not depend on what is before it. -/
def inLine : Pattern → Bool
  | fail | empty => true
  | one cls | run cls => !cls.accepts '\n' && !cls.accepts '\r'
  | lineStart | wordEdge => false
  | seq p q | alt p q => p.inLine && q.inLine
  | many p | named p => p.inLine

variable {p q : Pattern}

theorem avoids_of_inLine (hp : p.inLine = true) : p.avoids '\n' = true := by
  induction p with
  | one cls | run cls =>
    simp only [inLine, Bool.and_eq_true] at hp
    exact hp.1
  | seq p q ihp ihq | alt p q ihp ihq =>
    simp only [inLine, Bool.and_eq_true] at hp
    simp only [avoids, ihp hp.1, ihq hp.2, Bool.and_self]
  | many p ih | named p ih => exact ih hp
  | fail | empty => rfl
  | lineStart | wordEdge => cases hp

/-- The end of a line is not in a class that has no line ends. -/
theorem not_accepts_of_lineEnd {cls : CharClass} (hcls : (one cls).inLine = true) (htail : LineEnd tail)
    {c : Char} (hc : tail.head? = some c) : cls.accepts c = false := by
  simp only [inLine, Bool.and_eq_true, Bool.not_eq_true'] at hcls
  rcases htail c hc with rfl | rfl
  · exact hcls.1
  · exact hcls.2

theorem onLine_one {cls : CharClass} (hcls : (one cls).inLine = true) (htail : LineEnd tail)
    (h : OnLine pre l tail w k) :
    List.Forall₂ (OnLine pre l tail) ((one cls).ends w) ((one cls).ends k) := by
  simp only [ends, h.rest]
  cases hk : k.rest with
  | nil =>
    cases tail with
    | nil => exact .nil
    | cons c rest =>
      simp only [List.nil_append, not_accepts_of_lineEnd hcls htail rfl]
      exact .nil
  | cons c r =>
    simp only [List.cons_append]
    split
    · exact .cons (h.advance hk) .nil
    · exact .nil

theorem onLine_run {cls : CharClass} (hcls : (run cls).inLine = true) (htail : LineEnd tail)
    (h : OnLine pre l tail w k) :
    List.Forall₂ (OnLine pre l tail) ((run cls).ends w) ((run cls).ends k) := by
  induction hrest : k.rest generalizing w k with
  | nil =>
    have hk : (run cls).ends k = [k] := ends_run_stop (by simp [hrest])
    have hw : (run cls).ends w = [w] := by
      refine ends_run_stop fun c hc => not_accepts_of_lineEnd hcls htail ?_
      rwa [h.rest, hrest] at hc
    rw [hw, hk]
    exact .cons h .nil
  | cons c r ih =>
    have hw : w.rest = c :: (r ++ tail) := by rw [h.rest, hrest, List.cons_append]
    by_cases hc : cls.accepts c = true
    · rw [ends_run_cons hw hc, ends_run_cons hrest hc]
      exact List.rel_append (ih (h.advance hrest) rfl) (.cons h .nil)
    · rw [Bool.not_eq_true] at hc
      rw [ends_run_stop (by simp [hw, hc]), ends_run_stop (by simp [hrest, hc])]
      exact .cons h .nil

theorem onLine_repeat {step : Cursor → List Cursor}
    (hstep : ∀ {w k}, OnLine pre l tail w k → List.Forall₂ (OnLine pre l tail) (step w) (step k))
    (h : OnLine pre l tail w k) :
    List.Forall₂ (OnLine pre l tail) (repeatEnds step w) (repeatEnds step k) := by
  induction hlen : k.rest.length using Nat.strong_induction_on generalizing w k with
  | _ n ih =>
    rw [repeatEnds, repeatEnds]
    refine List.rel_append (List.rel_flatMap (hstep h) fun w' k' h' => ?_) (.cons h .nil)
    have hshorter : w'.rest.length < w.rest.length ↔ k'.rest.length < k.rest.length := by
      rw [h.rest, h'.rest, List.length_append, List.length_append]
      omega
    simp only [hshorter]
    split
    · rename_i hlt
      exact ih _ (hlen ▸ hlt) h' rfl
    · exact .nil

/-- The text of a named part is the same in the text and in the line. -/
theorem onLine_named (h : OnLine pre l tail w k) (hw : w' ∈ p.ends w) (h' : OnLine pre l tail w' k') :
    OnLine pre l tail
      ⟨w'.before, w'.offset, w'.rest, some (takeBytes (w'.offset - w.offset) w.rest)⟩
      ⟨k'.before, k'.offset, k'.rest, some (takeBytes (k'.offset - k.offset) k.rest)⟩ := by
  obtain ⟨x, hx, hkx, -⟩ := h
  obtain ⟨y, hy, hky, -⟩ := h'
  obtain ⟨m, hm⟩ := ends_after hx hw
  obtain rfl : y = x ++ m := by
    have hplace := hy.unique hm
    rw [List.append_assoc] at hplace
    exact List.append_cancel_left hplace
  rw [takeBytes_between hx hm, takeBytes_between hkx hky]
  exact ⟨x ++ m, hy.named _, hky.named _, rfl⟩

/-- **A pattern inside of a line has the same ways in the text and in the line.** -/
theorem ends_onLine (htail : LineEnd tail) (hp : p.inLine = true) (h : OnLine pre l tail w k) :
    List.Forall₂ (OnLine pre l tail) (p.ends w) (p.ends k) := by
  induction p generalizing w k with
  | fail => exact .nil
  | empty => exact .cons h .nil
  | one cls => exact onLine_one hp htail h
  | run cls => exact onLine_run hp htail h
  | lineStart | wordEdge => cases hp
  | seq p q ihp ihq =>
    simp only [inLine, Bool.and_eq_true] at hp
    exact List.rel_flatMap (ihp hp.1 h) fun _ _ hmid => ihq hp.2 hmid
  | alt p q ihp ihq =>
    simp only [inLine, Bool.and_eq_true] at hp
    exact List.rel_append (ihp hp.1 h) (ihq hp.2 h)
  | many p ih => exact onLine_repeat (ih hp) h
  | named p ih =>
    rw [ends, ends]
    exact forall₂_map_of_mem (ih hp h) fun w' hw' k' _ h' => onLine_named h hw' h'

/-! ## Patterns of one line -/

/-- Whether a pattern matches at the start of a line only, on this line, and more than nothing. -/
def oneLine : Pattern → Bool
  | seq lineStart q => q.inLine && q.consumes
  | _ => false

theorem exists_of_oneLine (hp : p.oneLine = true) :
    ∃ q, p = seq lineStart q ∧ q.inLine = true ∧ q.consumes = true := by
  match p, hp with
  | seq lineStart q, hq => exact ⟨q, rfl, Bool.and_eq_true_iff.1 hq⟩

/-- The name of the match on a line, if there is a match. -/
def onLine (p : Pattern) (l : List Char) : Option (Option (List Char)) :=
  (p.foundAt [] l).map Found.name

theorem ends_atLineStart {rest : List Char} (hpre : AtLineStart pre) :
    (seq lineStart q).ends (.between pre rest) = q.ends (.between pre rest) := by
  have hbefore : (Cursor.between pre rest).before = none ∨
      (Cursor.between pre rest).before = some '\n' := hpre.imp (fun h => by rw [h]; rfl) id
  rw [ends, ends_lineStart, if_pos hbefore, List.flatMap_singleton]

/-- **On a line of a text a pattern matches as on the line alone.** -/
theorem foundAt_eq_onLine (hp : p.oneLine = true) (hpre : AtLineStart pre) (htail : LineEnd tail) :
    (p.foundAt pre (l ++ tail)).map Found.name = p.onLine l := by
  obtain ⟨q, rfl, hq, -⟩ := exists_of_oneLine hp
  have hways := ends_onLine htail hq (onLine_between pre l tail)
  rw [onLine, foundAt, foundAt, matchAt, matchAt, ends_atLineStart hpre,
    ends_atLineStart (.inl rfl)]
  generalize q.ends (.between pre (l ++ tail)) = ways at hways
  generalize q.ends (.between [] l) = ways' at hways
  cases hways with
  | nil => rfl
  | cons h _ =>
    obtain ⟨-, -, -, hname⟩ := h
    exact congrArg some hname

theorem onLine_nil (hp : p.oneLine = true) : p.onLine [] = none := by
  obtain ⟨q, rfl, -, hq⟩ := exists_of_oneLine hp
  have hnone : q.ends (.between [] []) = [] :=
    List.eq_nil_iff_forall_not_mem.2 fun stop hstop =>
      Nat.not_lt_zero _ (ends_consumes hq (Cursor.after_between [] []) hstop)
  rw [onLine, foundAt, matchAt, ends_atLineStart (.inl rfl), hnone]
  rfl

theorem onLine_dropReturn (hp : p.oneLine = true) (l : List Char) :
    p.onLine (dropReturn l) = p.onLine l := by
  rcases dropReturn_cases l with ⟨heq, -⟩ | heq
  · rw [heq]
  · conv_rhs => rw [heq]
    exact (foundAt_eq_onLine hp (.inl rfl) (by simp [LineEnd])).symm

/-- **What a pattern finds at the start of a line is what it finds on the line.** -/
theorem foundAt_lineStart (hp : p.oneLine = true) {rest : List Char} (hpre : AtLineStart pre) :
    (p.foundAt pre rest).map Found.name =
      p.onLine ((lines (pre ++ rest)).getD (pre.count '\n') []) := by
  obtain ⟨tail, hrest, hend⟩ := exists_first_line rest
  rw [getD_lines hpre, ← foundAt_eq_onLine hp hpre hend, ← hrest]

/-- On lines that are joined a pattern finds what it finds on them. -/
theorem onLine_getD_joinLines (hp : p.oneLine = true) {ls : List (List Char)}
    (hls : ∀ l ∈ ls, '\n' ∉ l) (i : Nat) :
    p.onLine ((lines (joinLines ls)).getD i []) = p.onLine (ls.getD i []) := by
  induction ls generalizing i with
  | nil => rfl
  | cons l ls ih =>
    have hl := hls l List.mem_cons_self
    cases ls with
    | nil =>
      have hjoin : joinLines [l] = l := List.intercalate_singleton
      rw [hjoin, lines_of_not_mem hl]
      split
      · subst l
        cases i <;> rfl
      · rfl
    | cons m ls =>
      rw [joinLines_cons_cons, lines_of_newline hl]
      cases i with
      | zero => exact onLine_dropReturn hp l
      | succ i => exact ih (fun m hm => hls m (List.mem_cons_of_mem _ hm)) i

end Pattern

end CodeIndex.Text
