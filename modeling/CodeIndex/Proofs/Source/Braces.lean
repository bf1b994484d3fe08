import CodeIndex.Proofs.Source.Chunk

/-!
Blocks in braces without the scan that finds them.

* `Braces.countBefore` is what has been counted on the lines of a block before one of them, and a line
  closes the block for one of three reasons (`Braces.closing?`);
* `blockEnd_eq`: of the lines that are looked at the first one that closes the block decides where it
  ends, and if none does it goes on for a fixed number of lines;
* `blockEnd_of_count`: a block does not run past a line at whose end its braces balance, but past one
  that closes more braces than are open;
* `blockEnd_of_limit`: as far as the program does not stop, how many lines are looked at decides only
  whether a line that closes the block is found.
-/
namespace CodeIndex

open Text

namespace Braces

variable {ls : List (List Char)} {start line : Nat}

/-! ## Counting line by line -/

/-- What is counted on the lines from `start` up to the one before `line`. -/
def countBefore (ls : List (List Char)) (start line : Nat) : Count :=
  ((ls.drop start).take (line - start)).foldl scanLine .start

/-- What is counted on the lines from `start` to `line`. -/
def countThrough (ls : List (List Char)) (start line : Nat) : Count :=
  countBefore ls start (line + 1)

theorem countBefore_self (ls : List (List Char)) (start : Nat) :
    countBefore ls start start = .start := by
  rw [countBefore, Nat.sub_self, List.take_zero, List.foldl_nil]

theorem countThrough_eq (hle : start ≤ line) (hlt : line < ls.length) :
    countThrough ls start line = scanLine (countBefore ls start line) (ls.getD line []) := by
  have hcount : line + 1 - start = line - start + 1 := Nat.succ_sub hle
  have hnext : (ls.drop start)[line - start]? = some (ls.getD line []) := by
    rw [List.getElem?_drop, Nat.add_sub_cancel' hle]
    simp [hlt]
  rw [countThrough, countBefore, hcount, List.take_add_one, hnext, Option.toList_some,
    List.foldl_append]
  rfl

theorem opened_step {n : Count} (h : n.opened = true) (c : Char) : (step n c).opened = true := by
  have hcode : (stepCode n c).opened = true := by grind [stepCode, Count.enter]
  grind [step, Count.enter]

theorem opened_scanLine {n : Count} (h : n.opened = true) (l : List Char) :
    (scanLine n l).opened = true := by
  have hline : (l.foldl step n).opened = true := by
    induction l generalizing n with
    | nil => exact h
    | cons c l ih => exact ih (opened_step h c)
  exact hline

theorem opened_mono {line' : Nat} (hle : line ≤ line')
    (h : (countBefore ls start line).opened = true) :
    (countBefore ls start line').opened = true := by
  have hsplit : (ls.drop start).take (line' - start) =
      (ls.drop start).take (line - start) ++
        ((ls.drop start).drop (line - start)).take (line' - start - (line - start)) := by
    rw [← List.take_add, Nat.add_sub_cancel' (Nat.sub_le_sub_right hle start)]
  rw [countBefore, hsplit, List.foldl_append]
  exact List.foldlRecOn (motive := fun n => n.opened = true) _ scanLine h fun _ hn l _ =>
    opened_scanLine hn l

/-! ## Lines that close a block -/

/-- The last line before a given one that is not blank, but none before the first line of the block. -/
def textBefore (ls : List (List Char)) (start : Nat) : Nat → Nat
  | 0 => start
  | line + 1 =>
    if start < line && !allBlank (ls.getD line []) then line else textBefore ls start line

/-- No brace has been opened, and a line does not go on with the declaration. -/
def follows (ls : List (List Char)) (start line : Nat) : Bool :=
  !(countBefore ls start line).opened && start < line && !allBlank (ls.getD line []) &&
    !continues (indentWidth (ls.getD start [])) (ls.getD line [])

/-- The braces balance at the end of a line. -/
def balances (ls : List (List Char)) (start line : Nat) : Bool :=
  (countThrough ls start line).opened && (countThrough ls start line).depth == 0

/-- No brace has been opened, and a line ends with a semicolon. -/
def terminates (ls : List (List Char)) (start line : Nat) : Bool :=
  !(countThrough ls start line).opened && (trimEnd (ls.getD line [])).getLast? == some ';'

/-- The last line of the block from line `start`, if a line closes it. -/
def closing? (ls : List (List Char)) (start line : Nat) : Option Nat :=
  if follows ls start line then some (textBefore ls start line)
  else if balances ls start line || terminates ls start line then some line
  else none

theorem textBefore_self (ls : List (List Char)) (start : Nat) : textBefore ls start start = start := by
  have hfirst : ∀ line ≤ start, textBefore ls start line = start := by
    intro line hle
    induction line with
    | zero => rfl
    | succ line ih =>
      have hnot : ¬ start < line := by omega
      rw [textBefore, decide_eq_false hnot, Bool.false_and, if_neg Bool.false_ne_true]
      exact ih (Nat.le_of_succ_le hle)
  exact hfirst start (Nat.le_refl _)

theorem textBefore_succ (hle : start ≤ line) :
    textBefore ls start (line + 1) =
      if allBlank (ls.getD line []) then textBefore ls start line else line := by
  rw [textBefore]
  rcases Nat.eq_or_lt_of_le hle with rfl | hlt
  · simp [textBefore_self]
  · cases allBlank (ls.getD line []) <;> simp [hlt]

theorem textBefore_le (hle : start ≤ line) : textBefore ls start line ≤ line := by
  induction line, hle using Nat.le_induction with
  | base => exact Nat.le_of_eq (textBefore_self ls start)
  | succ line hle ih =>
    rw [textBefore_succ hle]
    split <;> omega

theorem closing?_le {last : Nat} (hle : start ≤ line) (h : closing? ls start line = some last) :
    last ≤ line := by
  rw [closing?] at h
  split at h
  · exact Option.some.inj h ▸ textBefore_le hle
  · split at h
    · exact Nat.le_of_eq (Option.some.inj h).symm
    · cases h

theorem isSome_closing? :
    (closing? ls start line).isSome =
      (follows ls start line || balances ls start line || terminates ls start line) := by
  rw [closing?]
  cases follows ls start line <;> cases balances ls start line <;>
    cases terminates ls start line <;> rfl

theorem closing?_of_opened (h : (countBefore ls start line).opened = true) :
    closing? ls start line = if balances ls start line then some line else none := by
  have hthrough : (countThrough ls start line).opened = true := opened_mono (Nat.le_succ line) h
  simp [closing?, follows, terminates, h, hthrough]

end Braces

open Braces

/-! ## Ends of blocks -/

/-- The lines from one to another. -/
def upTo (line stop : Nat) : List Nat := List.range' line (stop + 1 - line)

section Scan

variable {ls : List (List Char)} {start stop cap line : Nat} {rest : List (List Char)}

theorem mem_upTo {k : Nat} : k ∈ upTo line stop ↔ line ≤ k ∧ k ≤ stop := by
  rw [upTo, List.mem_range'_1]
  omega

theorem upTo_nil (h : stop < line) : upTo line stop = [] := by
  rw [upTo, Nat.sub_eq_zero_of_le h, List.range'_zero]

theorem upTo_cons (h : line ≤ stop) : upTo line stop = line :: upTo (line + 1) stop := by
  have hcount : stop + 1 - line = stop + 1 - (line + 1) + 1 := by omega
  rw [upTo, hcount, List.range'_succ]
  rfl

theorem isPrefix_upTo {stop' : Nat} (h : stop ≤ stop') (line : Nat) :
    upTo line stop <+: upTo line stop' := by
  have hcount : stop + 1 - line ≤ stop' + 1 - line := by omega
  rw [upTo, ← List.take_range'_of_length_ge hcount]
  exact List.take_prefix _ _

theorem blockEndFrom_cons (hle : start ≤ line) (hlen : line < ls.length) (hlook : line ≤ stop) :
    blockEndFrom start stop cap (indentWidth (ls.getD start [])) (countBefore ls start line)
        (textBefore ls start line) line (ls.getD line [] :: rest) =
      (closing? ls start line).getD
        (blockEndFrom start stop cap (indentWidth (ls.getD start []))
          (countBefore ls start (line + 1)) (textBefore ls start (line + 1)) (line + 1) rest) := by
  rw [blockEndFrom, if_neg (Nat.not_lt.2 hlook), ← countThrough_eq hle hlen, ← textBefore_succ hle,
    closing?]
  change (if follows ls start line = true then _ else
    if balances ls start line = true then _ else if terminates ls start line = true then _ else _) = _
  cases follows ls start line <;> cases balances ls start line <;>
    cases terminates ls start line <;> rfl

/-- The first line that closes the block decides, of the lines from `line` to `stop`. -/
theorem blockEndFrom_eq (hrest : ls.drop line = rest) (hle : start ≤ line) (hstop : stop < ls.length) :
    blockEndFrom start stop cap (indentWidth (ls.getD start [])) (countBefore ls start line)
        (textBefore ls start line) line rest =
      ((upTo line stop).findSome? (closing? ls start)).getD cap := by
  induction rest generalizing line with
  | nil =>
    have hlen := List.drop_eq_nil_iff.1 hrest
    rw [blockEndFrom, upTo_nil (Nat.lt_of_lt_of_le hstop hlen)]
    rfl
  | cons l rest ih =>
    obtain ⟨hlen, rfl, hnext⟩ := Indent.getD_of_drop hrest
    rcases Nat.lt_or_ge stop line with hpast | hlook
    · rw [blockEndFrom, if_pos hpast, upTo_nil hpast]
      rfl
    · rw [blockEndFrom_cons hle hlen hlook, ih hnext (Nat.le_succ_of_le hle), upTo_cons hlook,
        List.findSome?_cons]
      cases closing? ls start line <;> rfl

end Scan

section Ends

variable {ls : List (List Char)} {start limit line : Nat}

/-- Where a block ends that no line closes. -/
def cappedEnd (ls : List (List Char)) (start : Nat) : Nat :=
  min (start + unbalancedExtent) (ls.length - 1)

/-- The last line that is looked at for a block. -/
def lastLookedAt (ls : List (List Char)) (start limit : Nat) : Nat :=
  scanStop (ls.length - 1) start limit

theorem lastLookedAt_lt (h : start < ls.length) (limit : Nat) :
    lastLookedAt ls start limit < ls.length := by
  rw [lastLookedAt, scanStop]
  omega

theorem le_lastLookedAt_iff (h : start < ls.length) :
    line ≤ lastLookedAt ls start limit ↔ line < ls.length ∧ line ≤ start + (limit - 1) := by
  rw [lastLookedAt, scanStop]
  omega

/-- **The first line that closes a block decides where it ends**, of those that are looked at. -/
theorem blockEnd_eq (h : start < ls.length) (limit : Nat) :
    blockEnd ls start limit =
      ((upTo start (lastLookedAt ls start limit)).findSome? (closing? ls start)).getD
        (cappedEnd ls start) := by
  have hrest : ls.drop start = ls.getD start [] :: ls.drop (start + 1) := by
    rw [List.drop_eq_getElem_cons h]
    simp [h]
  have hscan : blockEndFrom start _ (cappedEnd ls start) _ _ _ start _ = _ :=
    blockEndFrom_eq hrest (Nat.le_refl start) (lastLookedAt_lt h limit)
  rw [countBefore_self, textBefore_self] at hscan
  rw [blockEnd, hrest]
  exact hscan

theorem blockEnd_of_closing (h : start < ls.length) (hle : start ≤ line)
    (hlook : line ≤ lastLookedAt ls start limit) (hclosing : (closing? ls start line).isSome = true) :
    (upTo start line).findSome? (closing? ls start) = some (blockEnd ls start limit) := by
  have hsome : ((upTo start line).findSome? (closing? ls start)).isSome = true :=
    List.findSome?_isSome_iff.2 ⟨line, mem_upTo.2 ⟨hle, Nat.le_refl _⟩, hclosing⟩
  obtain ⟨last, hlast⟩ := Option.isSome_iff_exists.1 hsome
  rw [blockEnd_eq h, (isPrefix_upTo hlook start).findSome?_eq_some hlast, hlast]
  rfl

/-! ## Blocks and their closing braces -/

theorem blockEnd_le_of_closing (h : start < ls.length) (hle : start ≤ line)
    (hlook : line ≤ lastLookedAt ls start limit) (hclosing : (closing? ls start line).isSome = true) :
    blockEnd ls start limit ≤ line := by
  obtain ⟨first, hfirst, hlast⟩ :=
    List.exists_of_findSome?_eq_some (blockEnd_of_closing h hle hlook hclosing)
  obtain ⟨hge, hle⟩ := mem_upTo.1 hfirst
  exact Nat.le_trans (closing?_le hge hlast) hle

theorem exists_falling (hle : start ≤ line) (h : (countThrough ls start line).depth < 0) :
    ∃ k, start ≤ k ∧ k ≤ line ∧ 0 ≤ (countBefore ls start k).depth ∧
      (countThrough ls start k).depth < 0 := by
  induction line, hle using Nat.le_induction with
  | base =>
    refine ⟨start, Nat.le_refl _, Nat.le_refl _, ?_, h⟩
    rw [countBefore_self]
    exact Int.le_refl 0
  | succ line hle ih =>
    by_cases hbefore : 0 ≤ (countBefore ls start (line + 1)).depth
    · exact ⟨line + 1, Nat.le_succ_of_le hle, Nat.le_refl _, hbefore, h⟩
    · obtain ⟨k, hk, hkle, hfalling⟩ := ih (Int.not_le.1 hbefore)
      exact ⟨k, hk, Nat.le_succ_of_le hkle, hfalling⟩

/-- **A block ends where its braces balance at the end of a line**, and there only, once one has been
opened. So it ends no later than a line up to whose end the closing braces equal or outnumber the
opening ones, unless a line up to there closes more braces than are open before it. A block that has
been opened and that no line up to there closes goes on past it, at least to the cap. -/
theorem blockEnd_of_count (h : start < ls.length) (hle : start ≤ line)
    (hlook : line ≤ lastLookedAt ls start limit)
    (hopened : (countThrough ls start line).opened = true) :
    ((countThrough ls start line).depth = 0 → blockEnd ls start limit ≤ line) ∧
    ((countThrough ls start line).depth ≤ 0 → blockEnd ls start limit ≤ line ∨
      ∃ k, start ≤ k ∧ k ≤ line ∧ 0 ≤ (countBefore ls start k).depth ∧
        (countThrough ls start k).depth < 0) ∧
    ((∀ k, start ≤ k → k ≤ line → closing? ls start k = none) →
      line < blockEnd ls start limit ∨ blockEnd ls start limit = cappedEnd ls start) := by
  have hbalanced : (countThrough ls start line).depth = 0 → blockEnd ls start limit ≤ line := by
    intro hdepth
    refine blockEnd_le_of_closing h hle hlook ?_
    have hbalances : balances ls start line = true := by simp [balances, hopened, hdepth]
    rw [isSome_closing?, hbalances, Bool.or_true, Bool.true_or]
  refine ⟨hbalanced, fun hdepth => ?_, fun hnone => ?_⟩
  · rcases Int.lt_or_eq_of_le hdepth with hlt | heq
    · exact .inr (exists_falling hle hlt)
    · exact .inl (hbalanced heq)
  · rw [blockEnd_eq h]
    cases hfound : (upTo start (lastLookedAt ls start limit)).findSome? (closing? ls start) with
    | none => exact .inr rfl
    | some last =>
      obtain ⟨first, hfirst, hlast⟩ := List.exists_of_findSome?_eq_some hfound
      have hlater : line < first := by
        by_contra hnot
        rw [hnone first (mem_upTo.1 hfirst).1 (Nat.le_of_not_lt hnot)] at hlast
        cases hlast
      rw [closing?_of_opened (opened_mono hlater hopened)] at hlast
      split at hlast
      · exact .inl (Option.some.inj hlast ▸ hlater)
      · cases hlast

end Ends

namespace Sample

/-- A function whose last line closes the braces around it too, and another function. -/
def overshot : List (List Char) :=
  ["function f() \x7b", "\x7d \x7d", "function g() \x7b", "\x7d"].map String.toList

end Sample

/-- The count falls below zero on the second line and is zero again on the third, which is where the
block ends. -/
theorem blockEnd_of_count_overshot :
    (countThrough Sample.overshot 0 1).depth < 0 ∧ (countThrough Sample.overshot 0 2).depth = 0 ∧
      (1 < blockEnd Sample.overshot 0 2000 ∨
        blockEnd Sample.overshot 0 2000 = cappedEnd Sample.overshot 0) ∧
      blockEnd Sample.overshot 0 2000 ≤ 2 := by
  have hsecond := @blockEnd_of_count Sample.overshot 0 2000 1 (by decide) (by decide)
    (by decide +kernel) (by decide +kernel)
  have hthird := @blockEnd_of_count Sample.overshot 0 2000 2 (by decide) (by decide)
    (by decide +kernel) (by decide +kernel)
  have hopen : ∀ k ≤ 1, closing? Sample.overshot 0 k = none := by decide +kernel
  exact ⟨by decide +kernel, by decide +kernel, hsecond.2.2 fun k _ hk => hopen k hk,
    hthird.1 (by decide +kernel)⟩

/-- **A block runs past its closing brace** where that stands before another one on its line: the block
of the function takes in the header of the next one. -/
theorem block_runs_past_closing_brace :
    ¬ ∀ (ls : List (List Char)) (start limit line : Nat), start < ls.length → start ≤ line →
      line ≤ lastLookedAt ls start limit → (countThrough ls start line).opened = true →
      (countThrough ls start line).depth ≤ 0 → blockEnd ls start limit ≤ line := by
  intro hall
  have hle := hall Sample.overshot 0 2000 1 (by decide) (by decide) (by decide +kernel)
    (by decide +kernel) (by decide +kernel)
  exact absurd hle (by decide +kernel)

/-! ## Limits -/

section Ends

variable {ls : List (List Char)} {start limit : Nat}

/-- The end of a block is found if the limit, less one, can be added to the number of its first line. -/
theorem blockEnd?_of_lt (hword : start + (limit - 1) < 2 ^ 64) :
    blockEnd? ls start limit = some (blockEnd ls start limit) :=
  if_pos hword

/-- **A limit only caps a block**, as far as it can be added to the number of the first line. All limits that
let in the whole text give one end, and so do all that let in a line that closes the block. A limit that lets
in none leaves the block to the cap. -/
theorem blockEnd_of_limit (h : start < ls.length) :
    (∃ last, ∀ limit, ls.length ≤ limit → start + (limit - 1) < 2 ^ 64 →
      blockEnd? ls start limit = some last) ∧
    (∀ limit limit', limit ≤ limit' → start + (limit' - 1) < 2 ^ 64 →
      (∃ line, start ≤ line ∧ line < ls.length ∧ line ≤ start + (limit - 1) ∧
        (follows ls start line || balances ls start line || terminates ls start line) = true) →
      ∃ last, blockEnd? ls start limit = some last ∧ blockEnd? ls start limit' = some last) ∧
    ∀ limit, start + (limit - 1) < 2 ^ 64 →
      (∀ line, start ≤ line → line < ls.length → line ≤ start + (limit - 1) →
        (follows ls start line || balances ls start line || terminates ls start line) = false) →
      blockEnd? ls start limit = some (cappedEnd ls start) := by
  refine ⟨⟨blockEnd ls start ls.length, fun limit hall hword => ?_⟩, ?_, ?_⟩
  · have hlook : lastLookedAt ls start limit = lastLookedAt ls start ls.length := by
      rw [lastLookedAt, lastLookedAt, scanStop, scanStop]
      omega
    rw [blockEnd?_of_lt hword, blockEnd_eq h, blockEnd_eq h, hlook]
  · rintro limit limit' hle hword ⟨line, hfirst, hlen, hlimit, hclosing⟩
    rw [← isSome_closing?] at hclosing
    have hclosed : ∀ n, limit ≤ n →
        (upTo start line).findSome? (closing? ls start) = some (blockEnd ls start n) := fun n hn =>
      blockEnd_of_closing h hfirst ((le_lastLookedAt_iff h).2 ⟨hlen, by omega⟩) hclosing
    refine ⟨blockEnd ls start limit', ?_, blockEnd?_of_lt hword⟩
    rw [blockEnd?_of_lt (by omega), ← hclosed limit (Nat.le_refl _), hclosed limit' hle]
  · intro limit hword hnone
    have hopen : (upTo start (lastLookedAt ls start limit)).findSome? (closing? ls start) = none := by
      refine List.findSome?_eq_none_iff.2 fun line hline => ?_
      obtain ⟨hfirst, hlook⟩ := mem_upTo.1 hline
      obtain ⟨hlen, hlimit⟩ := (le_lastLookedAt_iff h).1 hlook
      rw [← Option.not_isSome_iff_eq_none, isSome_closing?, hnone line hfirst hlen hlimit]
      exact Bool.false_ne_true
    rw [blockEnd?_of_lt hword, blockEnd_eq h, hopen]
    rfl

end Ends

namespace Sample

/-- A function on the third line of a text, with a comment after it. -/
def third : List (List Char) :=
  ["", "", "function f() \x7b", "\x7d", "// end"].map String.toList

end Sample

/-- The end that a limit of two lines gives, the fourth line, is that of the greatest limit that can be added
to the line of the function; with a limit of one line the block goes on to the cap. -/
theorem blockEnd_of_limit_third :
    blockEnd? Sample.third 2 2 = some 3 ∧ blockEnd? Sample.third 2 (2 ^ 64 - 2) = some 3 ∧
      blockEnd? Sample.third 2 5 = some 3 ∧
      blockEnd? Sample.third 2 1 = some (cappedEnd Sample.third 2) := by
  obtain ⟨⟨last, hwhole⟩, hclosed, hopen⟩ := @blockEnd_of_limit Sample.third 2 (by decide)
  have htwo : blockEnd? Sample.third 2 2 = some 3 := by decide +kernel
  obtain ⟨last', hsmall, hgreat⟩ := hclosed 2 (2 ^ 64 - 2) (by decide) (by decide)
    ⟨3, by decide, by decide, by decide, by decide +kernel⟩
  obtain rfl : 3 = last' := Option.some.inj (htwo.symm.trans hsmall)
  have hfive : blockEnd? Sample.third 2 5 = some last := hwhole 5 (by decide) (by decide)
  have hsame : some last = some 3 := (hwhole (2 ^ 64 - 2) (by decide) (by decide)).symm.trans hgreat
  refine ⟨htwo, hgreat, hfive.trans hsame, hopen 1 (by decide) fun line hfirst _ hlast => ?_⟩
  obtain rfl : line = 2 := by omega
  decide +kernel

/-- **The greatest limit finds no closing brace**: it cannot be added to the number of the third line, so the
program stops there, while the limit that just lets in the text finds the end. -/
theorem greatest_limit_finds_no_end :
    ¬ ∀ (ls : List (List Char)) (start limit : Nat), start < ls.length → ls.length ≤ limit →
      limit < 2 ^ 64 → blockEnd? ls start limit = blockEnd? ls start ls.length := by
  intro hall
  have heq := hall Sample.third 2 (2 ^ 64 - 1) (by decide) (by decide) (by decide)
  have hnone : blockEnd? Sample.third 2 (2 ^ 64 - 1) = none := by decide +kernel
  have hend : blockEnd? Sample.third 2 Sample.third.length = some 3 := by decide +kernel
  rw [hnone, hend] at heq
  cases heq

end CodeIndex
