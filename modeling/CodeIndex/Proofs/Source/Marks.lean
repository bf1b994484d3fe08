import CodeIndex.Proofs.Text.Piece
import CodeIndex.Source.Braces

/-!
The braces of a text, read in one go.

Blocks are found by counting the braces line by line, and all that a line hands on to the next one is
whether a comment or a template goes on. Here a whole text is read from left to right instead, by one
function for each thing that a place in it can be in; each looks one character ahead where two make a
sign. It gives a mark for each character.

* `marks` are the marks of a text, and `depth` and `opens` what a block makes of them;
* `moves_stepText`: one character more is one step of the count, the newlines being steps too, and
  `marksFrom_append` is that for a text;
* `lines_count_as_text`: at the end of each line the count is that of the marks up to there.
-/
namespace CodeIndex.Braces

open Text

/-! ## Marks -/

/-- What a character is for a block. -/
inductive Mark where
  | opening
  | closing
  | other
deriving Repr, DecidableEq

mutual

/-- The marks of a text that starts in code. -/
def inCode : List Char → List Mark
  | [] => []
  | '/' :: '/' :: s => .other :: .other :: inLineComment s
  | '/' :: '*' :: s => .other :: .other :: inComment s
  | '"' :: s => .other :: inString '"' s
  | '\'' :: s => .other :: inString '\'' s
  | '\x60' :: s => .other :: inTemplate s
  | '\x7b' :: s => .opening :: inCode s
  | '\x7d' :: s => .closing :: inCode s
  | _ :: s => .other :: inCode s

/-- The marks of a text that starts in a comment to the end of the line. -/
def inLineComment : List Char → List Mark
  | [] => []
  | '\n' :: s => .other :: inCode s
  | _ :: s => .other :: inLineComment s

/-- The marks of a text that starts in a comment to a star and a slash. -/
def inComment : List Char → List Mark
  | [] => []
  | '*' :: '/' :: s => .other :: .other :: inCode s
  | _ :: s => .other :: inComment s

/-- The marks of a text that starts in a template; a backslash takes the next character with it. -/
def inTemplate : List Char → List Mark
  | [] => []
  | '\\' :: _ :: s => .other :: .other :: inTemplate s
  | '\x60' :: s => .other :: inCode s
  | _ :: s => .other :: inTemplate s

/-- The marks of a text that starts in a string. It ends with its quotation mark or the line; a
backslash takes the next character with it, but not a newline. -/
def inString (mark : Char) : List Char → List Mark
  | [] => []
  | '\n' :: s => .other :: inCode s
  | '\\' :: '\n' :: s => .other :: .other :: inCode s
  | '\\' :: _ :: s => .other :: .other :: inString mark s
  | c :: s => .other :: if c = mark then inCode s else inString mark s

end

/-- The marks of a text, one for each character. -/
def marks (s : List Char) : List Mark := inCode s

/-- The opening braces less the closing ones. -/
def depth (ms : List Mark) : Int := ms.count .opening - ms.count .closing

/-- Whether there is an opening brace. -/
def opens (ms : List Mark) : Bool := ms.contains .opening

/-! ## One character more -/

/-- The marks of a text that starts in a mode. A mode after half a sign is read with that half. -/
def marksFrom : Mode → List Char → List Mark
  | .code, s => inCode s
  | .slash, s => (inCode ('/' :: s)).tail
  | .lineComment, s => inLineComment s
  | .comment, s => inComment s
  | .commentStar, s => (inComment ('*' :: s)).tail
  | .template, s => inTemplate s
  | .templateEscape, s => (inTemplate ('\\' :: s)).tail
  | .quoted mark, s => inString mark s
  | .quotedEscape mark, s => (inString mark ('\\' :: s)).tail

/-- The count after one more character of a text of several lines. -/
def stepText (n : Count) (c : Char) : Count :=
  if c = '\n' then n.enter n.mode.nextLine else step n c

/-- The count after marks, in a mode. -/
def Count.after (n : Count) (ms : List Mark) (mode : Mode) : Count :=
  ⟨n.depth + Braces.depth ms, n.opened || opens ms, mode⟩

theorem inCode_slash (s : List Char) : inCode ('/' :: s) = .other :: (inCode ('/' :: s)).tail := by
  unfold inCode
  split <;> simp_all

theorem inComment_star (s : List Char) :
    inComment ('*' :: s) = .other :: (inComment ('*' :: s)).tail := by
  unfold inComment
  split <;> simp_all

theorem inTemplate_backslash (s : List Char) :
    inTemplate ('\\' :: s) = .other :: (inTemplate ('\\' :: s)).tail := by
  unfold inTemplate
  split <;> simp_all

theorem inString_backslash (mark : Char) (s : List Char) :
    inString mark ('\\' :: s) = .other :: (inString mark ('\\' :: s)).tail := by
  unfold inString
  split <;> simp_all

theorem inCode_slash_cons {c : Char} (hslash : c ≠ '/') (hstar : c ≠ '*') (s : List Char) :
    inCode ('/' :: c :: s) = .other :: inCode (c :: s) := by
  rw [inCode]
  all_goals simp_all

theorem inLineComment_cons {c : Char} (hline : c ≠ '\n') (s : List Char) :
    inLineComment (c :: s) = .other :: inLineComment s := by
  rw [inLineComment]
  all_goals simp_all

theorem inComment_cons {c : Char} (hstar : c ≠ '*') (s : List Char) :
    inComment (c :: s) = .other :: inComment s := by
  rw [inComment]
  all_goals simp_all

theorem inComment_star_cons {c : Char} (hslash : c ≠ '/') (s : List Char) :
    inComment ('*' :: c :: s) = .other :: inComment (c :: s) := by
  rw [inComment]
  all_goals simp_all

theorem inTemplate_cons {c : Char} (hescape : c ≠ '\\') (s : List Char) :
    inTemplate (c :: s) = .other :: if c = '\x60' then inCode s else inTemplate s := by
  by_cases hend : c = '\x60'
  · subst hend
    rw [inTemplate, if_pos rfl]
  · rw [inTemplate, if_neg hend]
    all_goals simp_all

theorem inString_cons {mark c : Char} (hescape : c ≠ '\\') (hline : c ≠ '\n') (s : List Char) :
    inString mark (c :: s) = .other :: if c = mark then inCode s else inString mark s := by
  rw [inString]
  all_goals simp_all

theorem inString_backslash_cons (mark : Char) {c : Char} (hline : c ≠ '\n') (s : List Char) :
    inString mark ('\\' :: c :: s) = .other :: .other :: inString mark s := by
  rw [inString]
  all_goals simp_all

/-- A character that only changes the mode is marked as any other. -/
theorem enter_eq_after (n : Count) (mode : Mode) : n.enter mode = n.after [.other] mode := by
  simp [Count.enter, Count.after, depth, opens]

theorem stepCode_opening (n : Count) : stepCode n '\x7b' = n.after [.opening] .code := by
  simp [stepCode, Count.after, depth, opens]

theorem stepCode_closing (n : Count) : stepCode n '\x7d' = n.after [.closing] .code := by
  simp [stepCode, Count.after, depth, opens, Int.sub_eq_add_neg]

/-- A count moves on over a character as the marks of a text do. -/
def Moves (mode : Mode) (c : Char) (s : List Char) (n n' : Count) : Prop :=
  ∃ k, marksFrom mode (c :: s) = k :: marksFrom n'.mode s ∧ n' = n.after [k] n'.mode

theorem Moves.enter {mode : Mode} {c : Char} {s : List Char} {n : Count} {mode' : Mode}
    (h : marksFrom mode (c :: s) = .other :: marksFrom mode' s) : Moves mode c s n (n.enter mode') :=
  ⟨.other, h, enter_eq_after n mode'⟩

/-- One more character in code. -/
theorem moves_stepCode (n : Count) (c : Char) (s : List Char) : Moves .code c s n (stepCode n c) := by
  by_cases hslash : c = '/'
  · subst hslash
    exact .enter (inCode_slash s)
  by_cases hopening : c = '\x7b'
  · subst hopening
    exact ⟨.opening, by rw [marksFrom, inCode]; rfl, stepCode_opening n⟩
  by_cases hclosing : c = '\x7d'
  · subst hclosing
    exact ⟨.closing, by rw [marksFrom, inCode]; rfl, stepCode_closing n⟩
  have hstep : stepCode n c = n.enter (if c = '"' ∨ c = '\'' then .quoted c else
      if c = '\x60' then .template else .code) := by
    grind [stepCode]
  rw [hstep]
  refine .enter ?_
  rw [marksFrom]
  unfold inCode
  split <;> simp_all [marksFrom]

/-- One more character of a line. -/
theorem moves_step (n : Count) {c : Char} (hline : c ≠ '\n') (s : List Char) :
    Moves n.mode c s n (step n c) := by
  obtain ⟨depth, opened, mode⟩ := n
  cases mode with
  | code => exact moves_stepCode _ c s
  | slash =>
    by_cases hslash : c = '/'
    · subst hslash
      exact .enter (by simp [marksFrom, inCode])
    by_cases hstar : c = '*'
    · subst hstar
      exact .enter (by simp [marksFrom, inCode])
    -- a slash that starts no comment is like any other character
    have hstep : step ⟨depth, opened, .slash⟩ c = stepCode ⟨depth, opened, .slash⟩ c := by
      simp [step, hslash, hstar]
    rw [hstep, Moves, marksFrom, inCode_slash_cons hslash hstar]
    exact moves_stepCode _ c s
  | lineComment => exact .enter (inLineComment_cons hline s)
  | comment =>
    by_cases hstar : c = '*'
    · subst hstar
      exact .enter (inComment_star s)
    · rw [step]
      simp only [beq_iff_eq, hstar, if_false]
      exact .enter (inComment_cons hstar s)
  | commentStar =>
    by_cases hslash : c = '/'
    · subst hslash
      exact .enter (by simp [marksFrom, inComment])
    -- a star that ends no comment is like any other character
    have htail : marksFrom .commentStar (c :: s) = inComment (c :: s) := by
      rw [marksFrom, inComment_star_cons hslash]
      rfl
    by_cases hstar : c = '*'
    · subst hstar
      exact .enter (htail.trans (inComment_star s))
    · rw [step]
      simp only [beq_iff_eq, hslash, hstar, if_false]
      exact .enter (htail.trans (inComment_cons hstar s))
  | template =>
    by_cases hescape : c = '\\'
    · subst hescape
      exact .enter (inTemplate_backslash s)
    · rw [step]
      simp only [beq_iff_eq, hescape, if_false]
      split
      · rename_i hend
        exact .enter ((inTemplate_cons hescape s).trans (by rw [if_pos hend]; rfl))
      · rename_i hend
        exact .enter ((inTemplate_cons hescape s).trans (by rw [if_neg hend]; rfl))
  | templateEscape => exact .enter (by simp [marksFrom, inTemplate])
  | quoted mark =>
    by_cases hescape : c = '\\'
    · subst hescape
      exact .enter (inString_backslash mark s)
    · rw [step]
      simp only [beq_iff_eq, hescape, if_false]
      split
      · rename_i hend
        exact .enter ((inString_cons hescape hline s).trans (by rw [if_pos hend]; rfl))
      · rename_i hend
        exact .enter ((inString_cons hescape hline s).trans (by rw [if_neg hend]; rfl))
  | quotedEscape mark => exact .enter (by simp [marksFrom, inString_backslash_cons mark hline])

theorem moves_stepText (n : Count) (c : Char) (s : List Char) : Moves n.mode c s n (stepText n c) := by
  by_cases hline : c = '\n'
  · subst hline
    rw [stepText, if_pos rfl]
    refine .enter ?_
    cases n.mode <;>
      simp [marksFrom, Mode.nextLine, inCode, inLineComment, inComment, inTemplate, inString]
  · rw [stepText, if_neg hline]
    exact moves_step n hline s

/-! ## Texts -/

theorem depth_append (ms ms' : List Mark) : depth (ms ++ ms') = depth ms + depth ms' := by
  simp only [depth, List.count_append]
  omega

theorem opens_append (ms ms' : List Mark) : opens (ms ++ ms') = (opens ms || opens ms') := by
  simp [opens]

theorem Count.after_after (n : Count) (ms ms' : List Mark) (mode mode' : Mode) :
    (n.after ms mode).after ms' mode' = n.after (ms ++ ms') mode' := by
  simp only [Count.after, depth_append, opens_append, Int.add_assoc, Bool.or_assoc]

/-- The count after the start of a text is that of its marks, and the rest is read from its mode on. -/
theorem marksFrom_append (n : Count) (s t : List Char) :
    ∃ ms, ms.length = s.length ∧
      marksFrom n.mode (s ++ t) = ms ++ marksFrom (s.foldl stepText n).mode t ∧
      s.foldl stepText n = n.after ms (s.foldl stepText n).mode := by
  induction s generalizing n with
  | nil => exact ⟨[], rfl, rfl, by simp [Count.after, depth, opens]⟩
  | cons c s ih =>
    obtain ⟨k, hk, hstep⟩ := moves_stepText n c (s ++ t)
    obtain ⟨ms, hlength, hms, hcount⟩ := ih (stepText n c)
    refine ⟨k :: ms, by simp [hlength], ?_, ?_⟩
    · rw [List.cons_append, hk, hms]
      rfl
    · rw [List.foldl_cons, hcount, hstep, Count.after_after]
      rfl

theorem marksFrom_nil (mode : Mode) : marksFrom mode [] = [] := by
  cases mode <;> simp [marksFrom, inCode, inLineComment, inComment, inTemplate, inString]

/-- There is a mark for each character. -/
theorem length_marks (s : List Char) : (marks s).length = s.length := by
  obtain ⟨ms, hlength, hms, -⟩ := marksFrom_append .start s []
  rw [List.append_nil, marksFrom_nil, List.append_nil] at hms
  rw [marks, show inCode s = ms from hms, hlength]

/-! ## Lines -/

theorem foldl_stepText_of_line {l : List Char} (h : '\n' ∉ l) (n : Count) :
    l.foldl stepText n = l.foldl step n := by
  induction l generalizing n with
  | nil => rfl
  | cons c l ih =>
    rw [List.mem_cons, not_or] at h
    rw [List.foldl_cons, List.foldl_cons, stepText, if_neg (Ne.symm h.1), ih h.2]

theorem stepText_newline {l : List Char} (h : '\n' ∉ l) (n : Count) :
    stepText (l.foldl stepText n) '\n' = scanLine n l := by
  rw [foldl_stepText_of_line h, stepText, if_pos rfl, scanLine]

/-- A line adds to the count what its marks say. They depend on the mode in which it starts alone. -/
theorem scanLine_eq_marks {l : List Char} (hl : '\n' ∉ l) (n : Count) (t : List Char) :
    (scanLine n l).depth = n.depth + depth ((marksFrom n.mode (l ++ t)).take l.length) ∧
      (scanLine n l).opened = (n.opened || opens ((marksFrom n.mode (l ++ t)).take l.length)) := by
  obtain ⟨ms, hlength, hms, hcount⟩ := marksFrom_append n l t
  have htake : (marksFrom n.mode (l ++ t)).take l.length = ms := by
    rw [hms, ← hlength, List.take_left]
  rw [htake, scanLine, ← foldl_stepText_of_line hl, hcount]
  exact ⟨rfl, rfl⟩

/-- The text of lines that are followed by another one. -/
def ended (ls : List (List Char)) : List Char := ls.flatMap (· ++ ['\n'])

theorem ended_cons (l : List Char) (ls : List (List Char)) :
    ended (l :: ls) = l ++ '\n' :: ended ls := by
  rw [ended, List.flatMap_cons, List.append_assoc, List.singleton_append]
  rfl

/-- Lines are counted as their text. -/
theorem foldl_scanLine {ls : List (List Char)} (hls : ∀ l ∈ ls, '\n' ∉ l) (n : Count) :
    ls.foldl scanLine n = (ended ls).foldl stepText n := by
  induction ls generalizing n with
  | nil => rfl
  | cons l ls ih =>
    rw [List.forall_mem_cons] at hls
    rw [List.foldl_cons, ih hls.2, ended_cons, List.foldl_append, List.foldl_cons,
      stepText_newline hls.1]

/-- The text of lines is that of the lines before one of them, this one, and what is after it. -/
theorem exists_joinLines {ls : List (List Char)} {line : Nat} (hline : line < ls.length) :
    ∃ t, joinLines ls = ended (ls.take line) ++ (ls[line] ++ t) := by
  induction ls generalizing line with
  | nil => cases hline
  | cons l ls ih =>
    cases line with
    | zero =>
      cases ls with
      | nil => exact ⟨[], by simp [joinLines, ended]⟩
      | cons m ls => exact ⟨'\n' :: joinLines (m :: ls), joinLines_cons_cons l m ls⟩
    | succ line =>
      obtain ⟨t, ht⟩ := ih (Nat.lt_of_succ_lt_succ hline)
      obtain ⟨m, rest, rfl⟩ := List.exists_cons_of_length_pos
        (Nat.zero_lt_of_lt (Nat.lt_of_succ_lt_succ hline))
      refine ⟨t, ?_⟩
      rw [joinLines_cons_cons, ht, List.take_succ_cons, ended_cons, List.getElem_cons_succ,
        List.append_assoc, List.cons_append]

/-- **Counting line by line reads the text in one go.** At the end of each line the depth, and whether a
brace has been opened, are those of the marks of the whole text up to there, and what the line by itself
adds to them is what its own marks say. So nothing is lost when a string or half a sign is dropped at the
end of a line. -/
theorem lines_count_as_text {ls : List (List Char)} (hls : ∀ l ∈ ls, '\n' ∉ l) {line : Nat}
    (hline : line < ls.length) :
    let all := marks (joinLines ls)
    let start := (ended (ls.take line)).length
    let upTo := all.take (start + ls[line].length)
    let own := (all.drop start).take ls[line].length
    let before := (ls.take line).foldl scanLine .start
    let counted := (ls.take (line + 1)).foldl scanLine .start
    let scanned := scanLine ⟨0, false, before.mode⟩ ls[line]
    all.length = (joinLines ls).length ∧
      counted.depth = depth upTo ∧ counted.opened = opens upTo ∧
      scanned.depth = depth own ∧ scanned.opened = opens own := by
  intro all start upTo own before counted scanned
  have hl := hls _ (List.getElem_mem hline)
  obtain ⟨t, htext⟩ := exists_joinLines hline
  obtain ⟨ms, hlength, hms, hcount⟩ := marksFrom_append .start (ended (ls.take line)) (ls[line] ++ t)
  rw [← foldl_scanLine fun l hl => hls l (List.mem_of_mem_take hl)] at hms hcount
  have hall : all = ms ++ marksFrom before.mode (ls[line] ++ t) :=
    (congrArg marks htext).trans hms
  have hstart : start = ms.length := hlength.symm
  have hown : own = (marksFrom before.mode (ls[line] ++ t)).take ls[line].length := by
    change (all.drop start).take _ = _
    rw [hall, hstart, List.drop_left]
  have hupTo : upTo = ms ++ own := by
    change all.take (start + _) = _
    rw [hown, hall, hstart, List.take_length_add_append]
  have hcounted : counted = scanLine before ls[line] := by
    change (ls.take (line + 1)).foldl scanLine .start = _
    rw [← List.take_append_getElem hline, List.foldl_append]
    rfl
  obtain ⟨hdepth, hopened⟩ := scanLine_eq_marks hl before t
  obtain ⟨hdepth', hopened'⟩ := scanLine_eq_marks hl ⟨0, false, before.mode⟩ t
  have hbefore : before = Count.start.after ms before.mode := hcount
  refine ⟨length_marks _, ?_, ?_, ?_, ?_⟩
  · rw [hcounted, hdepth, ← hown, hupTo, depth_append, hbefore]
    simp only [Count.after, Count.start, Int.zero_add]
  · rw [hcounted, hopened, ← hown, hupTo, opens_append, hbefore]
    simp only [Count.after, Count.start, Bool.false_or]
  · rw [hown, ← Int.zero_add (depth _)]
    exact hdepth'
  · rw [hown, ← Bool.false_or (opens _)]
    exact hopened'

namespace Sample

/-- Lines that end in a string, in a template after a backslash, after a slash, and in a comment after
a star, each before a line that would go on with it. -/
def halves : List (List Char) :=
  ["f = '\x7b", "\x7b \x60\x7b\\", "\x60 /", "/* \x7b *", "/ */ \x7d \x7b"].map String.toList

end Sample

/-- On the last of the lines a brace is closed and one is opened again, so the depth is as after the
second, where the first one was opened. -/
theorem lines_count_as_text_halves :
    ((Sample.halves.take 2).foldl scanLine .start).depth = 1 ∧
      (Sample.halves.foldl scanLine .start).depth = 1 ∧
      depth (marks (joinLines Sample.halves)) = 1 := by
  have hlines : ∀ l ∈ Sample.halves, '\n' ∉ l := by decide
  have hsecond := lines_count_as_text hlines (show 1 < Sample.halves.length by decide)
  have hlast := lines_count_as_text hlines (show 4 < Sample.halves.length by decide)
  exact ⟨hsecond.2.1.trans (by decide +kernel), hlast.2.1.trans (by decide +kernel),
    by decide +kernel⟩

end CodeIndex.Braces
