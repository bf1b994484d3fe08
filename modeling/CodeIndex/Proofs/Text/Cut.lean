import CodeIndex.Proofs.Text.Pattern
import CodeIndex.Proofs.Text.Piece
import Mathlib.Data.List.Forall2

/-!
Matches in a piece of a text.

A piece of whole lines is cut out of a text, and the returns at the ends of its lines are dropped. A
pattern then matches at a place in it in the ways in which it matches at that place in the whole text,
in the same order, as far as they end inside of the piece.

* `Same` says that two cursors stand at one place, in the whole text and in the piece;
* `Pattern.cuttable` are the patterns for which this is so: what may pass a return before a newline
  must not stay there;
* `ends_cut` is the simulation, and `foundAt_cut` and `foundAt_whole` are what follows for the match at
  a place.
-/
namespace CodeIndex.Text

/-! ## Places in the whole text and in the piece -/

/-- The cursor in the whole text between two parts of the piece. -/
def wholeCursor (pre tail x y : List Char) (name : Option (List Char)) : Cursor :=
  ⟨(pre ++ x).getLast?, bytes (pre ++ x), y ++ tail, name⟩

/-- The cursor in the piece without its returns. -/
def cutCursor (x y : List Char) (name : Option (List Char)) : Cursor :=
  ⟨x.getLast?, bytes (dropReturns x), dropReturns y, name⟩

/-- Two cursors stand at one place of the piece, outside of its line ends, and have the same name. -/
def Same (pre body tail : List Char) (w k : Cursor) : Prop :=
  ∃ x y name, body = x ++ y ∧ ¬ Torn x y ∧ w = wholeCursor pre tail x y name ∧
    k = cutCursor x y name

/-- Whether a cursor in the whole text stands before the end of the piece and outside of a line
end. -/
def inside (tail : List Char) (w : Cursor) : Bool :=
  tail.length ≤ w.rest.length && !(w.before == some '\r' && w.rest.head? == some '\n')

variable {pre body tail x y : List Char} {name : Option (List Char)}

theorem after_wholeCursor (hbody : body = x ++ y) :
    (wholeCursor pre tail x y name).After (pre ++ (body ++ tail)) (pre ++ x) :=
  ⟨by simp [wholeCursor, hbody], rfl, rfl⟩

theorem after_cutCursor (hbody : body = x ++ y) (hxy : ¬ Torn x y) :
    (cutCursor x y name).After (dropReturns body) (dropReturns x) :=
  ⟨by simp [cutCursor, hbody, dropReturns_append hxy], (getLast?_dropReturns x).symm, rfl⟩

theorem inside_eq_false {w : Cursor} (h : inside tail w = false) :
    w.rest.length < tail.length ∨ w.before = some '\r' ∧ w.rest.head? = some '\n' := by
  simp only [inside, Bool.and_eq_false_iff, decide_eq_false_iff_not, Nat.not_le,
    Bool.not_eq_false', Bool.and_eq_true, beq_iff_eq] at h
  exact h

theorem inside_of_not_torn {w : Cursor} (hlen : tail.length ≤ w.rest.length)
    (h : ¬ (w.before = some '\r' ∧ w.rest.head? = some '\n')) : inside tail w = true := by
  by_contra hinside
  rcases inside_eq_false (Bool.not_eq_true _ ▸ hinside) with hlt | htorn
  · omega
  · exact h htorn

theorem inside_wholeCursor (hpiece : Piece pre body tail) (hbody : body = x ++ y)
    (hxy : ¬ Torn x y) : inside tail (wholeCursor pre tail x y name) = true := by
  refine inside_of_not_torn (by simp [wholeCursor]) ?_
  rintro ⟨hlast, hhead⟩
  simp only [wholeCursor] at hlast hhead
  cases x with
  | nil =>
    rw [List.append_nil] at hlast
    rcases hpiece.start with rfl | hpre
    · cases hlast
    · rw [hpre] at hlast
      cases hlast
  | cons c x =>
    rw [List.getLast?_append_of_ne_nil _ (List.cons_ne_nil c x)] at hlast
    cases y with
    | nil =>
      rw [List.append_nil] at hbody
      exact hpiece.whole ⟨hbody ▸ hlast, hhead⟩
    | cons d y => exact hxy ⟨hlast, hhead⟩

theorem Same.inside {w k : Cursor} (hpiece : Piece pre body tail) (h : Same pre body tail w k) :
    inside tail w = true := by
  obtain ⟨x, y, name, hbody, hxy, rfl, -⟩ := h
  exact inside_wholeCursor hpiece hbody hxy

/-! ## Single steps -/

theorem same_advance {c : Char} (hbody : body = x ++ c :: y) (hxy : ¬ Torn x (c :: y))
    (hcy : ¬ Torn [c] y) :
    Same pre body tail ((wholeCursor pre tail x (c :: y) name).advance c (y ++ tail))
      ((cutCursor x (c :: y) name).advance c (dropReturns y)) := by
  have hxc : ¬ Torn x [c] := hxy
  have htorn : ¬ Torn (x ++ [c]) y := by rwa [torn_append (List.cons_ne_nil c [])]
  refine ⟨x ++ [c], y, name, by simp [hbody], htorn, ?_, ?_⟩
  · simp [wholeCursor, Cursor.advance, Nat.add_assoc]
  · simp [cutCursor, Cursor.advance, dropReturns_append hxc, dropReturns]

/-- Over a line end with a return the cursor in the piece moves over the newline only. -/
theorem same_lineEnd (hbody : body = x ++ '\r' :: '\n' :: y) :
    Same pre body tail
      (((wholeCursor pre tail x ('\r' :: '\n' :: y) name).advance '\r' ('\n' :: y ++ tail)).advance
        '\n' (y ++ tail))
      ((cutCursor x ('\r' :: '\n' :: y) name).advance '\n' (dropReturns y)) := by
  have hx : ¬ Torn x ['\r', '\n'] := by simp [Torn]
  have hdrop : dropReturns ['\r', '\n'] = ['\n'] := by decide
  refine ⟨x ++ ['\r', '\n'], y, name, by simp [hbody], by simp [Torn], ?_, ?_⟩
  · simp [wholeCursor, Cursor.advance, Nat.add_assoc]
  · simp [cutCursor, Cursor.advance, dropReturns_append hx, hdrop]

/-- Between the return and the newline of a line end there is no place of the piece. -/
theorem inside_after_return {here : Cursor} {rest : List Char} :
    inside tail (here.advance '\r' ('\n' :: rest)) = false := by
  simp [inside, Cursor.advance]

theorem inside_of_shorter {w : Cursor} (h : w.rest.length < tail.length) :
    inside tail w = false := by
  rw [inside, Bool.and_eq_false_iff, decide_eq_false_iff_not]
  exact .inl (Nat.not_le.2 h)

/-- What follows at a place of the piece: nothing of it, a line end with a return, or a character. -/
theorem Same.next {w k : Cursor} (h : Same pre body tail w k) :
    w.rest = tail ∧ k.rest = [] ∨
      (∃ r r', w.rest = '\r' :: '\n' :: r ∧ k.rest = '\n' :: r' ∧
        Same pre body tail ((w.advance '\r' ('\n' :: r)).advance '\n' r) (k.advance '\n' r')) ∨
      ∃ c r r', w.rest = c :: r ∧ k.rest = c :: r' ∧
        Same pre body tail (w.advance c r) (k.advance c r') := by
  obtain ⟨x, y, name, hbody, hxy, rfl, rfl⟩ := h
  cases y with
  | nil => exact .inl ⟨rfl, rfl⟩
  | cons c y =>
    by_cases hcy : Torn [c] y
    · obtain ⟨rfl, hy⟩ := torn_singleton.1 hcy
      obtain ⟨y, rfl⟩ := List.head?_eq_some_iff.1 hy
      exact .inr (.inl ⟨_, _, rfl, dropReturns_lineEnd y, same_lineEnd hbody⟩)
    · exact .inr (.inr ⟨c, _, _, rfl, dropReturns_cons hcy, same_advance hbody hxy hcy⟩)

theorem forall₂_singleton {w k : Cursor} (hpiece : Piece pre body tail)
    (h : Same pre body tail w k) :
    List.Forall₂ (Same pre body tail) ([w].filter (inside tail)) [k] := by
  rw [List.filter_cons_of_pos (h.inside hpiece)]
  exact .cons h .nil

/-! ## Patterns that may be cut -/

namespace Pattern

/-- No match starts with a newline. -/
def refuses : Pattern → Bool
  | fail => true
  | one cls => !cls.accepts '\n'
  | seq p _ | named p => p.refuses
  | alt p q => p.refuses && q.refuses
  | empty | run _ | lineStart | wordEdge | many _ => false

/-- No match that starts before a newline moves on. -/
def stuck : Pattern → Bool
  | fail | empty | lineStart | wordEdge => true
  | one cls | run cls => !cls.accepts '\n'
  | seq p q => p.refuses || p.stuck && q.stuck
  | alt p q => p.stuck && q.stuck
  | named p => p.stuck
  | many _ => false

/-- The pattern matches in a piece as in the whole text. -/
def cuttable : Pattern → Bool
  | fail | empty | lineStart | wordEdge => true
  | one cls => !cls.accepts '\n'
  | run cls => !cls.accepts '\n' || cls.accepts '\r'
  | seq p q => p.cuttable && q.cuttable && (p.avoids '\r' || q.stuck)
  | alt p q => p.cuttable && q.cuttable
  | named p => p.cuttable && p.avoids '\n'
  | many _ => false

theorem ends_refuses {p : Pattern} (hp : p.refuses = true) {here : Cursor}
    (h : here.rest.head? = some '\n') : p.ends here = [] := by
  induction p generalizing here with
  | fail => rfl
  | one cls =>
    refine List.eq_nil_iff_forall_not_mem.2 fun stop hstop => ?_
    obtain ⟨c, rest, hrest, hc, -⟩ := mem_ends_one.1 hstop
    rw [hrest] at h
    cases h
    simp [refuses, hc] at hp
  | seq p q ihp _ => simp [ends, ihp hp h]
  | alt p q ihp ihq =>
    simp only [refuses, Bool.and_eq_true] at hp
    simp [ends, ihp hp.1 h, ihq hp.2 h]
  | named p ih => simp [ends, ih hp h]
  | empty | run _ | lineStart | wordEdge | many _ => cases hp

theorem ends_stuck {p : Pattern} (hp : p.stuck = true) {here stop : Cursor}
    (h : here.rest.head? = some '\n') (hstop : stop ∈ p.ends here) :
    stop.rest = here.rest ∧ stop.before = here.before := by
  induction p generalizing here stop with
  | fail => cases hstop
  | empty => rw [List.mem_singleton.1 hstop]; exact ⟨rfl, rfl⟩
  | one cls =>
    obtain ⟨c, rest, hrest, hc, -⟩ := mem_ends_one.1 hstop
    rw [hrest] at h
    cases h
    simp [stuck, hc] at hp
  | run cls =>
    have hcls : cls.accepts '\n' = false := by simpa [stuck] using hp
    obtain ⟨rest, hrest⟩ := List.head?_eq_some_iff.1 h
    rw [ends, hrest, runEnds, if_neg (by simp [hcls])] at hstop
    rw [List.mem_singleton.1 hstop]
    exact ⟨hrest.symm, rfl⟩
  | lineStart =>
    obtain ⟨-, rfl⟩ := mem_ends_lineStart.1 hstop
    exact ⟨rfl, rfl⟩
  | wordEdge =>
    simp only [ends] at hstop
    split at hstop
    · rw [List.mem_singleton.1 hstop]
      exact ⟨rfl, rfl⟩
    · cases hstop
  | seq p q ihp ihq =>
    obtain ⟨mid, hmid, hstop⟩ := mem_ends_seq.1 hstop
    simp only [stuck, Bool.or_eq_true, Bool.and_eq_true] at hp
    rcases hp with hp | ⟨hp, hq⟩
    · rw [ends_refuses hp h] at hmid
      cases hmid
    · obtain ⟨hrest, hbefore⟩ := ihp hp h hmid
      obtain ⟨hrest', hbefore'⟩ := ihq hq (hrest ▸ h) hstop
      exact ⟨hrest'.trans hrest, hbefore'.trans hbefore⟩
  | alt p q ihp ihq =>
    simp only [stuck, Bool.and_eq_true] at hp
    rcases mem_ends_alt.1 hstop with hstop | hstop
    · exact ihp hp.1 h hstop
    · exact ihq hp.2 h hstop
  | named p ih =>
    obtain ⟨inner, hinner, rfl⟩ := List.mem_map.1 hstop
    have hsame := ih hp h hinner
    exact hsame
  | many _ => cases hp

/-! ## Runs -/

theorem runEnds_eq (cls : CharClass) (before : Option Char) (offset : Nat)
    (name : Option (List Char)) (shorter : List Cursor) (rest : List Char) :
    runEnds cls before offset name shorter rest =
      runEnds cls before offset name [] rest ++ shorter := by
  induction rest generalizing before offset shorter with
  | nil => rfl
  | cons c rest ih =>
    simp only [runEnds]
    split
    · rw [ih, ih _ _ [_], List.append_assoc]
      rfl
    · rfl

/-- The ways of a run over one character: the ways from there on, and to stay. -/
theorem ends_run_cons {cls : CharClass} {here : Cursor} {c : Char} {rest : List Char}
    (hrest : here.rest = c :: rest) (hc : cls.accepts c = true) :
    (run cls).ends here = (run cls).ends (here.advance c rest) ++ [here] := by
  obtain ⟨before, offset, _, name⟩ := here
  simp only at hrest
  subst hrest
  simp only [ends, runEnds, if_pos hc, Cursor.advance]
  exact runEnds_eq _ _ _ _ _ _

theorem ends_run_stop {cls : CharClass} {here : Cursor}
    (h : ∀ c, here.rest.head? = some c → cls.accepts c = false) : (run cls).ends here = [here] := by
  obtain ⟨before, offset, rest, name⟩ := here
  cases rest with
  | nil => rfl
  | cons c rest => simp [ends, runEnds, h c rfl]

theorem ends_run_cases (cls : CharClass) (here : Cursor) :
    (run cls).ends here = [here] ∨ ∃ c rest, here.rest = c :: rest ∧
      (run cls).ends here = (run cls).ends (here.advance c rest) ++ [here] := by
  cases hrest : here.rest with
  | nil => exact .inl (ends_run_stop (by simp [hrest]))
  | cons c rest =>
    by_cases hc : cls.accepts c = true
    · exact .inr ⟨c, rest, rfl, ends_run_cons hrest hc⟩
    · rw [Bool.not_eq_true] at hc
      exact .inl (ends_run_stop (by simp [hrest, hc]))

/-! ## Simulation -/

variable {w k : Cursor} {p q : Pattern}

theorem outside_of_outside (hpiece : Piece pre body tail) (h : Same pre body tail w k)
    (hpq : p.avoids '\r' = true ∨ q.stuck = true) {mid stop : Cursor} (hmid : mid ∈ p.ends w)
    (houtside : inside tail mid = false) (hstop : stop ∈ q.ends mid) :
    inside tail stop = false := by
  obtain ⟨x, y, name, hbody, hxy, rfl, -⟩ := h
  obtain ⟨m, hm⟩ := ends_after (after_wholeCursor hbody) hmid
  rcases inside_eq_false houtside with hlen | ⟨hlast, hhead⟩
  · exact inside_of_shorter (Nat.lt_of_le_of_lt (ends_shorter hm hstop) hlen)
  · rcases hpq with hp | hq
    · -- the way to the line end would have passed a return
      have hreturn := not_mem_of_avoids hp (after_wholeCursor hbody) hmid hm
      rcases eq_or_ne m [] with rfl | hne
      · rw [List.append_nil] at hm
        have hrest : mid.rest = y ++ tail := by
          have htext := hm.text
          rw [hbody, List.append_assoc, List.append_assoc] at htext
          exact List.append_cancel_left (List.append_cancel_left htext)
        have hsame : inside tail mid = inside tail (wholeCursor pre tail x y name) := by
          rw [inside, hm.before, hrest]
          rfl
        rw [hsame, inside_wholeCursor hpiece hbody hxy] at houtside
        cases houtside
      · rw [hm.before, List.getLast?_append_of_ne_nil _ hne] at hlast
        exact absurd (List.mem_of_getLast? hlast) hreturn
    · obtain ⟨hrest, hbefore⟩ := ends_stuck hq hhead hstop
      rw [inside, hrest, hbefore]
      exact houtside

theorem same_one (hpiece : Piece pre body tail) {cls : CharClass}
    (hcls : cls.accepts '\n' = false) (h : Same pre body tail w k) :
    List.Forall₂ (Same pre body tail) (((one cls).ends w).filter (inside tail))
      ((one cls).ends k) := by
  rcases h.next with ⟨hw, hk⟩ | ⟨r, r', hw, hk, -⟩ | ⟨c, r, r', hw, hk, hsame⟩
  · simp only [ends, hw, hk]
    cases tail with
    | nil => exact .nil
    | cons c rest =>
      simp only
      split
      · have hout : inside (c :: rest) (w.advance c rest) = false :=
          inside_of_shorter (by simp [Cursor.advance])
        rw [List.filter_cons_of_neg (by simp [hout])]
        exact .nil
      · exact .nil
  · simp only [ends, hw, hk, hcls]
    split
    · rw [List.filter_cons_of_neg (by simp [inside_after_return])]
      exact .nil
    · exact .nil
  · simp only [ends, hw, hk]
    split
    · exact forall₂_singleton hpiece hsame
    · exact .nil

/-- A run of characters of a class, which does not stop inside of a line end. -/
theorem same_run (hpiece : Piece pre body tail) {cls : CharClass}
    (hcls : cls.accepts '\n' = false ∨ cls.accepts '\r' = true) (h : Same pre body tail w k) :
    List.Forall₂ (Same pre body tail) (((run cls).ends w).filter (inside tail))
      ((run cls).ends k) := by
  induction hlen : w.rest.length using Nat.strong_induction_on generalizing w k with
  | _ n ih =>
    have hstay := forall₂_singleton hpiece h
    rcases h.next with ⟨hw, hk⟩ | ⟨r, r', hw, hk, hsame⟩ | ⟨c, r, r', hw, hk, hsame⟩
    · have hk : (run cls).ends k = [k] := ends_run_stop (by simp [hk])
      rw [hk]
      rcases ends_run_cases cls w with hw' | ⟨c, r, hr, hends⟩
      · rw [hw']
        exact hstay
      · -- what the run passes after the piece is outside
        have hout : ((run cls).ends (w.advance c r)).filter (inside tail) = [] := by
          refine List.filter_eq_nil_iff.2 fun stop hstop => ?_
          obtain ⟨x, y, name, hbody, -, rfl, -⟩ := h
          have hshort := ends_shorter ((after_wholeCursor hbody).advance hr) hstop
          have hlt : r.length < tail.length := by
            rw [← hw, hr]
            exact Nat.lt_succ_self _
          rw [inside_of_shorter (Nat.lt_of_le_of_lt hshort hlt)]
          exact Bool.false_ne_true
        rw [hends, List.filter_append, hout]
        exact hstay
    · have hskip : [w.advance '\r' ('\n' :: r)].filter (inside tail) = [] := by
        rw [List.filter_cons_of_neg (by simp [inside_after_return]), List.filter_nil]
      by_cases hn : cls.accepts '\n' = true
      · have hr : cls.accepts '\r' = true := by
          rcases hcls with hcls | hcls
          · exact absurd hn (by simp [hcls])
          · exact hcls
        have hmore : (run cls).ends (w.advance '\r' ('\n' :: r)) =
            (run cls).ends ((w.advance '\r' ('\n' :: r)).advance '\n' r) ++
              [w.advance '\r' ('\n' :: r)] := ends_run_cons rfl hn
        rw [ends_run_cons hw hr, hmore, ends_run_cons hk hn, List.filter_append, List.filter_append,
          hskip, List.append_nil]
        refine List.rel_append (ih _ ?_ hsame rfl) hstay
        simp only [← hlen, hw, Cursor.advance, List.length_cons]
        omega
      · rw [Bool.not_eq_true] at hn
        have hk : (run cls).ends k = [k] := ends_run_stop (by simp [hk, hn])
        rw [hk]
        by_cases hr : cls.accepts '\r' = true
        · have hstop : (run cls).ends (w.advance '\r' ('\n' :: r)) = [w.advance '\r' ('\n' :: r)] :=
            ends_run_stop (by simp [Cursor.advance, hn])
          rw [ends_run_cons hw hr, hstop, List.filter_append, hskip]
          exact hstay
        · rw [Bool.not_eq_true] at hr
          rw [ends_run_stop (by simp [hw, hr])]
          exact hstay
    · by_cases hc : cls.accepts c = true
      · rw [ends_run_cons hw hc, ends_run_cons hk hc, List.filter_append]
        refine List.rel_append (ih _ ?_ hsame rfl) hstay
        simp [← hlen, hw, Cursor.advance]
      · rw [Bool.not_eq_true] at hc
        rw [ends_run_stop (by simp [hw, hc]), ends_run_stop (by simp [hk, hc])]
        exact hstay

/-- The edges of words: next to the ends of the piece there is no character of a word. -/
theorem isWordEdge_cut (hpiece : Piece pre body tail) (h : Same pre body tail w k) :
    isWordEdge w.before w.rest.head? = isWordEdge k.before k.rest.head? := by
  have hbefore : w.before.any isWord = k.before.any isWord := by
    obtain ⟨x, y, name, -, -, rfl, rfl⟩ := h
    simp only [wholeCursor, cutCursor]
    cases x with
    | nil =>
      rw [List.append_nil]
      rcases hpiece.start with rfl | hpre
      · rfl
      · rw [hpre, Option.any_some, isWord_newline]
        rfl
    | cons c x => rw [List.getLast?_append_of_ne_nil _ (List.cons_ne_nil c x)]
  have hafter : w.rest.head?.any isWord = k.rest.head?.any isWord := by
    rcases h.next with ⟨hw, hk⟩ | ⟨r, r', hw, hk, -⟩ | ⟨c, r, r', hw, hk, -⟩
    · rw [hw, hk]
      cases tail with
      | nil => rfl
      | cons c rest =>
        rcases hpiece.stop c rfl with rfl | rfl
        · simp [isWord_newline]
        · simp [isWord_blank]
    · simp [hw, hk, isWord_newline, isWord_blank]
    · simp [hw, hk]
  rw [isWordEdge, isWordEdge, hbefore, hafter]

theorem ends_lineStart (here : Cursor) :
    lineStart.ends here =
      if here.before = none ∨ here.before = some '\n' then [here] else [] := by
  rw [ends]
  cases here.before <;> simp

theorem before_cut (hpiece : Piece pre body tail) (h : Same pre body tail w k) :
    w.before = none ∨ w.before = some '\n' ↔ k.before = none ∨ k.before = some '\n' := by
  obtain ⟨x, y, name, -, -, rfl, rfl⟩ := h
  simp only [wholeCursor, cutCursor]
  cases x with
  | nil =>
    rw [List.append_nil]
    refine ⟨fun _ => .inl rfl, fun _ => ?_⟩
    rcases hpiece.start with rfl | hpre
    · exact .inl rfl
    · exact .inr hpre
  | cons c x => rw [List.getLast?_append_of_ne_nil _ (List.cons_ne_nil c x)]

/-- A name that is no longer than a line is the same in the whole text and in the piece. -/
theorem same_named (hp : p.avoids '\n' = true) (h : Same pre body tail w k) {w' k' : Cursor}
    (hw : w' ∈ p.ends w) (hk : k' ∈ p.ends k) (h' : Same pre body tail w' k') :
    Same pre body tail
      ⟨w'.before, w'.offset, w'.rest, some (takeBytes (w'.offset - w.offset) w.rest)⟩
      ⟨k'.before, k'.offset, k'.rest, some (takeBytes (k'.offset - k.offset) k.rest)⟩ := by
  obtain ⟨x, y, name, hbody, hxy, rfl, rfl⟩ := h
  obtain ⟨x', y', name', hbody', hxy', rfl, rfl⟩ := h'
  obtain ⟨m, hm⟩ := ends_after (after_wholeCursor hbody) hw
  obtain ⟨n, hn⟩ := ends_after (after_cutCursor hbody hxy) hk
  have hm' : '\n' ∉ m := not_mem_of_avoids hp (after_wholeCursor hbody) hw hm
  have hx : x' = x ++ m := by
    have := (after_wholeCursor hbody').unique hm
    rw [List.append_assoc] at this
    exact List.append_cancel_left this
  have hxm : ¬ Torn x m := fun htorn => hm' (List.mem_of_head? htorn.2)
  have hnm : n = m := by
    have := (after_cutCursor hbody' hxy').unique hn
    rw [hx, dropReturns_append hxm, dropReturns_of_not_mem hm'] at this
    exact (List.append_cancel_left this).symm
  rw [takeBytes_between (after_wholeCursor hbody) hm,
    takeBytes_between (after_cutCursor hbody hxy) hn, hnm]
  exact ⟨x', y', some m, hbody', hxy', rfl, rfl⟩

theorem flatMap_eq_filter_flatMap {α β : Type} {f : α → List β} {keep : α → Bool} {l : List α}
    (h : ∀ a ∈ l, keep a = false → f a = []) : l.flatMap f = (l.filter keep).flatMap f := by
  induction l with
  | nil => rfl
  | cons a l ih =>
    have ih := ih fun b hb => h b (List.mem_cons_of_mem _ hb)
    by_cases ha : keep a = true
    · rw [List.filter_cons_of_pos ha, List.flatMap_cons, List.flatMap_cons, ih]
    · rw [List.filter_cons_of_neg ha, List.flatMap_cons, ih,
        h a List.mem_cons_self (Bool.not_eq_true _ ▸ ha), List.nil_append]

theorem forall₂_map_of_mem {α β : Type} {R : α → β → Prop} {f : α → α} {g : β → β} {l : List α}
    {l' : List β} (h : List.Forall₂ R l l') (hmap : ∀ a ∈ l, ∀ b ∈ l', R a b → R (f a) (g b)) :
    List.Forall₂ R (l.map f) (l'.map g) := by
  induction h with
  | nil => exact .nil
  | cons hab _ ih =>
    refine .cons (hmap _ List.mem_cons_self _ List.mem_cons_self hab) (ih fun a ha b hb => ?_)
    exact hmap a (List.mem_cons_of_mem _ ha) b (List.mem_cons_of_mem _ hb)

/-- **The ways of a match in the piece** are the ways of the match in the whole text that end inside of
the piece, in their order. -/
theorem ends_cut (hpiece : Piece pre body tail) {p : Pattern} (hp : p.cuttable = true) {w k : Cursor}
    (h : Same pre body tail w k) :
    List.Forall₂ (Same pre body tail) ((p.ends w).filter (inside tail)) (p.ends k) := by
  induction p generalizing w k with
  | fail => exact .nil
  | empty => exact forall₂_singleton hpiece h
  | one cls => exact same_one hpiece (by simpa [cuttable] using hp) h
  | run cls => exact same_run hpiece (by simpa [cuttable] using hp) h
  | lineStart =>
    simp only [ends_lineStart, before_cut hpiece h]
    split
    · exact forall₂_singleton hpiece h
    · exact .nil
  | wordEdge =>
    simp only [ends, isWordEdge_cut hpiece h]
    split
    · exact forall₂_singleton hpiece h
    · exact .nil
  | seq p q ihp ihq =>
    simp only [cuttable, Bool.and_eq_true, Bool.or_eq_true] at hp
    obtain ⟨⟨hcutp, hcutq⟩, hpq⟩ := hp
    have hfilter : (((seq p q).ends w).filter (inside tail)) =
        ((p.ends w).filter (inside tail)).flatMap fun mid => (q.ends mid).filter (inside tail) := by
      rw [ends, List.filter_flatMap]
      refine flatMap_eq_filter_flatMap fun mid hmid hout => List.filter_eq_nil_iff.2 ?_
      intro stop hstop
      rw [outside_of_outside hpiece h (hpq.imp id id) hmid hout hstop]
      exact Bool.false_ne_true
    rw [hfilter]
    exact List.rel_flatMap (ihp hcutp h) fun _ _ hmid => ihq hcutq hmid
  | alt p q ihp ihq =>
    simp only [cuttable, Bool.and_eq_true] at hp
    rw [ends, ends, List.filter_append]
    exact List.rel_append (ihp hp.1 h) (ihq hp.2 h)
  | many p => cases hp
  | named p ih =>
    simp only [cuttable, Bool.and_eq_true] at hp
    rw [ends, ends, List.filter_map]
    refine forall₂_map_of_mem (ih hp.1 h) fun w' hw' k' hk' h' => ?_
    exact same_named hp.2 h (List.mem_of_mem_filter hw') hk' h'

/-! ## Matches -/

theorem same_between (hbody : body = x ++ y) (hxy : ¬ Torn x y) :
    Same pre body tail (.between (pre ++ x) (y ++ tail))
      (.between (dropReturns x) (dropReturns y)) := by
  refine ⟨x, y, none, hbody, hxy, rfl, ?_⟩
  rw [Cursor.between, cutCursor, getLast?_dropReturns]

theorem foundAt_cut (hpiece : Piece pre body tail) (hp : p.cuttable = true) (hbody : body = x ++ y)
    (hxy : ¬ Torn x y) {stop : Cursor}
    (hstop : p.matchAt (.between (pre ++ x) (y ++ tail)) = some stop)
    (hinside : inside tail stop = true) :
    ∃ f, p.foundAt (dropReturns x) (dropReturns y) = some f ∧ f.name = stop.name := by
  have hsame : Same pre body tail (.between (pre ++ x) (y ++ tail))
      (.between (dropReturns x) (dropReturns y)) := same_between hbody hxy
  have hways := ends_cut hpiece hp hsame
  obtain ⟨ways, hends⟩ := List.head?_eq_some_iff.1 hstop
  rw [hends, List.filter_cons_of_pos hinside] at hways
  obtain ⟨k, ways', ⟨x', y', name, -, -, rfl, rfl⟩, -, hk⟩ := List.forall₂_cons_left_iff.1 hways
  refine ⟨⟨bytes (dropReturns x), (cutCursor x' y' name).offset, name⟩, ?_, rfl⟩
  rw [foundAt, matchAt, hk]
  rfl

/-- A match in the piece is a way of the match in the whole text, and it is the match there when that
ends inside of the piece. -/
theorem foundAt_whole (hpiece : Piece pre body tail) (hp : p.cuttable = true)
    (hbody : body = x ++ y) (hxy : ¬ Torn x y) {f : Found}
    (h : p.foundAt (dropReturns x) (dropReturns y) = some f) :
    ∃ x' y' name, body = x' ++ y' ∧ ¬ Torn x' y' ∧ f.stop = bytes (dropReturns x') ∧
      wholeCursor pre tail x' y' name ∈ p.ends (.between (pre ++ x) (y ++ tail)) ∧
      ∀ stop, p.matchAt (.between (pre ++ x) (y ++ tail)) = some stop →
        inside tail stop = true → stop = wholeCursor pre tail x' y' name := by
  have hsame : Same pre body tail (.between (pre ++ x) (y ++ tail))
      (.between (dropReturns x) (dropReturns y)) := same_between hbody hxy
  have hways := ends_cut hpiece hp hsame
  obtain ⟨k, hk, rfl⟩ := Option.map_eq_some_iff.1 h
  obtain ⟨ways, hends⟩ := List.head?_eq_some_iff.1 hk
  rw [hends] at hways
  obtain ⟨w, ways', ⟨x', y', name, hbody', hxy', rfl, rfl⟩, -, hw⟩ :=
    List.forall₂_cons_right_iff.1 hways
  have hmem : wholeCursor pre tail x' y' name ∈
      (p.ends (.between (pre ++ x) (y ++ tail))).filter (inside tail) :=
    hw ▸ List.mem_cons_self
  refine ⟨x', y', name, hbody', hxy', rfl, List.mem_of_mem_filter hmem, fun stop hstop hin => ?_⟩
  obtain ⟨others, hothers⟩ := List.head?_eq_some_iff.1 hstop
  rw [hothers, List.filter_cons_of_pos hin] at hw
  exact (List.cons.inj hw).1

end Pattern

end CodeIndex.Text
