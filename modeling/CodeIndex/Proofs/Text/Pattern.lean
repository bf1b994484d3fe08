import CodeIndex.Proofs.Text.Lines
import CodeIndex.Text.Pattern

/-!
What patterns match.

* `Cursor.After` says that a cursor stands in a text after a part of it, and `ends_after` that a pattern
  only moves on;
* the lemmas `mem_ends_…` take the ways of a match apart, and `ends_avoid` and `ends_names` say which
  characters a match and its name cannot have;
* `mem_findAll` says what the matches in a text are, `findAll_pairwise` that they do not overlap, and
  `found_or_swallowed` that a place where a pattern matches is skipped only inside of a match.
-/
namespace CodeIndex.Text

/-! ## Cursors in a text -/

/-- A cursor stands in the text `s` after its part `pre`. -/
structure Cursor.After (s pre : List Char) (c : Cursor) : Prop where
  text : pre ++ c.rest = s
  before : c.before = pre.getLast?
  offset : c.offset = bytes pre

/-- The cursor between two parts of a text, before anything is named. -/
def Cursor.between (pre rest : List Char) : Cursor := ⟨pre.getLast?, bytes pre, rest, none⟩

theorem Cursor.after_between (pre rest : List Char) :
    (Cursor.between pre rest).After (pre ++ rest) pre := ⟨rfl, rfl, rfl⟩

variable {s pre : List Char} {here stop : Cursor}

theorem Cursor.After.advance (h : here.After s pre) {c : Char} {rest : List Char}
    (hrest : here.rest = c :: rest) : (here.advance c rest).After s (pre ++ [c]) where
  text := by rw [← h.text, hrest]; simp [Cursor.advance]
  before := by simp [Cursor.advance]
  offset := by simp [Cursor.advance, h.offset]

theorem Cursor.After.named (h : here.After s pre) (name : Option (List Char)) :
    Cursor.After s pre ⟨here.before, here.offset, here.rest, name⟩ := ⟨h.text, h.before, h.offset⟩

theorem Cursor.After.unique {pre' : List Char} (h : here.After s pre) (h' : here.After s pre') :
    pre = pre' := List.append_cancel_right (h.text.trans h'.text.symm)

/-! ## Ways of a match -/

/-- The ways of a run: the other ones, and all that characters of the class lead to. -/
theorem mem_runEnds {cls : CharClass} {rest : List Char} {shorter : List Cursor}
    (h : here.After s pre) (hrest : here.rest = rest)
    (hstop : stop ∈ runEnds cls here.before here.offset here.name shorter rest) :
    stop ∈ shorter ∨
      ∃ x, (∀ c ∈ x, cls.accepts c = true) ∧ stop.After s (pre ++ x) ∧ stop.name = here.name := by
  induction rest generalizing here pre shorter with
  | nil =>
    rcases List.mem_cons.1 hstop with rfl | hstop
    · refine .inr ⟨[], by simp, ?_, rfl⟩
      rw [List.append_nil, ← hrest]
      exact h.named _
    · exact .inl hstop
  | cons c rest ih =>
    have hhere : Cursor.After s pre ⟨here.before, here.offset, c :: rest, here.name⟩ := by
      rw [← hrest]
      exact h.named _
    rw [runEnds] at hstop
    split at hstop
    · rename_i hc
      rcases ih (h.advance hrest) rfl hstop with hstop | ⟨x, hx, hafter, hname⟩
      · rcases List.mem_cons.1 hstop with rfl | hstop
        · exact .inr ⟨[], by simp, by rw [List.append_nil]; exact hhere, rfl⟩
        · exact .inl hstop
      · refine .inr ⟨c :: x, ?_, ?_, hname⟩
        · simpa [hc] using hx
        · rw [List.append_assoc] at hafter
          exact hafter
    · rcases List.mem_cons.1 hstop with rfl | hstop
      · exact .inr ⟨[], by simp, by rw [List.append_nil]; exact hhere, rfl⟩
      · exact .inl hstop

namespace Pattern

variable {p q : Pattern}

theorem mem_ends_seq : stop ∈ (seq p q).ends here ↔ ∃ mid ∈ p.ends here, stop ∈ q.ends mid :=
  List.mem_flatMap

theorem mem_ends_alt : stop ∈ (alt p q).ends here ↔ stop ∈ p.ends here ∨ stop ∈ q.ends here :=
  List.mem_append

theorem mem_ends_one {cls : CharClass} :
    stop ∈ (one cls).ends here ↔
      ∃ c rest, here.rest = c :: rest ∧ cls.accepts c = true ∧ stop = here.advance c rest := by
  simp only [ends]
  cases here.rest with
  | nil => simp
  | cons c rest => by_cases hc : cls.accepts c = true <;> simp [hc]

theorem mem_ends_lineStart :
    stop ∈ lineStart.ends here ↔
      (here.before = none ∨ here.before = some '\n') ∧ stop = here := by
  simp only [ends]
  cases here.before with
  | none => simp
  | some c => by_cases hc : c = '\n' <;> simp [hc]

theorem ends_run {cls : CharClass} (h : here.After s pre) (hstop : stop ∈ (run cls).ends here) :
    ∃ x, (∀ c ∈ x, cls.accepts c = true) ∧ stop.After s (pre ++ x) ∧ stop.name = here.name := by
  rcases mem_runEnds h rfl hstop with hnil | hx
  · cases hnil
  · exact hx

/-- A pattern whose classes all reject a character. -/
def avoids (c : Char) : Pattern → Bool
  | fail | empty | lineStart | wordEdge => true
  | one cls | run cls => !cls.accepts c
  | seq p q | alt p q => p.avoids c && q.avoids c
  | many p | named p => p.avoids c

/-- A step that only moves on, and over characters that satisfy `P`. -/
def MovesOver (P : Char → Prop) (s : List Char) (step : Cursor → List Cursor) : Prop :=
  ∀ ⦃pre here stop⦄, Cursor.After s pre here → stop ∈ step here →
    ∃ x, (∀ c ∈ x, P c) ∧ Cursor.After s (pre ++ x) stop

theorem repeatEnds_moves {P : Char → Prop} {step : Cursor → List Cursor}
    (hstep : MovesOver P s step) : MovesOver P s (repeatEnds step) := by
  intro pre here
  induction hlen : here.rest.length using Nat.strong_induction_on generalizing pre here with
  | _ n ih =>
    intro stop h hstop
    rw [repeatEnds] at hstop
    rcases List.mem_append.1 hstop with hstop | hstop
    · obtain ⟨next, hnext, hstop⟩ := List.mem_flatMap.1 hstop
      split at hstop
      · rename_i hlt
        obtain ⟨x, hx, hafter⟩ := hstep h hnext
        obtain ⟨y, hy, hafter'⟩ := ih _ (hlen ▸ hlt) rfl hafter hstop
        refine ⟨x ++ y, ?_, by rwa [← List.append_assoc]⟩
        rintro c hc
        exact (List.mem_append.1 hc).elim (hx c) (hy c)
      · cases hstop
    · rw [List.mem_singleton.1 hstop]
      exact ⟨[], by simp, by rwa [List.append_nil]⟩

/-- A pattern only moves on, and over no character that its classes reject. -/
theorem ends_moves {P : Char → Prop} (p : Pattern)
    (hp : ∀ c, ¬ P c → p.avoids c = true) : MovesOver P s p.ends := by
  have hclass : ∀ {cls : CharClass}, (∀ c, ¬ P c → (!cls.accepts c) = true) →
      ∀ c, cls.accepts c = true → P c := by
    intro cls hcls c hc
    by_contra hP
    simpa [hc] using hcls c hP
  induction p with
  | fail => intro pre here stop _ hstop; cases hstop
  | empty =>
    intro pre here stop h hstop
    rw [List.mem_singleton.1 hstop]
    exact ⟨[], by simp, by rwa [List.append_nil]⟩
  | one cls =>
    intro pre here stop h hstop
    obtain ⟨c, rest, hrest, hc, rfl⟩ := mem_ends_one.1 hstop
    exact ⟨[c], by simpa using hclass hp c hc, h.advance hrest⟩
  | run cls =>
    intro pre here stop h hstop
    obtain ⟨x, hx, hafter, -⟩ := ends_run h hstop
    exact ⟨x, fun c hc => hclass hp c (hx c hc), hafter⟩
  | lineStart =>
    intro pre here stop h hstop
    obtain ⟨-, rfl⟩ := mem_ends_lineStart.1 hstop
    exact ⟨[], by simp, by rwa [List.append_nil]⟩
  | wordEdge =>
    intro pre here stop h hstop
    simp only [ends] at hstop
    split at hstop
    · rw [List.mem_singleton.1 hstop]
      exact ⟨[], by simp, by rwa [List.append_nil]⟩
    · cases hstop
  | seq p q ihp ihq =>
    intro pre here stop h hstop
    simp only [avoids, Bool.and_eq_true] at hp
    obtain ⟨mid, hmid, hstop⟩ := mem_ends_seq.1 hstop
    obtain ⟨x, hx, hafter⟩ := ihp (fun c hc => (hp c hc).1) h hmid
    obtain ⟨y, hy, hafter'⟩ := ihq (fun c hc => (hp c hc).2) hafter hstop
    refine ⟨x ++ y, ?_, by rwa [← List.append_assoc]⟩
    rintro c hc
    exact (List.mem_append.1 hc).elim (hx c) (hy c)
  | alt p q ihp ihq =>
    intro pre here stop h hstop
    simp only [avoids, Bool.and_eq_true] at hp
    rcases mem_ends_alt.1 hstop with hstop | hstop
    · exact ihp (fun c hc => (hp c hc).1) h hstop
    · exact ihq (fun c hc => (hp c hc).2) h hstop
  | many p ih => exact repeatEnds_moves (ih hp)
  | named p ih =>
    intro pre here stop h hstop
    obtain ⟨inner, hinner, rfl⟩ := List.mem_map.1 hstop
    obtain ⟨x, hx, hafter⟩ := ih hp h hinner
    exact ⟨x, hx, hafter.named _⟩

theorem ends_after (h : here.After s pre) (hstop : stop ∈ p.ends here) :
    ∃ x, stop.After s (pre ++ x) := by
  obtain ⟨x, -, hx⟩ := ends_moves (P := fun _ => True) p (fun _ hc => absurd trivial hc) h hstop
  exact ⟨x, hx⟩

theorem ends_shorter (h : here.After s pre) (hstop : stop ∈ p.ends here) :
    stop.rest.length ≤ here.rest.length := by
  obtain ⟨x, hx⟩ := ends_after h hstop
  have htext := congrArg List.length (hx.text.trans h.text.symm)
  simp only [List.length_append] at htext
  omega

/-- A pattern whose classes reject several characters. -/
def avoidsAll (cs : List Char) (p : Pattern) : Bool := cs.all fun c => p.avoids c

/-- A match has none of the characters that the pattern avoids. -/
theorem ends_avoid {cs : List Char} (hp : p.avoidsAll cs = true) (h : here.After s pre)
    (hstop : stop ∈ p.ends here) : ∃ x, (∀ c ∈ x, c ∉ cs) ∧ stop.After s (pre ++ x) :=
  ends_moves p (fun c hc => List.all_eq_true.1 hp c (not_not.1 hc)) h hstop

theorem not_mem_of_avoids {c : Char} {x : List Char} (hp : p.avoids c = true) (h : here.After s pre)
    (hstop : stop ∈ p.ends here) (hx : stop.After s (pre ++ x)) : c ∉ x := by
  have hcs : p.avoidsAll [c] = true := by simpa [avoidsAll] using hp
  obtain ⟨y, hy, hafter⟩ := ends_avoid hcs h hstop
  rw [List.append_cancel_left (hx.unique hafter)]
  exact fun hmem => hy c hmem (List.mem_singleton_self c)

/-- Whether no match is empty. -/
def consumes : Pattern → Bool
  | fail | one _ => true
  | seq p q => p.consumes || q.consumes
  | alt p q => p.consumes && q.consumes
  | named p => p.consumes
  | empty | run _ | lineStart | wordEdge | many _ => false

theorem ends_consumes (hp : p.consumes = true) (h : here.After s pre) (hstop : stop ∈ p.ends here) :
    stop.rest.length < here.rest.length := by
  induction p generalizing pre here stop with
  | fail => cases hstop
  | one cls =>
    obtain ⟨c, rest, hrest, -, rfl⟩ := mem_ends_one.1 hstop
    rw [hrest]
    exact Nat.lt_succ_self _
  | seq p q ihp ihq =>
    obtain ⟨mid, hmid, hstop⟩ := mem_ends_seq.1 hstop
    obtain ⟨x, hx⟩ := ends_after h hmid
    rcases Bool.or_eq_true_iff.1 hp with hp | hq
    · exact Nat.lt_of_le_of_lt (ends_shorter hx hstop) (ihp hp h hmid)
    · exact Nat.lt_of_lt_of_le (ihq hq hx hstop) (ends_shorter h hmid)
  | alt p q ihp ihq =>
    obtain ⟨hp, hq⟩ := Bool.and_eq_true_iff.1 hp
    rcases mem_ends_alt.1 hstop with hstop | hstop
    · exact ihp hp h hstop
    · exact ihq hq h hstop
  | named p ih =>
    obtain ⟨inner, hinner, rfl⟩ := List.mem_map.1 hstop
    have hlt := ih hp h hinner
    exact hlt
  | empty | run _ | lineStart | wordEdge | many _ => cases hp

theorem ne_nil_of_consumes {x : List Char} (hp : p.consumes = true) (h : here.After s pre)
    (hstop : stop ∈ p.ends here) (hx : stop.After s (pre ++ x)) : x ≠ [] := by
  rintro rfl
  have hlt := ends_consumes hp h hstop
  have htext := hx.text.trans h.text.symm
  rw [List.append_nil] at htext
  rw [List.append_cancel_left htext] at hlt
  exact Nat.lt_irrefl _ hlt

/-! ## Names -/

theorem takeBytes_append (m rest : List Char) : takeBytes (bytes m) (m ++ rest) = m := by
  induction m with
  | nil => cases rest <;> rfl
  | cons c m ih =>
    have hc := c.utf8Size_pos
    have hne : bytes (c :: m) ≠ 0 := by
      rw [bytes_cons]
      omega
    rw [List.cons_append, takeBytes, if_neg hne, bytes_cons, Nat.add_sub_cancel_left, ih]

/-- The text between two cursors. -/
theorem takeBytes_between {m : List Char} (h : here.After s pre)
    (hstop : stop.After s (pre ++ m)) :
    takeBytes (stop.offset - here.offset) here.rest = m := by
  have hrest : here.rest = m ++ stop.rest := by
    have htext := h.text.trans hstop.text.symm
    rw [List.append_assoc] at htext
    exact List.append_cancel_left htext
  rw [hrest, h.offset, hstop.offset, bytes_append, Nat.add_sub_cancel_left, takeBytes_append]

/-- A pattern whose named parts all reject a character. -/
def namesAvoid (c : Char) : Pattern → Bool
  | fail | empty | one _ | run _ | lineStart | wordEdge => true
  | seq p q | alt p q => p.namesAvoid c && q.namesAvoid c
  | many p => p.namesAvoid c
  | named p => p.avoids c

/-- A step that keeps the name or gives one whose characters satisfy `P`. -/
def NamesOver (P : Char → Prop) (s : List Char) (step : Cursor → List Cursor) : Prop :=
  ∀ ⦃pre here stop⦄, Cursor.After s pre here → stop ∈ step here →
    stop.name = here.name ∨ ∃ x, stop.name = some x ∧ ∀ c ∈ x, P c

theorem NamesOver.trans {P : Char → Prop} {step more : Cursor → List Cursor}
    (hmove : MovesOver (fun _ => True) s step) (hstep : NamesOver P s step)
    (hmore : NamesOver P s more) : NamesOver P s fun here => (step here).flatMap more := by
  intro pre here stop h hstop
  obtain ⟨mid, hmid, hstop⟩ := List.mem_flatMap.1 hstop
  obtain ⟨x, -, hx⟩ := hmove h hmid
  rcases hmore hx hstop with hname | hname
  · rw [hname]
    exact hstep h hmid
  · exact .inr hname

theorem repeatEnds_names {P : Char → Prop} {step : Cursor → List Cursor}
    (hmove : MovesOver (fun _ => True) s step) (hstep : NamesOver P s step) :
    NamesOver P s (repeatEnds step) := by
  intro pre here
  induction hlen : here.rest.length using Nat.strong_induction_on generalizing pre here with
  | _ n ih =>
    intro stop h hstop
    rw [repeatEnds] at hstop
    rcases List.mem_append.1 hstop with hstop | hstop
    · obtain ⟨next, hnext, hstop⟩ := List.mem_flatMap.1 hstop
      split at hstop
      · rename_i hlt
        obtain ⟨x, -, hx⟩ := hmove h hnext
        rcases ih _ (hlen ▸ hlt) rfl hx hstop with hname | hname
        · rw [hname]
          exact hstep h hnext
        · exact .inr hname
      · cases hstop
    · rw [List.mem_singleton.1 hstop]
      exact .inl rfl

/-- A name that a match gives has no character that the named parts reject. -/
theorem ends_names {P : Char → Prop} (p : Pattern) (hp : ∀ c, ¬ P c → p.namesAvoid c = true) :
    NamesOver P s p.ends := by
  have hmoves : ∀ q : Pattern, MovesOver (fun _ => True) s q.ends := fun q =>
    ends_moves q fun _ hc => absurd trivial hc
  induction p with
  | fail => intro pre here stop _ hstop; cases hstop
  | empty => intro pre here stop _ hstop; rw [List.mem_singleton.1 hstop]; exact .inl rfl
  | one cls =>
    intro pre here stop _ hstop
    obtain ⟨c, rest, -, -, rfl⟩ := mem_ends_one.1 hstop
    exact .inl rfl
  | run cls =>
    intro pre here stop h hstop
    obtain ⟨x, -, -, hname⟩ := ends_run h hstop
    exact .inl hname
  | lineStart =>
    intro pre here stop _ hstop
    obtain ⟨-, rfl⟩ := mem_ends_lineStart.1 hstop
    exact .inl rfl
  | wordEdge =>
    intro pre here stop _ hstop
    simp only [ends] at hstop
    split at hstop
    · rw [List.mem_singleton.1 hstop]
      exact .inl rfl
    · cases hstop
  | seq p q ihp ihq =>
    simp only [namesAvoid, Bool.and_eq_true] at hp
    exact (ihp fun c hc => (hp c hc).1).trans (hmoves p) (ihq fun c hc => (hp c hc).2)
  | alt p q ihp ihq =>
    simp only [namesAvoid, Bool.and_eq_true] at hp
    intro pre here stop h hstop
    rcases mem_ends_alt.1 hstop with hstop | hstop
    · exact ihp (fun c hc => (hp c hc).1) h hstop
    · exact ihq (fun c hc => (hp c hc).2) h hstop
  | many p ih => exact repeatEnds_names (hmoves p) (ih hp)
  | named p _ =>
    intro pre here stop h hstop
    obtain ⟨inner, hinner, rfl⟩ := List.mem_map.1 hstop
    obtain ⟨x, hx, hafter⟩ := ends_moves p hp h hinner
    exact .inr ⟨x, congrArg some (takeBytes_between h hafter), hx⟩

/-- Whether every match gives a name. -/
def givesName : Pattern → Bool
  | fail | named _ => true
  | seq p q => p.givesName || q.givesName
  | alt p q => p.givesName && q.givesName
  | empty | one _ | run _ | lineStart | wordEdge | many _ => false

/-- A name once given is replaced at most. -/
theorem name_kept (h : here.After s pre) (hstop : stop ∈ p.ends here)
    (hname : here.name.isSome = true) : stop.name.isSome = true := by
  rcases ends_names (P := fun _ => True) p (fun _ hc => absurd trivial hc) h hstop with
    hsame | ⟨x, hx, -⟩
  · rwa [hsame]
  · rw [hx, Option.isSome_some]

theorem ends_name (hp : p.givesName = true) (h : here.After s pre) (hstop : stop ∈ p.ends here) :
    stop.name.isSome = true := by
  induction p generalizing pre here stop with
  | fail => cases hstop
  | seq p q ihp ihq =>
    obtain ⟨mid, hmid, hstop⟩ := mem_ends_seq.1 hstop
    obtain ⟨x, hx⟩ := ends_after h hmid
    rcases Bool.or_eq_true_iff.1 hp with hp | hq
    · exact name_kept hx hstop (ihp hp h hmid)
    · exact ihq hq hx hstop
  | alt p q ihp ihq =>
    obtain ⟨hp, hq⟩ := Bool.and_eq_true_iff.1 hp
    rcases mem_ends_alt.1 hstop with hstop | hstop
    · exact ihp hp h hstop
    · exact ihq hq h hstop
  | named p _ =>
    obtain ⟨inner, -, rfl⟩ := List.mem_map.1 hstop
    rfl
  | empty | one _ | run _ | lineStart | wordEdge | many _ => cases hp

/-- Whether the names that a match gives are never empty. -/
def fillsNames : Pattern → Bool
  | fail | empty | one _ | run _ | lineStart | wordEdge => true
  | seq p q | alt p q => p.fillsNames && q.fillsNames
  | named p => p.consumes
  | many _ => false

theorem ends_filled (hp : p.fillsNames = true) (h : here.After s pre)
    (hstop : stop ∈ p.ends here) (hname : here.name ≠ some []) : stop.name ≠ some [] := by
  induction p generalizing pre here stop with
  | fail => cases hstop
  | empty => rwa [List.mem_singleton.1 hstop]
  | one cls =>
    obtain ⟨c, rest, -, -, rfl⟩ := mem_ends_one.1 hstop
    exact hname
  | run cls =>
    obtain ⟨x, -, -, hsame⟩ := ends_run h hstop
    rwa [hsame]
  | lineStart =>
    obtain ⟨-, rfl⟩ := mem_ends_lineStart.1 hstop
    exact hname
  | wordEdge =>
    simp only [ends] at hstop
    split at hstop
    · rwa [List.mem_singleton.1 hstop]
    · cases hstop
  | seq p q ihp ihq =>
    simp only [fillsNames, Bool.and_eq_true] at hp
    obtain ⟨mid, hmid, hstop⟩ := mem_ends_seq.1 hstop
    obtain ⟨x, hx⟩ := ends_after h hmid
    exact ihq hp.2 hx hstop (ihp hp.1 h hmid hname)
  | alt p q ihp ihq =>
    simp only [fillsNames, Bool.and_eq_true] at hp
    rcases mem_ends_alt.1 hstop with hstop | hstop
    · exact ihp hp.1 h hstop hname
    · exact ihq hp.2 h hstop hname
  | named p _ =>
    obtain ⟨inner, hinner, rfl⟩ := List.mem_map.1 hstop
    obtain ⟨x, hx⟩ := ends_after h hinner
    rw [takeBytes_between h hx]
    exact fun hnil => ne_nil_of_consumes hp h hinner hx (Option.some.inj hnil)
  | many p => cases hp

/-! ## Matches in a text -/

/-- The match at a place between two parts of a text. -/
def foundAt (p : Pattern) (pre rest : List Char) : Option Found :=
  (p.matchAt (.between pre rest)).map fun stop => ⟨bytes pre, stop.offset, stop.name⟩

theorem foundAt_offset {rest : List Char} {f : Found} (h : p.foundAt pre rest = some f) :
    f.offset = bytes pre := by
  obtain ⟨stop, -, rfl⟩ := Option.map_eq_some_iff.1 h
  rfl

theorem foundAt_way {rest : List Char} {f : Found} (h : p.foundAt pre rest = some f) :
    ∃ stop ∈ p.ends (.between pre rest), f.stop = stop.offset ∧ f.name = stop.name := by
  obtain ⟨stop, hstop, rfl⟩ := Option.map_eq_some_iff.1 h
  exact ⟨stop, List.mem_of_head? hstop, rfl, rfl⟩

theorem foundAt_le {rest : List Char} {f : Found} (h : p.foundAt pre rest = some f) :
    f.offset ≤ f.stop := by
  obtain ⟨stop, hstop, heq, -⟩ := foundAt_way h
  obtain ⟨x, hx⟩ := ends_after (Cursor.after_between pre rest) hstop
  rw [foundAt_offset h, heq, hx.offset, bytes_append]
  omega

/-- The matches from a place on, when none may start before `floor`. -/
def scan (p : Pattern) (floor : Nat) (pre rest : List Char) : List Found :=
  p.findFrom floor pre.getLast? (bytes pre) rest

theorem scan_nil (floor : Nat) :
    p.scan floor pre [] = if bytes pre < floor then [] else (p.foundAt pre []).toList := by
  simp only [scan, findFrom, foundAt, Cursor.between]
  split
  · rfl
  · cases p.matchAt ⟨pre.getLast?, bytes pre, [], none⟩ <;> rfl

theorem scan_cons (floor : Nat) (c : Char) (rest : List Char) :
    p.scan floor pre (c :: rest) =
      match if bytes pre < floor then none else p.foundAt pre (c :: rest) with
      | some f => f :: p.scan f.stop (pre ++ [c]) rest
      | none => p.scan floor (pre ++ [c]) rest := by
  have hlast : (pre ++ [c]).getLast? = some c := by simp
  have hbytes : bytes (pre ++ [c]) = bytes pre + c.utf8Size := by simp
  simp only [scan, findFrom, foundAt, Cursor.between, hlast, hbytes]
  split
  · rfl
  · cases p.matchAt ⟨pre.getLast?, bytes pre, c :: rest, none⟩ <;> rfl

/-- A match found is the match at its place. -/
theorem mem_scan {floor : Nat} {rest : List Char} {f : Found} (h : f ∈ p.scan floor pre rest) :
    ∃ x y, rest = x ++ y ∧ p.foundAt (pre ++ x) y = some f ∧ floor ≤ f.offset := by
  induction rest generalizing pre floor with
  | nil =>
    rw [scan_nil] at h
    split at h
    · cases h
    · rename_i hfloor
      have hf := Option.mem_toList.1 h
      refine ⟨[], [], rfl, by rwa [List.append_nil], ?_⟩
      rw [foundAt_offset hf]
      omega
  | cons c rest ih =>
    rw [scan_cons] at h
    split at h
    · rename_i g hg
      obtain ⟨hfloor, hg⟩ : ¬ bytes pre < floor ∧ p.foundAt pre (c :: rest) = some g := by
        split at hg
        · cases hg
        · exact ⟨‹_›, hg⟩
      rcases List.mem_cons.1 h with rfl | h
      · refine ⟨[], c :: rest, rfl, by rwa [List.append_nil], ?_⟩
        rw [foundAt_offset hg]
        omega
      · obtain ⟨x, y, rfl, hf, hle⟩ := ih h
        refine ⟨c :: x, y, rfl, by simpa using hf, ?_⟩
        have := foundAt_le hg
        have := foundAt_offset hg
        omega
    · obtain ⟨x, y, rfl, hf, hle⟩ := ih h
      exact ⟨c :: x, y, rfl, by simpa using hf, hle⟩

/-- Matches do not overlap, and each starts after the one before it. -/
theorem scan_pairwise (floor : Nat) (pre rest : List Char) :
    (p.scan floor pre rest).Pairwise fun f g => f.offset < g.offset ∧ f.stop ≤ g.offset := by
  induction rest generalizing pre floor with
  | nil =>
    rw [scan_nil]
    split
    · exact .nil
    · cases p.foundAt pre [] <;> simp
  | cons c rest ih =>
    rw [scan_cons]
    split
    · rename_i f hf
      have hat : p.foundAt pre (c :: rest) = some f := by
        split at hf
        · cases hf
        · exact hf
      refine List.pairwise_cons.2 ⟨fun g hg => ?_, ih _ _⟩
      obtain ⟨x, y, -, hgat, hle⟩ := mem_scan hg
      refine ⟨?_, hle⟩
      have hc := c.utf8Size_pos
      rw [foundAt_offset hat, foundAt_offset hgat]
      simp only [bytes_append, bytes_cons, bytes_nil]
      omega
    · exact ih _ _

/-- A place where the pattern matches is skipped only inside of a match. -/
theorem scan_or_swallowed {floor : Nat} {x y : List Char} {f : Found}
    (h : p.foundAt (pre ++ x) y = some f) (hfloor : floor ≤ f.offset) :
    f ∈ p.scan floor pre (x ++ y) ∨
      ∃ g ∈ p.scan floor pre (x ++ y), g.offset < f.offset ∧ f.offset < g.stop := by
  induction x generalizing pre floor with
  | nil =>
    rw [List.append_nil] at h
    have hopen : ¬ bytes pre < floor := by
      rw [foundAt_offset h] at hfloor
      omega
    refine .inl ?_
    cases y with
    | nil => rw [List.append_nil, scan_nil, if_neg hopen, h]; exact List.mem_singleton_self _
    | cons c rest =>
      rw [List.nil_append, scan_cons, if_neg hopen, h]
      exact List.mem_cons_self
  | cons c x ih =>
    have hstep : p.foundAt ((pre ++ [c]) ++ x) y = some f := by simpa using h
    rw [List.cons_append, scan_cons]
    split
    · rename_i g hg
      have hat : p.foundAt pre (c :: (x ++ y)) = some g := by
        split at hg
        · cases hg
        · exact hg
      by_cases hlt : f.offset < g.stop
      · refine .inr ⟨g, List.mem_cons_self, ?_, hlt⟩
        have hc := c.utf8Size_pos
        rw [foundAt_offset hat, foundAt_offset h]
        simp only [bytes_append, bytes_cons]
        omega
      · rcases ih hstep (Nat.le_of_not_lt hlt) with hmem | ⟨k, hk, hbetween⟩
        · exact .inl (List.mem_cons_of_mem _ hmem)
        · exact .inr ⟨k, List.mem_cons_of_mem _ hk, hbetween⟩
    · exact ih hstep hfloor

theorem findAll_eq_scan (p : Pattern) (s : List Char) : p.findAll s = p.scan 0 [] s := rfl

/-- **The matches in a text are matches at places of it.** -/
theorem mem_findAll {f : Found} (h : f ∈ p.findAll s) :
    ∃ pre rest, s = pre ++ rest ∧ p.foundAt pre rest = some f := by
  obtain ⟨x, y, hs, hf, -⟩ := mem_scan (findAll_eq_scan p s ▸ h)
  exact ⟨x, y, hs, hf⟩

theorem findAll_pairwise (p : Pattern) (s : List Char) :
    (p.findAll s).Pairwise fun f g => f.offset < g.offset ∧ f.stop ≤ g.offset :=
  scan_pairwise 0 [] s

/-- A match is over before the next one starts. -/
theorem stop_le_of_offset_lt {f g : Found} (hf : f ∈ p.findAll s) (hg : g ∈ p.findAll s)
    (hlt : f.offset < g.offset) : f.stop ≤ g.offset := by
  have hpair := findAll_pairwise p s
  refine List.Pairwise.forall_of_forall_of_flip
    (R := fun f g : Found => f.offset < g.offset → f.stop ≤ g.offset) ?_ ?_ ?_ hf hg hlt
  · exact fun f _ h => absurd h (Nat.lt_irrefl _)
  · exact hpair.imp fun h _ => h.2
  · exact hpair.imp fun h h' => absurd h' (Nat.lt_asymm h.1)

/-- **A place where a pattern matches is skipped only inside of a match.** -/
theorem found_or_swallowed {rest : List Char} {f : Found} (h : p.foundAt pre rest = some f) :
    f ∈ p.findAll (pre ++ rest) ∨
      ∃ g ∈ p.findAll (pre ++ rest), g.offset < f.offset ∧ f.offset < g.stop := by
  rw [findAll_eq_scan]
  exact scan_or_swallowed (by simpa using h) (Nat.zero_le _)

end Pattern

end CodeIndex.Text
