import CodeIndex.Proofs.Source.Declaration
import CodeIndex.Proofs.Text.Cut

/-!
Headers of declarations in a piece of a text.

A declaration that is found in the whole text is found in a piece that has all of its match, if the
pattern is one of headers (`Header`): such a pattern matches at the start of a line, to a visible
character, and its matches over more than one line stop together when one starts inside of another.
Then a match of the piece that would swallow a header would have swallowed it in the whole text too
(`found_in_piece`).
-/
namespace CodeIndex.Declaration

open Text Text.Pattern

/-- Where one match over a line end starts inside of another, at the start of a line, both stop at one
place. -/
def Settled (p : Pattern) : Prop :=
  ∀ ⦃s pre d m n : List Char⦄ ⦃here stop inner innerStop : Cursor⦄,
    here.After s pre → stop ∈ p.ends here → stop.After s (pre ++ (d ++ m)) →
      inner.After s (pre ++ d) → innerStop ∈ p.ends inner → innerStop.After s (pre ++ d ++ n) →
        m ≠ [] → '\n' ∈ d ++ m → '\n' ∈ n → n = m

/-- A match that moves on stops after a character that is no line end. -/
def Visible (p : Pattern) : Prop :=
  ∀ ⦃s pre m : List Char⦄ ⦃here stop : Cursor⦄, here.After s pre → stop ∈ p.ends here →
    stop.After s (pre ++ m) → ∃ c, m.getLast? = some c ∧ c ≠ '\n' ∧ c ≠ '\r'

/-- A pattern of headers. -/
structure Header (p : Pattern) : Prop where
  start : ∃ q, p = seq lineStart q
  cut : p.cuttable = true
  visible : Visible p
  settled : Settled p

variable {p : Pattern} {s pre body tail rest x y m : List Char} {f g : Found} {stop : Cursor}

theorem Header.atLineStart (hp : Header p) {here : Cursor} (h : here.After s pre)
    (hstop : stop ∈ p.ends here) : AtLineStart pre := by
  obtain ⟨q, rfl⟩ := hp.start
  exact (atLineStart_of_ends h hstop).1

/-- Over the text of a match that has a line end there is a match found. -/
theorem Header.covered (hp : Header p) (hg : p.foundAt pre rest = some g)
    (hstop : stop ∈ p.ends (.between pre rest)) (hm : stop.After (pre ++ rest) (pre ++ m))
    (hlong : '\n' ∈ m) (hgstop : g.stop = bytes (pre ++ m)) :
    ∃ k ∈ p.findAll (pre ++ rest), k.offset ≤ bytes pre ∧ k.stop = bytes (pre ++ m) := by
  rcases found_or_swallowed hg with hmem | ⟨k, hk, hlt, hgt⟩
  · exact ⟨g, hmem, Nat.le_of_eq (foundAt_offset hg), hgstop⟩
  · -- the match that swallows this one stops where this one does
    obtain ⟨pre₀, rest₀, hs, hat⟩ := mem_findAll hk
    obtain ⟨stop₀, hstop₀, hkstop, -⟩ := foundAt_way hat
    obtain ⟨m₀, hm₀⟩ := ends_after (Cursor.after_between pre₀ rest₀) hstop₀
    rw [foundAt_offset hat, foundAt_offset hg] at hlt
    obtain ⟨d, hd, rfl, -⟩ := exists_of_bytes_lt hs.symm hlt
    rw [foundAt_offset hg, hkstop, hm₀.offset] at hgt
    obtain ⟨e, he, hme, -⟩ := exists_of_bytes_lt (hs.trans hm₀.text.symm) hgt
    have hm₀' : m₀ = d ++ e := by
      rw [List.append_assoc] at hme
      exact List.append_cancel_left hme
    have hline : d.getLast? = some '\n' :=
      newline_of_atLineStart (hp.atLineStart (Cursor.after_between _ rest) hstop) hd
    have hnewline : '\n' ∈ d ++ e := List.mem_append_left _ (List.mem_of_getLast? hline)
    have hsame : m = e :=
      hp.settled (hs ▸ Cursor.after_between pre₀ rest₀) hstop₀ (hs ▸ hm₀' ▸ hm₀)
        (Cursor.after_between _ rest) hstop hm he hnewline hlong
    refine ⟨k, hk, Nat.le_of_lt ?_, ?_⟩
    · rw [foundAt_offset hat]
      exact hlt
    · rw [hkstop, hm₀.offset, hsame, hme]

theorem Header.inside (hp : Header p) {here : Cursor} {from₀ : List Char}
    (h : here.After (pre ++ (body ++ tail)) from₀) (hstop : stop ∈ p.ends here)
    (hbound : stop.offset ≤ bytes (pre ++ body)) : inside tail stop = true := by
  obtain ⟨m, hm⟩ := ends_after h hstop
  obtain ⟨c, hlast, -, hc⟩ := hp.visible h hstop hm
  have htext : (from₀ ++ m) ++ stop.rest = (pre ++ body) ++ tail := by
    rw [hm.text, List.append_assoc]
  rw [hm.offset] at hbound
  obtain ⟨d, -, hrest⟩ := exists_of_bytes_le htext hbound
  refine inside_of_not_torn (by simp [hrest]) ?_
  rintro ⟨hbefore, -⟩
  rw [hm.before, List.getLast?_append, hlast] at hbefore
  exact hc (Option.some.inj hbefore)

theorem Header.covered_whole (hp : Header p) (hpiece : Piece pre body tail) (hbody : body = x ++ y)
    (hxy : ¬ Torn x y) (h : p.foundAt (dropReturns x) (dropReturns y) = some f) :
    ∃ x' y', body = x' ++ y' ∧ ¬ Torn x' y' ∧ f.stop = bytes (dropReturns x') ∧
      ∀ d, x' = x ++ d → '\n' ∈ d → ∃ k ∈ p.findAll (pre ++ (body ++ tail)),
        k.offset ≤ bytes (pre ++ x) ∧ k.stop = bytes (pre ++ x') := by
  obtain ⟨x', y', name, hbody', hxy', hfstop, hway, hfirst⟩ :=
    foundAt_whole hpiece hp.cut hbody hxy h
  refine ⟨x', y', hbody', hxy', hfstop, ?_⟩
  rintro d rfl hlong
  have hs : pre ++ (body ++ tail) = (pre ++ x) ++ (y ++ tail) := by simp [hbody]
  have hplace : pre ++ (x ++ d) = (pre ++ x) ++ d := (List.append_assoc pre x d).symm
  rw [hs, hplace]
  have hhere := Cursor.after_between (pre ++ x) (y ++ tail)
  have hafter : (wholeCursor pre tail (x ++ d) y' name).After ((pre ++ x) ++ (y ++ tail))
      ((pre ++ x) ++ d) := hs ▸ hplace ▸ after_wholeCursor hbody'
  obtain ⟨stop, hstop⟩ : ∃ stop, p.matchAt (.between (pre ++ x) (y ++ tail)) = some stop := by
    cases hways : p.ends (.between (pre ++ x) (y ++ tail)) with
    | nil => rw [hways] at hway; cases hway
    | cons stop _ => exact ⟨stop, by rw [matchAt, hways]; rfl⟩
  have hmem := List.mem_of_head? hstop
  obtain ⟨n, hn⟩ := ends_after hhere hmem
  -- the preferred way stops where the match of the piece does
  have hsame : n = d := by
    by_cases hline : '\n' ∈ n
    · refine (hp.settled (d := []) hhere hmem hn ?_ hway ?_ ?_ hline hlong).symm
      · rwa [List.append_nil]
      · rwa [List.append_nil]
      · exact List.ne_nil_of_mem hline
    · have hshort : bytes n ≤ bytes d := by
        have htext : ((pre ++ x) ++ n) ++ stop.rest =
            ((pre ++ x) ++ d) ++ (wholeCursor pre tail (x ++ d) y' name).rest :=
          hn.text.trans hafter.text.symm
        rw [List.append_assoc, List.append_assoc _ d] at htext
        rcases List.append_eq_append_iff.1 (List.append_cancel_left htext) with
          ⟨t, rfl, -⟩ | ⟨t, rfl, -⟩
        · rw [bytes_append]
          omega
        · exact absurd (List.mem_append_left _ hlong) hline
      have hbound : stop.offset ≤ bytes (pre ++ body) := by
        rw [hn.offset, hbody']
        simp only [bytes_append]
        omega
      have hinside := hp.inside (hs ▸ hhere) hmem hbound
      rw [hfirst stop hstop hinside] at hn
      exact List.append_cancel_left (hn.unique hafter)
  have hg : p.foundAt (pre ++ x) (y ++ tail) =
      some ⟨bytes (pre ++ x), stop.offset, stop.name⟩ := by
    rw [foundAt, hstop]
    rfl
  exact hp.covered hg hway hafter hlong (hsame ▸ hn.offset)

/-- **A header whose match is in a piece of the text is found in the piece.** -/
theorem Header.found_in_piece (hp : Header p) (hpiece : Piece pre body tail)
    (hf : f ∈ p.findAll (pre ++ (body ++ tail))) (hfirst : bytes pre ≤ f.offset)
    (hlast : f.stop ≤ bytes (pre ++ body)) :
    ∃ g ∈ p.findAll (dropReturns body), g.name = f.name := by
  obtain ⟨pre₀, rest₀, hs, hat⟩ := mem_findAll hf
  have hoffset := foundAt_offset hat
  obtain ⟨x, rfl, hrest⟩ := exists_of_bytes_le hs (hoffset ▸ hfirst)
  obtain ⟨y, hy, rfl⟩ : ∃ y, pre ++ body = pre ++ x ++ y ∧ rest₀ = y ++ tail := by
    refine exists_of_bytes_le (hs.symm.trans (List.append_assoc pre body tail).symm) ?_
    exact hoffset ▸ Nat.le_trans (foundAt_le hat) hlast
  have hbody : body = x ++ y := by
    rw [List.append_assoc] at hy
    exact List.append_cancel_left hy
  have hhere : Cursor.After (pre ++ (body ++ tail)) (pre ++ x) (.between (pre ++ x) (y ++ tail)) :=
    hs ▸ Cursor.after_between _ _
  obtain ⟨stop, hstop, rfl⟩ := Option.map_eq_some_iff.1 hat
  have hmem := List.mem_of_head? hstop
  have hline := hp.atLineStart hhere hmem
  have hxy : ¬ Torn x y := by
    rintro ⟨hreturn, -⟩
    have hx : x ≠ [] := by
      rintro rfl
      cases hreturn
    rw [newline_of_atLineStart hline hx] at hreturn
    cases hreturn
  obtain ⟨g, hg, hname⟩ := foundAt_cut hpiece hp.cut hbody hxy hstop (hp.inside hhere hmem hlast)
  rw [hbody, dropReturns_append hxy]
  rcases found_or_swallowed hg with hg | ⟨k, hk, hlt, hgt⟩
  · exact ⟨g, hg, hname⟩
  · -- what swallows the header in the piece covers it in the whole text
    exfalso
    rw [← dropReturns_append hxy, ← hbody] at hk
    obtain ⟨a, b, hab, hkat⟩ := mem_findAll hk
    obtain ⟨u, v, huv, hclean, rfl, rfl⟩ := split_of_dropReturns hab
    obtain ⟨u', v', huv', hclean', hkstop, hcovered⟩ := hp.covered_whole hpiece huv hclean hkat
    rw [foundAt_offset hkat, foundAt_offset hg] at hlt
    rw [foundAt_offset hg, hkstop] at hgt
    obtain ⟨d, hd, rfl⟩ := exists_of_dropReturns_lt huv hbody hxy hlt
    obtain ⟨e, he, rfl⟩ := exists_of_dropReturns_lt hbody huv' hclean' hgt
    rw [← List.append_assoc] at hline
    have hnewline : '\n' ∈ d ++ e :=
      List.mem_append_left _ (List.mem_of_getLast? (newline_of_atLineStart hline hd))
    obtain ⟨l, hl, hle, hlstop⟩ := hcovered (d ++ e) (List.append_assoc _ _ _) hnewline
    have := bytes_pos hd
    have := bytes_pos he
    have hstops := stop_le_of_offset_lt hl hf
    rw [hlstop] at hstops
    simp only [bytes_append] at hstops hle
    omega

end CodeIndex.Declaration
