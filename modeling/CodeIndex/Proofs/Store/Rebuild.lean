import CodeIndex.Store.Write

/-!
Making the full-text indexes new.

They are made new one after another, each by a statement of its own, and the first one that is not there ends
this.

* `rebuildIndex_indexed` and `rebuildIndex_missing` are what comes of it on a store that may be written, and
  `rebuildIndex_readOnly` on one that may not;
* `Store.rebuiltBefore` is what is left where one of the indexes is missing: those before it are new.
-/
namespace CodeIndex.Store

variable {s : Store} {i : TextIndex}

/-- The store with the full-text indexes made new that are made so before a given one. -/
def rebuiltBefore (s : Store) (i : TextIndex) : Store :=
  (TextIndex.all.takeWhile (· != i)).foldl rebuilt s

/-! ## One index -/

theorem readOnly_rebuilt (s : Store) (i : TextIndex) : (s.rebuilt i).readOnly = s.readOnly := by
  cases i <;> rfl

/-- Making an index new that is there leaves the same indexes there. -/
theorem hasIndex_rebuilt (h : s.hasIndex i = true) (j : TextIndex) :
    (s.rebuilt i).hasIndex j = s.hasIndex j := by
  cases i <;> cases j <;> first | rfl | exact h.symm

theorem rebuild_indexed (hw : s.readOnly = false) (h : s.hasIndex i = true) :
    rebuild i s = .ok (s.rebuilt i) := by
  simp [rebuild, writing, h, hw]

theorem rebuild_missing (h : s.hasIndex i = false) :
    rebuild i s = .error (.database .rebuildIndex (.missingTable i.table)) := by
  simp [rebuild, h]

theorem rebuild_ok {s' : Store} (h : rebuild i s = .ok s') : s' = s.rebuilt i := by
  rw [rebuild, writing] at h
  split at h
  · split at h
    · cases h
    · exact (Except.ok.inj h).symm
  · cases h

/-! ## One after another -/

/-- What each statement keeps is kept by all of them, wherever they end. -/
theorem inTurn_induction {P : Store → Prop} {statements : List Statement}
    (hstep : ∀ statement ∈ statements, ∀ s s', P s → statement s = .ok s' → P s') (hs : P s) :
    P (inTurn statements s).2 := by
  induction statements generalizing s with
  | nil => exact hs
  | cons statement statements ih =>
    rw [inTurn]
    cases hstatement : statement s with
    | ok s' =>
      refine ih (fun f hf => hstep f (List.mem_cons_of_mem _ hf)) ?_
      exact hstep statement List.mem_cons_self s s' hs hstatement
    | error failure => exact hs

theorem hasIndex_foldl_rebuilt (indexes : List TextIndex) (h : ∀ i ∈ indexes, s.hasIndex i = true)
    (j : TextIndex) : (indexes.foldl rebuilt s).hasIndex j = s.hasIndex j := by
  induction indexes generalizing s with
  | nil => rfl
  | cons i indexes ih =>
    have hi := h i List.mem_cons_self
    rw [List.foldl_cons, ih fun k hk => ?_, hasIndex_rebuilt hi]
    rw [hasIndex_rebuilt hi]
    exact h k (List.mem_cons_of_mem i hk)

/-- Indexes that are there are made new, whatever statements come after. -/
theorem inTurn_rebuild (indexes : List TextIndex) (rest : List Statement) (hw : s.readOnly = false)
    (h : ∀ i ∈ indexes, s.hasIndex i = true) :
    inTurn (indexes.map rebuild ++ rest) s = inTurn rest (indexes.foldl rebuilt s) := by
  induction indexes generalizing s with
  | nil => rfl
  | cons i indexes ih =>
    have hi := h i List.mem_cons_self
    rw [List.map_cons, List.cons_append, inTurn, rebuild_indexed hw hi]
    refine ih ((readOnly_rebuilt s i).trans hw) fun j hj => ?_
    rw [hasIndex_rebuilt hi]
    exact h j (List.mem_cons_of_mem i hj)

theorem rebuildIndex_indexed (hw : s.readOnly = false) (h : s.missingIndex? = none) :
    s.rebuildIndex = (.ok (), s.reindexed) := by
  have hall : ∀ i ∈ TextIndex.all, s.hasIndex i = true := by
    simpa [missingIndex?, List.find?_eq_none] using h
  rw [rebuildIndex, ← List.append_nil (List.map _ _), inTurn_rebuild _ _ hw hall]
  rfl

theorem rebuildIndex_missing (hw : s.readOnly = false) (h : s.missingIndex? = some i) :
    s.rebuildIndex =
      (.error (.database .rebuildIndex (.missingTable i.table)), s.rebuiltBefore i) := by
  obtain ⟨hmissing, before, after, hall, hthere⟩ := List.find?_eq_some_iff_append.1 h
  have hthere : ∀ j ∈ before, s.hasIndex j = true := by simpa using hthere
  have hmissing : s.hasIndex i = false := by simpa using hmissing
  have hbefore : TextIndex.all.takeWhile (· != i) = before := by
    rw [hall, List.takeWhile_append_of_pos fun j hj => ?_]
    · simp
    · refine bne_iff_ne.2 fun hji => ?_
      rw [← hji, hthere j hj] at hmissing
      cases hmissing
  have hstill : (before.foldl rebuilt s).hasIndex i = false :=
    (hasIndex_foldl_rebuilt before hthere i).trans hmissing
  rw [rebuildIndex, hall, List.map_append, inTurn_rebuild _ _ hw hthere, List.map_cons, inTurn,
    rebuild_missing hstill, rebuiltBefore, hbefore]

theorem rebuildIndex_readOnly (hw : s.readOnly = true) :
    ∃ failure, s.rebuildIndex = (.error failure, s) := by
  have hfirst : ∃ failure, rebuild .chunks s = .error failure := by
    rw [rebuild, writing, if_pos hw]
    split <;> exact ⟨_, rfl⟩
  obtain ⟨failure, hfailure⟩ := hfirst
  exact ⟨failure, by rw [rebuildIndex, TextIndex.all, List.map_cons, inTurn, hfailure]⟩

end CodeIndex.Store
