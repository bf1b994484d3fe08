import CodeIndex.Project.Path
import Mathlib.Data.List.Basic

/-!
Keys of paths.

A path as it is kept in the index is read as the same components again (`components_join`), and so it
is kept as it is (`key_key`) and tells all paths apart that have different components
(`key_eq_key_iff`).
-/
namespace CodeIndex.Path

/-! ## Parts between slashes -/

theorem splitSlash_ne_nil (s : List Char) : splitSlash s ≠ [] := by
  cases s with
  | nil => simp [splitSlash]
  | cons c s =>
    rw [splitSlash]
    split
    · simp
    · split <;> simp

theorem splitSlash_of_not_mem {s : List Char} (h : '/' ∉ s) : splitSlash s = [s] := by
  induction s with
  | nil => rfl
  | cons c s ih =>
    rw [List.mem_cons, not_or] at h
    simp only [splitSlash, if_neg (Ne.symm h.1), ih h.2]

theorem splitSlash_append {s : List Char} (h : '/' ∉ s) (t : List Char) :
    splitSlash (s ++ '/' :: t) = s :: splitSlash t := by
  induction s with
  | nil => simp [splitSlash]
  | cons c s ih =>
    rw [List.mem_cons, not_or] at h
    simp only [List.cons_append, splitSlash, if_neg (Ne.symm h.1), ih h.2]

theorem not_mem_splitSlash {s part : List Char} (h : part ∈ splitSlash s) : '/' ∉ part := by
  induction s generalizing part with
  | nil => simp_all [splitSlash]
  | cons c s ih =>
    rw [splitSlash] at h
    split at h
    · rcases List.mem_cons.1 h with rfl | h
      · simp
      · exact ih h
    · rename_i hc
      split at h
      · rw [List.mem_singleton.1 h]
        simpa using Ne.symm hc
      · rename_i first parts hparts
        rw [hparts] at ih
        rcases List.mem_cons.1 h with rfl | h
        · simpa [Ne.symm hc] using ih List.mem_cons_self
        · exact ih (List.mem_cons_of_mem _ h)

/-! ## Components -/

/-- A component that may stand anywhere in a path: it is read from its own text. -/
def Component.Inner (c : Component) : Prop := component? c.text = some c ∧ '/' ∉ c.text

theorem inner_of_component? {part : List Char} {c : Component} (hpart : '/' ∉ part)
    (h : component? part = some c) : c.Inner := by
  have htext : c.text = part := by
    unfold component? at h
    split at h
    · cases h
    · split at h
      · rename_i hparent
        cases h
        exact hparent.symm
      · cases h
        rfl
  exact ⟨htext ▸ h, htext ▸ hpart⟩

theorem Component.Inner.text_ne {c : Component} (h : c.Inner) : c.text ≠ [] ∧ c.text ≠ ['.'] := by
  refine ⟨fun hnil => ?_, fun hdot => ?_⟩
  · have := h.1
    rw [hnil] at this
    cases this
  · have := h.1
    rw [hdot] at this
    cases this

theorem filterMap_component? {cs : List Component} (h : ∀ c ∈ cs, c.Inner) :
    (cs.map (·.text)).filterMap component? = cs := by
  induction cs with
  | nil => rfl
  | cons c cs ih =>
    rw [List.map_cons, List.filterMap_cons_some (h c List.mem_cons_self).1,
      ih fun x hx => h x (List.mem_cons_of_mem _ hx)]

theorem join_cons_cons (c d : Component) (cs : List Component) :
    join (c :: d :: cs) = c.text ++ '/' :: join (d :: cs) := by
  simp [join, List.intercalate_cons_cons]

theorem splitSlash_join {c : Component} {cs : List Component} (hc : '/' ∉ c.text)
    (h : ∀ x ∈ cs, x.Inner) : splitSlash (join (c :: cs)) = (c :: cs).map (·.text) := by
  induction cs generalizing c with
  | nil => simpa [join] using splitSlash_of_not_mem hc
  | cons d cs ih =>
    rw [join_cons_cons, splitSlash_append hc, ih (h d List.mem_cons_self).2
      fun x hx => h x (List.mem_cons_of_mem _ hx)]
    rfl

/-- The components of a path: at its start it may have the root or `.`, and the rest are inner. -/
theorem components_shape (path : List Char) :
    ∃ rest, (∀ c ∈ rest, Component.Inner c) ∧
      (components path = rest ∨ components path = .root :: rest ∨
        components path = .current :: rest) := by
  obtain ⟨first, parts, hparts⟩ := List.exists_cons_of_ne_nil (splitSlash_ne_nil path)
  have hinner : ∀ c ∈ parts.filterMap component?, Component.Inner c := by
    intro c hc
    obtain ⟨part, hpart, hsome⟩ := List.mem_filterMap.1 hc
    refine inner_of_component? (not_mem_splitSlash (s := path) ?_) hsome
    rw [hparts]
    exact List.mem_cons_of_mem _ hpart
  simp only [components, hparts]
  split
  · exact ⟨_, hinner, .inr (.inl rfl)⟩
  · split
    · exact ⟨_, hinner, .inr (.inr rfl)⟩
    · refine ⟨_, ?_, .inl rfl⟩
      intro c hc
      rcases List.mem_append.1 hc with hc | hc
      · refine inner_of_component? (not_mem_splitSlash (s := path) ?_) (Option.mem_toList.1 hc)
        rw [hparts]
        exact List.mem_cons_self
      · exact hinner c hc

theorem components_join_root {rest : List Component} (h : ∀ c ∈ rest, c.Inner) :
    components (join (.root :: rest)) = .root :: rest := by
  cases rest with
  | nil => rfl
  | cons c cs =>
    have hsplit : splitSlash (join (.root :: c :: cs)) = [] :: [] :: (c :: cs).map (·.text) := by
      rw [join_cons_cons, ← splitSlash_join (h c List.mem_cons_self).2
        fun x hx => h x (List.mem_cons_of_mem _ hx)]
      simp [Component.text, splitSlash]
    have hhead : (join (.root :: c :: cs)).head? = some '/' := by
      rw [join_cons_cons]
      rfl
    simp only [components, hsplit, hhead, if_true]
    rw [List.filterMap_cons_none (by rfl), filterMap_component? h]

theorem components_join_current {rest : List Component} (h : ∀ c ∈ rest, c.Inner) :
    components (join (.current :: rest)) = .current :: rest := by
  have hhead : (join (.current :: rest)).head? ≠ some '/' := by
    cases rest with
    | nil => decide
    | cons c cs => rw [join_cons_cons]; simp [Component.text]
  simp only [components, splitSlash_join (c := .current) (by decide) h, List.map_cons, if_neg hhead]
  rw [if_pos (show Component.current.text = ['.'] from rfl), filterMap_component? h]

theorem components_join_inner {cs : List Component} (h : ∀ c ∈ cs, c.Inner) :
    components (join cs) = cs := by
  cases cs with
  | nil => rfl
  | cons c cs =>
    have hc := h c List.mem_cons_self
    have hrest : ∀ x ∈ cs, x.Inner := fun x hx => h x (List.mem_cons_of_mem _ hx)
    obtain ⟨a, text, htext⟩ := List.exists_cons_of_ne_nil hc.text_ne.1
    have hhead : (join (c :: cs)).head? ≠ some '/' := by
      have ha : a ≠ '/' := fun heq => hc.2 (by rw [htext, heq]; exact List.mem_cons_self)
      cases cs with
      | nil => simpa [join, htext] using ha
      | cons d cs => rw [join_cons_cons, htext]; simpa using ha
    simp only [components, splitSlash_join hc.2 hrest, List.map_cons, if_neg hhead]
    rw [if_neg hc.text_ne.2, hc.1, filterMap_component? hrest]
    rfl

/-- The component that a part stands for that is not empty and not a point. -/
def Component.ofPart (part : List Char) : Component :=
  if part = ['.', '.'] then .parent else .normal part

theorem Component.text_ofPart (part : List Char) : (ofPart part).text = part := by
  unfold ofPart
  split
  · exact Eq.symm ‹_›
  · rfl

theorem Component.ofPart_eq_parent {part : List Char} :
    ofPart part = .parent ↔ part = ['.', '.'] := by
  unfold ofPart
  split <;> simp_all

theorem component?_of_ne {part : List Char} (h : part ≠ [] ∧ part ≠ ['.']) :
    component? part = some (.ofPart part) := by
  rw [component?, if_neg (by simpa using h), Component.ofPart]
  split <;> rfl

/-- The components of parts with slashes between them. -/
theorem components_intercalate {parts : List (List Char)}
    (h : ∀ part ∈ parts, (part ≠ [] ∧ part ≠ ['.']) ∧ '/' ∉ part) :
    components (['/'].intercalate parts) = parts.map .ofPart := by
  have hjoin : ['/'].intercalate parts = join (parts.map .ofPart) := by
    rw [join, List.map_map]
    exact congrArg _ ((List.map_congr_left fun part _ => Component.text_ofPart part).trans
      (List.map_id _)).symm
  rw [hjoin, components_join_inner]
  intro c hc
  obtain ⟨part, hpart, rfl⟩ := List.mem_map.1 hc
  exact inner_of_component? (h part hpart).2 (component?_of_ne (h part hpart).1)

/-- The components of a path are read from its key again. -/
theorem components_join (path : List Char) :
    components (join (components path)) = components path := by
  obtain ⟨rest, hrest, h | h | h⟩ := components_shape path
  · rw [h, components_join_inner hrest]
  · rw [h, components_join_root hrest]
  · rw [h, components_join_current hrest]

/-- **A path is kept in one form**: the key of a key is that key. -/
theorem key_key (path : String) : key (key path) = key path := by
  rw [key, key, String.toList_ofList, components_join]

/-- Two paths are kept in one form if and only if they have the same components. -/
theorem key_eq_key_iff {p q : String} :
    key p = key q ↔ components p.toList = components q.toList := by
  constructor
  · intro h
    have hjoin := congrArg (fun k : String => components k.toList) h
    simpa only [key, String.toList_ofList, components_join] using hjoin
  · intro h
    rw [key, key, h]

end CodeIndex.Path
