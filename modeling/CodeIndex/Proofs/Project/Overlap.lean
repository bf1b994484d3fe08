import CodeIndex.Proofs.Project.Confinement

/-!
Patterns that overlap.

* `Discovery.matchedFiles` are the files that a pattern matches, from the paths that it expands to
  (`matching_eq`);
* `firstByPath_eq`: what has been seen on the way takes out all but the first entry of each path. So
  more entries add those whose path is new, at the end (`firstByPath_append`), and what is left is found
  first by its path (`find?_of_mem_firstByPath`);
* discovery of files and of components takes the first entries of one list of files
  (`discoverFiles_eq`, `discoverComponents_eq`);
* `later_patterns_only_add_files` is what follows for lists of patterns.
-/
namespace CodeIndex

namespace Discovery

/-! ## First entries -/

section First

variable {γ δ : Type}

/-- The entries without those whose path comes before. -/
def firsts (path : γ → String) (l : List γ) : List γ := l.eraseDupsBy fun x y => path x == path y

theorem firsts_cons (path : γ → String) (x : γ) (l : List γ) :
    firsts path (x :: l) = x :: firsts path (l.filter fun y => path y ≠ path x) := by
  rw [firsts, firsts, List.eraseDupsBy_cons]
  congr 2
  refine List.filter_congr fun y _ => ?_
  simp

theorem firstByPath_eq (path : γ → String) (seen : List String) (l : List γ) :
    firstByPath path seen l = firsts path (l.filter fun x => path x ∉ seen) := by
  induction l generalizing seen with
  | nil => rfl
  | cons x l ih =>
    rw [firstByPath]
    split
    · rename_i hseen
      rw [ih, List.filter_cons_of_neg (by simpa using hseen)]
    · rename_i hnew
      rw [ih, List.filter_cons_of_pos (by simpa using hnew), firsts_cons, List.filter_filter]
      congr 2
      refine List.filter_congr fun y _ => ?_
      simp

theorem firstByPath_append (path : γ → String) (seen : List String) (l l' : List γ) :
    firstByPath path seen (l ++ l') = firstByPath path seen l ++
      firsts path (l'.filter fun y => path y ∉ seen ∧ path y ∉ l.map path) := by
  induction l generalizing seen with
  | nil => simp [firstByPath_eq, firsts]
  | cons x l ih =>
    rw [List.cons_append, firstByPath, firstByPath]
    split
    · rename_i hseen
      rw [ih]
      congr 2
      refine List.filter_congr fun y _ => ?_
      grind
    · rw [ih, List.cons_append]
      congr 3
      refine List.filter_congr fun y _ => ?_
      grind

theorem map_firstByPath (f : γ → δ) (path : δ → String) (seen : List String) (l : List γ) :
    (firstByPath (fun x => path (f x)) seen l).map f = firstByPath path seen (l.map f) := by
  induction l generalizing seen with
  | nil => rfl
  | cons x l ih =>
    rw [List.map_cons, firstByPath, firstByPath]
    split
    · exact ih seen
    · rw [List.map_cons, ih]

theorem find?_of_mem_firstByPath {path : γ → String} {seen : List String} {l : List γ} {x : γ}
    (h : x ∈ firstByPath path seen l) : l.find? (fun y => path y = path x) = some x := by
  induction l generalizing seen with
  | nil => cases h
  | cons y l ih =>
    rw [firstByPath] at h
    split at h
    · rename_i hseen
      have hne : path y ≠ path x := by
        intro heq
        rw [heq] at hseen
        exact not_seen_of_mem_firstByPath path h (by simpa using hseen)
      rw [List.find?_cons_of_neg (by simpa using hne)]
      exact ih h
    · rcases List.mem_cons.1 h with rfl | h
      · exact List.find?_cons_of_pos (by simp)
      · have hne : path y ≠ path x := fun heq =>
          not_seen_of_mem_firstByPath path h (heq ▸ List.mem_cons_self)
        rw [List.find?_cons_of_neg (by simpa using hne)]
        exact ih h

end First

/-! ## Matched files -/

section Matched

variable {β : Type} (t : Tree β) (root : Place) (excludeDirs : List String) (pattern : String)

/-- The paths that a pattern matches; none if it cannot be read. -/
def matchedPaths : List Glob.Below :=
  match Glob.parse 0 (trimCurrent pattern.toList) with
  | .ok g => Glob.expand t root g
  | .error _ => []

/-- Whether a path leads to a file. -/
def leadsToFile (p : Glob.Below) : Bool :=
  match t.walk root p with
  | .ok q => t.isFile q
  | .error _ => false

/-- Whether a path goes through a directory of an excluded name. -/
def isExcluded (p : Glob.Below) : Bool := (significant p).dropLast.any excludeDirs.contains

/-- The files that a pattern matches, without those in a directory of an excluded name. -/
def matchedFiles : List Discovered :=
  ((matchedPaths t root pattern).filter fun p => leadsToFile t root p && !isExcluded excludeDirs p).map
    fun p => ⟨p, Path.key ("/".intercalate (significant p))⟩

/-- Whether a pattern matches a file of a path. -/
def finds (relative : String) : Bool :=
  (matchedFiles t root excludeDirs pattern).any (·.relative == relative)

/-- The files that component patterns match, each with the kind of the pattern. -/
def matchedComponents (components : List ComponentPattern) : List (Discovered × ComponentKind) :=
  components.flatMap fun c =>
    (matchedFiles t root excludeDirs c.pattern).map fun file => (file, c.kind)

variable {t root excludeDirs pattern}

theorem map_matchedComponents (components : List ComponentPattern) :
    (matchedComponents t root excludeDirs components).map (·.1) =
      (components.map (·.pattern)).flatMap (matchedFiles t root excludeDirs) := by
  rw [matchedComponents, List.flatMap_map, List.map_flatMap]
  refine List.flatMap_congr fun c _ => ?_
  rw [List.map_map]
  exact List.map_id _

theorem mem_relatives {patterns : List String} {relative : String} :
    relative ∈ (patterns.flatMap (matchedFiles t root excludeDirs)).map (·.relative) ↔
      ∃ pattern ∈ patterns, finds t root excludeDirs pattern relative = true := by
  simp only [finds, List.mem_map, List.mem_flatMap, List.any_eq_true, beq_iff_eq]
  constructor
  · rintro ⟨d, ⟨pattern, hpattern, hd⟩, heq⟩
    exact ⟨pattern, hpattern, d, hd, heq⟩
  · rintro ⟨pattern, hpattern, d, hd, heq⟩
    exact ⟨d, ⟨pattern, hpattern, hd⟩, heq⟩

theorem matching_eq (h : Valid pattern) :
    matching t root excludeDirs pattern = .ok (matchedFiles t root excludeDirs pattern) := by
  obtain ⟨g, hg⟩ := h
  simp only [matching, matchedFiles, matchedPaths, hg, Glob.parse_of_parse hg]
  rw [← List.filterMap_eq_map, List.filterMap_filter]
  refine congrArg _ (List.filterMap_congr fun p _ => ?_)
  rw [leadsToFile]
  cases t.walk root p with
  | error fault => rfl
  | ok q => rfl

end Matched

end Discovery

open Discovery

/-! ## What is discovered -/

section Discover

variable {β : Type} {t : Tree β} {root : Place} {excludeDirs : List String}
  {patterns : List String} {components : List ComponentPattern}

/-- Discovery of files is the first entries of what the patterns match, one after another. -/
theorem discoverFiles_eq (t : Tree β) (root : Place) (excludeDirs : List String)
    (h : ∀ pattern ∈ patterns, Valid pattern) :
    discoverFiles t root patterns excludeDirs = .ok
      (firstByPath (·.relative) [] (patterns.flatMap (matchedFiles t root excludeDirs))) := by
  rw [discoverFiles, mapM_eq_ok fun pattern hpattern => matching_eq (h pattern hpattern)]
  rfl

theorem discoverComponents_eq (t : Tree β) (root : Place) (excludeDirs : List String)
    (h : ∀ c ∈ components, Valid c.pattern) :
    discoverComponents t root components excludeDirs = .ok
      (firstByPath (·.1.relative) [] (matchedComponents t root excludeDirs components)) := by
  rw [discoverComponents, mapM_eq_ok (g := fun c : ComponentPattern =>
    (matchedFiles t root excludeDirs c.pattern).map fun file => (file, c.kind)) fun c hc => by
      rw [matching_eq (h c hc)]
      rfl]
  rfl

/-- The first entry of a path has the kind of the first pattern that matches a file of this path. -/
theorem kind_of_mem_firstByPath {x : Discovered × ComponentKind}
    (h : x ∈ firstByPath (·.1.relative) [] (matchedComponents t root excludeDirs components)) :
    (components.find? fun c => finds t root excludeDirs c.pattern x.1.relative).map (·.kind) =
      some x.2 := by
  have hfirst := find?_of_mem_firstByPath h
  rw [matchedComponents, List.find?_flatMap, List.findSome?_eq_some_iff] at hfirst
  obtain ⟨earlier, c, later, hsplit, hfound, hnone⟩ := hfirst
  obtain ⟨file, hfile, rfl⟩ := List.mem_map.1 (List.mem_of_find?_eq_some hfound)
  have hfind : components.find? (fun c => finds t root excludeDirs c.pattern file.relative) =
      some c := by
    refine List.find?_eq_some_iff_append.2 ⟨?_, earlier, later, hsplit, fun e he => ?_⟩
    · exact List.any_eq_true.2 ⟨file, hfile, beq_self_eq_true _⟩
    · rw [Bool.not_eq_true', finds, List.any_eq_false]
      intro other hother
      have hne := List.find?_eq_none.1 (hnone e he) _ (List.mem_map_of_mem hother)
      simpa using hne
  rw [hfind]
  rfl

theorem place_of_no_parent {parts : List String} {p q : Place} (h : t.walk p parts = .ok q)
    (hparent : ".." ∉ parts) : q = p ++ significant parts := by
  induction parts generalizing p with
  | nil =>
    cases h
    simp [significant]
  | cons part parts ih =>
    rw [List.mem_cons, not_or] at hparent
    rw [Tree.walk] at h
    split_ifs at h with hdir hcurrent hup hnone
    · rw [ih h hparent.2, significant, significant, List.filter_cons_of_neg]
      simpa [← not_or] using hcurrent
    · exact absurd (beq_iff_eq.1 hup).symm hparent.1
    · rw [ih h hparent.2, significant, significant, List.filter_cons_of_pos, List.append_assoc,
        List.singleton_append]
      simpa [not_or] using hcurrent

theorem places_nodup (hvalid : ∀ pattern ∈ patterns, Valid pattern)
    (hstay : ∀ pattern ∈ patterns, climbs pattern = 0) {files : List Discovered}
    (h : discoverFiles t root patterns excludeDirs = .ok files) :
    (files.map fun d => t.walk root d.below).Nodup := by
  have hplace : ∀ d ∈ files, t.walk root d.below = .ok (root ++ significant d.below) ∧
      d.relative = Path.key ("/".intercalate (significant d.below)) := by
    intro d hd
    obtain ⟨pattern, hpattern, found, hmatching, hd⟩ := exists_matching_of_mem_files h hd
    obtain ⟨g, -, hmatched⟩ := matched_of_mem hmatching hd
    obtain ⟨q, hq, -⟩ := hmatched.file
    have hparent : ".." ∉ d.below := by
      rw [← List.count_eq_zero, ← Nat.le_zero, ← hstay pattern hpattern]
      exact count_parent_le_climbs hmatching d hd
    exact ⟨place_of_no_parent hq hparent ▸ hq, hmatched.relative⟩
  have hpaths : (files.map (·.relative)).Nodup := by
    obtain rfl := Except.ok.inj ((discoverFiles_eq t root excludeDirs hvalid).symm.trans h)
    exact firstByPath_nodup _ _ _
  refine List.pairwise_map.2 ((List.pairwise_map.1 hpaths).imp_of_mem fun hd he hne heq => hne ?_)
  rw [(hplace _ hd).1, (hplace _ he).1] at heq
  rw [(hplace _ hd).2, (hplace _ he).2, List.append_cancel_left (Except.ok.inj heq)]

/-- **Later patterns only add files.** What `ps` give stands first in what `ps` and then `qs` give. After
it stand the files that `qs` match, in the order of their first matches, but for those that are no
regular files, those in a directory of an excluded name and those whose path `ps` match. A file is told
from others by its relative path, which comes once; where no part of a pattern can match `..`, this is
to say that no place comes twice. Components of the same patterns are the same files in the same order,
each of the kind of the first pattern that matches it. -/
theorem later_patterns_only_add_files (t : Tree β) (root : Place) (excludeDirs : List String)
    {ps qs : List String} (hps : ∀ p ∈ ps, Valid p) (hqs : ∀ q ∈ qs, Valid q) :
    ∃ files more, discoverFiles t root ps excludeDirs = .ok files ∧
      discoverFiles t root (ps ++ qs) excludeDirs = .ok (files ++ more) ∧
      more = firsts (·.relative) ((qs.flatMap (matchedFiles t root excludeDirs)).filter fun d =>
        ∀ p ∈ ps, finds t root excludeDirs p d.relative = false) ∧
      ((files ++ more).map (·.relative)).Nodup ∧
      ((∀ p ∈ ps ++ qs, climbs p = 0) →
        ((files ++ more).map fun d => t.walk root d.below).Nodup) ∧
      ∀ cs : List ComponentPattern, cs.map (·.pattern) = ps ++ qs →
        ∃ components, discoverComponents t root cs excludeDirs = .ok components ∧
          components.map (·.1) = files ++ more ∧
          ∀ x ∈ components, (cs.find? fun c =>
            finds t root excludeDirs c.pattern x.1.relative).map (·.kind) = some x.2 := by
  have hvalid : ∀ p ∈ ps ++ qs, Valid p := fun p hp => (List.mem_append.1 hp).elim (hps p) (hqs p)
  have hfiles := discoverFiles_eq t root excludeDirs hps
  have hall := discoverFiles_eq t root excludeDirs hvalid
  rw [List.flatMap_append, firstByPath_append] at hall
  refine ⟨_, _, hfiles, hall, ?_, ?_, fun hstay => places_nodup hvalid hstay hall, ?_⟩
  · refine congrArg (firsts _) (List.filter_congr fun d _ => decide_eq_decide.2 ?_)
    simp [mem_relatives]
  · rw [← firstByPath_append]
    exact firstByPath_nodup _ _ _
  · intro cs hcs
    have hcomponents : ∀ c ∈ cs, Valid c.pattern := fun c hc =>
      hvalid _ (hcs ▸ List.mem_map_of_mem hc)
    refine ⟨_, discoverComponents_eq t root excludeDirs hcomponents, ?_,
      fun x hx => kind_of_mem_firstByPath hx⟩
    refine (map_firstByPath (fun x : Discovered × ComponentKind => x.1) (·.relative) [] _).trans ?_
    rw [map_matchedComponents, hcs, List.flatMap_append, firstByPath_append]

end Discover

namespace Sample

/-- Three directories, each with a file somewhere below. -/
def nested : Tree String :=
  ⟨[(["root"], .dir), (["root", "src"], .dir), (["root", "src", "lib"], .dir),
    (["root", "src", "lib", "a.ts"], .file ""), (["root", "docs"], .dir),
    (["root", "docs", "b.ts"], .file ""), (["root", "vendor"], .dir),
    (["root", "vendor", "dep"], .dir), (["root", "vendor", "dep", "c.ts"], .file "")]⟩

/-- Patterns for them, of which the second one matches what the first one does. -/
def overlapping : List ComponentPattern :=
  [⟨"src/lib/*.ts", .component⟩, ⟨"src/**/*.ts", .page⟩, ⟨"docs/*.ts", .page⟩,
    ⟨"vendor/**/*.ts", .page⟩]

end Sample

/-- The later patterns add one file: one they match is found before, and one is in a directory of an
excluded name. -/
theorem later_patterns_only_add_files_nested :
    ∃ files more components,
      discoverFiles Sample.nested ["root"] ["src/lib/*.ts"] ["dep"] = .ok files ∧
      discoverFiles Sample.nested ["root"]
        (["src/lib/*.ts"] ++ ["src/**/*.ts", "docs/*.ts", "vendor/**/*.ts"]) ["dep"] =
          .ok (files ++ more) ∧
      discoverComponents Sample.nested ["root"] Sample.overlapping ["dep"] = .ok components ∧
      files.map (·.relative) = ["src/lib/a.ts"] ∧ more.map (·.relative) = ["docs/b.ts"] ∧
      components.map (·.2) = [.component, .page] ∧
      ((files ++ more).map fun d => Sample.nested.walk ["root"] d.below).Nodup := by
  obtain ⟨files, more, hfiles, hall, -, -, hplaces, hcomponents⟩ :=
    @later_patterns_only_add_files _ Sample.nested ["root"] ["dep"] ["src/lib/*.ts"]
      ["src/**/*.ts", "docs/*.ts", "vendor/**/*.ts"] (by decide +kernel) (by decide +kernel)
  obtain ⟨components, hfound, -, -⟩ := hcomponents Sample.overlapping rfl
  have hfirst : discoverFiles Sample.nested ["root"] ["src/lib/*.ts"] ["dep"] =
      .ok [⟨["src", "lib", "a.ts"], "src/lib/a.ts"⟩] := by decide +kernel
  have hboth : discoverFiles Sample.nested ["root"]
      (["src/lib/*.ts"] ++ ["src/**/*.ts", "docs/*.ts", "vendor/**/*.ts"]) ["dep"] =
        .ok ([⟨["src", "lib", "a.ts"], "src/lib/a.ts"⟩] ++ [⟨["docs", "b.ts"], "docs/b.ts"⟩]) := by
    decide +kernel
  have hkinds : discoverComponents Sample.nested ["root"] Sample.overlapping ["dep"] =
      .ok [(⟨["src", "lib", "a.ts"], "src/lib/a.ts"⟩, .component),
        (⟨["docs", "b.ts"], "docs/b.ts"⟩, .page)] := by decide +kernel
  obtain rfl := Except.ok.inj (hfirst.symm.trans hfiles)
  obtain rfl := List.append_cancel_left (Except.ok.inj (hboth.symm.trans hall))
  obtain rfl := Except.ok.inj (hkinds.symm.trans hfound)
  exact ⟨_, _, _, hfirst, hboth, hkinds, rfl, rfl, rfl, hplaces (by decide +kernel)⟩

end CodeIndex
