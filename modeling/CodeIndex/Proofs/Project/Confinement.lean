import CodeIndex.Proofs.Project.Discovery

/-!
How far discovery goes up.

A pattern is written below the directory of a project, but a part of it can match `..`: one that stands
for it, and one that starts with a point and has wildcards. Such a part leads out of the directory, and
the path of what is found keeps the `..`.

* `Glob.Fits` says which paths the parts of a pattern fit, and `fits_of_mem_expand` that no other path
  is found;
* `Glob.Part.climbs` says that a part can match `..`; a path goes up at most as often as there are such
  parts (`Fits.count_parent_le`);
* `Tree.isPrefix_of_walk`: where a path leads that goes up so often;
* `discovery_climbs_as_patterns_do` is what follows for discovery, and `discovery_leaves_root` that it
  does not stay in the directory otherwise.
-/
namespace CodeIndex

namespace Glob

/-! ## Which paths fit -/

section Fits

variable (seen : String → Prop)

/-- The paths that the parts of a pattern fit; `seen` are the names that may stand for wildcards. -/
inductive Fits : List Part → Below → Prop
  | nil : Fits [] []
  /-- A part without wildcards stands for itself. -/
  | fixed {tokens : List Token} {rest : List Part} {name : List Char} {p : Below}
    (hname : literal? tokens = some name) (h : Fits rest p) :
    Fits (.name tokens :: rest) (String.ofList name :: p)
  /-- A part that starts with a point may match one of the names that every directory has. -/
  | special {tokens : List Token} {rest : List Part} {name : List Char} {p : Below}
    (hname : name = ['.', '.'] ∨ name = ['.']) (hpoint : tokens.head? = some (.char '.'))
    (hmatch : matchTokens tokens name = true) (h : Fits rest p) :
    Fits (.name tokens :: rest) (String.ofList name :: p)
  /-- A part with wildcards matches names. -/
  | matched {tokens : List Token} {rest : List Part} {name : String} {p : Below}
    (hseen : seen name) (hmatch : matchTokens tokens name.toList = true) (h : Fits rest p) :
    Fits (.name tokens :: rest) (name :: p)
  /-- Two stars stand for no directory, or for one more. -/
  | skip {rest : List Part} {p : Below} (h : Fits rest p) : Fits (.directories :: rest) p
  | into {rest : List Part} {name : String} {p : Below} (hseen : seen name)
    (h : Fits (.directories :: rest) p) : Fits (.directories :: rest) (name :: p)

variable {seen} {rest : List Part} {p : Below}

theorem Fits.of_dropWhile (h : Fits seen (.directories :: rest.dropWhile (· == .directories)) p) :
    Fits seen (.directories :: rest) p := by
  induction rest with
  | nil => exact h
  | cons part rest ih =>
    rw [List.dropWhile_cons] at h
    split at h
    · rename_i hpart
      rw [beq_iff_eq.1 hpart]
      exact .skip (ih h)
    · exact h

end Fits

/-! ## What is found fits -/

section Expand

variable {β : Type} (t : Tree β) (root : Place) (onlyDirs : Bool)

/-- A name of an entry that does not start with a point. -/
def Visible (name : String) : Prop :=
  name.toList.head? ≠ some '.' ∧ ∃ e ∈ t.entries, name ∈ e.1

theorem visible_of_mem {p : Below} {name : String} (h : name ∈ visibleNames t root p) :
    Visible t name := by
  unfold visibleNames at h
  split at h
  · obtain ⟨hname, hpoint⟩ := List.mem_filter.1 h
    obtain ⟨⟨q, entry⟩, he, hlast⟩ := List.mem_filterMap.1 (List.mem_mergeSort.1 hname)
    cases hsome : q.getLast? with
    | none => simp [hsome] at hlast
    | some last =>
      obtain ⟨-, rfl⟩ : q = _ ∧ last = name := by simpa [hsome] using hlast
      exact ⟨bne_iff_ne.1 hpoint, _, he, List.mem_of_getLast? hsome⟩
  · cases h

/-- What is found below a path goes on from it with a path that fits. -/
def Continues (parts : List Part) (p p' : Below) : Prop :=
  ∃ q, p' = p ++ q ∧ Fits (Visible t) parts q

variable {t root onlyDirs}

theorem Continues.done {p : Below} : Continues t [] p p := ⟨[], (List.append_nil p).symm, .nil⟩

theorem Continues.next {parts parts' : List Part} {p p' : Below} {name : String}
    (h : Continues t parts (p ++ [name]) p')
    (hfits : ∀ q, Fits (Visible t) parts q → Fits (Visible t) parts' (name :: q)) :
    Continues t parts' p p' := by
  obtain ⟨q, rfl, hq⟩ := h
  exact ⟨name :: q, by rw [List.append_assoc, List.singleton_append], hfits q hq⟩

theorem Continues.imp {parts parts' : List Part} {p p' : Below} (h : Continues t parts p p')
    (hfits : ∀ q, Fits (Visible t) parts q → Fits (Visible t) parts' q) : Continues t parts' p p' :=
  let ⟨q, hp', hq⟩ := h
  ⟨q, hp', hfits q hq⟩

variable (t root onlyDirs)

/-- What is found continues the path, whichever of the four steps of the search finds it. -/
structure Sound (fuel : Nat) : Prop where
  inside : ∀ parts p, ∀ p' ∈ expandIn t root onlyDirs fuel parts p, Continues t parts p p'
  step : ∀ rest p, ∀ p' ∈ expandStep t root onlyDirs fuel rest p, Continues t rest p p'
  child : ∀ parts p name, Visible t name →
    ∀ p' ∈ expandChild t root onlyDirs fuel parts (p ++ [name]), Continues t parts p p'
  matched : ∀ tokens rest p name, Visible t name →
    ∀ p' ∈ expandMatched t root onlyDirs fuel tokens rest (p ++ [name]),
      Continues t (.name tokens :: rest) p p'

variable {t root onlyDirs} {fuel : Nat}

theorem Sound.inside_succ (ih : Sound t root onlyDirs fuel) (parts : List Part) (p : Below) :
    ∀ p' ∈ expandIn t root onlyDirs (fuel + 1) parts p, Continues t parts p p' := by
  intro p' h
  cases parts with
  | nil => simp [expandIn] at h
  | cons part rest =>
    cases part with
    | directories =>
      rw [expandIn] at h
      split at h
      · obtain ⟨name, hname, h⟩ := List.mem_flatMap.1 h
        exact ih.child _ p name (visible_of_mem t root hname) p' h
      · cases h
    | name tokens =>
      rw [expandIn] at h
      split at h
      · rename_i name hname
        exact (ih.step rest _ p' h).next fun q hq => .fixed hname hq
      · split at h
        · rcases List.mem_append.1 h with h | h
          · obtain ⟨special, hspecial, h⟩ := List.mem_flatMap.1 h
            obtain ⟨hmem, htest⟩ := List.mem_filter.1 hspecial
            rw [Bool.and_eq_true, beq_iff_eq] at htest
            refine (ih.step rest _ p' h).next fun q hq => .special ?_ htest.1 htest.2 hq
            simpa using hmem
          · obtain ⟨name, hname, h⟩ := List.mem_flatMap.1 h
            exact ih.child _ p name (visible_of_mem t root hname) p' h
        · cases h

theorem Sound.step_succ (ih : Sound t root onlyDirs fuel) (rest : List Part) (p : Below) :
    ∀ p' ∈ expandStep t root onlyDirs (fuel + 1) rest p, Continues t rest p p' := by
  intro p' h
  rw [expandStep] at h
  split at h
  · split at h
    · rename_i hrest
      rw [List.isEmpty_iff.1 hrest, List.mem_singleton.1 h]
      exact .done
    · exact ih.inside rest p p' h
  · cases h

theorem Sound.matched_succ (ih : Sound t root onlyDirs fuel) (tokens : List Token)
    (rest : List Part) (p : Below) (name : String) (hname : Visible t name) :
    ∀ p' ∈ expandMatched t root onlyDirs (fuel + 1) tokens rest (p ++ [name]),
      Continues t (.name tokens :: rest) p p' := by
  intro p' h
  rw [expandMatched, List.getLast?_concat, Option.getD_some] at h
  split at h
  · rename_i hmatch
    suffices hrest : Continues t rest (p ++ [name]) p' from
      hrest.next fun q hq => .matched hname hmatch hq
    split at h
    · rename_i hempty
      rw [List.isEmpty_iff.1 hempty]
      split at h
      · rw [List.mem_singleton.1 h]
        exact .done
      · cases h
    · exact ih.inside rest _ p' h
  · cases h

theorem Sound.child_succ (ih : Sound t root onlyDirs fuel) (parts : List Part) (p : Below)
    (name : String) (hname : Visible t name) :
    ∀ p' ∈ expandChild t root onlyDirs (fuel + 1) parts (p ++ [name]), Continues t parts p p' := by
  intro p' h
  cases parts with
  | nil => simp [expandChild] at h
  | cons part rest =>
    cases part with
    | name tokens => exact ih.matched tokens rest p name hname p' (by rwa [expandChild] at h)
    | directories =>
      have hbelow : ∀ p' ∈ (if leadsToDir t root (p ++ [name]) then
          expandIn t root onlyDirs fuel (.directories :: rest.dropWhile (· == .directories))
            (p ++ [name]) else []), Continues t (.directories :: rest) p p' := by
        intro p' h
        split at h
        · exact (ih.inside _ _ p' h).next fun q hq => .into hname (.of_dropWhile hq)
        · cases h
      have hskip : ∀ q, Fits (Visible t) (rest.dropWhile (· == .directories)) q →
          Fits (Visible t) (.directories :: rest) q := fun q hq => .of_dropWhile (.skip hq)
      rw [expandChild] at h
      cases hafter : rest.dropWhile (· == .directories) with
      | nil =>
        rw [hafter] at h hbelow hskip
        dsimp only at h
        split at h
        · rcases List.mem_cons.1 h with rfl | h
          · exact Continues.done.next fun q hq => .into hname (hskip q hq)
          · exact hbelow p' (by rwa [if_pos ‹_›])
        · cases h
      | cons part after =>
        rw [hafter] at h hbelow hskip
        cases part with
        | directories => exact hbelow p' h
        | name tokens =>
          rcases List.mem_append.1 h with h | h
          · exact (ih.matched tokens after p name hname p' h).imp hskip
          · exact hbelow p' h

theorem sound (fuel : Nat) : Sound t root onlyDirs fuel := by
  induction fuel with
  | zero => constructor <;> intros <;> simp_all [expandIn, expandStep, expandChild, expandMatched]
  | succ fuel ih => exact ⟨ih.inside_succ, ih.step_succ, ih.child_succ, ih.matched_succ⟩

theorem fits_of_mem_expand {pattern : Pattern} {p : Below} (h : p ∈ expand t root pattern) :
    Fits (Visible t) pattern.parts p := by
  obtain ⟨q, rfl, hq⟩ := (sound _).inside _ [] p (List.mem_of_mem_filter h)
  exact hq

end Expand

/-! ## Parts that match `..` -/

/-- Whether a part of a pattern can match `..`. -/
def Part.climbs : Part → Bool
  | directories => false
  | name tokens => tokens.head? == some (.char '.') && matchTokens tokens ['.', '.']

theorem eq_of_literal? {tokens : List Token} {name : List Char} (h : literal? tokens = some name) :
    tokens = name.map .char := by
  induction tokens generalizing name with
  | nil =>
    cases h
    rfl
  | cons token tokens ih =>
    cases token with
    | char c =>
      obtain ⟨rest, hrest, rfl⟩ := Option.map_eq_some_iff.1 h
      rw [ih hrest, List.map_cons]
    | _ => cases h

theorem climbs_parent : (Part.name (['.', '.'].map .char)).climbs = true := by decide

section Fits

variable {seen : String → Prop} {parts : List Part} {p : Below}

theorem count_parent_cons_le {part : Part} {name : String}
    (hname : name = ".." → part.climbs = true)
    (h : p.count ".." ≤ parts.countP Part.climbs) :
    (name :: p).count ".." ≤ (part :: parts).countP Part.climbs := by
  rw [List.count_cons, List.countP_cons]
  refine Nat.add_le_add h ?_
  by_cases hparent : name = ".."
  · rw [if_pos (hname hparent)]
    split <;> decide
  · rw [if_neg (by simpa using hparent)]
    exact Nat.zero_le _

/-- A path that fits goes up at most as often as there are parts that match `..`. -/
theorem Fits.count_parent_le (h : Fits seen parts p) (hseen : ∀ name, seen name → name ≠ "..") :
    p.count ".." ≤ parts.countP Part.climbs := by
  have hpoints : ∀ {name : List Char}, String.ofList name = ".." → name = ['.', '.'] := by
    intro name hname
    rw [← String.toList_ofList (l := name), hname]
    rfl
  induction h with
  | nil => exact Nat.le_refl 0
  | fixed hname _ ih =>
    refine count_parent_cons_le (fun hparent => ?_) ih
    rw [eq_of_literal? hname, hpoints hparent]
    exact climbs_parent
  | special _ hpoint hmatch _ ih =>
    refine count_parent_cons_le (fun hparent => ?_) ih
    rw [Part.climbs, hpoint, ← hpoints hparent, hmatch]
    rfl
  | matched hname _ _ ih =>
    exact count_parent_cons_le (fun hparent => absurd hparent (hseen _ hname)) ih
  | skip _ ih => exact ih
  | into hname _ ih =>
    rw [List.count_cons_of_ne (hseen _ hname)]
    exact ih

/-- Where no name and no part has a slash, no part of a path that fits has one. -/
theorem Fits.no_slash (h : Fits seen parts p) (hseen : ∀ name, seen name → '/' ∉ name.toList)
    (hparts : ∀ tokens, .name tokens ∈ parts → .char '/' ∉ tokens) :
    ∀ part ∈ p, '/' ∉ part.toList := by
  induction h with
  | nil => exact fun part hpart => absurd hpart List.not_mem_nil
  | fixed hname _ ih =>
    refine List.forall_mem_cons.2 ⟨fun hslash => ?_, ih fun tokens h =>
      hparts tokens (List.mem_cons_of_mem _ h)⟩
    rw [String.toList_ofList] at hslash
    refine hparts _ List.mem_cons_self ?_
    rw [eq_of_literal? hname]
    exact List.mem_map_of_mem hslash
  | special hname _ _ _ ih =>
    refine List.forall_mem_cons.2 ⟨?_, ih fun tokens h => hparts tokens (List.mem_cons_of_mem _ h)⟩
    rw [String.toList_ofList]
    rcases hname with rfl | rfl <;> decide
  | matched hname _ _ ih =>
    exact List.forall_mem_cons.2 ⟨hseen _ hname, ih fun tokens h =>
      hparts tokens (List.mem_cons_of_mem _ h)⟩
  | skip _ ih => exact ih fun tokens h => hparts tokens (List.mem_cons_of_mem _ h)
  | into hname _ ih => exact List.forall_mem_cons.2 ⟨hseen _ hname, ih hparts⟩

end Fits

/-! ## Parts of a text -/

theorem eq_ok_of_map {ε α α' : Type} {x : Except ε α} {f : α → α'} {b : α'}
    (h : f <$> x = .ok b) : ∃ a, x = .ok a ∧ f a = b := by
  cases x with
  | error e => cases h
  | ok a => exact ⟨a, rfl, Except.ok.inj h⟩

theorem subset_of_classText? {s text rest : List Char} (h : classText? s = some (text, rest)) :
    rest ⊆ s := by
  cases s with
  | nil => cases h
  | cons first s =>
    rw [classText?] at h
    split at h
    · rename_i bracket _ hdrop
      cases h
      have hsub : bracket :: rest ⊆ s := hdrop ▸ (List.dropWhile_sublist _).subset
      exact fun c hc => List.mem_cons_of_mem _ (hsub (List.mem_cons_of_mem _ hc))
    · cases h

theorem subset_of_classToken? {s after : List Char} {token : Token}
    (h : classToken? s = some (token, after)) : after ⊆ s ∧ ∀ c, token ≠ .char c := by
  unfold classToken? at h
  split at h
  · obtain ⟨⟨text, rest⟩, htext, heq⟩ := Option.map_eq_some_iff.1 h
    cases heq
    exact ⟨List.subset_cons_of_subset _ (subset_of_classText? htext), fun _ h => nomatch h⟩
  · obtain ⟨⟨text, rest⟩, htext, heq⟩ := Option.map_eq_some_iff.1 h
    cases heq
    exact ⟨subset_of_classText? htext, fun _ h => nomatch h⟩

theorem no_slash_readTokens {fuel position : Nat} {before : Option Char} {s : List Char}
    {tokens : List Token} (h : readTokens fuel position before s = .ok tokens) (hs : '/' ∉ s) :
    .char '/' ∉ tokens := by
  induction fuel generalizing position before s tokens with
  | zero =>
    cases h
    exact List.not_mem_nil
  | succ fuel ih =>
    cases s with
    | nil =>
      cases h
      exact List.not_mem_nil
    | cons c rest =>
      have hrest : '/' ∉ rest := fun hslash => hs (List.mem_cons_of_mem _ hslash)
      have hmore : ∀ {token : Token} {position before} {s : List Char}, s ⊆ c :: rest →
          token ≠ .char '/' → (token :: ·) <$> readTokens fuel position before s = .ok tokens →
          .char '/' ∉ tokens := by
        intro token position before s hsub htoken h
        obtain ⟨more, hread, rfl⟩ := eq_ok_of_map h
        exact List.not_mem_cons_of_ne_of_not_mem htoken.symm
          (ih hread fun hslash => hs (hsub hslash))
      simp only [readTokens] at h
      split_ifs at h with hany hstar hmany hrecursive hstart hclass
      · exact hmore (List.subset_cons_self _ _) (by simp) h
      · -- two stars give no token
        split at h
        · cases h
          exact List.not_mem_nil
        · rename_i d after hafter
          split_ifs at h
          exact ih h fun hslash => hs (List.drop_subset _ _ (hafter ▸ List.mem_cons_of_mem d hslash))
      · exact hmore (List.drop_subset _ _) (by simp) h
      · split at h
        · rename_i token after hsome
          obtain ⟨hsub, htoken⟩ := subset_of_classToken? hsome
          exact hmore (List.subset_cons_of_subset _ hsub) (htoken '/') h
        · cases h
      · refine hmore (List.subset_cons_self _ _) (fun heq => hs ?_) h
        cases heq
        exact List.mem_cons_self

theorem no_slash_parse {offset : Nat} {s : List Char} {g : Pattern} (h : parse offset s = .ok g) :
    ∀ tokens, .name tokens ∈ g.parts → .char '/' ∉ tokens := by
  obtain ⟨-, -, h⟩ := eq_ok_of_bind h
  obtain ⟨parts, hparts, h⟩ := eq_ok_of_bind h
  cases h
  intro tokens htokens
  obtain ⟨part, hpart, hread⟩ := mem_of_mapM_ok hparts _ htokens
  have hslash : '/' ∉ part := by
    refine Path.not_mem_splitSlash (s := s) ?_
    simp only [splitParts] at hpart
    split at hpart
    · exact List.dropLast_subset _ hpart
    · exact hpart
  unfold readPart at hread
  split at hread
  · cases hread
  · obtain ⟨more, hmore, heq⟩ := eq_ok_of_map hread
    cases heq
    exact no_slash_readTokens hmore hslash

end Glob

/-! ## Where paths lead -/

variable {β : Type} {t : Tree β}

/-- A path leads at most as many directories up as it has parts `..`. -/
theorem Tree.isPrefix_of_walk {parts : List String} {p q : Place} (h : t.walk p parts = .ok q) :
    p.take (p.length - parts.count "..") <+: q := by
  induction parts generalizing p with
  | nil =>
    cases h
    simp
  | cons part parts ih =>
    rw [walk] at h
    split_ifs at h with hdir hcurrent hparent hnone
    · rw [List.count_cons_of_ne (by rintro rfl; simp at hcurrent)]
      exact ih h
    · rw [beq_iff_eq.1 hparent, List.count_cons_self]
      have hup := ih h
      rwa [List.length_dropLast, List.dropLast_eq_take, List.take_take,
        Nat.min_eq_left (Nat.sub_le _ _), Nat.sub_sub, Nat.add_comm] at hup
    · rw [List.count_cons_of_ne fun heq => hparent (beq_iff_eq.2 heq)]
      have hsame : (p ++ [part]).take (p.length - parts.count "..") =
          p.take (p.length - parts.count "..") := List.take_append_of_le_length (Nat.sub_le _ _)
      refine .trans ?_ (ih h)
      rw [List.length_append, List.length_singleton, ← hsame]
      exact List.take_prefix_take_left (Nat.sub_le_sub_right (Nat.le_succ _) _)

namespace Discovery

theorem count_parent_significant (p : Glob.Below) : (significant p).count ".." = p.count ".." :=
  List.count_filter (by decide)

/-- The path of a file has as many components `..` as the way to it has such parts. -/
theorem count_parent_key {p : Glob.Below} (h : ∀ part ∈ p, '/' ∉ part.toList) :
    (Path.components (Path.key ("/".intercalate (significant p))).toList).count .parent =
      p.count ".." := by
  have hparts : ∀ part ∈ (significant p).map String.toList,
      (part ≠ [] ∧ part ≠ ['.']) ∧ '/' ∉ part := by
    intro part hpart
    obtain ⟨name, hname, rfl⟩ := List.mem_map.1 hpart
    obtain ⟨hmem, htest⟩ := List.mem_filter.1 hname
    rw [Bool.and_eq_true, bne_iff_ne, bne_iff_ne] at htest
    refine ⟨⟨fun hnil => htest.1 ?_, fun hpoint => htest.2 ?_⟩, h name hmem⟩
    · rw [← String.ofList_toList (s := name), hnil]
    · rw [← String.ofList_toList (s := name), hpoint]
  rw [Path.key, String.toList_ofList, Path.components_join, String.toList_intercalate,
    show "/".toList = ['/'] from rfl, Path.components_intercalate hparts,
    ← count_parent_significant p, List.count, List.count, List.countP_map, List.countP_map]
  refine List.countP_congr fun name _ => ?_
  rw [Function.comp_apply, Function.comp_apply, beq_iff_eq, beq_iff_eq,
    Path.Component.ofPart_eq_parent]
  exact ⟨fun h => String.toList_injective h, fun h => h ▸ rfl⟩

/-- How many parts of a pattern can match `..`. -/
def climbs (pattern : String) : Nat :=
  match Glob.parse 0 (trimCurrent pattern.toList) with
  | .ok g => g.parts.countP Glob.Part.climbs
  | .error _ => 0

end Discovery

open Discovery

/-! ## What is discovered -/

/-- No name of an entry has a slash. -/
def Tree.Slashless (t : Tree β) : Prop := ∀ e ∈ t.entries, ∀ name ∈ e.1, '/' ∉ name.toList

/-- A file is at most `n` directories up from a directory, and so is its path. -/
structure Discovered.Within (t : Tree β) (root : Place) (n : Nat) (d : Discovered) : Prop where
  relative : (Path.components d.relative.toList).count .parent ≤ n
  place : ∃ q, t.walk root d.below = .ok q ∧ root.take (root.length - n) <+: q

/-- A file is in a directory, and its path does not lead out of it. -/
structure Discovered.Inside (t : Tree β) (root : Place) (d : Discovered) : Prop where
  relative : .parent ∉ Path.components d.relative.toList
  place : ∃ q, t.walk root d.below = .ok q ∧ root <+: q

theorem Discovered.Within.inside {root : Place} {d : Discovered} (h : d.Within t root 0) :
    d.Inside t root where
  relative := List.count_eq_zero.1 (Nat.le_zero.1 h.relative)
  place := by
    obtain ⟨q, hq, hprefix⟩ := h.place
    rw [Nat.sub_zero, List.take_length] at hprefix
    exact ⟨q, hq, hprefix⟩

/-- The way to a file that a pattern matches goes up at most as often as the pattern has parts for
it. -/
theorem count_parent_le_climbs {root : Place} {excludeDirs : List String} {pattern : String}
    {found : List Discovered} (h : matching t root excludeDirs pattern = .ok found) :
    ∀ d ∈ found, d.below.count ".." ≤ climbs pattern := by
  intro d hd
  obtain ⟨g, hparse, hmatched⟩ := matched_of_mem h hd
  rw [climbs, hparse]
  refine (Glob.fits_of_mem_expand hmatched.expanded).count_parent_le ?_
  rintro name ⟨hpoint, -⟩ rfl
  exact hpoint rfl

/-- A file that a pattern matches is as many directories up as the pattern has parts for it. -/
theorem within_of_mem_matching {root : Place} {excludeDirs : List String} {pattern : String}
    {found : List Discovered} (hnames : t.Slashless)
    (h : matching t root excludeDirs pattern = .ok found) :
    ∀ d ∈ found, d.Within t root (climbs pattern) := by
  intro d hd
  obtain ⟨g, hparse, hmatched⟩ := matched_of_mem h hd
  have hcount := count_parent_le_climbs h d hd
  have hslash : ∀ part ∈ d.below, '/' ∉ part.toList := by
    refine (Glob.fits_of_mem_expand hmatched.expanded).no_slash ?_ (Glob.no_slash_parse hparse)
    rintro name ⟨-, e, he, hname⟩
    exact hnames e he name hname
  obtain ⟨q, hq, -⟩ := hmatched.file
  refine ⟨?_, q, hq, ?_⟩
  · rw [hmatched.relative, count_parent_key hslash]
    exact hcount
  · exact .trans (List.take_prefix_take_left (Nat.sub_le_sub_left hcount _))
      (Tree.isPrefix_of_walk hq)

/-- **Discovery goes up as often as patterns do.** Every file and every component that is discovered is
found by a pattern that has at least as many parts that can match `..` as its path has components `..`
and as it is directories up from the root of the project. So where no part of a pattern can match `..`,
all that is discovered lies inside the root and has no `..` in its path. -/
theorem discovery_climbs_as_patterns_do (hnames : t.Slashless) (root : Place)
    (excludeDirs : List String) :
    (∀ patterns files, discoverFiles t root patterns excludeDirs = .ok files →
      (∀ d ∈ files, ∃ pattern ∈ patterns, d.Within t root (climbs pattern)) ∧
      ((∀ pattern ∈ patterns, climbs pattern = 0) → ∀ d ∈ files, d.Inside t root)) ∧
    ∀ patterns components, discoverComponents t root patterns excludeDirs = .ok components →
      (∀ d ∈ components, ∃ p ∈ patterns, d.1.Within t root (climbs p.pattern)) ∧
      ((∀ p ∈ patterns, climbs p.pattern = 0) → ∀ d ∈ components, d.1.Inside t root) := by
  refine ⟨fun patterns files h => ?_, fun patterns components h => ?_⟩
  · have hwithin : ∀ d ∈ files, ∃ pattern ∈ patterns, d.Within t root (climbs pattern) := by
      intro d hd
      obtain ⟨pattern, hpattern, found, hmatching, hd⟩ := exists_matching_of_mem_files h hd
      exact ⟨pattern, hpattern, within_of_mem_matching hnames hmatching d hd⟩
    refine ⟨hwithin, fun hstay d hd => ?_⟩
    obtain ⟨pattern, hpattern, hd⟩ := hwithin d hd
    exact (hstay pattern hpattern ▸ hd).inside
  · have hwithin : ∀ d ∈ components, ∃ p ∈ patterns, d.1.Within t root (climbs p.pattern) := by
      intro d hd
      obtain ⟨p, hp, -, found, hmatching, hd⟩ := exists_matching_of_mem_components h hd
      exact ⟨p, hp, within_of_mem_matching hnames hmatching d.1 hd⟩
    refine ⟨hwithin, fun hstay d hd => ?_⟩
    obtain ⟨p, hp, hd⟩ := hwithin d hd
    exact (hstay p hp ▸ hd).inside

-- the patterns of the standard configuration do not lead out of a project
example : (∀ pattern ∈ ({} : SyncConfig).patterns, climbs pattern = 0) ∧
    ∀ p ∈ ({} : SyncConfig).componentPatterns, climbs p.pattern = 0 := by
  decide +kernel

namespace Sample

/-- A directory with a file, and another directory with a file beside it. -/
def neighbours : Tree String :=
  ⟨[(["root"], .dir), (["root", "a.ts"], .file ""), (["out"], .dir), (["out", "x.ts"], .file "")]⟩

theorem slashless_neighbours : neighbours.Slashless := by
  unfold Tree.Slashless
  decide

end Sample

/-- A pattern for names finds the file in the directory; one for names in the directory beside it finds
a file one directory up. -/
theorem discovery_climbs_as_patterns_do_sample :
    (∃ d, discoverFiles Sample.neighbours ["root"] ["**/*.ts"] [] = .ok [d] ∧
      d.relative = "a.ts" ∧ d.Inside Sample.neighbours ["root"]) ∧
    ∃ d, discoverComponents Sample.neighbours ["root"] [⟨"../out/*.ts", .page⟩] [] =
        .ok [(d, .page)] ∧
      climbs "../out/*.ts" = 1 ∧ d.Within Sample.neighbours ["root"] 1 := by
  obtain ⟨hfiles, hcomponents⟩ :=
    discovery_climbs_as_patterns_do Sample.slashless_neighbours ["root"] []
  have hfile : discoverFiles Sample.neighbours ["root"] ["**/*.ts"] [] =
      .ok [⟨["a.ts"], "a.ts"⟩] := by decide +kernel
  have hcomponent : discoverComponents Sample.neighbours ["root"] [⟨"../out/*.ts", .page⟩] [] =
      .ok [(⟨["..", "out", "x.ts"], "../out/x.ts"⟩, .page)] := by decide +kernel
  have hclimbs : climbs "../out/*.ts" = 1 := by decide +kernel
  refine ⟨⟨_, hfile, rfl, ?_⟩, _, hcomponent, hclimbs, ?_⟩
  · exact (hfiles _ _ hfile).2 (by decide +kernel) _ (List.mem_singleton_self _)
  · obtain ⟨p, hp, hwithin⟩ := (hcomponents _ _ hcomponent).1 _ (List.mem_singleton_self _)
    obtain rfl := List.mem_singleton.1 hp
    exact hclimbs ▸ hwithin

/-- **Discovery leaves the root** by a pattern with `..`: the file beside the root is discovered, and its
path keeps the `..`. -/
theorem discovery_leaves_root :
    ∃ files, discoverFiles Sample.neighbours ["root"] ["../out/*.ts"] [] = .ok files ∧
      ∃ d ∈ files, .parent ∈ Path.components d.relative.toList ∧
        ∃ q, Sample.neighbours.walk ["root"] d.below = .ok q ∧ Sample.neighbours.isFile q = true ∧
          ¬ ["root"] <+: q :=
  ⟨[⟨["..", "out", "x.ts"], "../out/x.ts"⟩], by decide +kernel, _, List.mem_singleton_self _,
    by decide +kernel, ["out", "x.ts"], by decide +kernel, by decide +kernel, by decide⟩

end CodeIndex
