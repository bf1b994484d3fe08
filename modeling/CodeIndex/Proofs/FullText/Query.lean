import CodeIndex.FullText.Query
import CodeIndex.Proofs.Text.Blank

/-!
Search texts as queries of the full-text index.

A query quotes every word of a search text, and reading it in the language of queries gives these words
and nothing else, whatever signs they hold: a quote is written twice, so a string ends only where its word
does, and the blank between two strings keeps them apart.

* `WordsOf` says what the words of a text are by what stands between them, and `wordsOf_iff` that `words`
  finds just these;
* `lexFrom_quoted`: a quoted word is read as one string, whatever follows it but another quote;
* `written_query_is_words`: the query for a search text is read as its words, if the text holds no
  character of code zero, and otherwise cannot be read.
-/
namespace CodeIndex.Text

/-! ## Words -/

/-- The words of a text: there are blanks around them, and at least one between two of them. -/
inductive WordsOf : List Char → List (List Char) → Prop
  | blank {b : List Char} (hb : allBlank b = true) : WordsOf b []
  | last {b w : List Char} (hb : allBlank b = true) (hne : w ≠ []) (hw : ∀ c ∈ w, isBlank c = false) :
    WordsOf (b ++ w) [w]
  | cons {b w s : List Char} {c : Char} {ws : List (List Char)} (hb : allBlank b = true) (hne : w ≠ [])
    (hw : ∀ c ∈ w, isBlank c = false) (hc : isBlank c = true) (h : WordsOf s ws) :
    WordsOf (b ++ w ++ c :: s) (w :: ws)

variable {s b w : List Char} {c : Char} {ws : List (List Char)}

theorem allBlank_cons (hc : isBlank c = true) (hb : allBlank b = true) : allBlank (c :: b) = true := by
  rw [allBlank, List.all_cons, hc]
  exact hb

theorem WordsOf.after_blank (h : WordsOf s ws) (hc : isBlank c = true) : WordsOf (c :: s) ws := by
  cases h with
  | blank hb => exact .blank (allBlank_cons hc hb)
  | last hb hne hw => exact .last (b := c :: _) (allBlank_cons hc hb) hne hw
  | cons hb hne hw hend h => exact .cons (b := c :: _) (allBlank_cons hc hb) hne hw hend h

/-- What is read as words from a word on that has been begun. -/
theorem wordsOf_wordsFrom (hw : ∀ c ∈ w, isBlank c = false) (s : List Char) :
    WordsOf (w.reverse ++ s) (wordsFrom w s) := by
  induction s generalizing w with
  | nil =>
    rw [wordsFrom, List.append_nil]
    cases w with
    | nil => exact .blank rfl
    | cons c w => exact .last (b := []) rfl (by simp) fun d hd => hw d (List.mem_reverse.1 hd)
  | cons c s ih =>
    rw [wordsFrom]
    split
    · rename_i hc
      have hrest : WordsOf s (wordsFrom [] s) := ih (List.forall_mem_nil _)
      cases w with
      | nil => exact hrest.after_blank hc
      | cons d w =>
        exact .cons (b := []) rfl (by simp) (fun e he => hw e (List.mem_reverse.1 he)) hc hrest
    · rename_i hc
      have hnext := ih (w := c :: w) (List.forall_mem_cons.2 ⟨Bool.eq_false_iff.2 hc, hw⟩)
      rwa [List.reverse_cons, List.append_assoc] at hnext

theorem words_blank_append (hb : allBlank b = true) (s : List Char) : words (b ++ s) = words s := by
  induction b with
  | nil => rfl
  | cons c b ih =>
    rw [allBlank, List.all_cons, Bool.and_eq_true] at hb
    rw [words, List.cons_append, wordsFrom, if_pos hb.1]
    exact ih hb.2

theorem wordsFrom_append (hw : ∀ c ∈ w, isBlank c = false) (before s : List Char) :
    wordsFrom before (w ++ s) = wordsFrom (w.reverse ++ before) s := by
  induction w generalizing before with
  | nil => rfl
  | cons c w ih =>
    rw [List.forall_mem_cons] at hw
    rw [List.cons_append, wordsFrom, if_neg (by simp [hw.1]), ih hw.2, List.reverse_cons,
      List.append_assoc]
    rfl

theorem wordsOf_iff : WordsOf s ws ↔ ws = words s := by
  refine ⟨fun h => ?_, fun h => ?_⟩
  · induction h with
    | blank hb =>
      have hwords := words_blank_append hb []
      rw [List.append_nil] at hwords
      exact hwords.symm
    | @last b w hb hne hw =>
      have hword := wordsFrom_append hw [] []
      rw [List.append_nil, List.append_nil] at hword
      rw [words_blank_append hb, words, hword]
      simp [wordsFrom, hne]
    | cons hb hne hw hc _ ih =>
      rw [List.append_assoc, words_blank_append hb, words, wordsFrom_append hw, wordsFrom, if_pos hc, ih]
      simp [hne, words]
  · rw [h]
    exact wordsOf_wordsFrom (List.forall_mem_nil _) s

/-- The words hold all characters that are not blank, and no others. -/
theorem WordsOf.flatten (h : WordsOf s ws) : ws.flatten = s.filter fun c => !isBlank c := by
  have hnone : ∀ {b : List Char}, allBlank b = true → b.filter (fun c => !isBlank c) = [] := by
    intro b hb
    rw [allBlank, List.all_eq_true] at hb
    exact List.filter_eq_nil_iff.2 fun c hc => by simp [hb c hc]
  have hall : ∀ {w : List Char}, (∀ c ∈ w, isBlank c = false) →
      w.filter (fun c => !isBlank c) = w := fun hw =>
    List.filter_eq_self.2 fun c hc => by simp [hw c hc]
  induction h with
  | blank hb => rw [hnone hb, List.flatten_nil]
  | last hb hne hw => rw [List.filter_append, hnone hb, hall hw]; simp
  | cons hb hne hw hc _ ih =>
    rw [List.flatten_cons, ih, List.filter_append, List.filter_append, hnone hb, hall hw,
      List.filter_cons_of_neg (by simp [hc]), List.nil_append]

end CodeIndex.Text

namespace CodeIndex.FullText.Query

open Text

/-! ## Quoted words -/

variable {s w before rest : List Char} {ws : List (List Char)}

/-- A word as it stands between quotes. -/
def inQuotes (w : List Char) : List Char := w.flatMap fun c => if c = '"' then ['"', '"'] else [c]

theorem quoted_append (w rest : List Char) :
    quoted w ++ rest = '"' :: (inQuotes w ++ '"' :: rest) := by
  simp [quoted, inQuotes]

theorem inQuotes_cons (c : Char) (w : List Char) :
    inQuotes (c :: w) = (if c = '"' then ['"', '"'] else [c]) ++ inQuotes w := List.flatMap_cons

/-- A string ends with a quote that no other follows, and what follows is read as if it stood alone. -/
theorem lexFrom_afterQuote (hrest : rest.head? ≠ some '"') (before : List Char) :
    lexFrom (.afterQuote before) rest =
      (lexFrom .between rest).map (.string before.reverse :: ·) := by
  cases rest with
  | nil => rfl
  | cons c rest =>
    have hc : c ≠ '"' := fun h => hrest (congrArg some h)
    rw [lexFrom, lexFrom, step, step, if_neg (by simpa using hc)]
    cases stepBetween c with
    | none => rfl
    | some next =>
      rw [Option.map_some]
      change (lexFrom next.1 rest).map _ = ((lexFrom next.1 rest).map _).map _
      rw [Option.map_map]
      rfl

theorem toNat_beq_zero {c : Char} : (c.toNat == 0) = true ↔ c = '\x00' := by
  rw [beq_iff_eq]
  exact ⟨fun h => Char.ext (UInt32.toNat_inj.1 h), fun h => h ▸ rfl⟩

theorem lexFrom_cons {state next : State} {c : Char} (h : step state c = some (next, [])) :
    lexFrom state (c :: rest) = lexFrom next rest := by
  rw [lexFrom, h]
  exact congrFun Option.map_id _

theorem lexFrom_inString {c : Char} (hc : c ≠ '\x00') (before rest : List Char) :
    lexFrom (.inString before) ((if c = '"' then ['"', '"'] else [c]) ++ rest) =
      lexFrom (.inString (c :: before)) rest := by
  have hcode : ¬ (c.toNat == 0) = true := fun h => hc (toNat_beq_zero.1 h)
  split
  · rename_i hquote
    subst hquote
    exact (lexFrom_cons rfl).trans (lexFrom_cons rfl)
  · rename_i hquote
    refine lexFrom_cons ?_
    rw [step, if_neg hcode, if_neg (by simpa using hquote)]

theorem lexFrom_inQuotes (w before rest : List Char) :
    lexFrom (.inString before) (inQuotes w ++ rest) =
      if '\x00' ∈ w then none else lexFrom (.inString (w.reverse ++ before)) rest := by
  induction w generalizing before with
  | nil => rw [if_neg List.not_mem_nil]; rfl
  | cons c w ih =>
    rw [inQuotes_cons, List.append_assoc]
    by_cases hc : c = '\x00'
    · subst hc
      rw [if_pos List.mem_cons_self]
      rfl
    · rw [lexFrom_inString hc, ih, List.reverse_cons, List.append_assoc, List.singleton_append]
      simp only [List.mem_cons, Ne.symm hc, false_or]

/-- **A quoted word is one string**, whatever signs it holds and whatever follows it but another quote. -/
theorem lexFrom_quoted (hrest : rest.head? ≠ some '"') (w : List Char) :
    lexFrom .between (quoted w ++ rest) =
      if '\x00' ∈ w then none else (lexFrom .between rest).map (.string w :: ·) := by
  rw [quoted_append, lexFrom_cons rfl, lexFrom_inQuotes]
  split
  · rfl
  · rw [lexFrom_cons rfl, lexFrom_afterQuote hrest, List.append_nil, List.reverse_reverse]

/-! ## Whole queries -/

theorem lex_quoted (ws : List (List Char)) :
    lex ([' '].intercalate (ws.map quoted)) =
      if '\x00' ∈ ws.flatten then none else some (ws.map .string) := by
  rw [lex]
  induction ws with
  | nil => rfl
  | cons w ws ih =>
    have hfirst : ∀ rest, rest.head? ≠ some '"' →
        lexFrom .between rest = (if '\x00' ∈ ws.flatten then none else some (ws.map .string)) →
        lexFrom .between (quoted w ++ rest) =
          if '\x00' ∈ (w :: ws).flatten then none else some ((w :: ws).map .string) := by
      intro rest hrest hread
      rw [lexFrom_quoted hrest, hread]
      simp only [List.flatten_cons, List.mem_append]
      by_cases hw : '\x00' ∈ w <;> by_cases hws : '\x00' ∈ ws.flatten <;> simp [hw, hws]
    cases ws with
    | nil =>
      have hone := hfirst [] (by simp) rfl
      rw [List.append_nil] at hone
      rw [List.map_singleton, List.intercalate_singleton]
      exact hone
    | cons w' ws =>
      rw [List.map_cons, List.map_cons, List.intercalate_cons_cons, List.append_assoc,
        List.singleton_append]
      exact hfirst _ (by simp) ((lexFrom_cons rfl).trans ih)

theorem mapM_string (ws : List (List Char)) :
    (ws.map Lexeme.string).mapM (fun piece => match piece with | .string s => some s | _ => none) =
      some ws := by
  induction ws with
  | nil => rfl
  | cons w ws ih => rw [List.map_cons, List.mapM_cons, ih]; rfl

/-- **Nothing in a search text is an operator.** The query for a text is read as strings alone, and these
are the words of the text, in order and character for character: no sign, no word without quotes and no
other string. This is so for every text without a character of code zero; with one the query cannot be
read. -/
theorem written_query_is_words (s : List Char) :
    ∃ ws, (∀ ws', WordsOf s ws' ↔ ws' = ws) ∧
      lex (write s) = (if '\x00' ∈ s then none else some (ws.map .string)) ∧
      strings? (write s) = if '\x00' ∈ s then none else some ws := by
  have hzero : '\x00' ∈ (words s).flatten ↔ '\x00' ∈ s := by
    rw [(wordsOf_iff.2 rfl).flatten, List.mem_filter]
    exact and_iff_left (by decide)
  have hlex : lex (write s) = if '\x00' ∈ s then none else some ((words s).map .string) := by
    rw [write, lex_quoted]
    simp only [hzero]
  refine ⟨words s, fun ws' => wordsOf_iff, hlex, ?_⟩
  rw [strings?, hlex]
  split
  · rfl
  · exact mapM_string (words s)

end CodeIndex.FullText.Query
