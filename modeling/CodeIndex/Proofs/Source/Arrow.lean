import CodeIndex.Proofs.Source.Header

/-!
Headers of TypeScript.

Most headers stand on one line. Those of arrow functions may go over several, between the parentheses of
the parameters, and where one of these starts inside of another both stop at the arrow after the same
parenthesis.

* `Arrow` are the parts of the header of an arrow function;
* `header_of_typescript` is that the patterns of the rules are patterns of headers.
-/
namespace CodeIndex.Declaration

open Text Text.Pattern

/-! ## Arrow functions -/

/-- The parts of the header of an arrow function with its parameters in parentheses. -/
structure Arrow where
  /-- The keywords and the name. -/
  binder : List Char
  /-- The type of the name. -/
  annotation : List Char
  /-- What is between the equals sign and the parameters. -/
  opening : List Char
  params : List Char
  /-- What is between the parameters and the arrow. -/
  result : List Char
  binder_avoids : ∀ c ∈ binder, c ∉ ['\n', ')']
  annotation_avoids : ∀ c ∈ annotation, c ∉ ['\n', '=']
  opening_avoids : ∀ c ∈ opening, c ∉ ['\n', ')', '>']
  params_avoids : ∀ c ∈ params, c ∉ [')']
  result_avoids : ∀ c ∈ result, c ∉ ['\n', '=']

namespace Arrow

/-- What stands before the parameters, and from their end on. -/
def head (a : Arrow) : List Char := a.binder ++ a.annotation ++ '=' :: a.opening ++ ['(']

def foot (a : Arrow) : List Char := ')' :: a.result ++ ['=', '>']

def text (a : Arrow) : List Char := a.head ++ a.params ++ a.foot

theorem newline_not_mem_head (a : Arrow) : '\n' ∉ a.head := by
  have hbinder : '\n' ∉ a.binder := fun h => a.binder_avoids _ h (by simp)
  have hannotation : '\n' ∉ a.annotation := fun h => a.annotation_avoids _ h (by simp)
  have hopening : '\n' ∉ a.opening := fun h => a.opening_avoids _ h (by simp)
  simp [head, hbinder, hannotation, hopening]

theorem newline_not_mem_foot (a : Arrow) : '\n' ∉ a.foot := by
  have hresult : '\n' ∉ a.result := fun h => a.result_avoids _ h (by simp)
  simp [foot, hresult]

theorem newline_mem_params {a : Arrow} (h : '\n' ∈ a.text) : '\n' ∈ a.params := by
  rw [text, List.mem_append, List.mem_append] at h
  rcases h with (h | h) | h
  · exact absurd h a.newline_not_mem_head
  · exact h
  · exact absurd h a.newline_not_mem_foot

end Arrow

/-! ## Where they stop -/

/-- The text from inside of the parameters on: `t` is the rest of them and what follows to the arrow,
and then `r`. -/
def Closes (t r : List Char) : Prop :=
  ∃ b u, t = b ++ ')' :: (u ++ '=' :: '>' :: r) ∧ ')' ∉ b ∧ '=' ∉ u

theorem eq_of_append_cons {c : Char} {a b s t : List Char} (h : a ++ c :: s = b ++ c :: t)
    (ha : c ∉ a) (hb : c ∉ b) : a = b ∧ s = t := by
  rcases List.append_eq_append_iff.1 h with ⟨x, rfl, hx⟩ | ⟨x, rfl, hx⟩
  · cases x with
    | nil => exact ⟨(List.append_nil a).symm, (List.cons.inj hx).2⟩
    | cons d x =>
      obtain ⟨rfl, -⟩ := List.cons.inj hx
      simp at hb
  · cases x with
    | nil => exact ⟨List.append_nil b, (List.cons.inj hx).2.symm⟩
    | cons d x =>
      obtain ⟨rfl, -⟩ := List.cons.inj hx
      simp at ha

theorem Closes.unique {t r r' : List Char} (h : Closes t r) (h' : Closes t r') : r = r' := by
  obtain ⟨b, u, rfl, hb, hu⟩ := h
  obtain ⟨b', u', ht, hb', hu'⟩ := h'
  obtain ⟨-, ht⟩ := eq_of_append_cons ht hb hb'
  obtain ⟨-, ht⟩ := eq_of_append_cons ht hu hu'
  exact (List.cons.inj ht).2

variable {a b : Arrow} {d m r r' t : List Char}

/-- From inside of the parameters of one header to the arrow, and from there to the arrow of another
header: a parenthesis that closes the type of the name does not have the arrow after it. -/
theorem Arrow.stop_of_closes (h : Closes (a.text ++ r') r) : r = r' := by
  have hbinder : ')' ∉ a.binder := fun h => a.binder_avoids _ h (by simp)
  have hopening : ')' ∉ a.opening := fun h => a.opening_avoids _ h (by simp)
  have hparams : ')' ∉ a.params := fun h => a.params_avoids _ h (by simp)
  have hresult : '=' ∉ a.result := fun h => a.result_avoids _ h (by simp)
  by_cases hmem : ')' ∈ a.annotation
  · exfalso
    obtain ⟨n, n', hn, hfirst⟩ := List.eq_append_cons_of_mem hmem
    obtain ⟨b, u, ht, hb, hu⟩ := h
    have hbn : ')' ∉ a.binder ++ n := by simp [hbinder, hfirst]
    have hn' : '=' ∉ n' := fun h => a.annotation_avoids '=' (by simp [hn, h]) (by simp)
    have htext : a.text ++ r' = (a.binder ++ n) ++ ')' ::
        (n' ++ '=' :: (a.opening ++ '(' :: (a.params ++ (a.foot ++ r')))) := by
      simp [Arrow.text, Arrow.head, hn]
    obtain ⟨-, ht⟩ := eq_of_append_cons (htext.symm.trans ht) hbn hb
    obtain ⟨-, ht⟩ := eq_of_append_cons ht hn' hu
    cases hopen : a.opening with
    | nil =>
      rw [hopen] at ht
      cases (List.cons.inj ht).1
    | cons c o =>
      rw [hopen] at ht
      obtain ⟨rfl, -⟩ := List.cons.inj ht
      exact a.opening_avoids '>' (by simp [hopen]) (by simp)
  · refine h.unique ⟨a.head ++ a.params, a.result, by simp [Arrow.text, Arrow.foot], ?_, hresult⟩
    simp [Arrow.head, hbinder, hmem, hopening, hparams]

theorem Arrow.closes_of_newline (h : '\n' ∈ a.text) (r : List Char) :
    ∃ p t, a.text ++ r = p ++ '\n' :: t ∧ '\n' ∉ p ∧ Closes t r := by
  obtain ⟨p, q, hparams, hp⟩ := List.eq_append_cons_of_mem (newline_mem_params h)
  have hresult : '=' ∉ a.result := fun h => a.result_avoids _ h (by simp)
  have hq : ')' ∉ q := fun h => a.params_avoids ')' (by simp [hparams, h]) (by simp)
  refine ⟨a.head ++ p, q ++ (a.foot ++ r), by simp [text, hparams], ?_, q, a.result,
    by simp [foot], hq, hresult⟩
  simp [a.newline_not_mem_head, hp]

theorem Arrow.stop_of_text (ha : '\n' ∈ a.text) (hb : '\n' ∈ b.text)
    (h : a.text ++ r = b.text ++ r') : r = r' := by
  obtain ⟨p, t, ht, hp, hclose⟩ := closes_of_newline ha r
  obtain ⟨p', t', ht', hp', hclose'⟩ := closes_of_newline hb r'
  obtain ⟨-, rfl⟩ := eq_of_append_cons (ht.symm.trans (h.trans ht')) hp hp'
  exact hclose.unique hclose'

/-- A header over more than one line that starts in a line of another. -/
theorem Arrow.stop_of_inner (h : a.text = d ++ m) (hd : d.getLast? = some '\n')
    (hb : m ++ r = b.text ++ r') : r = r' := by
  have hnewline : '\n' ∈ d := List.mem_of_getLast? hd
  have hresult : '=' ∉ a.result := fun h => a.result_avoids _ h (by simp)
  have hparams : ')' ∉ a.params := fun h => a.params_avoids _ h (by simp)
  -- the place is inside of the parameters, since neither the head nor the foot has a newline
  obtain ⟨x, z, hx, hm⟩ : ∃ x z, a.params = x ++ z ∧ m = z ++ a.foot := by
    rw [text, List.append_assoc] at h
    rcases List.append_eq_append_iff.1 h with ⟨x, hdx, hrest⟩ | ⟨x, hhead, -⟩
    · rcases List.append_eq_append_iff.1 hrest with ⟨z, rfl, hfoot⟩ | ⟨z, hparams, hz⟩
      · have hz : z = [] := by
          by_contra hne
          rw [hdx, ← List.append_assoc, List.getLast?_append_of_ne_nil _ hne] at hd
          refine a.newline_not_mem_foot ?_
          rw [hfoot]
          exact List.mem_append_left _ (List.mem_of_getLast? hd)
        subst hz
        exact ⟨a.params, [], by simp, hfoot.symm⟩
      · exact ⟨x, z, hparams, hz⟩
    · refine absurd ?_ a.newline_not_mem_head
      rw [hhead]
      exact List.mem_append_left _ hnewline
  have hz : ')' ∉ z := fun h => hparams (by simp [hx, h])
  refine stop_of_closes (a := b) ?_
  rw [← hb]
  exact ⟨z, a.result, by simp [hm, foot], hz, hresult⟩

/-! ## Ways of the patterns -/

theorem mem_ends_all_append {ps qs : List Pattern} {here stop : Cursor} :
    stop ∈ (all (ps ++ qs)).ends here ↔ ∃ mid ∈ (all ps).ends here, stop ∈ (all qs).ends mid := by
  induction ps generalizing here with
  | nil => simp [all, ends]
  | cons p ps ih =>
    change stop ∈ (seq p (all (ps ++ qs))).ends here ↔ ∃ mid ∈ (seq p (all ps)).ends here, _
    simp only [mem_ends_seq, ih]
    constructor
    · rintro ⟨a, ha, b, hb, hstop⟩
      exact ⟨b, ⟨a, ha, hb⟩, hstop⟩
    · rintro ⟨b, ⟨a, ha, hb⟩, hstop⟩
      exact ⟨a, ha, b, hb, hstop⟩

variable {s pre : List Char} {here stop : Cursor}

theorem ends_text {cs : List Char} (h : here.After s pre)
    (hstop : stop ∈ (Pattern.text (String.ofList cs)).ends here) : stop.After s (pre ++ cs) := by
  rw [Pattern.text, String.toList_ofList] at hstop
  induction cs generalizing here pre with
  | nil =>
    rw [List.mem_singleton.1 hstop, List.append_nil]
    exact h
  | cons c cs ih =>
    obtain ⟨mid, hmid, hmore⟩ := mem_ends_seq.1 hstop
    obtain ⟨d, rest, hrest, hd, rfl⟩ := mem_ends_one.1 hmid
    obtain rfl : d = c := by simpa [CharClass.accepts] using hd
    have := ih (h.advance hrest) hmore
    rwa [List.append_assoc] at this

/-- The parameters of an arrow function: in parentheses, or a word. -/
theorem ends_params (h : here.After s pre)
    (hstop : stop ∈
      (alt (all [Pattern.text "(", run (.noneOf [')']), Pattern.text ")"]) word).ends here) :
    ∃ m, stop.After s (pre ++ m) ∧
      ('\n' ∉ m ∨ ∃ b, m = '(' :: b ++ [')'] ∧ ∀ c ∈ b, c ∉ [')']) := by
  rcases mem_ends_alt.1 hstop with hstop | hstop
  · obtain ⟨opened, hopened, hstop⟩ := mem_ends_seq.1 hstop
    obtain ⟨inner, hinner, hstop⟩ := mem_ends_seq.1 hstop
    obtain ⟨closed, hclosed, hstop⟩ := mem_ends_seq.1 hstop
    rw [List.mem_singleton.1 hstop]
    have hopened' := ends_text h hopened
    obtain ⟨b, hb, hinner', -⟩ := ends_run hopened' hinner
    have hclosed' := ends_text hinner' hclosed
    refine ⟨'(' :: b ++ [')'], by simpa using hclosed', .inr ⟨b, rfl, fun c hc => ?_⟩⟩
    simpa [CharClass.accepts] using hb c hc
  · have hword : word.avoids '\n' = true := by decide
    obtain ⟨m, hm⟩ := ends_after h hstop
    exact ⟨m, hm, .inl (not_mem_of_avoids hword h hstop hm)⟩

theorem ends_arrow (h : here.After s pre) (hstop : stop ∈ arrow.ends here) :
    ∃ o m u, stop.After s (pre ++ (o ++ m ++ u ++ ['=', '>'])) ∧
      (∀ c ∈ o, c ∉ ['\n', ')', '>']) ∧ (∀ c ∈ u, c ∉ ['\n', '=']) ∧
      ('\n' ∉ m ∨ ∃ b, m = '(' :: b ++ [')'] ∧ ∀ c ∈ b, c ∉ [')']) := by
  have hasync : (optional (seq (Pattern.text "async") gaps)).avoidsAll ['\n', ')', '>'] = true := by
    decide
  have hresult : (seq gaps annotation?).avoidsAll ['\n', '='] = true := by decide
  obtain ⟨opened, hopened, hstop⟩ := mem_ends_seq.1 hstop
  obtain ⟨closed, hclosed, hstop⟩ := mem_ends_seq.1 hstop
  obtain ⟨spaced, hspaced, hstop⟩ := mem_ends_seq.1 hstop
  obtain ⟨typed, htyped, hstop⟩ := mem_ends_seq.1 hstop
  obtain ⟨_, harrow, hend⟩ := mem_ends_seq.1 hstop
  obtain rfl := List.mem_singleton.1 hend
  obtain ⟨o, ho, hopened⟩ := ends_avoid hasync h hopened
  obtain ⟨m, hclosed, hm⟩ := ends_params hopened hclosed
  obtain ⟨u, hu, htyped⟩ := ends_avoid hresult hclosed (mem_ends_seq.2 ⟨spaced, hspaced, htyped⟩)
  have hafter := ends_text htyped harrow
  exact ⟨o, m, u, by simpa using hafter, ho, hu, hm⟩

/-- The pattern of an arrow function, by what is before its annotation and before its parameters. -/
def arrowHeader (binder opening : List Pattern) : Pattern :=
  all (binder ++ ([annotation?, Pattern.text "="] ++ (opening ++ [arrow])))

theorem ends_arrowHeader {binder opening : List Pattern}
    (hbinder : (all binder).avoidsAll ['\n', ')'] = true)
    (hopening : (all opening).avoidsAll ['\n', ')', '>'] = true) (h : here.After s pre)
    (hstop : stop ∈ (arrowHeader binder opening).ends here) :
    ∃ m, stop.After s (pre ++ m) ∧ m.getLast? = some '>' ∧
      ('\n' ∉ m ∨ ∃ a : Arrow, m = a.text) := by
  have hannotation : annotation?.avoidsAll ['\n', '='] = true := by decide
  obtain ⟨named, hnamed, hstop⟩ := mem_ends_all_append.1 hstop
  obtain ⟨_, hequals, hstop⟩ := mem_ends_all_append.1 hstop
  obtain ⟨typed, htyped, hequals⟩ := mem_ends_seq.1 hequals
  obtain ⟨equals, hequals, hend⟩ := mem_ends_seq.1 hequals
  obtain rfl := List.mem_singleton.1 hend
  obtain ⟨opened, hopened, hstop⟩ := mem_ends_all_append.1 hstop
  obtain ⟨_, harrow, hend⟩ := mem_ends_seq.1 hstop
  obtain rfl := List.mem_singleton.1 hend
  obtain ⟨x, hx, hnamed⟩ := ends_avoid hbinder h hnamed
  obtain ⟨n, hn, htyped⟩ := ends_avoid hannotation hnamed htyped
  obtain ⟨o, ho, hopened⟩ := ends_avoid hopening (ends_text htyped hequals) hopened
  obtain ⟨o', m, u, hafter, ho', hu, hm⟩ := ends_arrow hopened harrow
  refine ⟨x ++ n ++ '=' :: (o ++ o') ++ m ++ u ++ ['=', '>'], by simpa using hafter, ?_, ?_⟩
  · rw [List.getLast?_append]
    rfl
  · rcases hm with hm | ⟨b, rfl, hb⟩
    · refine .inl ?_
      have hx : '\n' ∉ x := fun h => hx _ h (by simp)
      have hn : '\n' ∉ n := fun h => hn _ h (by simp)
      have ho : '\n' ∉ o := fun h => ho _ h (by simp)
      have ho' : '\n' ∉ o' := fun h => ho' _ h (by simp)
      have hu : '\n' ∉ u := fun h => hu _ h (by simp)
      simp [hx, hn, ho, ho', hm, hu]
    · refine .inr ⟨⟨x, n, o ++ o', b, u, hx, hn, ?_, hb, hu⟩, ?_⟩
      · exact fun c hc => (List.mem_append.1 hc).elim (ho c) (ho' c)
      · simp [Arrow.text, Arrow.head, Arrow.foot]

/-! ## The rules -/

/-- A pattern whose matches are on one line is a pattern of headers. -/
theorem header_of_line {q : Pattern} (hcut : q.cuttable = true) (hsome : q.consumes = true)
    (hnewline : q.avoids '\n' = true) (hreturn : q.avoids '\r' = true) : Header (seq lineStart q) where
  start := ⟨q, rfl⟩
  cut := by simpa [cuttable, avoids] using hcut
  visible := by
    intro s pre m here stop h hstop hm
    have hq := (atLineStart_of_ends h hstop).2
    have hne := ne_nil_of_consumes hsome h hq hm
    refine ⟨m.getLast hne, List.getLast?_eq_some_getLast hne, ?_, ?_⟩
    · rintro hlast
      exact not_mem_of_avoids hnewline h hq hm (hlast ▸ List.getLast_mem hne)
    · rintro hlast
      exact not_mem_of_avoids hreturn h hq hm (hlast ▸ List.getLast_mem hne)
  settled := by
    intro s pre d m n here stop inner innerStop _ _ _ hinner hend hn _ _ hlong
    have hq := (atLineStart_of_ends hinner hend).2
    exact absurd hlong (not_mem_of_avoids hnewline hinner hq hn)

theorem header_of_arrow (binder opening : List Pattern)
    (hcut : (arrowHeader (lineStart :: binder) opening).cuttable = true)
    (hbinder : (all (lineStart :: binder)).avoidsAll ['\n', ')'] = true)
    (hopening : (all opening).avoidsAll ['\n', ')', '>'] = true) :
    Header (arrowHeader (lineStart :: binder) opening) where
  start := ⟨_, rfl⟩
  cut := hcut
  visible := by
    intro s pre m here stop h hstop hm
    obtain ⟨m', hm', hlast, -⟩ := ends_arrowHeader hbinder hopening h hstop
    rw [List.append_cancel_left (hm.unique hm')]
    exact ⟨'>', hlast, by decide, by decide⟩
  settled := by
    intro s pre d m n here stop inner innerStop h hstop hdm hinner hend hn hm hlong hlong'
    obtain ⟨a', ha', -, ha⟩ := ends_arrowHeader hbinder hopening h hstop
    obtain ⟨b', hb', -, hb⟩ := ends_arrowHeader hbinder hopening hinner hend
    rw [← List.append_cancel_left (hdm.unique ha')] at ha
    rw [← List.append_cancel_left (hn.unique hb')] at hb
    obtain ⟨a, ha⟩ := ha.resolve_left (not_not.2 hlong)
    obtain ⟨b, rfl⟩ := hb.resolve_left (not_not.2 hlong')
    have htext : m ++ stop.rest = b.text ++ innerStop.rest := by
      have := hdm.text.trans hn.text.symm
      simp only [List.append_assoc] at this
      exact List.append_cancel_left (List.append_cancel_left this)
    have hrest : stop.rest = innerStop.rest := by
      rcases eq_or_ne d [] with rfl | hd
      · rw [List.nil_append] at ha hlong
        rw [ha] at htext hlong
        exact Arrow.stop_of_text hlong hlong' htext
      · have hline : AtLineStart (pre ++ d) := (atLineStart_of_ends hinner hend).1
        exact Arrow.stop_of_inner ha.symm (newline_of_atLineStart hline hd) htext
    rw [hrest] at htext
    exact (List.append_cancel_right htext).symm

/-- **The patterns of TypeScript are patterns of headers.** -/
theorem header_of_typescript {rule : Rule} (h : rule ∈ typescript) : Header rule.pattern := by
  simp only [typescript, List.mem_cons, List.not_mem_nil, or_false] at h
  rcases h with rfl | rfl | rfl | rfl | rfl | rfl | rfl | rfl
  · exact header_of_line (by decide) (by decide) (by decide) (by decide)
  · exact header_of_line (by decide) (by decide) (by decide) (by decide)
  · exact header_of_arrow [keyword? "export", keyword "const", capitalName, gaps]
      [gaps, optional (Pattern.text "React."),
        optional (any [Pattern.text "memo", Pattern.text "forwardRef"]), gaps,
        optional (Pattern.text "("), gaps] (by decide) (by decide) (by decide)
  · exact header_of_line (by decide) (by decide) (by decide) (by decide)
  · exact header_of_line (by decide) (by decide) (by decide) (by decide)
  · exact header_of_line (by decide) (by decide) (by decide) (by decide)
  · exact header_of_arrow [keyword? "export",
        any [Pattern.text "const", Pattern.text "let", Pattern.text "var"], gaps1, name, gaps]
      [gaps] (by decide) (by decide) (by decide)
  · exact header_of_line (by decide) (by decide) (by decide) (by decide)

end CodeIndex.Declaration
