import CodeIndex.Json.Reader
import Mathlib.Algebra.Group.Nat.Defs
import Mathlib.Algebra.Ring.Int.Defs
import Mathlib.Data.List.TakeWhile

/-!
JSON that is written is read back.

Doubles are written in shortest form, which is a theory of its own; a value without them is read back
as it was, if its whole numbers fit words of 64 bits and it does not nest deeper than the reader goes.

* `Json.Exact` are such values;
* `readNumber_int`, `readString_escaped`: whole numbers and strings are read back, whatever follows them;
* `readValue_compact`: so is every such value, with a unit of fuel for each character;
* `parse?_compact`: reading undoes writing.
-/
namespace CodeIndex.Json

/-- A value without doubles, with whole numbers that fit words of 64 bits, in which arrays and objects
nest at most so deep. -/
inductive Exact : Nat → Json → Prop
  | null {depth : Nat} : Exact depth null
  | bool {depth : Nat} (b : Bool) : Exact depth (bool b)
  | int {depth : Nat} {n : Int} (hlow : -2 ^ 63 ≤ n) (hhigh : n < 2 ^ 64) : Exact depth (int n)
  | str {depth : Nat} (s : String) : Exact depth (str s)
  | arr {depth : Nat} {items : List Json} (h : ∀ j ∈ items, Exact depth j) :
    Exact (depth + 1) (arr items)
  | obj {depth : Nat} {members : List (String × Json)} (h : ∀ m ∈ members, Exact depth m.2) :
    Exact (depth + 1) (obj members)

/-- What may follow a value: nothing, a comma or a closing bracket. -/
def Ends (rest : List Char) : Prop := ∀ c ∈ rest.head?, c = ',' ∨ c = ']' ∨ c = '\x7d'

theorem ends_nil : Ends [] := fun _ h => by cases h

theorem ends_cons {c : Char} (h : c = ',' ∨ c = ']' ∨ c = '\x7d') (rest : List Char) :
    Ends (c :: rest) := fun _ hx => by
  cases hx
  exact h

/-! ## Whole numbers -/

theorem isDigit_of_mem_toDigits {n : Nat} {c : Char} (h : c ∈ Nat.toDigits 10 n) :
    c.isDigit = true :=
  Nat.isDigit_of_mem_toDigits (by decide) (by decide) h

theorem head?_toDigits_append (n : Nat) (s : List Char) :
    (Nat.toDigits 10 n ++ s).head? = (Nat.toDigits 10 n).head? := by
  cases h : Nat.toDigits 10 n with
  | nil => exact absurd h Nat.toDigits_ne_nil
  | cons c digits => rfl

/-- A number other than zero does not start with the digit zero. -/
theorem head?_toDigits {n : Nat} (hn : n ≠ 0) : (Nat.toDigits 10 n).head? ≠ some '0' := by
  -- by the number without its last digit, which starts with the same digit
  induction n using Nat.strongRecOn with
  | ind n ih =>
    rcases Nat.lt_or_ge n 10 with hlt | hge
    · rw [Nat.toDigits_of_lt_base hlt]
      simpa using hn
    · rw [Nat.toDigits_of_base_le (by decide) hge, head?_toDigits_append]
      exact ih (n / 10) (Nat.div_lt_self (Nat.pos_of_ne_zero hn) (by decide)) (by omega)

variable {rest : List Char}

/-- No character that may follow a value is a digit. -/
theorem takeWhile_digits (h : Ends rest) (n : Nat) :
    (Nat.toDigits 10 n ++ rest).takeWhile Char.isDigit = Nat.toDigits 10 n := by
  rw [List.takeWhile_append_of_pos fun c hc => isDigit_of_mem_toDigits hc]
  cases rest with
  | nil => rw [List.takeWhile_nil, List.append_nil]
  | cons c rest =>
    have hc : c.isDigit = false := by
      rcases h c rfl with rfl | rfl | rfl <;> rfl
    rw [List.takeWhile_cons_of_neg (by rw [hc]; decide), List.append_nil]

theorem readWhole_toDigits (h : Ends rest) (n : Nat) :
    readWhole (Nat.toDigits 10 n ++ rest) = some (Nat.toDigits 10 n, rest) := by
  rcases Nat.eq_zero_or_pos n with rfl | hpos
  · rfl
  have hzero := head?_toDigits (Nat.ne_of_gt hpos)
  unfold readWhole
  split
  · rename_i s heq
    have hhead := congrArg List.head? heq
    rw [head?_toDigits_append] at hhead
    exact absurd hhead hzero
  · simp only [takeWhile_digits h]
    rw [if_neg (by simp [Nat.toDigits_ne_nil]), List.drop_left]

theorem readFraction_of_ends (h : Ends rest) : readFraction rest = some (none, rest) := by
  unfold readFraction
  split
  · rename_i s
    rcases h '.' rfl with h | h | h <;> exact absurd h (by decide)
  · rfl

theorem readExponent_of_ends (h : Ends rest) : readExponent rest = some (none, rest) := by
  cases rest with
  | nil => rfl
  | cons c rest => rcases h c rfl with rfl | rfl | rfl <;> rfl

theorem digitsValue_toDigits (n : Nat) : digitsValue 0 (Nat.toDigits 10 n) = n := by
  have h := Nat.ofDigitChars_ten_toDigits (n := n)
  rwa [Nat.ofDigitChars_eq_foldl] at h

theorem numberOf_nat {n : Nat} (hn : n < 2 ^ 64) :
    numberOf false (Nat.toDigits 10 n) none none = some (int n) := by
  rw [numberOf, digitsValue_toDigits]
  exact if_pos hn

theorem numberOf_neg {n : Nat} (hpos : 0 < n) (hn : n ≤ 2 ^ 63) :
    numberOf true (Nat.toDigits 10 n) none none = some (int (-n)) := by
  have hword : ¬ Nat.pow 2 63 < n := Nat.not_lt.2 hn
  have hfits : (decide (n = 0) || decide (Nat.pow 2 63 < n)) = false := by
    rw [decide_eq_false (Nat.ne_of_gt hpos), decide_eq_false hword, Bool.or_false]
  rw [numberOf, digitsValue_toDigits]
  exact if_neg (Bool.eq_false_iff.1 hfits)

theorem readNumber_nat (h : Ends rest) {n : Nat} (hn : n < 2 ^ 64) :
    readNumber (Nat.toDigits 10 n ++ rest) = some (int n, rest) := by
  have hwhole := readWhole_toDigits h n
  have hnumber := numberOf_nat hn
  obtain ⟨c, digits, hdigits⟩ := List.exists_cons_of_ne_nil (Nat.toDigits_ne_nil (n := n) (b := 10))
  have hsign : c ≠ '-' := by
    rintro rfl
    exact absurd (isDigit_of_mem_toDigits (hdigits ▸ List.mem_cons_self)) (by decide)
  rw [hdigits, List.cons_append] at hwhole
  rw [hdigits] at hnumber
  simp [readNumber, hdigits, hsign, hwhole, readFraction_of_ends h, readExponent_of_ends h, hnumber]

theorem readNumber_neg (h : Ends rest) {n : Nat} (hpos : 0 < n) (hn : n ≤ 2 ^ 63) :
    readNumber ('-' :: Nat.toDigits 10 n ++ rest) = some (int (-n), rest) := by
  simp [readNumber, readWhole_toDigits h, readFraction_of_ends h, readExponent_of_ends h,
    numberOf_neg hpos hn]

theorem compact_int (n : Int) :
    (int n).compact = if 0 ≤ n then n.toNat.repr else "-" ++ (-n).toNat.repr :=
  Int.repr_eq_if

/-- Whole numbers are read back. -/
theorem readNumber_int (h : Ends rest) {n : Int} (hlow : -2 ^ 63 ≤ n) (hhigh : n < 2 ^ 64) :
    readNumber ((int n).compact.toList ++ rest) = some (int n, rest) := by
  rw [compact_int]
  split
  · rename_i hn
    rw [Nat.toList_repr, readNumber_nat h (by omega), Int.toNat_of_nonneg hn]
  · rename_i hn
    rw [String.toList_append, Nat.toList_repr]
    refine (readNumber_neg h (n := (-n).toNat) (by omega) (by omega)).trans ?_
    rw [Int.toNat_of_nonneg (by omega), Int.neg_neg]

/-! ## Strings -/

theorem hexValue?_hexDigit : ∀ n < 16, hexValue? (hexDigit n) = some n := by decide

theorem readEscape_control {c : Char} (h : c.toNat < 32) (s : List Char) :
    readEscape ('u' :: '0' :: '0' :: hexDigit (c.toNat / 16) :: hexDigit (c.toNat % 16) :: s) =
      some (c, s) := by
  have hzero : hexValue? '0' = some 0 := rfl
  have hhigh := hexValue?_hexDigit (c.toNat / 16) (by omega)
  have hlow := hexValue?_hexDigit (c.toNat % 16) (by omega)
  have hsum : c.toNat / 16 * 16 + c.toNat % 16 = c.toNat := by omega
  have hread : readHex4 ('0' :: '0' :: hexDigit (c.toNat / 16) :: hexDigit (c.toNat % 16) :: s) =
      some (c.toNat, s) := by
    simp [readHex4, hzero, hhigh, hlow, hsum]
  have hpair : ¬ 0xD800 ≤ c.toNat := by omega
  have hlone : ¬ 0xDC00 ≤ c.toNat := by omega
  simp [readEscape, readUnicode, hread, hpair, hlone]

/-- What a character is written as is read as that character. -/
theorem readString_escapeChar (c : Char) (s before : List Char) (fuel : Nat) :
    readString (fuel + 1) before (escapeChar c ++ s) = readString fuel (c :: before) s := by
  have hnamed : ∀ n, (c.toNat == n) = true → c = Char.ofNat n := fun n h => by
    rw [← eq_of_beq h, Char.ofNat_toNat]
  rw [escapeChar]
  split_ifs with hquote hback hline hreturn htab hbell hform hcontrol
  · cases eq_of_beq hquote
    rfl
  · cases eq_of_beq hback
    rfl
  · cases eq_of_beq hline
    rfl
  · cases eq_of_beq hreturn
    rfl
  · cases eq_of_beq htab
    rfl
  · cases hnamed 8 hbell
    rfl
  · cases hnamed 12 hform
    rfl
  · simp [readString, readEscape_control hcontrol]
  · simp [readString, hquote, hback, hcontrol]

theorem escapeChar_ne_nil (c : Char) : escapeChar c ≠ [] := by
  rw [escapeChar]
  split_ifs <;> exact List.cons_ne_nil _ _

/-- A string is read back, with a unit of fuel for each character that is written. -/
theorem readString_escaped (s before rest : List Char) {fuel : Nat}
    (hfuel : (s.flatMap escapeChar).length < fuel) :
    readString fuel before (s.flatMap escapeChar ++ '"' :: rest) =
      some (String.ofList (before.reverse ++ s), rest) := by
  induction s generalizing before fuel with
  | nil =>
    cases fuel with
    | zero => cases hfuel
    | succ fuel => simp [readString]
  | cons c s ih =>
    have hsome := List.length_pos_iff.2 (escapeChar_ne_nil c)
    rw [List.flatMap_cons, List.length_append] at hfuel
    obtain ⟨fuel, rfl⟩ : ∃ n, fuel = n + 1 := ⟨fuel - 1, by omega⟩
    rw [List.flatMap_cons, List.append_assoc, readString_escapeChar, ih _ (by omega)]
    simp

theorem toList_quoted (s : String) :
    (quoted s).toList = '"' :: (s.toList.flatMap escapeChar ++ ['"']) := by
  simp [quoted]

theorem readString_quoted (s : String) (rest : List Char) :
    let text := s.toList.flatMap escapeChar ++ '"' :: rest
    readString (text.length + 1) [] text = some (s, rest) := by
  intro text
  rw [readString_escaped _ _ _ (by simp only [text, List.length_append]; omega), List.reverse_nil,
    List.nil_append, String.ofList_toList]

/-! ## How values start -/

/-- The characters that stand between values without meaning. -/
def blanks : List Char := [' ', '\t', '\n', '\r']

theorem skipBlanks_cons {c : Char} (h : c ∉ blanks) (s : List Char) :
    skipBlanks (c :: s) = c :: s := by
  simp only [blanks, List.mem_cons, List.not_mem_nil, or_false, not_or] at h
  simp [skipBlanks, h]

/-- A number starts with a sign or a digit. -/
def StartsNumber (c : Char) : Prop := c = '-' ∨ c.isDigit = true

theorem StartsNumber.ne {c x : Char} (hc : StartsNumber c) (hsign : x ≠ '-')
    (hdigit : x.isDigit = false) : c ≠ x := by
  rintro rfl
  rcases hc with rfl | hc
  · exact hsign rfl
  · rw [hdigit] at hc
    cases hc

theorem compact_int_starts (n : Int) :
    ∃ c s, (int n).compact.toList = c :: s ∧ StartsNumber c := by
  rw [compact_int]
  split
  · obtain ⟨c, digits, h⟩ := List.exists_cons_of_ne_nil
      (Nat.toDigits_ne_nil (n := n.toNat) (b := 10))
    exact ⟨c, digits, by rw [Nat.toList_repr, h],
      .inr (isDigit_of_mem_toDigits (h ▸ List.mem_cons_self))⟩
  · exact ⟨'-', _, by rw [String.toList_append]; rfl, .inl rfl⟩

/-- What starts like a number is read as one. -/
theorem readValue_number {c : Char} (hc : StartsNumber c) (s : List Char) (fuel depth : Nat) :
    readValue (fuel + 1) depth (c :: s) = readNumber (c :: s) := by
  have hblank : skipBlanks (c :: s) = c :: s := skipBlanks_cons (by simp [blanks, hc.ne]) s
  rw [readValue, hblank]
  simp [hc.ne]

/-- The written form of a value does not start like a blank or like the end of an array. -/
theorem compact_starts {depth : Nat} {j : Json} (h : Exact depth j) :
    ∃ c s, j.compact.toList = c :: s ∧ c ∉ blanks ∧ c ≠ ']' := by
  cases h with
  | null => exact ⟨'n', _, rfl, by decide, by decide⟩
  | bool b => cases b <;> exact ⟨_, _, rfl, by decide, by decide⟩
  | @int _ n =>
    obtain ⟨c, s, hs, hc⟩ := compact_int_starts n
    exact ⟨c, s, hs, by simp [blanks, hc.ne], hc.ne (by decide) (by decide)⟩
  | str s => exact ⟨'"', _, toList_quoted s, by decide, by decide⟩
  | arr => exact ⟨'[', _, by rw [compact, String.toList_append, String.toList_append]; rfl,
      by decide, by decide⟩
  | obj => exact ⟨'\x7b', _, by rw [compact, String.toList_append, String.toList_append]; rfl,
      by decide, by decide⟩

/-! ## Items and members -/

section Lists

variable {fuel depth : Nat} {s s' : List Char} {j : Json}

theorem readItems_last (h : readValue fuel depth s = some (j, ']' :: rest)) :
    readItems (fuel + 1) depth s = some ([j], rest) := by
  rw [readItems, h]
  simp only [skipBlanks_cons (show ']' ∉ blanks by decide)]

theorem readItems_more (h : readValue fuel depth s = some (j, ',' :: s')) :
    readItems (fuel + 1) depth s =
      (readItems fuel depth s').map fun (items, rest) => (j :: items, rest) := by
  rw [readItems, h]
  simp only [skipBlanks_cons (show ',' ∉ blanks by decide)]

theorem quoted_colon (key : String) (s : List Char) :
    (quoted key).toList ++ ':' :: s =
      '"' :: (key.toList.flatMap escapeChar ++ '"' :: ':' :: s) := by
  rw [toList_quoted, List.cons_append, List.append_assoc]
  rfl

theorem readMembers_last (key : String) (h : readValue fuel depth s = some (j, '\x7d' :: rest)) :
    readMembers (fuel + 1) depth ((quoted key).toList ++ ':' :: s) = some ([(key, j)], rest) := by
  have hkey := readString_quoted key (':' :: s)
  rw [quoted_colon, readMembers, skipBlanks_cons (by decide)]
  simp only [hkey, skipBlanks_cons (show ':' ∉ blanks by decide), h,
    skipBlanks_cons (show '\x7d' ∉ blanks by decide)]

theorem readMembers_more (key : String) (h : readValue fuel depth s = some (j, ',' :: s')) :
    readMembers (fuel + 1) depth ((quoted key).toList ++ ':' :: s) =
      (readMembers fuel depth s').map fun (members, rest) => ((key, j) :: members, rest) := by
  have hkey := readString_quoted key (':' :: s)
  rw [quoted_colon, readMembers, skipBlanks_cons (by decide)]
  simp only [hkey, skipBlanks_cons (show ':' ∉ blanks by decide), h,
    skipBlanks_cons (show ',' ∉ blanks by decide)]

/-- An array that is not empty is read item by item. -/
theorem readValue_arr {c : Char} (hblank : c ∉ blanks) (hend : c ≠ ']')
    (hdepth : 0 < depth) (s : List Char) :
    readValue (fuel + 1) (depth + 1) ('[' :: c :: s) =
      (readItems fuel depth (c :: s)).map fun (items, rest) => (arr items, rest) := by
  rw [readValue, skipBlanks_cons (by decide)]
  simp only [if_neg (show ¬ depth + 1 ≤ 1 by omega), skipBlanks_cons hblank, Nat.add_sub_cancel]
  split
  · rename_i heq
    exact absurd (List.cons.inj heq).1 hend
  · rfl

/-- An object that is not empty is read member by member. -/
theorem readValue_obj (hdepth : 0 < depth) (s : List Char) :
    readValue (fuel + 1) (depth + 1) ('\x7b' :: '"' :: s) =
      (readMembers fuel depth ('"' :: s)).map fun (members, rest) => (obj members, rest) := by
  have hquote : skipBlanks ('"' :: s) = '"' :: s := skipBlanks_cons (by decide) s
  rw [readValue, skipBlanks_cons (by decide)]
  simp only [if_neg (show ¬ depth + 1 ≤ 1 by omega), hquote, Nat.add_sub_cancel]
  rfl

/-- An array and an object without anything in them. -/
theorem readValue_empty (hdepth : 0 < depth) (s : List Char) :
    readValue (fuel + 1) (depth + 1) ('[' :: ']' :: s) = some (arr [], s) ∧
      readValue (fuel + 1) (depth + 1) ('\x7b' :: '\x7d' :: s) = some (obj [], s) := by
  have hdeep : ¬ depth + 1 ≤ 1 := by omega
  constructor
  · rw [readValue, skipBlanks_cons (by decide)]
    simp only [if_neg hdeep]
    rfl
  · rw [readValue, skipBlanks_cons (by decide)]
    simp only [if_neg hdeep]
    rfl

end Lists

/-- A value is read back at a depth, whatever follows it. -/
def ReadsBack (depth : Nat) (j : Json) : Prop :=
  ∀ fuel rest, j.compact.toList.length ≤ fuel → Ends rest →
    readValue (fuel + 1) depth (j.compact.toList ++ rest) = some (j, rest)

theorem toList_compactItems (j j' : Json) (items : List Json) :
    (compactItems (j :: j' :: items)).toList =
      j.compact.toList ++ ',' :: (compactItems (j' :: items)).toList := by
  rw [compactItems, String.toList_append, String.toList_append, List.append_assoc]
  · rfl
  · exact List.cons_ne_nil _ _

theorem toList_compactMembers (key : String) (j : Json) (m : String × Json)
    (members : List (String × Json)) :
    (compactMembers ((key, j) :: m :: members)).toList =
      (quoted key).toList ++
        ':' :: (j.compact.toList ++ ',' :: (compactMembers (m :: members)).toList) := by
  rw [compactMembers]
  · simp [String.toList_append]
  · exact List.cons_ne_nil _ _

theorem toList_compactMembers_singleton (key : String) (j : Json) :
    (compactMembers [(key, j)]).toList = (quoted key).toList ++ ':' :: j.compact.toList := by
  rw [compactMembers, String.toList_append, String.toList_append, List.append_assoc]
  rfl

theorem compactItems_starts {depth : Nat} {j : Json} (h : Exact depth j) (items : List Json) :
    ∃ c s, (compactItems (j :: items)).toList = c :: s ∧ c ∉ blanks ∧ c ≠ ']' := by
  obtain ⟨c, s, hs, hc⟩ := compact_starts h
  cases items with
  | nil => exact ⟨c, s, hs, hc⟩
  | cons j' items => exact ⟨c, _, by rw [toList_compactItems, hs]; rfl, hc⟩

theorem compactMembers_starts (m : String × Json) (members : List (String × Json)) :
    ∃ s, (compactMembers (m :: members)).toList = '"' :: s := by
  cases members with
  | nil => exact ⟨_, by rw [toList_compactMembers_singleton, toList_quoted]; rfl⟩
  | cons m' members => exact ⟨_, by rw [toList_compactMembers, toList_quoted]; rfl⟩

/-- The items of an array are read back. -/
theorem readItems_compact {depth : Nat} {items : List Json} (hsome : items ≠ [])
    (h : ∀ j ∈ items, ReadsBack depth j) {fuel : Nat}
    (hfuel : (compactItems items).toList.length < fuel) (rest : List Char) :
    readItems (fuel + 1) depth ((compactItems items).toList ++ ']' :: rest) = some (items, rest) := by
  induction items generalizing fuel with
  | nil => exact absurd rfl hsome
  | cons j items ih =>
    obtain ⟨fuel, rfl⟩ := Nat.exists_eq_add_one_of_ne_zero (Nat.ne_zero_of_lt hfuel)
    have hj : ReadsBack depth j := h j List.mem_cons_self
    -- the unit of fuel that the item itself takes stands for its comma
    cases items with
    | nil =>
      simp only [compactItems] at hfuel ⊢
      exact readItems_last (hj _ _ (by omega) (ends_cons (by simp) rest))
    | cons j' items =>
      rw [toList_compactItems, List.length_append, List.length_cons] at hfuel
      rw [toList_compactItems, List.append_assoc, List.cons_append,
        readItems_more (hj _ _ (by omega) (ends_cons (.inl rfl) _)),
        ih (List.cons_ne_nil _ _) (fun x hx => h x (List.mem_cons_of_mem _ hx)) (by omega)]
      rfl

/-- The members of an object are read back. -/
theorem readMembers_compact {depth : Nat} {members : List (String × Json)} (hsome : members ≠ [])
    (h : ∀ m ∈ members, ReadsBack depth m.2) {fuel : Nat}
    (hfuel : (compactMembers members).toList.length < fuel) (rest : List Char) :
    readMembers (fuel + 1) depth ((compactMembers members).toList ++ '\x7d' :: rest) =
      some (members, rest) := by
  induction members generalizing fuel with
  | nil => exact absurd rfl hsome
  | cons m members ih =>
    obtain ⟨key, j⟩ := m
    obtain ⟨fuel, rfl⟩ := Nat.exists_eq_add_one_of_ne_zero (Nat.ne_zero_of_lt hfuel)
    have hj : ReadsBack depth j := h (key, j) List.mem_cons_self
    cases members with
    | nil =>
      rw [toList_compactMembers_singleton, List.length_append, List.length_cons] at hfuel
      rw [toList_compactMembers_singleton, List.append_assoc, List.cons_append]
      exact readMembers_last key (hj _ _ (by omega) (ends_cons (by simp) rest))
    | cons m' members =>
      rw [toList_compactMembers, List.length_append, List.length_cons, List.length_append,
        List.length_cons] at hfuel
      rw [toList_compactMembers, List.append_assoc, List.cons_append, List.append_assoc,
        List.cons_append, readMembers_more key (hj _ _ (by omega) (ends_cons (.inl rfl) _)),
        ih (List.cons_ne_nil _ _) (fun x hx => h x (List.mem_cons_of_mem _ hx)) (by omega)]
      rfl

/-! ## Values -/

theorem readsBack_int {n : Int} (hlow : -2 ^ 63 ≤ n) (hhigh : n < 2 ^ 64) (depth : Nat) :
    ReadsBack depth (int n) := by
  intro fuel rest _ hrest
  obtain ⟨c, s, hs, hc⟩ := compact_int_starts n
  have hnumber := readNumber_int hrest hlow hhigh
  rw [hs] at hnumber ⊢
  exact (readValue_number hc _ _ _).trans hnumber

theorem readsBack_str (s : String) (depth : Nat) : ReadsBack depth (str s) := by
  intro fuel rest _ _
  have htext : (str s).compact.toList ++ rest =
      '"' :: (s.toList.flatMap escapeChar ++ '"' :: rest) := by
    rw [compact, toList_quoted, List.cons_append, List.append_assoc]
    rfl
  rw [htext, readValue, skipBlanks_cons (by decide)]
  simp only [readString_quoted, Option.map_some]

theorem readsBack_arr {depth limit : Nat} {items : List Json} (hlimit : 0 < limit)
    (hitems : ∀ j ∈ items, Exact depth j) (h : ∀ j ∈ items, ReadsBack limit j) :
    ReadsBack (limit + 1) (arr items) := by
  intro fuel rest hfuel _
  have htext : (arr items).compact.toList = '[' :: ((compactItems items).toList ++ [']']) := by
    simp [compact]
  rw [htext, List.length_cons, List.length_append, List.length_singleton] at hfuel
  rw [htext, List.cons_append, List.append_assoc, List.singleton_append]
  cases items with
  | nil => exact (readValue_empty hlimit rest).1
  | cons j items =>
    obtain ⟨c, s, hs, hblank, hend⟩ := compactItems_starts (hitems j List.mem_cons_self) items
    obtain ⟨fuel, rfl⟩ := Nat.exists_eq_add_one_of_ne_zero (show fuel ≠ 0 by omega)
    have hread := readItems_compact (List.cons_ne_nil _ _) h
      (show (compactItems (j :: items)).toList.length < fuel by omega) rest
    rw [hs, List.cons_append] at hread ⊢
    rw [readValue_arr hblank hend hlimit, hread]
    rfl

theorem readsBack_obj {limit : Nat} {members : List (String × Json)} (hlimit : 0 < limit)
    (h : ∀ m ∈ members, ReadsBack limit m.2) : ReadsBack (limit + 1) (obj members) := by
  intro fuel rest hfuel _
  have htext : (obj members).compact.toList =
      '\x7b' :: ((compactMembers members).toList ++ ['\x7d']) := by
    simp [compact]
  rw [htext, List.length_cons, List.length_append, List.length_singleton] at hfuel
  rw [htext, List.cons_append, List.append_assoc, List.singleton_append]
  cases members with
  | nil => exact (readValue_empty hlimit rest).2
  | cons m members =>
    obtain ⟨s, hs⟩ := compactMembers_starts m members
    obtain ⟨fuel, rfl⟩ := Nat.exists_eq_add_one_of_ne_zero (show fuel ≠ 0 by omega)
    have hread := readMembers_compact (List.cons_ne_nil _ _) h
      (show (compactMembers (m :: members)).toList.length < fuel by omega) rest
    rw [hs, List.cons_append] at hread ⊢
    rw [readValue_obj hlimit, hread]
    rfl

/-- Every value is read back, whatever follows it. -/
theorem readValue_compact {depth : Nat} {j : Json} (h : Exact depth j) {limit : Nat}
    (hlimit : depth < limit) : ReadsBack limit j := by
  induction h generalizing limit with
  | null => exact fun _ _ _ _ => rfl
  | bool b => cases b <;> exact fun _ _ _ _ => rfl
  | int hlow hhigh => exact readsBack_int hlow hhigh limit
  | str s => exact readsBack_str s limit
  | arr hitems ih =>
    obtain ⟨limit, rfl⟩ := Nat.exists_eq_add_one_of_ne_zero (Nat.ne_zero_of_lt hlimit)
    exact readsBack_arr (by omega) hitems fun j hj => ih j hj (by omega)
  | obj _ ih =>
    obtain ⟨limit, rfl⟩ := Nat.exists_eq_add_one_of_ne_zero (Nat.ne_zero_of_lt hlimit)
    exact readsBack_obj (by omega) fun m hm => ih m hm (by omega)

/-- **Reading undoes writing.** A value without doubles whose whole numbers fit words of 64 bits is read
back from its written form if it nests less than 128 deep. -/
theorem parse?_compact {depth : Nat} {j : Json} (h : Exact depth j) (hdepth : depth < 128) :
    parse? j.compact = some j := by
  have hread := readValue_compact h hdepth j.compact.toList.length [] le_rfl ends_nil
  rw [List.append_nil] at hread
  simp only [parse?, hread]
  rfl

end CodeIndex.Json
