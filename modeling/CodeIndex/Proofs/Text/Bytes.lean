import CodeIndex.Proofs.Text.Occurrence
import CodeIndex.Proofs.Text.Lines
import Mathlib.Data.List.Infix

/-!
Texts as bytes.

A text can be searched byte by byte in its encoding (`byteIndexOf?`) and cut at a byte, if that byte
starts a character (`fromByte?`). Only the first byte of a character looks like one, so an encoded text
never occurs across the characters of another one, and the search by bytes finds what the search by
characters finds (`byteIndexOf?_eq`). Lower case leaves each letter of ASCII one byte long: a place in
the text in lower case is the same place in the text (`bytes_map_asciiLower`).
-/
namespace CodeIndex.Text

variable {word s t : List Char}

/-- The bytes of a text. -/
def encoded (s : List Char) : List UInt8 := s.flatMap String.utf8EncodeChar

/-- The place, in bytes, where the bytes of a text first occur in those of another. -/
def byteIndexOf? (word s : List Char) : Option Nat :=
  (encoded s).tails.findIdx? (encoded word).isPrefixOf

/-- The rest of a text from a byte on; nothing if the byte is inside a character or past the end. -/
def fromByte? : Nat → List Char → Option (List Char)
  | 0, s => some s
  | _ + 1, [] => none
  | n + 1, c :: s => if c.utf8Size ≤ n + 1 then fromByte? (n + 1 - c.utf8Size) s else none

/-! ## Cutting -/

theorem fromByte?_zero (s : List Char) : fromByte? 0 s = some s := by
  cases s <;> rfl

theorem fromByte?_bytes (s t : List Char) : fromByte? (bytes s) (s ++ t) = some t := by
  induction s with
  | nil => exact fromByte?_zero t
  | cons c s ih =>
    have hc := c.utf8Size_pos
    obtain ⟨n, hn⟩ : ∃ n, bytes (c :: s) = n + 1 := ⟨c.utf8Size - 1 + bytes s, by simp; omega⟩
    have hsum : n + 1 = c.utf8Size + bytes s := by rw [← hn, bytes_cons]
    rw [hn, List.cons_append, fromByte?, if_pos (by omega), hsum, Nat.add_sub_cancel_left, ih]

/-! ## Searching -/

@[simp] theorem encoded_nil : encoded [] = [] := rfl

@[simp] theorem encoded_cons (c : Char) (s : List Char) :
    encoded (c :: s) = String.utf8EncodeChar c ++ encoded s := rfl

theorem encoded_append (s t : List Char) : encoded (s ++ t) = encoded s ++ encoded t :=
  List.flatMap_append

/-- The code is free of prefixes: bytes start with those of a text only if the text does. -/
theorem encoded_isPrefix_iff : encoded word <+: encoded s ↔ word <+: s := by
  constructor
  · rintro ⟨rest, hrest⟩
    refine List.isPrefix_of_utf8Encode_append_eq_utf8Encode rest.toByteArray ?_
    rw [List.utf8Encode, List.utf8Encode, ← List.toByteArray_append]
    exact congrArg List.toByteArray hrest
  · rintro ⟨rest, rfl⟩
    exact ⟨encoded rest, (encoded_append word rest).symm⟩

theorem not_isPrefix_of_inside {c : Char} {i : Nat} {rest : List UInt8} (hsome : word ≠ [])
    (hpos : 0 < i) (hlt : i < (String.utf8EncodeChar c).length) :
    ¬ encoded word <+: (String.utf8EncodeChar c).drop i ++ rest := by
  obtain ⟨d, word, rfl⟩ := List.exists_cons_of_ne_nil hsome
  have hd : 0 < (String.utf8EncodeChar d).length := by simp [d.utf8Size_pos]
  intro hstart
  -- the byte is the first of `d` and a later one of `c`
  have hbyte : (String.utf8EncodeChar d)[0] = (String.utf8EncodeChar c)[i] := by
    have hlater : 0 < ((String.utf8EncodeChar c).drop i).length := by
      rw [List.length_drop]
      omega
    have hsome : 0 < (encoded (d :: word)).length := by
      rw [encoded_cons, List.length_append]
      omega
    have hfirst := hstart.getElem hsome
    simpa only [encoded_cons, List.getElem_append_left hd, List.getElem_append_left hlater,
      List.getElem_drop, Nat.add_zero] using hfirst
  have hfirst : (String.utf8EncodeChar c)[i].IsUTF8FirstByte := by
    rw [← hbyte]
    exact UInt8.isUTF8FirstByte_getElem_utf8EncodeChar.2 rfl
  exact hpos.ne' (UInt8.isUTF8FirstByte_getElem_utf8EncodeChar.1 hfirst)

/-- What is not found at the first places is looked for behind them. -/
theorem findIdx?_tails_append {β : Type} {p : List β → Bool} {front rest : List β}
    (h : ∀ i < front.length, p (front.drop i ++ rest) = false) :
    (front ++ rest).tails.findIdx? p = (rest.tails.findIdx? p).map (· + front.length) := by
  induction front with
  | nil => simp
  | cons b front ih =>
    have hhere : p (b :: (front ++ rest)) = false := h 0 (by simp)
    have hlater := ih fun i hi => h (i + 1) (by simpa using hi)
    rw [List.cons_append, List.tails_cons, List.findIdx?_cons, hhere, if_neg Bool.false_ne_true,
      hlater, Option.map_map]
    rfl

/-- Searching byte by byte finds the place that searching by characters finds. -/
theorem byteIndexOf?_eq (word s : List Char) :
    byteIndexOf? word s = (indexOf? word s).map fun n => bytes (s.take n) := by
  rw [byteIndexOf?]
  induction s with
  | nil => cases word <;> simp [indexOf?, List.findIdx?_cons, String.utf8EncodeChar_ne_nil]
  | cons c s ih =>
    have hhere : (encoded word).isPrefixOf (encoded (c :: s)) = word.isPrefixOf (c :: s) := by
      rw [Bool.eq_iff_iff, List.isPrefixOf_iff_prefix, List.isPrefixOf_iff_prefix,
        encoded_isPrefix_iff]
    by_cases hstart : word.isPrefixOf (c :: s) = true
    · rw [hstart] at hhere
      have htails : ∃ later, (encoded (c :: s)).tails = encoded (c :: s) :: later := by
        cases encoded (c :: s) <;> simp
      obtain ⟨later, htails⟩ := htails
      rw [htails, List.findIdx?_cons, hhere, indexOf?, hstart]
      simp
    · have hsome : word ≠ [] := by
        rintro rfl
        exact hstart rfl
      rw [encoded_cons, findIdx?_tails_append, ih, indexOf?, if_neg hstart, Option.map_map,
        Option.map_map]
      · refine Option.map_congr fun n _ => ?_
        simp [Nat.add_comm]
      · intro i hi
        rw [Bool.eq_false_iff, ne_eq, List.isPrefixOf_iff_prefix]
        rcases Nat.eq_zero_or_pos i with rfl | hpos
        · rwa [List.drop_zero, ← encoded_cons, encoded_isPrefix_iff, ← List.isPrefixOf_iff_prefix]
        · exact not_isPrefix_of_inside hsome hpos hi

/-! ## Lower case -/

theorem utf8Size_asciiLower (c : Char) : (asciiLower c).utf8Size = c.utf8Size := by
  have hletters : ∀ n < 91, 65 ≤ n → (Char.ofNat (n + 32)).utf8Size = (Char.ofNat n).utf8Size := by
    decide
  rcases asciiLower_cases c with hsame | ⟨n, hfrom, hto, rfl, hlower⟩
  · rw [hsame]
  · rw [hlower, hletters n hto hfrom]

theorem bytes_map_asciiLower (s : List Char) : bytes (s.map asciiLower) = bytes s := by
  simp only [bytes, List.map_map, Function.comp_def, utf8Size_asciiLower]

end CodeIndex.Text
