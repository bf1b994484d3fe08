import CodeIndex.Proofs.Text.Bytes
import CodeIndex.Proofs.Text.Like
import CodeIndex.Search.FullText

/-!
Texts that contain a query, and what is shown of them.

A text is compared with the pattern of the texts that contain the query, and what is shown of it starts
where the query first occurs, found in lower case and byte by byte.

* `Store.matching_containing`: a text passes just when it contains the query, as characters are compared,
  unless the pattern is too long;
* `previewAt_shows_match`: what is shown is a piece of the text, and if the text passes, the query as it
  stands in it.

The two ways of looking for the query part where a character of code zero ends the pattern, and at the two
characters that are read as another one (`confused_characters_match`, `preview_misses_match`).
-/
namespace CodeIndex

open Text

/-! ## What contains a query -/

namespace Store

theorem matching_one (query : List Char) (text : String) :
    matching (Like.containing query) (fun t : String => [t]) [text] =
      if Like.maxBytes < bytes query + query.countP Like.isSign + 2 then
        .error (.database .readRow .patternTooComplex)
      else .ok (if Like.accepts (Like.containing query) text.toList = true then [text] else []) := by
  rw [matching, Like.tooComplex_containing]
  by_cases hlong : Like.maxBytes < bytes query + query.countP Like.isSign + 2
  · simp [hlong]
  · by_cases haccepts : Like.accepts (Like.containing query) text.toList = true
    · simp [hlong, haccepts]
    · simp [hlong, haccepts]

/-- **A query is looked for as it stands.** Whatever signs a query holds, its pattern is any text, then
the characters of the query, each for itself, then any text. So a text passes if and only if it contains
the query, as characters are compared, unless the pattern is too long to be compared at all; and as long
as the characters of the two are told apart, this means up to the case of letters of ASCII. -/
theorem matching_containing {query : List Char} {text : String} (hquery : '\x00' ∉ query)
    (htext : '\x00' ∉ text.toList) :
    Like.items (untilNul (Like.containing query)) =
      some (.anyText :: (query.map .char ++ [.anyText])) ∧
    matching (Like.containing query) (fun t : String => [t]) [text] =
      (if Like.maxBytes < bytes query + query.countP Like.isSign + 2 then
        .error (.database .readRow .patternTooComplex)
      else
        .ok (if query.map Like.compared <:+: text.toList.map Like.compared then [text] else [])) ∧
    (Like.TellsApart query text.toList →
      (Like.accepts (Like.containing query) text.toList = true ↔
        query.map asciiLower <:+: text.toList.map asciiLower)) := by
  have haccepts := Like.accepts_containing_iff hquery htext
  refine ⟨?_, ?_, ?_⟩
  · rw [untilNul_of_not_mem (Like.not_mem_containing hquery)]
    exact Like.items_containing query
  · rw [matching_one]
    simp only [haccepts]
  · intro hapart
    rw [haccepts, hapart.isInfix_iff]

/-- A query of signs passes over nothing but itself, in either case. -/
theorem matching_containing_signs :
    matching (Like.containing "50%_a\\".toList) (fun t : String => [t]) ["at 50%_A\\!"] =
        .ok ["at 50%_A\\!"] ∧
      matching (Like.containing "50%_a\\".toList) (fun t : String => [t]) ["at 50 x A\\!"] = .ok [] := by
  have hquery : '\x00' ∉ "50%_a\\".toList := by decide
  constructor
  · rw [(matching_containing hquery (by decide)).2.1, if_neg (by decide), if_pos (by decide)]
  · rw [(matching_containing hquery (by decide)).2.1, if_neg (by decide), if_neg (by decide)]

/-- A character passes for another one that it is read as, and a text of signs does not pass for itself
if its pattern is too long. -/
theorem confused_characters_match :
    (matching (Like.containing ['\uFFFF']) (fun t : String => [t]) ["\uFFFE"] = .ok ["\uFFFE"] ∧
      ¬ ['\uFFFF'].map asciiLower <:+: "\uFFFE".toList.map asciiLower) ∧
    matching (Like.containing (List.replicate 25000 '%')) (fun t : String => [t])
      [String.ofList (List.replicate 25000 '%')] =
        .error (.database .readRow .patternTooComplex) := by
  refine ⟨⟨?_, by decide⟩, ?_⟩
  · rw [matching_one, if_neg (by decide), if_pos (by decide)]
  · have hbytes : ∀ n, bytes (List.replicate n '%') = n := by
      intro n
      have hone : '%'.utf8Size = 1 := rfl
      simp [bytes, hone]
    have hsigns : ∀ n, (List.replicate n '%').countP Like.isSign = n := by
      intro n
      simp [List.countP_replicate, Like.isSign]
    rw [matching_one, hbytes, hsigns, if_pos (by decide)]

end Store

/-! ## What is shown -/

namespace Text

variable {content query : List Char} {count : Nat}

/-- Up to `count` characters from the first occurrence of a text, found in lower case and cut out by bytes;
nothing if the cut would be inside a character. -/
def previewByBytes? (content query : List Char) (count : Nat) : Option (List Char) :=
  let start := (byteIndexOf? (query.map asciiLower) (content.map asciiLower)).getD 0
  (fromByte? start content).map (·.take count)

theorem previewByBytes?_eq (content query : List Char) (count : Nat) :
    previewByBytes? content query count = some (previewAt content query count) := by
  rw [previewByBytes?, previewAt, byteIndexOf?_eq]
  cases indexOf? (query.map asciiLower) (content.map asciiLower) with
  | none => simp [fromByte?_zero]
  | some n =>
    have hcut := fromByte?_bytes (content.take n) (content.drop n)
    rw [List.take_append_drop] at hcut
    simp only [Option.map_some, Option.getD_some]
    rw [← List.map_take, bytes_map_asciiLower, hcut, Option.map_some]

theorem previewAt_isInfix (content query : List Char) (count : Nat) :
    previewAt content query count <:+: content :=
  (List.take_prefix _ _).isInfix.trans (List.drop_suffix _ _).isInfix

theorem map_take_preview {place : Nat}
    (h : query.map asciiLower <+: (content.map asciiLower).drop place) :
    (((content.drop place).take count).take (min count query.length)).map asciiLower =
      (query.take (min count query.length)).map asciiLower := by
  rw [List.take_take, min_eq_left (min_le_left _ _), List.map_take, List.map_take, List.map_drop]
  obtain ⟨rest, hrest⟩ := h
  rw [← hrest, List.take_append_of_le_length]
  rw [List.length_map]
  exact min_le_right _ _

/-- **What is shown starts with what was found.** For every text and query, what is shown can be cut out of
the text by bytes, and it is a piece of the text of as many characters as may be shown. If the text passes
for one that contains the query, whose characters it is told apart from, and no character of code zero is in
the way, then what is shown starts where the query first occurs, up to the case of letters of ASCII, and
with the characters of the query. -/
theorem previewAt_shows_match (hcontent : '\x00' ∉ content) (query : List Char) (count : Nat) :
    previewByBytes? content query count = some (previewAt content query count) ∧
    previewAt content query count <:+: content ∧
    (previewAt content query count).length ≤ count ∧
    ('\x00' ∉ query → Like.TellsApart query content →
      Like.accepts (Like.containing query) content = true →
        ∃ place ≤ content.length,
          query.map asciiLower <+: (content.map asciiLower).drop place ∧
          (∀ earlier < place, ¬ query.map asciiLower <+: (content.map asciiLower).drop earlier) ∧
          previewAt content query count = (content.drop place).take count ∧
          ((previewAt content query count).take (min count query.length)).map asciiLower =
            (query.take (min count query.length)).map asciiLower) := by
  refine ⟨previewByBytes?_eq content query count, previewAt_isInfix content query count,
    List.length_take_le _ _, ?_⟩
  intro hquery hapart haccepts
  rw [Like.accepts_containing_iff hquery hcontent, hapart.isInfix_iff, ← occurs_iff, occurs,
    Option.isSome_iff_exists] at haccepts
  obtain ⟨place, hplace⟩ := haccepts
  have hshown : previewAt content query count = (content.drop place).take count := by
    rw [previewAt, hplace, Option.getD_some]
  obtain ⟨hle, hhere, hfirst⟩ := indexOf?_eq_some_iff.1 hplace
  rw [List.length_map] at hle
  refine ⟨place, hle, hhere, hfirst, hshown, ?_⟩
  rw [hshown]
  exact map_take_preview hhere

/-- After a character of two bytes the word is found in capitals, and it is shown from there. -/
theorem previewAt_shows_match_word :
    ∃ place ≤ 8, previewAt "é USERID".toList "userid".toList 4 = ("é USERID".toList.drop place).take 4 ∧
      ((previewAt "é USERID".toList "userid".toList 4).take 4).map asciiLower =
        ("userid".toList.take 4).map asciiLower := by
  have hcontent : '\x00' ∉ "é USERID".toList := by decide
  obtain ⟨-, -, -, hmatch⟩ := previewAt_shows_match hcontent "userid".toList 4
  obtain ⟨place, hle, -, -, hshown, hsame⟩ := hmatch (by decide)
    (Like.tellsApart_of_not_mem (by decide) (by decide)) (by decide +kernel)
  exact ⟨place, hle, hshown, hsame⟩

/-- A text passes by its end for a query that a character of code zero cuts short, or by a character that is
read as the one of the query: it is shown from its start, and not the query. -/
theorem preview_misses_match :
    (Like.accepts (Like.containing "a\x00b".toList) "xa".toList = true ∧
      previewAt "xa".toList "a\x00b".toList 100 = "xa".toList ∧
      ("xa".toList.take (min 100 3)).map asciiLower ≠ ("a\x00b".toList.take (min 100 3)).map asciiLower) ∧
    Like.accepts (Like.containing "\uFFFF".toList) "x\uFFFE".toList = true ∧
      previewAt "x\uFFFE".toList "\uFFFF".toList 100 = "x\uFFFE".toList ∧
      ("x\uFFFE".toList.take (min 100 1)).map asciiLower ≠
        ("\uFFFF".toList.take (min 100 1)).map asciiLower := by
  decide +kernel

end Text

end CodeIndex
