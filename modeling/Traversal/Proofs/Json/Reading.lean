import Traversal.Proofs.Json.Digits
import Traversal.Proofs.Json.Escape

namespace Traversal.Json

variable {cs rest : List Char}

section Tokens

/-- The first token of a text, and then those of the rest. -/
theorem tokens_eq (cs : List Char) :
    tokens cs =
      match cs.dropWhile isSpace with
      | [] => []
      | c :: rest =>
        match scan c rest with
        | some (t, rest) => t :: tokens rest
        | none => [.stray] := by
  rw [tokens]
  split
  · rename_i blank
    rw [blank]
  · rename_i c rest front
    rw [front]
    dsimp only
    split <;> rename_i scanned <;> rw [scanned]

theorem tokens_nil : tokens [] = [] :=
  tokens_eq []

theorem tokens_of_scan {c : Char} {t : Token} (hc : isSpace c = false)
    (h : scan c cs = some (t, rest)) : tokens (c :: cs) = t :: tokens rest := by
  rw [tokens_eq, List.dropWhile_cons_of_neg (by simp [hc])]
  simp only [h]

/-- White space between tokens is left out. -/
theorem tokens_of_gap (h : Gap cs rest) : tokens cs = tokens rest := by
  induction h with
  | nil rest => rfl
  | cons hc _ ih => rw [tokens_eq, List.dropWhile_cons_of_pos hc, ← tokens_eq, ih]

/-- No number goes on with white space. -/
theorem ends_of_gap (h : Gap cs rest) (ends : Ends rest) : Ends cs := by
  cases h with
  | nil => exact ends
  | cons hc _ =>
    refine ends_cons ?_ _
    simp only [isSpace, Bool.or_eq_true, beq_iff_eq] at hc
    rcases hc with ((rfl | rfl) | rfl) | rfl <;> decide

theorem tokens_comma (rest : List Char) : tokens (',' :: rest) = .comma :: tokens rest :=
  tokens_of_scan rfl rfl

theorem tokens_colon (rest : List Char) : tokens (':' :: rest) = .colon :: tokens rest :=
  tokens_of_scan rfl rfl

theorem tokens_openBracket (rest : List Char) :
    tokens ('[' :: rest) = .openBracket :: tokens rest :=
  tokens_of_scan rfl rfl

theorem tokens_closeBracket (rest : List Char) :
    tokens (']' :: rest) = .closeBracket :: tokens rest :=
  tokens_of_scan rfl rfl

theorem tokens_openBrace (rest : List Char) :
    tokens ('\x7b' :: rest) = .openBrace :: tokens rest :=
  tokens_of_scan rfl rfl

theorem tokens_closeBrace (rest : List Char) :
    tokens ('\x7d' :: rest) = .closeBrace :: tokens rest :=
  tokens_of_scan rfl rfl

theorem tokens_of_stringText {ps : List Piece} (h : StringText ps cs rest) :
    tokens ('"' :: cs) = .string ps :: tokens rest := by
  apply tokens_of_scan (by decide)
  simp [scan, scanString_of_text h]

theorem tokens_of_numeralText {n : Numeral} (h : NumeralText n cs rest) (ends : Ends rest) :
    tokens cs = .number n :: tokens rest := by
  obtain ⟨c, cs', rfl, hc, scanned⟩ := exists_cons_of_numeralText h
  apply tokens_of_scan hc
  rw [scanned, scanNumeral_of_text h ends]
  rfl

end Tokens

/-- No array ends where a value starts. -/
theorem tokens_value_ne {n : Node} (h : Derives (.value n) cs rest) (ends : Ends rest)
    (ts : List Token) : tokens cs ≠ .closeBracket :: ts := by
  intro e
  cases h with
  | null => cases (tokens_of_scan (c := 'n') rfl rfl).symm.trans e
  | boolFalse => cases (tokens_of_scan (c := 'f') rfl rfl).symm.trans e
  | boolTrue => cases (tokens_of_scan (c := 't') rfl rfl).symm.trans e
  | number text => cases (tokens_of_numeralText text ends).symm.trans e
  | string text => cases (tokens_of_stringText text).symm.trans e
  | emptyArray | array => cases (tokens_openBracket _).symm.trans e
  | emptyObject | object => cases (tokens_openBrace _).symm.trans e

theorem tokens_element_ne {n : Node} (h : Derives (.element n) cs rest) (ends : Ends rest)
    (ts : List Token) : tokens cs ≠ .closeBracket :: ts := by
  cases h with
  | element before value after =>
    rw [tokens_of_gap before]
    exact tokens_value_ne value (ends_of_gap after ends) ts

theorem tokens_elements_ne {ns : List Node} (h : Derives (.elements ns) cs rest)
    (ends : Ends rest) (ts : List Token) : tokens cs ≠ .closeBracket :: ts := by
  cases h with
  | lastElement element => exact tokens_element_ne element ends ts
  | moreElements element => exact tokens_element_ne element (ends_cons (by decide) _) ts

theorem exists_tokens_members {ms : List (List Piece × Node)}
    (h : Derives (.members ms) cs rest) : ∃ key ts, tokens cs = .string key :: ts := by
  have first : ∀ {m cs rest}, Derives (.member m) cs rest →
      ∃ key ts, tokens cs = .string key :: ts := by
    intro m cs rest h
    cases h with
    | member before key between element =>
      rw [tokens_of_gap before, tokens_of_stringText key]
      exact ⟨_, _, rfl⟩
  cases h with
  | lastMember member => exact first member
  | moreMembers member => exact first member

open Document in
/-- How a text of the form is read inside of the given containers. -/
def Form.Reads (cs rest : List Char) : Form → Prop
  | .value n | .element n => Ends rest → ∀ frames,
    readValue frames (tokens cs) = readRest frames n (tokens rest)
  | .elements ns => ∀ frames before after, rest = ']' :: after →
    readValue (.items before :: frames) (tokens cs) =
      readRest frames (.array (before.reverse ++ ns) true) (tokens after)
  | .member (key, n) => Ends rest → ∀ frames before,
    readMember frames before (tokens cs) = readRest (.members before key :: frames) n (tokens rest)
  | .members ms => ∀ frames before after, rest = '\x7d' :: after →
    readMember frames before (tokens cs) =
      readRest frames (.object (before.reverse ++ ms) true) (tokens after)

open Document in
/-- A text is read as what it is a text of. -/
theorem Derives.reads {f : Form} (h : Derives f cs rest) : f.Reads cs rest := by
  induction h with
  | null =>
    intro _ frames
    rw [tokens_of_scan (c := 'n') (t := .null) rfl rfl, readValue]
  | boolFalse =>
    intro _ frames
    rw [tokens_of_scan (c := 'f') (t := .bool false) rfl rfl, readValue]
  | boolTrue =>
    intro _ frames
    rw [tokens_of_scan (c := 't') (t := .bool true) rfl rfl, readValue]
  | number text => exact fun ends frames => congrArg _ (tokens_of_numeralText text ends)
  | string text => exact fun _ frames => congrArg _ (tokens_of_stringText text)
  | emptyArray gap =>
    intro _ frames
    rw [tokens_openBracket, tokens_of_gap gap, tokens_closeBracket, readValue]
  | array elements ih =>
    intro _ frames
    rw [tokens_openBracket, readValue, ih frames [] _ rfl]
    · rfl
    · exact tokens_elements_ne elements (ends_cons (by decide) _)
  | emptyObject gap =>
    intro _ frames
    rw [tokens_openBrace, tokens_of_gap gap, tokens_closeBrace, readValue]
  | object members ih =>
    intro _ frames
    obtain ⟨key, ts, first⟩ := exists_tokens_members members
    rw [tokens_openBrace, readValue, ih frames [] _ rfl]
    · rfl
    · rw [first]
      nofun
  | element before _ after ih =>
    intro ends frames
    rw [tokens_of_gap before, ih (ends_of_gap after ends), tokens_of_gap after]
  | lastElement element ih =>
    rintro frames before after rfl
    rw [ih (ends_cons (by decide) _), tokens_closeBracket, readRest, List.reverse_cons]
  | moreElements element elements ih ihs =>
    rintro frames before after rfl
    rw [ih (ends_cons (by decide) _), tokens_comma, readRest, ihs frames _ after rfl]
    simp
  | member before key between element ih =>
    intro ends frames members
    rw [tokens_of_gap before, tokens_of_stringText key, tokens_of_gap between, tokens_colon,
      readMember, ih ends]
  | lastMember member ih =>
    rintro frames before after rfl
    rw [ih (ends_cons (by decide) _), tokens_closeBrace, readRest, List.reverse_cons]
  | moreMembers member members ih ihs =>
    rintro frames before after rfl
    rw [ih (ends_cons (by decide) _), tokens_comma, readRest, ihs frames _ after rfl]
    simp

theorem IsText.ofChars {n : Node} (h : IsText n cs) : Document.ofChars cs = ⟨n, true⟩ := by
  have read := Derives.reads h ends_nil []
  rwa [tokens_nil] at read

/-- A JSON text is decoded as the value that it is a text of. -/
theorem IsText.decode {α : Type} {n : Node} (h : IsText n cs) (read : Node → Decoded α) :
    decode read cs = read n := by
  rw [Json.decode, h.ofChars]
  cases read n <;> rfl

end Traversal.Json
