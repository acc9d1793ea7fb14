import Traversal.Json.Decode
import Traversal.Json.Value
import Traversal.Proofs.Json.Grammar

namespace Traversal.Json

section Scanning

variable (rest : List Char)

theorem scanString_short {e c : Char} (h : escape? e = some c) :
    scanString ('\\' :: e :: rest) = (scanString rest).map fun r => (.char c :: r.1, r.2) := by
  have he : e ≠ 'u' := by
    rintro rfl
    cases h
  rw [scanString, h]
  · cases scanString rest <;> rfl
  · exact fun _ _ _ _ _ hu => absurd hu he

theorem scanString_unit {a b c d : Char} {n : Nat} (h : unit? a b c d = some n) :
    scanString ('\\' :: 'u' :: a :: b :: c :: d :: rest) =
      (scanString rest).map fun r => (.unit n :: r.1, r.2) := by
  rw [scanString, h]
  cases scanString rest <;> rfl

theorem scanString_plain {c : Char} (hq : c ≠ '"') (hb : c ≠ '\\') (hc : ¬ c.toNat < 0x20) :
    scanString (c :: rest) = (scanString rest).map fun r => (.char c :: r.1, r.2) := by
  have plain : ¬ (c.toNat < 0x20 || c == '\\') = true := by simp [hb, hc]
  rw [scanString, if_neg plain]
  · cases scanString rest <;> rfl
  · exact hq
  · exact fun _ _ _ _ _ h => absurd h hb
  · exact fun _ _ h => absurd h hb

end Scanning

/-- A string is read up to its quote, whatever follows. -/
theorem scanString_of_text {ps : List Piece} {cs rest : List Char} (h : StringText ps cs rest) :
    scanString cs = some (ps, rest) := by
  induction h with
  | close rest => rfl
  | plain hq hb hc _ ih => rw [scanString_plain _ hq hb (Nat.not_lt.2 hc), ih, Option.map_some]
  | short he _ ih => rw [scanString_short _ he, ih, Option.map_some]
  | unit hu _ ih => rw [scanString_unit _ hu, ih, Option.map_some]

/-- How a character of a written string is read: one that is spelled in digits is read as a unit. -/
def piece : Char → Piece
  | '\x08' => .char '\x08'
  | '\x0c' => .char '\x0c'
  | '\n' => .char '\n'
  | '\r' => .char '\r'
  | '\t' => .char '\t'
  | c => if c.toNat < 0x20 then .unit c.toNat else .char c

def pieces (s : String) : List Piece :=
  s.toList.map piece

/-- Control characters are spelled in four hexadecimal digits. -/
theorem escaped_digits : ∀ n < 0x20,
    (if n < 0x10 then ['\\', 'u', '0', '0', '0'] ++ Nat.toDigits 16 n
      else ['\\', 'u', '0', '0'] ++ Nat.toDigits 16 n) =
        ['\\', 'u', '0', '0', Nat.digitChar (n / 16), Nat.digitChar (n % 16)] ∧
      unit? '0' '0' (Nat.digitChar (n / 16)) (Nat.digitChar (n % 16)) = some n := by
  decide

theorem text_escapedChar (c : Char) {ps : List Piece} {cs rest : List Char}
    (h : StringText ps cs rest) : StringText (piece c :: ps) (escapedChar c ++ cs) rest := by
  unfold escapedChar
  split
  -- No short escape exists: the character is spelled in digits, or stands for itself.
  case h_8 hq hb h8 hf hn hr ht =>
    have hp : piece c = if c.toNat < 0x20 then .unit c.toNat else .char c := by
      rw [piece] <;> assumption
    by_cases hc : c.toNat < 0x20
    · obtain ⟨spelled, unit⟩ := escaped_digits c.toNat hc
      rw [if_pos hc] at hp ⊢
      rw [spelled, hp]
      exact .unit unit h
    · have large : ¬ c.toNat < 0x10 := by omega
      rw [if_neg hc] at hp ⊢
      rw [if_neg large, hp]
      exact .plain hq hb (Nat.not_lt.1 hc) h
  all_goals exact .short rfl h

theorem newline_not_mem_escapedChar (c : Char) : '\n' ∉ escapedChar c := by
  unfold escapedChar
  split
  case h_8 hn _ _ =>
    by_cases hc : c.toNat < 0x20
    · have spelled : ∀ n < 0x20,
          '\n' ∉ if n < 0x10 then ['\\', 'u', '0', '0', '0'] ++ Nat.toDigits 16 n
            else ['\\', 'u', '0', '0'] ++ Nat.toDigits 16 n := by
        decide
      rw [if_pos hc]
      exact spelled c.toNat hc
    · have large : ¬ c.toNat < 0x10 := by omega
      rw [if_neg large, if_neg hc, List.mem_singleton]
      exact Ne.symm hn
  all_goals decide

theorem newline_not_mem_stringChars (s : String) : '\n' ∉ stringChars s := by
  simp [stringChars, newline_not_mem_escapedChar]

theorem text_escaped (cs rest : List Char) :
    StringText (cs.map piece) (cs.flatMap escapedChar ++ '"' :: rest) rest := by
  induction cs with
  | nil => exact .close rest
  | cons c cs ih =>
    rw [List.flatMap_cons, List.append_assoc]
    exact text_escapedChar c ih

theorem stringChars_append (s : String) (rest : List Char) :
    stringChars s ++ rest = '"' :: (s.toList.flatMap escapedChar ++ '"' :: rest) := by
  simp [stringChars]

/-- A unit below the surrogates is the character of its number. -/
theorem join_unit {n : Nat} (hn : n < 0xD800) (ps : List Piece) :
    Piece.join (.unit n :: ps) = (Char.ofNat n :: ·) <$> Piece.join ps := by
  have high : ¬ (0xD800 ≤ n && n < 0xDC00) = true := by simp; omega
  have low : ¬ (0xDC00 ≤ n && n < 0xE000) = true := by simp; omega
  have half : ¬ (0xD800 ≤ n && n < 0xE000) = true := by simp; omega
  cases ps with
  | nil => exact if_neg half
  | cons p ps =>
    cases p with
    | char c => exact if_neg half
    | unit m => exact (if_neg high).trans (if_neg low)

theorem join_piece (c : Char) (ps : List Piece) :
    Piece.join (piece c :: ps) = (c :: ·) <$> Piece.join ps := by
  unfold piece
  split
  case h_6 =>
    split
    · rename_i hc
      rw [join_unit (by omega), Char.ofNat_toNat]
    · rfl
  all_goals rfl

theorem join_pieces (s : String) : Piece.join (pieces s) = some s.toList := by
  rw [pieces]
  induction s.toList with
  | nil => rfl
  | cons c cs ih =>
    rw [List.map_cons, join_piece, ih]
    rfl

theorem textOf_pieces (s : String) : Node.textOf (pieces s) = .ok s := by
  simp [Node.textOf, join_pieces, String.ofList_toList]

end Traversal.Json
