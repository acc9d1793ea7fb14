namespace Traversal.Json

/-- A number as it is spelled. Without a point the fraction is empty. -/
structure Numeral where
  negative : Bool
  whole : List Char
  fraction : List Char
  /-- The sign of the exponent and its digits. -/
  exponent : Option (Bool × List Char)
deriving DecidableEq

/-- A character of a string, or a 16-bit unit that is spelled in four hexadecimal digits. -/
inductive Piece where
  | char (c : Char)
  | unit (n : Nat)
deriving DecidableEq

inductive Token where
  | null
  | bool (b : Bool)
  | number (n : Numeral)
  | string (s : List Piece)
  | openBracket
  | closeBracket
  | openBrace
  | closeBrace
  | comma
  | colon
  /-- What cannot be read; nothing follows it. -/
  | stray
deriving DecidableEq

def isSpace (c : Char) : Bool :=
  c == ' ' || c == '\t' || c == '\n' || c == '\r'

def hexValue? (c : Char) : Option Nat :=
  if c.isDigit then some (c.toNat - '0'.toNat)
  else if 'a' ≤ c && c ≤ 'f' then some (c.toNat - 'a'.toNat + 10)
  else if 'A' ≤ c && c ≤ 'F' then some (c.toNat - 'A'.toNat + 10)
  else none

/-- The character that a backslash before the given one stands for. -/
def escape? : Char → Option Char
  | '"' => some '"'
  | '\\' => some '\\'
  | '/' => some '/'
  | 'b' => some '\x08'
  | 'f' => some '\x0c'
  | 'n' => some '\n'
  | 'r' => some '\r'
  | 't' => some '\t'
  | _ => none

def unit? (a b c d : Char) : Option Nat := do
  let a ← hexValue? a
  let b ← hexValue? b
  let c ← hexValue? c
  let d ← hexValue? d
  return ((a * 16 + b) * 16 + c) * 16 + d

/-- The pieces of a string up to its closing quote, and what follows the quote. -/
def scanString : List Char → Option (List Piece × List Char)
  | [] => none
  | '"' :: rest => some ([], rest)
  | '\\' :: 'u' :: a :: b :: c :: d :: rest =>
    match unit? a b c d, scanString rest with
    | some n, some (ps, rest) => some (.unit n :: ps, rest)
    | _, _ => none
  | '\\' :: c :: rest =>
    match escape? c, scanString rest with
    | some c, some (ps, rest) => some (.char c :: ps, rest)
    | _, _ => none
  | c :: rest =>
    if c.toNat < 0x20 || c == '\\' then none
    else
      match scanString rest with
      | some (ps, rest) => some (.char c :: ps, rest)
      | none => none

/-- The digits at the front, of which there has to be one, and what follows them. -/
def scanDigits (cs : List Char) : Option (List Char × List Char) :=
  match cs.takeWhile Char.isDigit with
  | [] => none
  | ds => some (ds, cs.dropWhile Char.isDigit)

/-- A whole part has no leading zero unless it is a single one. -/
def scanWhole (cs : List Char) : Option (List Char × List Char) :=
  match scanDigits cs with
  | some ('0' :: _ :: _, _) => none
  | found => found

def scanFraction : List Char → Option (List Char × List Char)
  | '.' :: cs => scanDigits cs
  | cs => some ([], cs)

def scanExponent : List Char → Option (Option (Bool × List Char) × List Char)
  | e :: cs =>
    if e == 'e' || e == 'E' then
      let (negative, cs) : Bool × List Char :=
        match cs with
        | '-' :: cs => (true, cs)
        | '+' :: cs => (false, cs)
        | cs => (false, cs)
      (scanDigits cs).map fun (ds, cs) => (some (negative, ds), cs)
    else some (none, e :: cs)
  | [] => some (none, [])

def scanNumeral (cs : List Char) : Option (Numeral × List Char) := do
  let (negative, cs) : Bool × List Char :=
    match cs with
    | '-' :: cs => (true, cs)
    | cs => (false, cs)
  let (whole, cs) ← scanWhole cs
  let (fraction, cs) ← scanFraction cs
  let (exponent, cs) ← scanExponent cs
  return ({ negative, whole, fraction, exponent }, cs)

/-- The token that starts with `c`, and what follows it. -/
def scan (c : Char) (cs : List Char) : Option (Token × List Char) :=
  match c, cs with
  | '[', cs => some (.openBracket, cs)
  | ']', cs => some (.closeBracket, cs)
  | '\x7b', cs => some (.openBrace, cs)
  | '\x7d', cs => some (.closeBrace, cs)
  | ',', cs => some (.comma, cs)
  | ':', cs => some (.colon, cs)
  | 'n', 'u' :: 'l' :: 'l' :: cs => some (.null, cs)
  | 't', 'r' :: 'u' :: 'e' :: cs => some (.bool true, cs)
  | 'f', 'a' :: 'l' :: 's' :: 'e' :: cs => some (.bool false, cs)
  | '"', cs => (scanString cs).map fun (s, cs) => (.string s, cs)
  | c, cs => (scanNumeral (c :: cs)).map fun (n, cs) => (.number n, cs)

theorem length_of_scanString {cs : List Char} {r : List Piece × List Char}
    (h : scanString cs = some r) : r.2.length < cs.length := by
  fun_induction scanString cs generalizing r <;> grind

theorem length_of_scanDigits {cs : List Char} {r : List Char × List Char}
    (h : scanDigits cs = some r) : r.2.length < cs.length := by
  have hl : (cs.takeWhile Char.isDigit).length + (cs.dropWhile Char.isDigit).length = cs.length := by
    rw [← List.length_append, List.takeWhile_append_dropWhile]
  unfold scanDigits at h
  split at h
  · cases h
  · rename_i ds hne
    cases h
    have : (cs.takeWhile Char.isDigit).length ≠ 0 := fun h0 => hne (List.length_eq_zero_iff.1 h0)
    show (cs.dropWhile Char.isDigit).length < cs.length
    omega

theorem length_of_scanWhole {cs : List Char} {r : List Char × List Char}
    (h : scanWhole cs = some r) : r.2.length < cs.length := by
  unfold scanWhole at h
  split at h
  · cases h
  · exact length_of_scanDigits h

theorem length_of_scanFraction {cs : List Char} {r : List Char × List Char}
    (h : scanFraction cs = some r) : r.2.length ≤ cs.length := by
  unfold scanFraction at h
  split at h
  · have := length_of_scanDigits h
    simp only [List.length_cons]
    omega
  · cases h
    exact Nat.le_refl _

theorem length_of_scanExponent {cs : List Char} {r : Option (Bool × List Char) × List Char}
    (h : scanExponent cs = some r) : r.2.length ≤ cs.length := by
  unfold scanExponent at h
  split at h
  · rename_i e cs
    split at h
    · simp only [Option.map_eq_some_iff] at h
      obtain ⟨x, hx, rfl⟩ := h
      have hd := length_of_scanDigits hx
      split at hd <;> simp_all <;> omega
    · cases h
      exact Nat.le_refl _
  · cases h
    exact Nat.le_refl _

theorem length_of_scanNumeral {cs : List Char} {r : Numeral × List Char}
    (h : scanNumeral cs = some r) : r.2.length < cs.length := by
  simp only [scanNumeral, Option.bind_eq_bind, Option.bind_eq_some_iff, Option.pure_def,
    Option.some.injEq] at h
  obtain ⟨w, hw, f, hf, e, he, rfl⟩ := h
  have h1 := length_of_scanWhole hw
  have h2 := length_of_scanFraction hf
  have h3 := length_of_scanExponent he
  split at h1 <;> simp_all <;> omega

theorem length_of_scan {c : Char} {cs : List Char} {r : Token × List Char}
    (h : scan c cs = some r) : r.2.length ≤ cs.length := by
  unfold scan at h
  split at h
  case h_10 =>
    obtain ⟨x, hx, rfl⟩ := Option.map_eq_some_iff.1 h
    exact Nat.le_of_lt (length_of_scanString hx)
  case h_11 =>
    obtain ⟨x, hx, rfl⟩ := Option.map_eq_some_iff.1 h
    have := length_of_scanNumeral hx
    simp only [List.length_cons] at this
    exact Nat.le_of_lt_succ this
  all_goals (cases h; simp only [List.length_cons]; omega)

/-- The tokens of a text, with white space between them left out. A place where no token can be
read ends the list. -/
def tokens (cs : List Char) : List Token :=
  match _h : cs.dropWhile isSpace with
  | [] => []
  | c :: rest =>
    match _hs : scan c rest with
    | some (t, rest) => t :: tokens rest
    | none => [.stray]
termination_by cs.length
decreasing_by
  have h1 := length_of_scan _hs
  have h2 := (List.dropWhile_sublist (l := cs) isSpace).length_le
  rw [_h] at h2
  simp only [List.length_cons] at h2
  show _ < _
  simp only at h1
  omega

end Traversal.Json
