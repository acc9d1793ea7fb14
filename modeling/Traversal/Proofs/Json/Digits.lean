import Traversal.Proofs.Json.Grammar
import Traversal.Proofs.Text.Segments

namespace Traversal.Json

variable {cs rest : List Char}

/-- Whether a number may go on with the character behind its first digit. -/
def inNumber (c : Char) : Bool :=
  c.isDigit || c == '.' || c == 'e' || c == 'E'

theorem inNumber_eq_false {c : Char} :
    inNumber c = false ↔ c.isDigit = false ∧ c ≠ '.' ∧ c ≠ 'e' ∧ c ≠ 'E' := by
  simp [inNumber, and_assoc]

/-- The text does not go on with a number that ends before it. -/
def Ends (rest : List Char) : Prop :=
  ∀ c ∈ rest.head?, inNumber c = false

theorem ends_nil : Ends [] :=
  nofun

theorem ends_cons {c : Char} (h : inNumber c = false) (rest : List Char) : Ends (c :: rest) := by
  rintro d ⟨⟩
  exact h

theorem toDigits_of_pos {n : Nat} (hn : 0 < n) :
    ∃ c cs, Nat.toDigits 10 n = c :: cs ∧ c ≠ '0' := by
  induction n using Nat.strongRecOn with
  | ind n ih =>
    by_cases small : n < 10
    · have nonzero : ∀ n < 10, 0 < n → Nat.digitChar n ≠ '0' := by decide
      exact ⟨_, [], Nat.toDigits_of_lt_base small, nonzero n small hn⟩
    · -- The first digit is that of the number without its last digit.
      obtain ⟨c, cs, first, hc⟩ := ih (n / 10) (by omega) (by omega)
      rw [Nat.toDigits_of_base_le (by decide) (by omega), first]
      exact ⟨c, _, rfl, hc⟩

/-- Written numbers have no leading zeros. -/
theorem isWhole_toDigits (n : Nat) : IsWhole (Nat.toDigits 10 n) := by
  refine ⟨⟨Nat.toDigits_ne_nil, fun c hc => ?_⟩, fun zero => ?_⟩
  · exact Nat.isDigit_of_mem_toDigits (by decide) (by decide) hc
  · rcases Nat.eq_zero_or_pos n with rfl | hn
    · rfl
    · obtain ⟨c, cs, digits, hc⟩ := toDigits_of_pos hn
      rw [digits] at zero
      exact absurd (Option.some.inj zero) hc

theorem text_toDigits (n : Nat) (rest : List Char) :
    NumeralText ⟨false, Nat.toDigits 10 n, [], none⟩ (Nat.toDigits 10 n ++ rest) rest :=
  .intro List.mem_cons_self (isWhole_toDigits n) (.none rest) (.none rest)

section Scanning

theorem scanDigits_append {ds : List Char} (h : IsDigits ds)
    (stop : ∀ c ∈ rest.head?, c.isDigit = false) : scanDigits (ds ++ rest) = some (ds, rest) := by
  obtain ⟨taken, left⟩ := Text.takeWhile_stretch h.2 stop
  rw [scanDigits, taken, left]
  split
  · exact absurd rfl h.1
  · rfl

theorem scanWhole_append {ds : List Char} (h : IsWhole ds)
    (stop : ∀ c ∈ rest.head?, c.isDigit = false) : scanWhole (ds ++ rest) = some (ds, rest) := by
  rw [scanWhole, scanDigits_append h.1 stop]
  split
  · rename_i e
    cases e
    cases h.2 rfl
  · rfl

/-- An exponent is neither a digit nor a point, and ends where the number ends. -/
theorem scanExponent_of_text {exponent : Option (Bool × List Char)}
    (h : ExponentText exponent cs rest) (ends : Ends rest) :
    scanExponent cs = some (exponent, rest) ∧ ∀ c ∈ cs.head?, c.isDigit = false ∧ c ≠ '.' := by
  cases h with
  | none =>
    cases cs with
    | nil => exact ⟨rfl, nofun⟩
    | cons c cs =>
      obtain ⟨digit, point, small, capital⟩ := inNumber_eq_false.1 (ends c rfl)
      have other : ¬ (c == 'e' || c == 'E') = true := by simp [small, capital]
      refine ⟨if_neg other, ?_⟩
      rintro d ⟨⟩
      exact ⟨digit, point⟩
  | @some mark negative sign ds marks signs digits =>
    have stop : ∀ c ∈ rest.head?, c.isDigit = false :=
      fun c hc => (inNumber_eq_false.1 (ends c hc)).1
    have found := scanDigits_append digits stop
    have marked : mark = 'e' ∨ mark = 'E' := by simpa using marks
    have head : mark.isDigit = false ∧ mark ≠ '.' := by
      rcases marked with rfl | rfl <;> decide
    refine ⟨?_, by rintro c ⟨⟩; exact head⟩
    simp only [List.mem_cons, Prod.mk.injEq, List.not_mem_nil, or_false] at signs
    rcases signs with ⟨rfl, rfl⟩ | ⟨rfl, rfl⟩ | ⟨rfl, rfl⟩
    · -- Without a sign, the first digit follows.
      obtain ⟨d, ds, rfl⟩ := List.exists_cons_of_ne_nil digits.1
      have hd : d.isDigit = true := digits.2 d List.mem_cons_self
      have minus : d ≠ '-' := by
        rintro rfl
        cases hd
      have plus : d ≠ '+' := by
        rintro rfl
        cases hd
      rw [List.cons_append] at found
      simp [scanExponent, marked, minus, plus, found]
    · simp [scanExponent, marked, found]
    · simp [scanExponent, marked, found]

theorem scanFraction_of_text {ds : List Char} (h : FractionText ds cs rest)
    (stop : ∀ c ∈ rest.head?, c.isDigit = false ∧ c ≠ '.') :
    scanFraction cs = some (ds, rest) ∧ ∀ c ∈ cs.head?, c.isDigit = false := by
  cases h with
  | none =>
    refine ⟨?_, fun c hc => (stop c hc).1⟩
    rw [scanFraction]
    rintro cs rfl
    exact (stop '.' rfl).2 rfl
  | some digits =>
    refine ⟨scanDigits_append digits fun c hc => (stop c hc).1, ?_⟩
    rintro c ⟨⟩
    rfl

/-- A number is read to its end. -/
theorem scanNumeral_of_text {n : Numeral} (h : NumeralText n cs rest) (ends : Ends rest) :
    scanNumeral cs = some (n, rest) := by
  obtain ⟨signs, whole, fraction, exponent⟩ := h
  obtain ⟨readExponent, stop⟩ := scanExponent_of_text exponent ends
  obtain ⟨readFraction, stop⟩ := scanFraction_of_text fraction stop
  have readWhole := scanWhole_append whole stop
  simp only [List.mem_cons, Prod.mk.injEq, List.not_mem_nil, or_false] at signs
  rcases signs with ⟨rfl, rfl⟩ | ⟨rfl, rfl⟩
  · obtain ⟨d, ds, rfl⟩ := List.exists_cons_of_ne_nil whole.1.1
    have unsigned : d ≠ '-' := by
      rintro rfl
      cases whole.1.2 '-' List.mem_cons_self
    rw [List.cons_append] at readWhole
    simp [scanNumeral, unsigned, readWhole, readFraction, readExponent]
  · simp [scanNumeral, readWhole, readFraction, readExponent]

end Scanning

/-- A number starts with a digit or a sign, as nothing else does. -/
theorem exists_cons_of_numeralText {n : Numeral} (h : NumeralText n cs rest) :
    ∃ c cs', cs = c :: cs' ∧ isSpace c = false ∧
      scan c cs' = (scanNumeral cs).map fun (n, cs) => (.number n, cs) := by
  have start : ∀ c : Char, c.isDigit = true ∨ c = '-' → ∀ cs', isSpace c = false ∧
      scan c cs' = (scanNumeral (c :: cs')).map fun (n, cs) => (.number n, cs) := by
    intro c hc cs'
    constructor
    · rw [Bool.eq_false_iff]
      intro hs
      simp only [isSpace, Bool.or_eq_true, beq_iff_eq] at hs
      rcases hs with ((rfl | rfl) | rfl) | rfl <;> rcases hc with hc | hc <;> cases hc
    · unfold scan
      split
      case h_11 => rfl
      all_goals rcases hc with hc | hc <;> cases hc
  obtain ⟨signs, whole, -, -⟩ := h
  simp only [List.mem_cons, Prod.mk.injEq, List.not_mem_nil, or_false] at signs
  rcases signs with ⟨rfl, rfl⟩ | ⟨rfl, rfl⟩
  · obtain ⟨d, ds, rfl⟩ := List.exists_cons_of_ne_nil whole.1.1
    exact ⟨d, _, rfl, start d (.inl (whole.1.2 d List.mem_cons_self)) _⟩
  · exact ⟨'-', _, rfl, start '-' (.inr rfl) _⟩

end Traversal.Json
