namespace Traversal

variable {ε δ α β : Type}

/-- A sequence of two computations succeeds if both do. -/
theorem bind_eq_ok {first : Except ε α} {next : α → Except ε β} {b : β} :
    first >>= next = .ok b ↔ ∃ a, first = .ok a ∧ next a = .ok b := by
  cases first with
  | error e =>
    constructor
    · intro h
      cases h
    · intro h
      obtain ⟨a, h, -⟩ := h
      cases h
  | ok a =>
    constructor
    · exact fun h => ⟨a, rfl, h⟩
    · intro h
      obtain ⟨_, ⟨⟩, h⟩ := h
      exact h

/-- A sequence of two computations fails if the first does, or the second after it. -/
theorem bind_eq_error {first : Except ε α} {next : α → Except ε β} {e : ε} :
    first >>= next = .error e ↔ first = .error e ∨ ∃ a, first = .ok a ∧ next a = .error e := by
  cases first with
  | error e' =>
    constructor
    · intro h
      cases h
      exact .inl rfl
    · intro h
      rcases h with h | ⟨_, h, -⟩
      · cases h
        rfl
      · cases h
  | ok a =>
    constructor
    · exact fun h => .inr ⟨a, rfl, h⟩
    · intro h
      rcases h with h | ⟨_, ⟨⟩, h⟩
      · cases h
      · exact h

theorem map_eq_ok {f : α → β} {run : Except ε α} {b : β} :
    f <$> run = .ok b ↔ ∃ a, run = .ok a ∧ f a = b := by
  cases run with
  | error e => exact ⟨nofun, nofun⟩
  | ok a =>
    change Except.ok (f a) = Except.ok b ↔ _
    simp

theorem mapError_eq_ok {f : ε → δ} {run : Except ε α} {a : α} :
    run.mapError f = .ok a ↔ run = .ok a := by
  cases run with
  | error e => exact ⟨nofun, nofun⟩
  | ok b =>
    change (Except.ok b : Except δ α) = .ok a ↔ _
    rw [Except.ok.injEq, Except.ok.injEq]

end Traversal
