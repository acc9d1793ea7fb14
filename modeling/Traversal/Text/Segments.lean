namespace Traversal.Text

/-- The stretches before, between and after the members that satisfy `p`, empty ones included. -/
def segments {α : Type} (p : α → Bool) : List α → List (List α)
  | [] => [[]]
  | a :: l =>
    if p a then [] :: segments p l
    else
      match segments p l with
      | [] => [[a]]
      | s :: ss => (a :: s) :: ss

variable {α : Type} {p : α → Bool}

theorem segments_ne_nil (l : List α) : segments p l ≠ [] := by
  cases l with
  | nil => simp [segments]
  | cons a l =>
    simp only [segments]
    split
    · simp
    · split <;> simp

theorem segments_append_cons (s l : List α) {a : α} (ha : p a = true) :
    segments p (s ++ a :: l) = segments p s ++ segments p l := by
  induction s with
  | nil => simp [segments, ha]
  | cons x s ih =>
    simp only [List.cons_append, segments, ih]
    split
    · rfl
    · cases h : segments p s with
      | nil => exact absurd h (segments_ne_nil s)
      | cons t ts => rfl

theorem segments_eq_self {s : List α} (hs : ∀ x ∈ s, p x = false) : segments p s = [s] := by
  induction s with
  | nil => rfl
  | cons x s ih =>
    have hx := hs x List.mem_cons_self
    have hr := ih fun y hy => hs y (List.mem_cons_of_mem _ hy)
    simp [segments, hx, hr]

/-- The stretches that end at a member that satisfies `p`, and what is left after the last one if
it is not empty. -/
def terminated (p : α → Bool) (l : List α) : List (List α) :=
  let ss := segments p l
  match ss.getLast? with
  | some [] => ss.dropLast
  | _ => ss

end Traversal.Text
