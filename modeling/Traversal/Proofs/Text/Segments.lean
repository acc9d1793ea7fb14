import Mathlib.Data.List.Basic
import Traversal.Text.Segments

namespace Traversal.Text

variable {α : Type} {p : α → Bool}

theorem solid_of_not_mem [BEq α] [LawfulBEq α] {a : α} {l : List α} (h : a ∉ l) :
    ∀ x ∈ l, (x == a) = false :=
  fun _ hx => beq_false_of_ne fun e => h (e ▸ hx)

/-- What does not break belongs to the first stretch. -/
theorem segments_append_of_solid {s : List α} (hs : ∀ x ∈ s, p x = false) {l t : List α}
    {ts : List (List α)} (hl : segments p l = t :: ts) : segments p (s ++ l) = (s ++ t) :: ts := by
  induction s with
  | nil => exact hl
  | cons x s ih =>
    have hx := hs x List.mem_cons_self
    have rest := ih fun y hy => hs y (List.mem_cons_of_mem x hy)
    simp [segments, hx, rest]

/-- Whatever stands before a text, it ends in a part of the first stretch. -/
theorem exists_segments_append (p : α → Bool) (a : List α) :
    ∃ pre x, ∀ l t ts, segments p l = t :: ts → segments p (a ++ l) = pre ++ (x ++ t) :: ts := by
  induction a with
  | nil => exact ⟨[], [], fun l t ts hl => hl⟩
  | cons c a ih =>
    obtain ⟨pre, x, hx⟩ := ih
    cases hc : p c with
    | true =>
      refine ⟨[] :: pre, x, fun l t ts hl => ?_⟩
      simp [segments, hc, hx l t ts hl]
    | false =>
      cases pre with
      | nil =>
        refine ⟨[], c :: x, fun l t ts hl => ?_⟩
        simp [segments, hc, hx l t ts hl]
      | cons q pre =>
        refine ⟨(c :: q) :: pre, x, fun l t ts hl => ?_⟩
        simp [segments, hc, hx l t ts hl]

theorem exists_segments (p : α → Bool) (l : List α) : ∃ t ts, segments p l = t :: ts :=
  List.exists_cons_of_ne_nil (segments_ne_nil l)

/-- No stretch holds a break. -/
theorem solid_of_mem_segments {l s : List α} (h : s ∈ segments p l) : ∀ x ∈ s, p x = false := by
  induction l generalizing s with
  | nil =>
    obtain rfl := List.mem_singleton.1 h
    exact List.forall_mem_nil _
  | cons a l ih =>
    obtain ⟨t, ts, rest⟩ := exists_segments p l
    rw [rest, List.forall_mem_cons] at ih
    obtain ⟨first, later⟩ := ih
    cases ha : p a with
    | true =>
      have all : segments p (a :: l) = [] :: t :: ts := by simp [segments, ha, rest]
      rw [all, List.mem_cons, List.mem_cons] at h
      rcases h with rfl | rfl | h
      · exact List.forall_mem_nil _
      · exact first
      · exact later s h
    | false =>
      have all : segments p (a :: l) = (a :: t) :: ts := by simp [segments, ha, rest]
      rw [all, List.mem_cons] at h
      rcases h with rfl | h
      · exact List.forall_mem_cons.2 ⟨ha, first⟩
      · exact later s h

theorem solid_of_mem_terminated {l s : List α} (h : s ∈ terminated p l) :
    ∀ x ∈ s, p x = false := by
  rw [terminated] at h
  split at h
  · exact solid_of_mem_segments (List.dropLast_subset _ h)
  · exact solid_of_mem_segments h

theorem terminated_append_cons (s l : List α) {a : α} (ha : p a = true) :
    terminated p (s ++ a :: l) = segments p s ++ terminated p l := by
  have split := segments_append_cons s l ha
  have rest : segments p l ≠ [] := segments_ne_nil l
  have last : (segments p s ++ segments p l).getLast? = (segments p l).getLast? :=
    List.getLast?_append_of_ne_nil _ rest
  rw [terminated, terminated, split, last]
  split
  · exact List.dropLast_append_of_ne_nil rest
  · rfl

/-- The list is empty or ends with a break, so that what follows starts a stretch of its own. -/
def Whole (p : α → Bool) (l : List α) : Prop :=
  ∀ a ∈ l.getLast?, p a = true

instance (p : α → Bool) (l : List α) : Decidable (Whole p l) :=
  inferInstanceAs (Decidable (∀ a ∈ l.getLast?, p a = true))

theorem terminated_concat (s : List α) {a : α} (ha : p a = true) :
    terminated p (s ++ [a]) = segments p s := by
  rw [terminated_append_cons s [] ha]
  exact List.append_nil _

namespace Whole

variable {s : List α}

theorem nil : Whole p [] :=
  nofun

theorem append_cons {l : List α} (whole : Whole p l) (s : List α) {a : α} (ha : p a = true) :
    Whole p (s ++ a :: l) := by
  intro b hb
  rw [List.getLast?_append_of_ne_nil _ (List.cons_ne_nil a l), List.getLast?_cons] at hb
  cases last : l.getLast? with
  | none =>
    rw [last] at hb
    cases hb
    exact ha
  | some c =>
    rw [last] at hb
    cases hb
    exact whole c last

theorem eq_nil_or_concat (whole : Whole p s) : s = [] ∨ ∃ c a, s = c ++ [a] ∧ p a = true := by
  cases last : s.getLast? with
  | none => exact .inl (List.getLast?_eq_none_iff.1 last)
  | some a =>
    obtain ⟨c, rfl⟩ := List.getLast?_eq_some_iff.1 last
    exact .inr ⟨c, a, rfl, whole a last⟩

theorem segments_append (whole : Whole p s) (l : List α) :
    segments p (s ++ l) = terminated p s ++ segments p l := by
  obtain rfl | ⟨c, a, rfl, ha⟩ := whole.eq_nil_or_concat
  · rfl
  · rw [terminated_concat c ha, List.append_assoc, List.singleton_append,
      segments_append_cons c l ha]

theorem terminated_append (whole : Whole p s) (l : List α) :
    terminated p (s ++ l) = terminated p s ++ terminated p l := by
  obtain rfl | ⟨c, a, rfl, ha⟩ := whole.eq_nil_or_concat
  · rfl
  · rw [terminated_concat c ha, List.append_assoc, List.singleton_append,
      terminated_append_cons c l ha]

end Whole

theorem segments_flatMap {a : α} (ha : p a = true) {ss : List (List α)}
    (hs : ∀ s ∈ ss, ∀ x ∈ s, p x = false) :
    segments p (ss.flatMap fun s => s ++ [a]) = ss ++ [[]] := by
  induction ss with
  | nil => rfl
  | cons s ss ih =>
    have rest := ih fun t ht => hs t (List.mem_cons_of_mem s ht)
    have first : segments p s = [s] := segments_eq_self (hs s List.mem_cons_self)
    rw [List.flatMap_cons, List.append_assoc, List.singleton_append, segments_append_cons s _ ha,
      first, rest]
    rfl

theorem terminated_flatMap {a : α} (ha : p a = true)
    {ss : List (List α)} (hs : ∀ s ∈ ss, ∀ x ∈ s, p x = false) :
    terminated p (ss.flatMap fun s => s ++ [a]) = ss := by
  simp [terminated, segments_flatMap ha hs]

/-- A stretch that nothing of what follows goes on with is taken as a whole. -/
theorem takeWhile_stretch {s l : List α} (hs : ∀ x ∈ s, p x = true)
    (hl : ∀ x ∈ l.head?, p x = false) :
    (s ++ l).takeWhile p = s ∧ (s ++ l).dropWhile p = l := by
  have front : l.takeWhile p = [] ∧ l.dropWhile p = l := by
    cases l with
    | nil => exact ⟨rfl, rfl⟩
    | cons x l => simp [hl x rfl]
  rw [List.takeWhile_append_of_pos hs, List.dropWhile_append_of_pos hs, front.1, front.2]
  exact ⟨List.append_nil s, rfl⟩

theorem stretch_inj {s t l m : List α} (hs : ∀ x ∈ s, p x = true) (ht : ∀ x ∈ t, p x = true)
    (hl : ∀ x ∈ l.head?, p x = false) (hm : ∀ x ∈ m.head?, p x = false)
    (e : s ++ l = t ++ m) : s = t ∧ l = m := by
  obtain ⟨first, rest⟩ := takeWhile_stretch hs hl
  obtain ⟨first', rest'⟩ := takeWhile_stretch ht hm
  rw [e] at first rest
  exact ⟨first.symm.trans first', rest.symm.trans rest'⟩

theorem intercalate_cons (a : α) (xs : List α) (ys : List (List α)) :
    [a].intercalate (xs :: ys) = xs ++ ys.flatMap (a :: ·) := by
  induction ys generalizing xs with
  | nil => simp
  | cons y ys ih => simp [List.intercalate_cons_cons, ih y]

theorem not_mem_intercalate {a b : α} (hab : b ≠ a) {xss : List (List α)}
    (h : ∀ xs ∈ xss, b ∉ xs) : b ∉ [a].intercalate xss := by
  cases xss with
  | nil => simp
  | cons xs xss =>
    rw [intercalate_cons]
    simp_all

end Traversal.Text
