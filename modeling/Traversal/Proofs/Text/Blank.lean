import Mathlib.Data.List.DropRight
import Traversal.Proofs.Text.Segments
import Traversal.Text.Blank

namespace Traversal.Text

section Trim

theorem trim_blank_append {ws : List Char} (hw : ∀ c ∈ ws, isBlank c = true) (cs : List Char) :
    trim (ws ++ cs) = trim cs := by
  rw [trim, trim, List.dropWhile_append_of_pos hw]

theorem trim_append_blank {ws : List Char} (hw : ∀ c ∈ ws, isBlank c = true) (cs : List Char) :
    trim (cs ++ ws) = trim cs := by
  have hr : ∀ c ∈ ws.reverse, isBlank c = true := fun c hc => hw c (List.mem_reverse.1 hc)
  have gone : ws.dropWhile isBlank = [] := List.dropWhile_eq_nil_iff.2 hw
  rw [trim, trim, List.dropWhile_append]
  split
  · rename_i empty
    rw [gone, List.isEmpty_iff.1 empty]
  · rw [List.reverse_append, List.dropWhile_append_of_pos hr]

theorem trim_eq_self {c d : Char} (hc : isBlank c = false) (hd : isBlank d = false)
    (cs : List Char) : trim (c :: cs ++ [d]) = c :: cs ++ [d] := by
  have front : (c :: cs ++ [d]).dropWhile isBlank = c :: cs ++ [d] := by simp [hc]
  have back : (c :: cs ++ [d]).reverse.dropWhile isBlank = (c :: cs ++ [d]).reverse := by
    simp [hd]
  rw [trim, front, back, List.reverse_reverse]

/-- A text is its trimmed self between white space. -/
theorem exists_trim (cs : List Char) :
    ∃ u v, cs = u ++ trim cs ++ v ∧ (∀ c ∈ u, isBlank c = true) ∧ ∀ c ∈ v, isBlank c = true := by
  refine ⟨cs.takeWhile isBlank, ((cs.dropWhile isBlank).reverse.takeWhile isBlank).reverse,
    ?_, fun c hc => List.mem_takeWhile_imp hc, fun c hc => ?_⟩
  · rw [trim, List.append_assoc, ← List.reverse_append, List.takeWhile_append_dropWhile,
      List.reverse_reverse, List.takeWhile_append_dropWhile]
  · exact List.mem_takeWhile_imp (List.mem_reverse.1 hc)

theorem isBlank_head_trim {cs r : List Char} {c : Char} (h : trim cs = c :: r) :
    isBlank c = false := by
  have front : trim cs <+: cs.dropWhile isBlank := List.rdropWhile_prefix isBlank _
  rw [h] at front
  obtain ⟨more, hm⟩ := front
  have stop := List.head?_dropWhile_not isBlank cs
  rwa [← hm] at stop

end Trim

section Words

theorem words_blank_append {ws : List Char} (hw : ∀ c ∈ ws, isBlank c = true) (cs : List Char) :
    words (ws ++ cs) = words cs := by
  induction ws with
  | nil => rfl
  | cons c ws ih =>
    have first := words_append_cons [] (ws ++ cs) (hw c List.mem_cons_self)
    have rest := ih fun d hd => hw d (List.mem_cons_of_mem c hd)
    rw [List.cons_append]
    exact first.trans rest

/-- Words are apart by any white space. -/
theorem words_append_blank_append {ws : List Char} (hw : ∀ c ∈ ws, isBlank c = true)
    (full : ws ≠ []) (a b : List Char) : words (a ++ (ws ++ b)) = words a ++ words b := by
  cases ws with
  | nil => exact absurd rfl full
  | cons c ws =>
    have rest : ∀ d ∈ ws, isBlank d = true := fun d hd => hw d (List.mem_cons_of_mem c hd)
    rw [List.cons_append, words_append_cons _ _ (hw c List.mem_cons_self),
      words_blank_append rest]

theorem words_append_blank {ws : List Char} (hw : ∀ c ∈ ws, isBlank c = true) (cs : List Char) :
    words (cs ++ ws) = words cs := by
  by_cases full : ws = []
  · rw [full, List.append_nil]
  · have apart := words_append_blank_append hw full cs []
    rwa [List.append_nil, show words [] = [] from rfl, List.append_nil] at apart

theorem words_trim (cs : List Char) : words (trim cs) = words cs := by
  obtain ⟨u, v, e, hu, hv⟩ := exists_trim cs
  calc words (trim cs) = words (trim cs ++ v) := (words_append_blank hv _).symm
    _ = words (u ++ (trim cs ++ v)) := (words_blank_append hu _).symm
    _ = words cs := by rw [← List.append_assoc, ← e]

theorem head?_words_cons {c : Char} (solid : isBlank c = false) (cs : List Char) :
    (words (c :: cs)).head?.bind List.head? = some c := by
  obtain ⟨t, ts, rest⟩ := exists_segments isBlank cs
  have first : segments isBlank (c :: cs) = (c :: t) :: ts := by
    simp [segments, solid, rest]
  simp [words, first]

/-- White space aside, a text begins as its first word does. -/
theorem head?_trim (cs : List Char) : (trim cs).head? = (words cs).head?.bind List.head? := by
  rw [← words_trim]
  cases ht : trim cs with
  | nil => rfl
  | cons c r => exact (head?_words_cons (isBlank_head_trim ht) r).symm

end Words

end Traversal.Text
