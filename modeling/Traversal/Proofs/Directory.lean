import Mathlib.Data.List.Basic
import Traversal.Directory
import Traversal.Proofs.Except

namespace Traversal.Directory

variable {d d' : Directory} {path : String} {bytes : List UInt8} {name : List Char}

/-- A part that stays in the directory does so whatever files there are. -/
theorem enter_eq_here {e : Entry} (h : d.enter e name = .ok .here) (d' : Directory) :
    e = .here ∧ d'.enter .here name = .ok .here := by
  unfold enter at h
  split at h
  case h_1 | h_4 => cases h
  case h_2 | h_3 =>
    cases h
    exact ⟨rfl, rfl⟩
  case h_5 =>
    dsimp only at h
    split at h
    · cases h
    · split at h <;> cases h

theorem foldlM_enter_eq_here {e : Entry} {names : List (List Char)}
    (h : names.foldlM d.enter e = .ok .here) (d' : Directory) :
    e = .here ∧ names.foldlM d'.enter .here = .ok .here := by
  induction names generalizing e with
  | nil =>
    cases h
    exact ⟨rfl, rfl⟩
  | cons name names ih =>
    rw [List.foldlM_cons, bind_eq_ok] at h
    obtain ⟨e₁, first, rest⟩ := h
    obtain ⟨rfl, rest'⟩ := ih rest
    obtain ⟨here, first'⟩ := enter_eq_here first d'
    exact ⟨here, bind_eq_ok.2 ⟨_, first', rest'⟩⟩

theorem enter_of_ordinary (d : Directory) (ordinary : name ∉ [[], ['.'], ['.', '.']]) :
    d.enter .here name =
      if maxName < (String.ofList name).utf8ByteSize then .error .nameTooLong
      else (d.files[String.ofList name]?.map Entry.file).elim (.error .notFound) .ok := by
  unfold enter
  split
  case h_5 =>
    dsimp only
    generalize d.files[String.ofList _]? = found
    cases found <;> rfl
  case h_1 here => cases here
  all_goals simp at ordinary

/-- A file that is put where one is or may be is found there. -/
theorem enter_insert
    (h : (∃ old, d.enter .here name = .ok (.file old)) ∨ d.enter .here name = .error .notFound) :
    enter { files := d.files.insert (String.ofList name) bytes } .here name =
      .ok (.file bytes) := by
  have ordinary : name ∉ [[], ['.'], ['.', '.']] := by
    intro special
    simp only [List.mem_cons, List.not_mem_nil, or_false] at special
    rcases special with rfl | rfl | rfl <;> simp [enter] at h
  rw [enter_of_ordinary _ ordinary] at h ⊢
  split
  · simp_all
  · rw [Std.ExtTreeMap.getElem?_insert_self]
    rfl

/-- A path has a last part. -/
theorem dropLast_append_getLastD_of_parts {start : Entry} {names : List (List Char)}
    (h : parts path = .ok (start, names)) : names.dropLast ++ [names.getLastD []] = names := by
  have full : names ≠ [] := by
    unfold parts at h
    simp only at h
    split at h
    · cases h
    · split at h
      · cases h
      · split at h
        · cases h
        · cases h
          exact Text.segments_ne_nil _
  rw [List.getLastD_eq_getLast?, List.getLast?_eq_some_getLast full]
  exact List.dropLast_append_getLast full

theorem read_write (h : d.write path bytes = .ok d') : d'.read path = .ok bytes := by
  obtain ⟨⟨start, names⟩, hparts, h⟩ := bind_eq_ok.1 h
  obtain ⟨e, hfold, h⟩ := bind_eq_ok.1 h
  cases e with
  | here =>
    obtain ⟨here, hfold'⟩ := foldlM_enter_eq_here hfold d'
    have last : d'.enter .here (names.getLastD []) = .ok (.file bytes) := by
      simp only at h
      split at h
      · rename_i old
        obtain rfl := Except.ok.inj h
        exact enter_insert (.inl ⟨_, old⟩)
      · rename_i free
        obtain rfl := Except.ok.inj h
        exact enter_insert (.inr free)
      · nomatch h
      · nomatch h
    have found : d'.find path = .ok (.file bytes) := by
      refine bind_eq_ok.2 ⟨_, hparts, ?_⟩
      dsimp only
      rw [← dropLast_append_getLastD_of_parts hparts, List.foldlM_append]
      refine bind_eq_ok.2 ⟨_, here ▸ hfold', bind_eq_ok.2 ⟨_, last, rfl⟩⟩
    exact bind_eq_ok.2 ⟨_, found, rfl⟩
  | elsewhere => nomatch h
  | file _ => nomatch h

end Traversal.Directory
