import Traversal.Proofs.Store.Content
import Traversal.Proofs.Store.Demand
import Traversal.Proofs.Store.Exact

namespace Traversal.Store

/-- No id is refused while the change is made. A load may still fail at a line that it cannot
read. -/
def Change.Fits (s : Store) : Change → Prop
  | .add st => ∀ e, (Store.add st s).1 ≠ .error e
  | .addAll sts => ∀ e, (Store.addAll sts s).1 ≠ .error e
  | .load o bytes => ∀ number e, (Store.load o bytes s).1 ≠ .error (.store number e)

/-- The states of a store that was empty at first and never ran out of ids. -/
inductive Grown : Store → Prop
  | empty : Grown {}
  | change {s : Store} (c : Change) (h : Grown s) (fits : c.Fits s) : Grown (c.run s)

section Invariants

variable {I : Store → Prop}
  (hadd : ∀ {st s t id}, I s → add st s = (.ok id, t) → I t) {s : Store}

include hadd

theorem addAll_keeps {sts : List Statement} (hs : I s) (fits : ∀ e, (addAll sts s).1 ≠ .error e) :
    I (addAll sts s).2 := by
  induction sts generalizing s with
  | nil => exact hs
  | cons st sts ih =>
    rcases hr : add st s with ⟨e | id, t⟩
    · rw [addAll, bind_of_error hr] at fits
      exact absurd rfl (fits e)
    · rw [addAll, bind_of_ok hr] at fits ⊢
      exact ih (hadd hs hr) fits

theorem loadLine_keeps (o : LoadOptions) (number : Nat) (line : List UInt8) (hs : I s)
    (fits : ∀ k e, (loadLine o number line s).1 ≠ .error (.store k e)) :
    I (loadLine o number line s).2 := by
  rcases holds_or_loadLine o number line with ⟨st, hst⟩ | ⟨r, hr⟩
  · rcases e : add st s with ⟨cause | id, t⟩
    · rw [loadLine_of_error hst e number] at fits
      exact absurd rfl (fits number cause)
    · rw [loadLine_of_ok hst e number]
      exact hadd hs e
  · rw [hr s]
    exact hs

theorem loadLines_keeps {o : LoadOptions} {number : Nat} {lines : List (List UInt8)} (hs : I s)
    (fits : ∀ k e, (loadLines o number lines s).1 ≠ .error (.store k e)) :
    I (loadLines o number lines s).2 := by
  induction lines generalizing s number with
  | nil => exact hs
  | cons line rest ih =>
    have first := loadLine_keeps hadd o number line hs
    rcases hr : loadLine o number line s with ⟨e | accepted, t⟩
    · rw [loadLines, bind_of_error hr] at fits ⊢
      rw [hr] at first
      exact first fun k cause he => fits k cause (by cases he; rfl)
    · rw [loadLines, bind_of_ok hr] at fits ⊢
      rw [hr] at first
      have later : (∀ k e, (loadLines o (number + 1) rest t).1 ≠ .error (.store k e)) →
          I (loadLines o (number + 1) rest t).2 := ih (first fun k e he => by cases he)
      rcases hr' : loadLines o (number + 1) rest t with ⟨e | count, u⟩
      · rw [bind_of_error hr'] at fits ⊢
        rw [hr'] at later
        exact later fits
      · rw [bind_of_ok hr']
        rw [hr'] at later
        exact later fun k e he => by cases he

/-- What the addition of a statement keeps, every run keeps on which no id is refused. -/
theorem Grown.keeps (empty : I {}) (h : Grown s) : I s := by
  induction h with
  | empty => exact empty
  | @change s c _ fits ih =>
    cases c with
    | add st =>
      rcases hr : Store.add st s with ⟨e | id, t⟩
      · exact absurd (congrArg Prod.fst hr) (fits e)
      · change I (Store.add st s).2
        rw [hr]
        exact hadd ih hr
    | addAll sts => exact addAll_keeps hadd ih fits
    | load o bytes => exact loadLines_keeps hadd ih fits

end Invariants

theorem Grown.of_addAll {s t : Store} (h : s.Grown) {sts : List Statement}
    (hr : addAll sts s = (.ok (), t)) : t.Grown := by
  have fits : ∀ e, (addAll sts s).1 ≠ .error e := by
    intro e he
    rw [hr] at he
    cases he
  have grown := Grown.change (.addAll sts) h fits
  rwa [Change.run, hr] at grown

theorem addAll_append {xs ys : List Statement} {s t : Store} (hr : addAll xs s = (.ok (), t)) :
    addAll (xs ++ ys) s = addAll ys t := by
  induction xs generalizing s with
  | nil =>
    cases hr
    rfl
  | cons st xs ih =>
    rcases e : add st s with ⟨_ | id, u⟩
    · rw [addAll, bind_of_error e] at hr
      cases hr
    · rw [addAll, bind_of_ok e] at hr
      rw [List.cons_append, addAll, bind_of_ok e]
      exact ih hr

/-- A store is what its statements, added in the order of their ids, make of an empty store. -/
theorem Grown.replay {s : Store} (h : s.Grown) :
    s.Valid ∧ addAll s.statements {} = (.ok (), s) := by
  apply h.keeps (I := fun s => s.Valid ∧ addAll s.statements {} = (.ok (), s))
  · intro st s t id hs hr
    obtain ⟨valid, replay⟩ := hs
    obtain ⟨ht, hsts, -⟩ := valid.add_ok hr
    refine ⟨ht, ?_⟩
    by_cases old : st ∈ s.statements
    · obtain ⟨i, hi⟩ := (valid.mem_statements st).1 old
      rw [valid.add_of_statement? hi] at hr
      cases hr
      exact replay
    · have new : t.statements = s.statements ++ [st] := by simp [hsts, arrivals, old]
      rw [new, addAll_append replay, addAll, bind_of_ok hr]
      rfl
  · exact ⟨Valid.empty, rfl⟩

/-- What is stored, spelled on a line for each statement in the order of the ids. -/
def dump (write : Statement → List Char) (s : Store) : String :=
  String.ofList (s.statements.flatMap fun st => write st ++ ['\n'])

/-- A dump whose lines are read back as the statements that they spell makes the same store of an
empty one. -/
theorem Grown.load_dump {s : Store} (h : s.Grown) {o : LoadOptions} {write : Statement → List Char}
    (onLine : ∀ st ∈ s.statements, '\n' ∉ write st)
    (reads : ∀ st ∈ s.statements, o.content (write st) = .ok (.statement st)) :
    load o (Text.utf8 (s.dump write)) {} = (.ok s.size, s) := by
  obtain ⟨valid, replay⟩ := h.replay
  have split : lines (Text.utf8 (s.dump write)) =
      (s.statements.map write).map (·.flatMap String.utf8EncodeChar) := by
    rw [← lines_utf8, List.flatMap_map, dump]
    simpa using onLine
  have holds : List.Forall₂ (Holds o) (lines (Text.utf8 (s.dump write))) s.statements := by
    rw [split, List.map_map, List.forall₂_map_left_iff, List.forall₂_same]
    exact fun st hst => ⟨write st, decodeLine_utf8 (write st), reads st hst⟩
  rw [load, loadLines_of_holds holds 1 replay, valid.length_statements]

end Traversal.Store
