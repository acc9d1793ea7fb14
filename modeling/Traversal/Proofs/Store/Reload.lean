import Traversal.Proofs.Store.Demand
import Traversal.Proofs.Store.Replay

namespace Traversal.Store

variable {o : LoadOptions} {number : Nat} {s t u : Store}

theorem Valid.statement?_of_add (h : s.Valid) {st : Statement} {id : QuadId}
    (hr : Store.add st s = (.ok id, t)) : t.statement? id = some st := by
  rcases h.add_cases st with ⟨i, hi, e⟩ | ⟨-, room, v, q, e, -, -, -, hq, hst⟩ | ⟨-, _, _, e, -⟩
  · rw [e] at hr
    cases hr
    exact hi
  · rw [e] at hr
    cases hr
    have stored : t.index.quad? (.ofNat s.size) = some q := by
      rw [QuadIndex.quad?, hq]
      exact (getElem?_push_toNat room).2 (.inr ⟨rfl, rfl⟩)
    exact (statement?_eq_some _ _ _).2 ⟨q, stored, hst⟩
  · rw [e] at hr
    cases hr

/-- What a line has added is found again in any store that keeps it. -/
theorem loadLine_again (hs : s.Valid) {line : List UInt8} {r : Except LoadError Bool}
    (hr : loadLine o number line s = (r, t)) (room : ∀ k cause, r ≠ .error (.store k cause))
    (hu : u.Valid) (kept : Kept t u) : loadLine o number line u = (r, u) := by
  cases hd : demand o line with
  | none =>
    obtain ⟨e, -, he⟩ := loadLine_of_none hd number
    rw [he s] at hr
    cases hr
    exact he u
  | some c =>
    cases c with
    | skipped =>
      rw [loadLine_of_skipped hd] at hr
      cases hr
      exact loadLine_of_skipped hd number u
    | statement st =>
      have holds := demand_eq_statement.1 hd
      rcases e : add st s with ⟨cause | id, v⟩
      · rw [loadLine_of_error holds e] at hr
        cases hr
        exact absurd rfl (room number cause)
      · rw [loadLine_of_ok holds e] at hr
        cases hr
        have stored : u.statement? id = some st := kept.statement? (hs.statement?_of_add e)
        exact loadLine_of_ok holds (hu.add_of_statement? stored) number

theorem loadLines_again (hs : s.Valid) {lines : List (List UInt8)} {r : Except LoadError Nat}
    (hr : loadLines o number lines s = (r, t)) (room : ∀ k cause, r ≠ .error (.store k cause))
    (hu : u.Valid) (kept : Kept t u) : loadLines o number lines u = (r, u) := by
  induction lines generalizing number s r t with
  | nil =>
    cases hr
    rfl
  | cons line rest ih =>
    have first := leads_loadLine Keeps.refl Keeps.trans keeps_add o number line s hs
    rcases hl : loadLine o number line s with ⟨e | accepted, v⟩
    · rw [loadLines, bind_of_error hl] at hr
      cases hr
      have refused : ∀ k cause, Except.error (α := Bool) e ≠ .error (.store k cause) := by
        intro k cause he
        cases he
        exact room k cause rfl
      rw [loadLines, bind_of_error (loadLine_again hs hl refused hu kept)]
    · -- The first run goes on from `v`. The second stays at `u`, which keeps what the first stores.
      rw [hl] at first
      obtain ⟨hv, -⟩ := first
      rw [loadLines_cons_of_ok hl] at hr
      obtain ⟨rfl, rfl⟩ := Prod.mk.inj hr
      obtain ⟨-, later⟩ :=
        leads_loadLines Keeps.refl Keeps.trans keeps_add o (number + 1) rest v hv
      have again : loadLine o number line u = (.ok accepted, u) :=
        loadLine_again hs hl (fun k cause he => by cases he) hu (later.trans kept)
      have fits : ∀ k cause, (loadLines o (number + 1) rest v).1 ≠ .error (.store k cause) := by
        intro k cause he
        exact room k cause (by rw [he]; rfl)
      rw [loadLines_cons_of_ok again, ih hv rfl fits kept]

/-- A text that is loaded again, at once or later, is answered as it was the first time, be it with
a count or with a failure, and changes nothing. -/
theorem load_again {s : Store} (h : s.Reachable) (o : LoadOptions) (text : List UInt8)
    (fits : (Change.load o text).Fits s) (changes : List Change) :
    load o text ((load o text s).2.after changes) =
      ((load o text s).1, (load o text s).2.after changes) := by
  have loaded : (load o text s).2.Valid := (h.valid.after [.load o text]).1
  obtain ⟨later, kept⟩ := loaded.after changes
  exact loadLines_again h.valid rfl fits later kept

/-- The failing line is met again, though a later load has gone past the same statement. -/
theorem load_again_friends :
    let text := Text.utf8 "dave follows alice\ndave\nerin follows dave\n"
    let changes := [Change.load { skipMalformed := true } text, .add ⟨"dave", "knows", "bob", none⟩]
    (Change.load {} text).Fits friends ∧
      (load {} text friends).1 = .error (.malformed 2 (.fieldCount 1)) ∧
      load {} text ((load {} text friends).2.after changes) =
        (.error (.malformed 2 (.fieldCount 1)), (load {} text friends).2.after changes) := by
  intro text changes
  have failed : (load {} text friends).1 = .error (.malformed 2 (.fieldCount 1)) := by
    decide +kernel
  have fits : (Change.load {} text).Fits friends := by
    intro number cause he
    rw [failed] at he
    cases he
  have again := load_again reachable_friends {} text fits changes
  rw [failed] at again
  exact ⟨fits, failed, again⟩

end Traversal.Store
