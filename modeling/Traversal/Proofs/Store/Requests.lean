import Traversal.Proofs.Store.Demand

namespace Traversal.Store

/-- What a line contributes to a load: nothing, a statement, or a stop. -/
def request (o : LoadOptions) (line : List UInt8) : Option (Option Statement) :=
  match demand o line with
  | none => some none
  | some .skipped => none
  | some (.statement st) => some (some st)

/-- Adds statements and counts them. A stop ends the action, and so does a refused id. -/
def perform : List (Option Statement) → Action Unit Nat
  | [] => return 0
  | none :: _ => throw ()
  | some st :: rest => do
    let _ ← (add st).adapt fun _ => ()
    let count ← perform rest
    return count + 1

theorem loadLine_forget (o : LoadOptions) (number : Nat) (line : List UInt8) :
    (loadLine o number line).adapt (fun _ => ()) =
      match request o line with
      | none => pure false
      | some none => throw ()
      | some (some st) => do
        let _ ← (add st).adapt fun _ => ()
        return true := by
  unfold request demand loadLine
  cases decodeLine line with
  | none => rfl
  | some cs =>
    cases hc : o.content cs with
    | error e =>
      simp only [Option.bind_eq_bind, Option.bind_some, hc]
      rfl
    | ok c =>
      cases c with
      | skipped =>
        simp only [Option.bind_eq_bind, Option.bind_some, hc]
        rfl
      | statement st =>
        simp only [Option.bind_eq_bind, Option.bind_some, hc, Except.toOption, adapt_bind,
          adapt_adapt]
        rfl

/-- Apart from the failure that it reports, a load does what its lines contribute. -/
theorem loadLines_forget (o : LoadOptions) (number : Nat) (lines : List (List UInt8)) :
    (loadLines o number lines).adapt (fun _ => ()) = perform (lines.filterMap (request o)) := by
  induction lines generalizing number with
  | nil => rfl
  | cons line rest ih =>
    have counted : ∀ accepted : Bool, ExceptT.adapt (fun _ => ()) (do
        let count ← loadLines o (number + 1) rest
        return if accepted then count + 1 else count) = (do
          let count ← perform (rest.filterMap (request o))
          return if accepted then count + 1 else count) := by
      intro accepted
      rw [adapt_bind, ih]
      rfl
    rw [loadLines, adapt_bind, loadLine_forget]
    simp only [counted]
    cases hr : request o line with
    | none =>
      rw [List.filterMap_cons_none hr]
      simp
    | some r =>
      rw [List.filterMap_cons_some hr]
      cases r with
      | none => rfl
      | some st =>
        simp only [perform, bind_assoc, pure_bind]
        rfl

/-- Texts whose lines contribute the same are loaded alike: with the same store and the same count,
and both fail if one does. -/
theorem load_congr {o p : LoadOptions} {a b : List UInt8}
    (same : (lines a).filterMap (request o) = (lines b).filterMap (request p)) (s : Store) :
    (load o a s).2 = (load p b s).2 ∧ (load o a s).1.toOption = (load p b s).1.toOption := by
  have forget : ∀ r : Except LoadError Nat, (r.mapError fun _ => ()).toOption = r.toOption := by
    intro r
    cases r with
    | error e => rfl
    | ok n => rfl
  have runs : (load o a).adapt (fun _ => ()) s = (load p b).adapt (fun _ => ()) s := by
    rw [load, load, loadLines_forget, loadLines_forget, same]
  rw [adapt_apply, adapt_apply] at runs
  obtain ⟨result, store⟩ := Prod.mk.inj runs
  refine ⟨store, ?_⟩
  rw [← forget, result, forget]

theorem load_ok_congr {o p : LoadOptions} {a b : List UInt8}
    (same : (lines a).filterMap (request o) = (lines b).filterMap (request p)) {s t : Store} {n : Nat}
    (hr : load o a s = (.ok n, t)) : load p b s = (.ok n, t) := by
  obtain ⟨store, count⟩ := load_congr same s
  rw [hr] at store count
  rcases hb : load p b s with ⟨e | m, u⟩
  · rw [hb] at count
    cases count
  · rw [hb] at store count
    cases store
    cases count
    rfl

end Traversal.Store
