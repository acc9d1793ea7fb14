import Traversal.Proofs.Store.Lines

namespace Traversal

section Actions

variable {σ ε δ ζ α β : Type} {act : ExceptT ε (StateM σ) α} {next : α → ExceptT ε (StateM σ) β}
  {s u : σ}

theorem exists_of_bind_ok {b : β} (h : (act >>= next) s = (.ok b, u)) :
    ∃ a t, act s = (.ok a, t) ∧ next a t = (.ok b, u) := by
  rcases hr : act s with ⟨e | a, t⟩
  · rw [bind_of_error hr] at h
    cases h
  · rw [bind_of_ok hr] at h
    exact ⟨a, t, rfl, h⟩

theorem exists_of_bind_error {e : ε} (h : (act >>= next) s = (.error e, u)) :
    act s = (.error e, u) ∨ ∃ a t, act s = (.ok a, t) ∧ next a t = (.error e, u) := by
  rcases hr : act s with ⟨e' | a, t⟩
  · rw [bind_of_error hr] at h
    cases h
    exact .inl rfl
  · rw [bind_of_ok hr] at h
    exact .inr ⟨a, t, rfl, h⟩

theorem adapt_bind (f : ε → δ) (act : ExceptT ε (StateM σ) α) (next : α → ExceptT ε (StateM σ) β) :
    ExceptT.adapt f (act >>= next) = ExceptT.adapt f act >>= fun a => ExceptT.adapt f (next a) := by
  funext s
  rcases hr : act s with ⟨e | a, t⟩
  · have failed : (act >>= next) s = (.error e, t) := bind_of_error hr
    rw [adapt_of_error failed, bind_of_error (adapt_of_error hr f)]
  · rw [bind_of_ok (adapt_of_ok hr f), adapt_apply, adapt_apply, bind_of_ok hr]

theorem adapt_adapt (f : ε → δ) (g : δ → ζ) (act : ExceptT ε (StateM σ) α) :
    ExceptT.adapt g (ExceptT.adapt f act) = ExceptT.adapt (fun e => g (f e)) act := by
  funext s
  rw [adapt_apply, adapt_apply, adapt_apply]
  cases (act s).1 with
  | error e => rfl
  | ok a => rfl

end Actions

/-- The number of the line at which the load stopped. -/
def LoadError.line : LoadError → Nat
  | reading number _ => number
  | malformed number _ => number
  | store number _ => number

namespace Store

/-- What a line asks for; nothing if the load ends at it. -/
def demand (o : LoadOptions) (line : List UInt8) : Option LineContent := do
  let cs ← decodeLine line
  (o.content cs).toOption

section Line

variable {o : LoadOptions} {line : List UInt8} {number : Nat} {s t : Store}

theorem demand_eq_some {c : LineContent} :
    demand o line = some c ↔ ∃ cs, decodeLine line = some cs ∧ o.content cs = .ok c := by
  rw [demand, Option.bind_eq_bind, Option.bind_eq_some_iff]
  have known : ∀ cs, (o.content cs).toOption = some c ↔ o.content cs = .ok c := by
    intro cs
    cases o.content cs with
    | error e => simp [Except.toOption]
    | ok d => simp [Except.toOption]
  simp only [known]

theorem demand_eq_statement {st : Statement} :
    demand o line = some (.statement st) ↔ Holds o line st :=
  demand_eq_some

theorem loadLine_of_skipped (h : demand o line = some .skipped) (number : Nat) (s : Store) :
    loadLine o number line s = (.ok false, s) := by
  obtain ⟨cs, hcs, hc⟩ := demand_eq_some.1 h
  simp only [loadLine, hcs, hc]
  rfl

/-- A line that ends the load is not in UTF-8 or malformed, and leaves the store alone. -/
theorem loadLine_of_none (h : demand o line = none) (number : Nat) :
    ∃ e, (decodeLine line = none ∧ e = .reading number .encoding ∨
        ∃ cause, e = .malformed number cause) ∧
      ∀ s, loadLine o number line s = (.error e, s) := by
  cases hcs : decodeLine line with
  | none =>
    refine ⟨_, .inl ⟨rfl, rfl⟩, fun s => ?_⟩
    simp only [loadLine, hcs]
    rfl
  | some cs =>
    cases hc : o.content cs with
    | error cause =>
      refine ⟨_, .inr ⟨cause, rfl⟩, fun s => ?_⟩
      simp only [loadLine, hcs, hc]
      rfl
    | ok c => exact absurd (demand_eq_some.2 ⟨cs, hcs, hc⟩) (by rw [h]; simp)

/-- A line that asks for no statement leaves the store alone. -/
theorem holds_or_loadLine (o : LoadOptions) (number : Nat) (line : List UInt8) :
    (∃ st, Holds o line st) ∨ ∃ r, ∀ s, loadLine o number line s = (r, s) := by
  cases hd : demand o line with
  | none =>
    obtain ⟨e, -, he⟩ := loadLine_of_none hd number
    exact .inr ⟨.error e, he⟩
  | some c =>
    cases c with
    | skipped => exact .inr ⟨.ok false, loadLine_of_skipped hd number⟩
    | statement st => exact .inl ⟨st, demand_eq_statement.1 hd⟩

theorem demand_of_loadLine_ok {accepted : Bool} (h : loadLine o number line s = (.ok accepted, t)) :
    demand o line ≠ none := by
  intro refused
  obtain ⟨e, -, he⟩ := loadLine_of_none refused number
  rw [he s] at h
  cases h

/-- A line fails because an id is refused, or it ends every load. -/
theorem loadLine_error {e : LoadError} (h : loadLine o number line s = (.error e, t)) :
    (∃ cause, e = .store number cause) ∨ t = s ∧ demand o line = none ∧
      (decodeLine line = none ∧ e = .reading number .encoding ∨
        ∃ cause, e = .malformed number cause) := by
  cases hd : demand o line with
  | none =>
    obtain ⟨e', kind, he⟩ := loadLine_of_none hd number
    rw [he s] at h
    cases h
    exact .inr ⟨rfl, rfl, kind⟩
  | some c =>
    cases c with
    | skipped =>
      rw [loadLine_of_skipped hd] at h
      cases h
    | statement st =>
      have holds := demand_eq_statement.1 hd
      rcases hr : add st s with ⟨cause | id, u⟩
      · rw [loadLine_of_error holds hr] at h
        cases h
        exact .inl ⟨cause, rfl⟩
      · rw [loadLine_of_ok holds hr] at h
        cases h

theorem line_of_loadLine_error {e : LoadError} (h : loadLine o number line s = (.error e, t)) :
    e.line = number := by
  rcases loadLine_error h with ⟨cause, rfl⟩ | ⟨-, -, ⟨-, rfl⟩ | ⟨cause, rfl⟩⟩
  · rfl
  · rfl
  · rfl

end Line

section Lines

variable {o : LoadOptions} {lines : List (List UInt8)} {number : Nat} {s t : Store}

theorem loadLines_cons_of_ok {line : List UInt8} {accepted : Bool}
    (h : loadLine o number line s = (.ok accepted, t)) (rest : List (List UInt8)) :
    loadLines o number (line :: rest) s =
      ((loadLines o (number + 1) rest t).1.map fun n => if accepted then n + 1 else n,
        (loadLines o (number + 1) rest t).2) := by
  rw [loadLines, bind_of_ok h]
  rcases hr : loadLines o (number + 1) rest t with ⟨e | n, u⟩
  · rw [bind_of_error hr]
    rfl
  · rw [bind_of_ok hr]
    rfl

theorem demand_of_loadLines_ok {n : Nat} (h : loadLines o number lines s = (.ok n, t)) :
    ∀ line ∈ lines, demand o line ≠ none := by
  induction lines generalizing number s n t with
  | nil => simp
  | cons line rest ih =>
    obtain ⟨accepted, u, first, h⟩ := exists_of_bind_ok h
    obtain ⟨m, v, later, -⟩ := exists_of_bind_ok h
    rw [List.forall_mem_cons]
    exact ⟨demand_of_loadLine_ok first, ih later⟩

/-- A load that fails loads the lines before the one at which it fails. -/
theorem loadLines_error {e : LoadError} (h : loadLines o number lines s = (.error e, t)) :
    ∃ front line rest n u, lines = front ++ line :: rest ∧
      loadLines o number front s = (.ok n, u) ∧
      loadLine o (number + front.length) line u = (.error e, t) := by
  induction lines generalizing number s with
  | nil => cases h
  | cons line rest ih =>
    rcases exists_of_bind_error h with failed | ⟨accepted, u, first, h⟩
    · exact ⟨[], line, rest, 0, s, rfl, rfl, failed⟩
    rcases exists_of_bind_error h with later | ⟨m, v, -, h⟩
    · obtain ⟨front, bad, after, n, w, rfl, passed, failed⟩ := ih later
      have place : number + 1 + front.length = number + (line :: front).length := by
        rw [List.length_cons]
        omega
      rw [place] at failed
      refine ⟨line :: front, bad, after, if accepted then n + 1 else n, w, rfl, ?_, failed⟩
      rw [loadLines_cons_of_ok first, passed]
      rfl
    · cases h

end Lines

end Store

end Traversal
