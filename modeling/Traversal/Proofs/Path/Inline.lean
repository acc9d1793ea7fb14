import Traversal.Proofs.Path.Image
import Traversal.Proofs.Path.Reverse

namespace Traversal

mutual

/-- The path with the steps of every path that is followed, at any depth, in its place. -/
def Path.inline : Path → Path
  | ⟨steps, binding⟩ => ⟨Step.inlineAll steps, binding⟩
termination_by structural p => p

def Step.inlineAll : List Step → List Step
  | [] => []
  | s :: ss => s.inline ++ Step.inlineAll ss
termination_by structural ss => ss

/-- The steps that stand for a step. -/
def Step.inline : Step → List Step
  | .is names => [.is names]
  | .tag names => [.tag names]
  | .out via => [.out via.inline]
  | .into via => [.into via.inline]
  | .plan it => [.plan it]
  | .and path => [.and path.inline]
  | .or path => [.or path.inline]
  | .except path => [.except path.inline]
  | .follow path => path.inline.steps
termination_by structural s => s

def Via.inline : Via → Via
  | .any => .any
  | .name n => .name n
  | .names ns => .names ns
  | .path path => .path path.inline
termination_by structural v => v

end

theorem Step.inlineAll_eq (ss : List Step) : Step.inlineAll ss = ss.flatMap Step.inline := by
  induction ss with
  | nil => rfl
  | cons s ss ih => rw [Step.inlineAll, ih, List.flatMap_cons]

theorem Step.inlineAll_append (ss ts : List Step) :
    Step.inlineAll (ss ++ ts) = Step.inlineAll ss ++ Step.inlineAll ts := by
  simp only [Step.inlineAll_eq, List.flatMap_append]

/-- Whether the step is none that follows another path. -/
def Step.isLocal : Step → Bool
  | .follow _ => false
  | _ => true

/-- No path that is followed is left over, at any depth. -/
theorem every_inline : (∀ p : Path, p.inline.every Step.isLocal = true) ∧
    (∀ s : Step, Step.everyAll Step.isLocal s.inline = true) ∧
    ∀ v : Via, v.inline.every Step.isLocal = true := by
  apply Path.induction
  case mk =>
    intro steps _ hs
    change Step.everyAll Step.isLocal (Step.inlineAll steps) = true
    rw [Step.inlineAll_eq]
    exact Step.everyAll_flatMap hs
  case follow => exact fun ⟨_, _⟩ hp => hp
  all_goals
    intros
    simp [*, Step.inline, Via.inline, Step.everyAll_singleton, Step.every, Via.every, Step.isLocal]

section Compilation

variable (src : Source)

theorem Step.applyAll_singleton (s : Step) (it : Plan) :
    Step.applyAll src [s] it = s.apply src it := by
  rw [Step.applyAll]
  cases s.apply src it with
  | error e => rfl
  | ok next => rfl

theorem applyAll_inlineAll {ss : List Step}
    (h : ∀ s ∈ ss, ∀ it, Step.applyAll src s.inline it = s.apply src it) (it : Plan) :
    Step.applyAll src (Step.inlineAll ss) it = Step.applyAll src ss it := by
  induction ss generalizing it with
  | nil => rfl
  | cons s ss ih =>
    have rest := ih fun t ht => h t (List.mem_cons_of_mem s ht)
    rw [Step.inlineAll, Step.applyAll_append, h s List.mem_cons_self, Step.applyAll]
    simp only [rest]

/-- The steps of a path lead to the same plan, or the same failure, as the step that follows it. -/
theorem apply_inline : (∀ (p : Path) it, p.inline.apply src it = p.apply src it) ∧
    (∀ (s : Step) it, Step.applyAll src s.inline it = s.apply src it) ∧
    ∀ v : Via, v.inline.compile src = v.compile src := by
  apply Path.induction
  case mk => exact fun _ _ hs => applyAll_inlineAll src hs
  case follow => exact fun ⟨_, _⟩ hp => hp
  case path => exact fun _ hp => hp src.seed
  all_goals
    intros
    simp [*, Step.inline, Via.inline, Step.applyAll_singleton, Step.apply]

end Compilation

theorem inlineAll_reversals {ss : List Step}
    (h : ∀ s ∈ ss, s.reversal.inline = Step.reversals s.inline) :
    Step.inlineAll (Step.reversals ss) = Step.reversals (Step.inlineAll ss) := by
  induction ss with
  | nil => rfl
  | cons s ss ih =>
    have rest := ih fun t ht => h t (List.mem_cons_of_mem s ht)
    have last : Step.inlineAll [s.reversal] = Step.reversals s.inline :=
      (List.append_nil _).trans (h s List.mem_cons_self)
    rw [Step.reversals, Step.inlineAll_append, rest, last, Step.inlineAll, Step.reversals_append]

/-- Reversal leaves the paths alone that `and`, `or`, `except` and predicate lists hold, so it meets
inlining only where a path is followed. -/
theorem inline_reverse : (∀ p : Path, p.reverse.inline = p.inline.reverse) ∧
    (∀ s : Step, s.reversal.inline = Step.reversals s.inline) ∧ ∀ _ : Via, True := by
  apply Path.induction
  case mk => exact fun _ binding hs => congrArg (Path.mk · binding) (inlineAll_reversals hs)
  case follow => exact fun ⟨_, _⟩ hp => congrArg Path.steps hp
  all_goals
    intros
    trivial

/-- To follow a path is to walk its steps. With the steps in the place of every path that is
followed, a path compiles on every source to the same plan or the same failure, and whether the
steps are put in place before or after a reversal makes no difference. -/
theorem Path.inline_laws (p : Path) : p.inline.every Step.isLocal = true ∧
    (∀ (src : Source) (it : Plan), p.inline.apply src it = p.apply src it) ∧
    p.reverse.inline = p.inline.reverse :=
  ⟨every_inline.1 p, fun src it => (apply_inline src).1 p it, inline_reverse.1 p⟩

example : (⟨[.out (.path ⟨[.follow ⟨[.is ["p"], .tag ["t"]], none⟩], none⟩),
      .follow ⟨[.into .any, .is ["a"]], none⟩], none⟩ : Path).inline =
    ⟨[.out (.path ⟨[.is ["p"], .tag ["t"]], none⟩), .into .any, .is ["a"]], none⟩ := rfl

end Traversal
