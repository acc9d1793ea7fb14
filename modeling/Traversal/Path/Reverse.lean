import Traversal.Path.Basic

namespace Traversal

mutual

/-- The path walked backwards: the steps from last to first, each reversed. -/
def Path.reverse : Path → Path
  | ⟨steps, binding⟩ => ⟨Step.reversals steps, binding⟩
termination_by structural p => p

/-- The reversed steps, from last to first. -/
def Step.reversals : List Step → List Step
  | [] => []
  | s :: ss => Step.reversals ss ++ [s.reversal]
termination_by structural ss => ss

/-- Edges are walked the other way and followed paths backwards; any other step is its own
reversal. -/
def Step.reversal : Step → Step
  | .out via => .into via
  | .into via => .out via
  | .follow path => .follow path.reverse
  | .is names => .is names
  | .tag names => .tag names
  | .plan it => .plan it
  | .and path => .and path
  | .or path => .or path
  | .except path => .except path
termination_by structural s => s

end

theorem Step.reversals_eq (ss : List Step) :
    Step.reversals ss = (ss.map Step.reversal).reverse := by
  induction ss with
  | nil => rfl
  | cons s ss ih => simp [Step.reversals, ih]

@[simp] theorem Path.steps_reverse (p : Path) :
    p.reverse.steps = (p.steps.map Step.reversal).reverse := by
  cases p
  exact Step.reversals_eq _

@[simp] theorem Path.binding_reverse (p : Path) : p.reverse.binding = p.binding := by
  cases p
  rfl

end Traversal
