import Traversal.Path.Basic
import Traversal.Plan.Outline

namespace Traversal

open Text in
mutual

/-- The path on one line as nested constructors. -/
def Path.outline : Path → String
  | ⟨steps, binding⟩ =>
    fields "Path"
      [("steps", list (Step.outlines steps)), ("bound", toString binding.isSome)]
termination_by structural p => p

def Step.outlines : List Step → List String
  | [] => []
  | s :: ss => s.outline :: Step.outlines ss
termination_by structural ss => ss

def Step.outline : Step → String
  | .is names => call "Is" (list (names.map quoted))
  | .tag names => call "Tag" (list (names.map quoted))
  | .out via => call "Out" via.outline
  | .into via => call "In" via.outline
  | .plan it => call "Iterator" it.outline
  | .and path => call "And" path.outline
  | .or path => call "Or" path.outline
  | .except path => call "Except" path.outline
  | .follow path => call "Follow" path.outline
termination_by structural s => s

def Via.outline : Via → String
  | .any => "Any"
  | .name n => call "Name" (quoted n)
  | .names ns => call "Names" (list (ns.map quoted))
  | .path path => call "Path" path.outline
termination_by structural v => v

end

end Traversal
