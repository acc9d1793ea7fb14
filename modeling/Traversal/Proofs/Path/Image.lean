import Mathlib.Data.Set.Basic
import Traversal.Path.Reverse

namespace Traversal

/-- What a path sees of a store. -/
structure Graph where
  nodes : Set NodeId
  /-- The node of a name, if the name is known. -/
  node? : String → Option NodeId
  /-- There is a quad with this subject, predicate and object. -/
  edge : NodeId → NodeId → NodeId → Prop
  answers : Plan → Set UInt32

/-- The nodes of the names that are known, or every node if no name is given. -/
def Graph.named (g : Graph) : List String → Set NodeId
  | [] => g.nodes
  | n :: ns => {i | ∃ m ∈ n :: ns, g.node? m = some i}

mutual

/-- The nodes to which the steps of the path lead from `xs`, one step after the other. -/
def Path.image (g : Graph) : Path → Set NodeId → Set NodeId
  | ⟨steps, _⟩, xs => Step.imageAll g steps xs
termination_by structural p => p

def Step.imageAll (g : Graph) : List Step → Set NodeId → Set NodeId
  | [], xs => xs
  | s :: ss, xs => Step.imageAll g ss (s.image g xs)
termination_by structural ss => ss

def Step.image (g : Graph) : Step → Set NodeId → Set NodeId
  | .is names, xs => xs ∩ g.named names
  | .tag _, xs => xs
  | .out via, xs => {y | ∃ x ∈ xs, ∃ p ∈ via.image g, g.edge x p y}
  | .into via, xs => {x | ∃ y ∈ xs, ∃ p ∈ via.image g, g.edge x p y}
  | .plan it, xs => xs ∩ g.answers it
  | .and path, xs => xs ∩ path.image g g.nodes
  | .or path, xs => xs ∪ path.image g g.nodes
  | .except path, xs => xs ∩ (g.nodes \ path.image g g.nodes)
  | .follow path, xs => path.image g xs
termination_by structural s => s

def Via.image (g : Graph) : Via → Set NodeId
  | .any => g.nodes
  | .name n => g.named [n]
  | .names ns => g.named ns
  | .path path => path.image g g.nodes
termination_by structural v => v

end

theorem Step.imageAll_append (g : Graph) (ss ts : List Step) (xs : Set NodeId) :
    Step.imageAll g (ss ++ ts) xs = Step.imageAll g ts (Step.imageAll g ss xs) := by
  induction ss generalizing xs with
  | nil => rfl
  | cons s ss ih => exact ih (s.image g xs)

mutual

/-- Whether every step passes the test: the steps of the path and, at any depth, those of the paths
that its steps and predicate lists hold. -/
def Path.every (ok : Step → Bool) : Path → Bool
  | ⟨steps, _⟩ => Step.everyAll ok steps
termination_by structural p => p

def Step.everyAll (ok : Step → Bool) : List Step → Bool
  | [] => true
  | s :: ss => s.every ok && Step.everyAll ok ss
termination_by structural ss => ss

def Step.every (ok : Step → Bool) : Step → Bool
  | .is names => ok (.is names)
  | .tag names => ok (.tag names)
  | .out via => ok (.out via) && via.every ok
  | .into via => ok (.into via) && via.every ok
  | .plan it => ok (.plan it)
  | .and path => ok (.and path) && path.every ok
  | .or path => ok (.or path) && path.every ok
  | .except path => ok (.except path) && path.every ok
  | .follow path => ok (.follow path) && path.every ok
termination_by structural s => s

def Via.every (ok : Step → Bool) : Via → Bool
  | .any => true
  | .name _ => true
  | .names _ => true
  | .path path => path.every ok
termination_by structural v => v

end

theorem Step.everyAll_append (ok : Step → Bool) (ss ts : List Step) :
    Step.everyAll ok (ss ++ ts) = (Step.everyAll ok ss && Step.everyAll ok ts) := by
  induction ss with
  | nil => rfl
  | cons s ss ih => simp [Step.everyAll, ih, Bool.and_assoc]

theorem Step.everyAll_singleton (ok : Step → Bool) (s : Step) :
    Step.everyAll ok [s] = s.every ok := by
  simp [Step.everyAll]

/-- A sequence of steps can be rewritten step by step: it passes a test if the steps that stand for
each of its steps do. -/
theorem Step.everyAll_flatMap {ok : Step → Bool} {f : Step → List Step} {ss : List Step}
    (h : ∀ s ∈ ss, Step.everyAll ok (f s) = true) : Step.everyAll ok (ss.flatMap f) = true := by
  induction ss with
  | nil => rfl
  | cons s ss ih =>
    have rest := ih fun t ht => h t (List.mem_cons_of_mem s ht)
    rw [List.flatMap_cons, Step.everyAll_append, h s List.mem_cons_self, rest]
    rfl

/-- Steps that pass a test pass every weaker one. -/
theorem every_mono {ok ok' : Step → Bool} (weaker : ∀ s, ok s = true → ok' s = true) :
    (∀ p : Path, p.every ok = true → p.every ok' = true) ∧
    (∀ s : Step, s.every ok = true → s.every ok' = true) ∧
    ∀ v : Via, v.every ok = true → v.every ok' = true := by
  have both {s : Step} {inside inside' : Bool} (h : inside = true → inside' = true) :
      (ok s && inside) = true → (ok' s && inside') = true := by
    simp only [Bool.and_eq_true]
    exact And.imp (weaker s) h
  apply Path.induction
  case mk =>
    intro steps _ hs
    change Step.everyAll ok steps = true → Step.everyAll ok' steps = true
    induction steps with
    | nil => exact id
    | cons s ss ih =>
      have rest := ih fun t ht => hs t (List.mem_cons_of_mem s ht)
      simp only [Step.everyAll, Bool.and_eq_true]
      exact And.imp (hs s List.mem_cons_self) rest
  case is => exact fun _ => weaker _
  case tag => exact fun _ => weaker _
  case plan => exact fun _ => weaker _
  case out => exact fun _ => both
  case into => exact fun _ => both
  case and => exact fun _ => both
  case or => exact fun _ => both
  case except => exact fun _ => both
  case follow => exact fun _ => both
  case any => exact id
  case name => exact fun _ => id
  case names => exact fun _ => id
  case path => exact fun _ => id

/-- Whether the step is none that restricts to the answers of a plan. -/
def Step.isPlain : Step → Bool
  | .plan _ => false
  | _ => true

/-- Whether no step, at any depth, restricts to the answers of a plan. -/
def Path.planFree (p : Path) : Bool :=
  p.every Step.isPlain

end Traversal
