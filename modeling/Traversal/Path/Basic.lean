import Traversal.Plan.Basic
import Traversal.StoreError

namespace Traversal

/-- Which store a path is bound to. Two handles are equal only for one and the same store. -/
abbrev StoreHandle := Nat

mutual

/-- A list of steps, and the store that they are bound to if there is one. A path without a store
is a template: it can be spliced into other paths, bound, compiled against a given store. -/
structure Path where
  steps : List Step := []
  binding : Option StoreHandle := none

/-- One refinement of the current nodes. -/
inductive Step where
  /-- Keep the named nodes, or every node of the store if no name is given. -/
  | is (names : List String)
  /-- Attach tags and keep the nodes. -/
  | tag (names : List String)
  /-- From the subjects to the objects of edges. -/
  | out (via : Via)
  /-- From the objects to the subjects of edges. -/
  | into (via : Via)
  /-- Keep the answers of a plan. -/
  | plan (it : Plan)
  | and (path : Path)
  | or (path : Path)
  /-- Drop the nodes of the path. -/
  | except (path : Path)
  /-- Go on along the steps of the path. -/
  | follow (path : Path)

/-- The predicates that an edge may have. -/
inductive Via where
  | any
  | name (name : String)
  | names (names : List String)
  | path (path : Path)

end

/-- Misuse of a path, or a failure of the store while a path is compiled. -/
inductive PathError where
  /-- A template was compiled without a store. -/
  | unbound
  /-- A path stood beside other entries of a predicate list. -/
  | mixedVia
  | store (cause : StoreError)
deriving DecidableEq

def PathError.message : PathError → String
  | .unbound =>
    "cannot build an iterator from a morphism; bind a quad store or use build_iterator_on"
  | .mixedVia =>
    "invalid via specification: a path cannot be combined with other via entries"
  | .store cause => cause.message

instance : MonadLift (Except StoreError) (Except PathError) where
  monadLift x := x.mapError .store

namespace Step

def name : Step → String
  | is _ => "is"
  | tag _ => "tag"
  | out _ => "out"
  | into _ => "in"
  | plan _ => "iterator"
  | and _ => "and"
  | or _ => "or"
  | except _ => "except"
  | follow _ => "follow"

end Step

/-- An entry of a predicate list. -/
inductive ViaArg where
  | name (name : String)
  | path (path : Path)

def ViaArg.name? : ViaArg → Option String
  | name n => some n
  | path _ => none

namespace Via

def ofNames : List String → Via
  | [] => any
  | [n] => name n
  | ns => names ns

/-- A single entry stands for itself; several have to be names. -/
def ofArgs : List ViaArg → Except PathError Via
  | [] => .ok any
  | [.name n] => .ok (name n)
  | [.path p] => .ok (path p)
  | args =>
    match args.mapM ViaArg.name? with
    | some ns => .ok (names ns)
    | none => .error .mixedVia

end Via

namespace Path

/-- The template that starts at the named nodes, or at every node if no name is given. -/
def template (names : List String) : Path where
  steps := [.is names]

def bind (p : Path) (store : StoreHandle) : Path :=
  { p with binding := some store }

def push (p : Path) (s : Step) : Path :=
  { p with steps := p.steps ++ [s] }

def isTemplate (p : Path) : Bool :=
  p.binding.isNone

end Path

/-- Induction over paths, steps and predicate lists at once. -/
theorem Path.induction {onPath : Path → Prop} {onStep : Step → Prop} {onVia : Via → Prop}
    (mk : ∀ steps binding, (∀ s ∈ steps, onStep s) → onPath ⟨steps, binding⟩)
    (is : ∀ names, onStep (.is names))
    (tag : ∀ names, onStep (.tag names))
    (out : ∀ via, onVia via → onStep (.out via))
    (into : ∀ via, onVia via → onStep (.into via))
    (plan : ∀ it, onStep (.plan it))
    (and : ∀ p, onPath p → onStep (.and p))
    (or : ∀ p, onPath p → onStep (.or p))
    (except : ∀ p, onPath p → onStep (.except p))
    (follow : ∀ p, onPath p → onStep (.follow p))
    (any : onVia .any)
    (name : ∀ n, onVia (.name n))
    (names : ∀ ns, onVia (.names ns))
    (path : ∀ p, onPath p → onVia (.path p)) :
    (∀ p, onPath p) ∧ (∀ s, onStep s) ∧ ∀ v, onVia v := by
  have nil : ∀ s ∈ ([] : List Step), onStep s := fun _ h => absurd h List.not_mem_nil
  have cons : ∀ s ss, onStep s → (∀ t ∈ ss, onStep t) → ∀ t ∈ s :: ss, onStep t :=
    fun _ _ hs hss t ht => (List.mem_cons.1 ht).elim (fun e => e ▸ hs) (hss t)
  refine ⟨fun p => ?_, fun s => ?_, fun v => ?_⟩
  · exact Path.rec (motive_1 := onPath) (motive_2 := onStep) (motive_3 := onVia)
      (motive_4 := fun ss => ∀ s ∈ ss, onStep s)
      mk is tag out into plan and or except follow any name names path nil cons p
  · exact Step.rec (motive_1 := onPath) (motive_2 := onStep) (motive_3 := onVia)
      (motive_4 := fun ss => ∀ s ∈ ss, onStep s)
      mk is tag out into plan and or except follow any name names path nil cons s
  · exact Via.rec (motive_1 := onPath) (motive_2 := onStep) (motive_3 := onVia)
      (motive_4 := fun ss => ∀ s ∈ ss, onStep s)
      mk is tag out into plan and or except follow any name names path nil cons v

mutual

def Path.beq : Path → Path → Bool
  | ⟨ss, b⟩, ⟨ts, c⟩ => Step.beqAll ss ts && b == c
termination_by structural p => p

def Step.beqAll : List Step → List Step → Bool
  | [], [] => true
  | s :: ss, t :: ts => Step.beq s t && Step.beqAll ss ts
  | _, _ => false
termination_by structural ss => ss

def Step.beq : Step → Step → Bool
  | .is ns, .is ms => ns == ms
  | .tag ns, .tag ms => ns == ms
  | .out v, .out w => Via.beq v w
  | .into v, .into w => Via.beq v w
  | .plan i, .plan j => i == j
  | .and p, .and q => Path.beq p q
  | .or p, .or q => Path.beq p q
  | .except p, .except q => Path.beq p q
  | .follow p, .follow q => Path.beq p q
  | _, _ => false
termination_by structural s => s

def Via.beq : Via → Via → Bool
  | .any, .any => true
  | .name n, .name m => n == m
  | .names ns, .names ms => ns == ms
  | .path p, .path q => Path.beq p q
  | _, _ => false
termination_by structural v => v

end

theorem Step.beqAll_iff {ss ts : List Step} (h : ∀ s ∈ ss, ∀ t, Step.beq s t = true ↔ s = t) :
    Step.beqAll ss ts = true ↔ ss = ts := by
  induction ss generalizing ts with
  | nil => cases ts <;> simp [Step.beqAll]
  | cons s ss ih =>
    cases ts with
    | nil => simp [Step.beqAll]
    | cons t ts =>
      have ht : Step.beqAll ss ts = true ↔ _ := ih fun s' hs' => h s' (List.mem_cons_of_mem _ hs')
      simp [Step.beqAll, ht, h s List.mem_cons_self t]

theorem Path.beq_iff_all : (∀ p q, Path.beq p q = true ↔ p = q) ∧
    (∀ s t, Step.beq s t = true ↔ s = t) ∧ ∀ v w, Via.beq v w = true ↔ v = w := by
  refine Path.induction ?_ ?_ ?_ ?_ ?_ ?_ ?_ ?_ ?_ ?_ ?_ ?_ ?_ ?_
  · intro ss b ih q
    cases q with
    | mk ts c => simp [Path.beq, Step.beqAll_iff ih]
  · intro ns t; cases t <;> simp [Step.beq]
  · intro ns t; cases t <;> simp [Step.beq]
  · intro v ih t; cases t <;> simp [Step.beq, ih]
  · intro v ih t; cases t <;> simp [Step.beq, ih]
  · intro i t; cases t <;> simp [Step.beq]
  · intro p ih t; cases t <;> simp [Step.beq, ih]
  · intro p ih t; cases t <;> simp [Step.beq, ih]
  · intro p ih t; cases t <;> simp [Step.beq, ih]
  · intro p ih t; cases t <;> simp [Step.beq, ih]
  · intro w; cases w <;> simp [Via.beq]
  · intro n w; cases w <;> simp [Via.beq]
  · intro ns w; cases w <;> simp [Via.beq]
  · intro p ih w; cases w <;> simp [Via.beq, ih]

instance : DecidableEq Path := fun p q =>
  decidable_of_iff (Path.beq p q = true) (Path.beq_iff_all.1 p q)

instance : DecidableEq Step := fun s t =>
  decidable_of_iff (Step.beq s t = true) (Path.beq_iff_all.2.1 s t)

instance : DecidableEq Via := fun v w =>
  decidable_of_iff (Via.beq v w = true) (Path.beq_iff_all.2.2 v w)

end Traversal
