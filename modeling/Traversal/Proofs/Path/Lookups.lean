import Traversal.Path.Compile
import Traversal.Path.Reverse

namespace Traversal

mutual

/-- The names that the path looks up, from left to right and as often as they stand in it. -/
def Path.lookups : Path → List String
  | ⟨steps, _⟩ => Step.lookupsAll steps
termination_by structural p => p

def Step.lookupsAll : List Step → List String
  | [] => []
  | s :: ss => s.lookups ++ Step.lookupsAll ss
termination_by structural ss => ss

def Step.lookups : Step → List String
  | .is names => names
  | .tag _ => []
  | .out via => via.lookups
  | .into via => via.lookups
  | .plan _ => []
  | .and path => path.lookups
  | .or path => path.lookups
  | .except path => path.lookups
  | .follow path => path.lookups
termination_by structural s => s

def Via.lookups : Via → List String
  | .any => []
  | .name n => [n]
  | .names ns => ns
  | .path path => path.lookups
termination_by structural v => v

end

theorem Step.lookupsAll_append (ss ts : List Step) :
    Step.lookupsAll (ss ++ ts) = Step.lookupsAll ss ++ Step.lookupsAll ts := by
  induction ss with
  | nil => rfl
  | cons s ss ih => simp [Step.lookupsAll, ih]

theorem lookupsAll_reversals {ss : List Step}
    (h : ∀ s ∈ ss, s.reversal.lookups.Perm s.lookups) :
    (Step.lookupsAll (Step.reversals ss)).Perm (Step.lookupsAll ss) := by
  induction ss with
  | nil => exact .nil
  | cons s ss ih =>
    have rest := ih fun t ht => h t (List.mem_cons_of_mem s ht)
    have last : Step.lookupsAll [s.reversal] = s.reversal.lookups := List.append_nil _
    rw [Step.reversals, Step.lookupsAll_append, last, Step.lookupsAll]
    exact (rest.append (h s List.mem_cons_self)).trans List.perm_append_comm

/-- A path walked backwards looks up the same names, if in another order. -/
theorem lookups_reverse : (∀ p : Path, p.reverse.lookups.Perm p.lookups) ∧
    (∀ s : Step, s.reversal.lookups.Perm s.lookups) ∧ ∀ _ : Via, True := by
  apply Path.induction
  case mk => exact fun _ _ hs => lookupsAll_reversals hs
  case follow => exact fun _ hp => hp
  all_goals
    intros
    trivial

namespace Source

/-- The sources start from the same plan and the same list, and know the same nodes, or fail in the
same way, for the given names. -/
structure Agree (src src' : Source) (names : List String) : Prop where
  seed : src.seed = src'.seed
  nodeList : src.nodeList = src'.nodeList
  valueOf : ∀ n ∈ names, src.valueOf n = src'.valueOf n

namespace Agree

variable {src src' : Source} {names ms ns : List String}

theorem mono (h : Agree src src' ns) (hs : ms ⊆ ns) : Agree src src' ms where
  seed := h.seed
  nodeList := h.nodeList
  valueOf n hn := h.valueOf n (hs hn)

theorem addNamed (h : Agree src src' names) (nodes : NodeList) :
    src.addNamed nodes names = src'.addNamed nodes names := by
  induction names generalizing nodes with
  | nil => rfl
  | cons n ns ih =>
    have rest := ih (h.mono (List.subset_cons_self n ns))
    have head : src.valueOf n = src'.valueOf n := h.valueOf n List.mem_cons_self
    simp only [Source.addNamed, head, rest]

theorem restrict (h : Agree src src' names) (it : Plan) :
    src.restrict names it = src'.restrict names it := by
  have named : src.named names = src'.named names := by
    rw [Source.named, Source.named, h.seed, h.nodeList, h.addNamed]
  rw [Source.restrict, Source.restrict, named]

theorem restrict_seed (h : Agree src src' names) :
    src.restrict names src.seed = src'.restrict names src'.seed := by
  rw [h.seed]
  exact h.restrict src'.seed

section Compilation

/-- On sources that agree on its lookups a path compiles to the same plan, or fails alike. -/
def CompilesPath (src src' : Source) (p : Path) : Prop :=
  Agree src src' p.lookups → ∀ it, p.apply src it = p.apply src' it

def CompilesStep (src src' : Source) (s : Step) : Prop :=
  Agree src src' s.lookups → ∀ it, s.apply src it = s.apply src' it

def CompilesVia (src src' : Source) (v : Via) : Prop :=
  Agree src src' v.lookups → v.compile src = v.compile src'

theorem compiles_steps {steps : List Step} (binding : Option StoreHandle)
    (hs : ∀ s ∈ steps, CompilesStep src src' s) : CompilesPath src src' ⟨steps, binding⟩ := by
  intro h
  replace h : Agree src src' (Step.lookupsAll steps) := h
  change ∀ it, Step.applyAll src steps it = Step.applyAll src' steps it
  induction steps with
  | nil => exact fun _ => rfl
  | cons s ss ih =>
    intro it
    have here : Agree src src' s.lookups := h.mono (List.subset_append_left _ _)
    have later : Agree src src' (Step.lookupsAll ss) := h.mono (List.subset_append_right _ _)
    have rest := ih (fun t ht => hs t (List.mem_cons_of_mem s ht)) later
    have first := hs s List.mem_cons_self here it
    simp only [Step.applyAll, first, rest]

/-- A path inside a path is compiled from the plan that both sources start from. -/
theorem CompilesPath.fromSeed {p : Path} (hp : CompilesPath src src' p)
    (h : Agree src src' p.lookups) : p.apply src src.seed = p.apply src' src'.seed := by
  rw [h.seed]
  exact hp h src'.seed

theorem compiles (src src' : Source) : (∀ p, CompilesPath src src' p) ∧
    (∀ s, CompilesStep src src' s) ∧ ∀ v, CompilesVia src src' v := by
  apply Path.induction
  case mk => exact fun _ binding => compiles_steps binding
  case is => exact fun _ h => h.restrict
  case tag => exact fun _ _ _ => rfl
  case out =>
    intro via hvia h it
    simp only [Step.apply, hvia h]
  case into =>
    intro via hvia h it
    simp only [Step.apply, hvia h]
  case plan => exact fun _ _ _ => rfl
  case and =>
    intro p hp h it
    simp only [Step.apply, hp.fromSeed h]
  case or =>
    intro p hp h it
    simp only [Step.apply, hp.fromSeed h]
  case except =>
    intro p hp h it
    have sub := hp.fromSeed h
    rw [h.seed] at sub
    simp only [Step.apply, sub, h.seed]
  case follow => exact fun _ hp => hp
  case any => exact fun h => h.restrict_seed
  case name => exact fun _ h => h.restrict_seed
  case names => exact fun _ h => h.restrict_seed
  case path => exact fun _ hp => hp.fromSeed

end Compilation

end Agree

end Source

end Traversal
