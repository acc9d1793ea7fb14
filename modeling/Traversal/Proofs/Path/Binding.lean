import Traversal.Proofs.Path.Lookups
import Traversal.Proofs.Store.Reachable

namespace Traversal

mutual

/-- The path with no store bound, and the same for the paths in it, at any depth. Paths that differ
in their bindings only are equal once they are detached. -/
def Path.detach : Path → Path
  | ⟨steps, _⟩ => ⟨Step.detachAll steps, none⟩
termination_by structural p => p

def Step.detachAll : List Step → List Step
  | [] => []
  | s :: ss => s.detach :: Step.detachAll ss
termination_by structural ss => ss

def Step.detach : Step → Step
  | .is names => .is names
  | .tag names => .tag names
  | .out via => .out via.detach
  | .into via => .into via.detach
  | .plan it => .plan it
  | .and path => .and path.detach
  | .or path => .or path.detach
  | .except path => .except path.detach
  | .follow path => .follow path.detach
termination_by structural s => s

def Via.detach : Via → Via
  | .any => .any
  | .name n => .name n
  | .names ns => .names ns
  | .path path => .path path.detach
termination_by structural v => v

end

theorem Step.detachAll_eq (ss : List Step) : Step.detachAll ss = ss.map Step.detach := by
  induction ss with
  | nil => rfl
  | cons s ss ih => rw [Step.detachAll, ih, List.map_cons]

/-- Reversal passes bindings on and looks at none. -/
theorem detach_reverse : (∀ p : Path, p.reverse.detach = p.detach.reverse) ∧
    (∀ s : Step, s.reversal.detach = s.detach.reversal) ∧ ∀ _ : Via, True := by
  apply Path.induction
  case mk =>
    intro steps binding hs
    change Path.mk (Step.detachAll (Step.reversals steps)) none =
      Path.mk (Step.reversals (Step.detachAll steps)) none
    have swap : steps.map (fun s => s.reversal.detach) = steps.map fun s => s.detach.reversal :=
      List.map_congr_left hs
    simp only [Step.detachAll_eq, Step.reversals_eq, List.map_reverse, List.map_map,
      Function.comp_def, swap]
  case follow => exact fun _ hp => congrArg Step.follow hp
  all_goals
    intros
    trivial

section Compilation

variable (src : Source)

theorem applyAll_detachAll {ss : List Step}
    (h : ∀ s ∈ ss, ∀ it, s.detach.apply src it = s.apply src it) (it : Plan) :
    Step.applyAll src (Step.detachAll ss) it = Step.applyAll src ss it := by
  induction ss generalizing it with
  | nil => rfl
  | cons s ss ih =>
    have rest := ih fun t ht => h t (List.mem_cons_of_mem s ht)
    simp only [Step.detachAll, Step.applyAll, h s List.mem_cons_self, rest]

/-- Wherever a path is compiled inside another, it is compiled on the source at hand. -/
theorem apply_detach : (∀ (p : Path) it, p.detach.apply src it = p.apply src it) ∧
    (∀ (s : Step) it, s.detach.apply src it = s.apply src it) ∧
    ∀ v : Via, v.detach.compile src = v.compile src := by
  apply Path.induction
  case mk => exact fun _ _ hs => applyAll_detachAll src hs
  case follow => exact fun _ hp => hp
  case path => exact fun _ hp => hp src.seed
  all_goals
    intros
    simp [*, Step.detach, Via.detach, Step.apply]

end Compilation

namespace Path

variable {p q : Path} {src src' : Source}

theorem apply_of_detach_eq (same : p.detach = q.detach) (h : src.Agree src' p.lookups)
    (it : Plan) : p.apply src it = q.apply src' it := by
  calc p.apply src it
    _ = p.apply src' it := (Source.Agree.compiles src src').1 p h it
    _ = p.detach.apply src' it := ((apply_detach src').1 p it).symm
    _ = q.detach.apply src' it := by rw [same]
    _ = q.apply src' it := (apply_detach src').1 q it

theorem buildOn_of_detach_eq (same : p.detach = q.detach) (h : src.Agree src' p.lookups) :
    p.buildOn src = q.buildOn src' := by
  rw [buildOn, buildOn, h.seed]
  exact apply_of_detach_eq same h src'.seed

/-- A path compiles by the lookups of the source that it is compiled on, wherever it and the paths
in it are bound: paths that differ in their bindings only compile alike on sources that agree on the
names in them, forwards and backwards. -/
theorem compilation_of_detach_eq (same : p.detach = q.detach) (h : src.Agree src' p.lookups) :
    (∀ it, p.apply src it = q.apply src' it) ∧ p.buildOn src = q.buildOn src' ∧
    (∀ it, p.reverse.apply src it = q.reverse.apply src' it) ∧
    p.reverse.buildOn src = q.reverse.buildOn src' := by
  have back : p.reverse.detach = q.reverse.detach := by
    rw [detach_reverse.1 p, same, detach_reverse.1 q]
  have agree : src.Agree src' p.reverse.lookups := h.mono (lookups_reverse.1 p).subset
  exact ⟨apply_of_detach_eq same h, buildOn_of_detach_eq same h,
    apply_of_detach_eq back agree, buildOn_of_detach_eq back agree⟩

/-- A store of other quads, in which `follows` and `carol` happen to have the same nodes. -/
theorem compilation_of_detach_eq_friends :
    let others := ({} : Store).after [.add ⟨"dave", "follows", "erin", none⟩,
      .add ⟨"carol", "likes", "dave", none⟩]
    let p : Path := ⟨[.out (.path ⟨[.is ["follows"]], some 1⟩), .except ⟨[.is ["carol"]], some 2⟩,
      .follow ⟨[.into .any], none⟩], some 0⟩
    let q : Path := ⟨[.out (.path ⟨[.is ["follows"]], none⟩), .except ⟨[.is ["carol"]], some 0⟩,
      .follow ⟨[.into .any], some 3⟩], none⟩
    (∀ it, p.apply Store.friends.source it = q.apply others.source it) ∧
    p.buildOn Store.friends.source = q.buildOn others.source ∧
    (∀ it, p.reverse.apply Store.friends.source it = q.reverse.apply others.source it) ∧
    p.reverse.buildOn Store.friends.source = q.reverse.buildOn others.source := by
  intro others p q
  have agree : Source.Agree Store.friends.source others.source p.lookups := by
    refine ⟨rfl, rfl, fun n hn => ?_⟩
    have names : n = "follows" ∨ n = "carol" := by
      simpa [p, Path.lookups, Step.lookupsAll, Step.lookups, Via.lookups] using hn
    rcases names with rfl | rfl
    · decide +kernel
    · decide +kernel
  exact compilation_of_detach_eq (p := p) (q := q) rfl agree

end Path

end Traversal
