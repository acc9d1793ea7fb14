import Traversal.Path.Basic
import Traversal.Source

namespace Traversal

namespace Source

/-- Adds the nodes of the names; names that are not known add nothing. -/
def addNamed (src : Source) : NodeList → List String → Except StoreError NodeList
  | nodes, [] => .ok nodes
  | nodes, name :: names => do
    match ← src.valueOf name with
    | some id => src.addNamed (nodes.add id) names
    | none => src.addNamed nodes names

/-- The plan of the named nodes, or of every node if no name is given. -/
def named (src : Source) (names : List String) : Except StoreError Plan :=
  if names.isEmpty then .ok src.seed
  else do
    let nodes ← src.addNamed src.nodeList names
    return .fixed nodes

/-- Keeps the named nodes of `it`. -/
def restrict (src : Source) (names : List String) (it : Plan) : Except PathError Plan := do
  let sub ← src.named names
  return .and [sub, it]

theorem exists_named_of_restrict {src : Source} {names : List String} {it plan : Plan}
    (h : src.restrict names it = .ok plan) :
    ∃ sub, src.named names = .ok sub ∧ plan = .and [sub, it] := by
  cases hsub : src.named names with
  | error e =>
    rw [restrict, hsub] at h
    cases h
  | ok sub =>
    rw [restrict, hsub] at h
    cases h
    exact ⟨sub, rfl, rfl⟩

/-- A restriction meets every node, or a list of nodes, with `it`. -/
theorem restrict_cases {src : Source} {names : List String} {it plan : Plan}
    (h : src.restrict names it = .ok plan) :
    plan = .and [src.seed, it] ∨ ∃ nodes, plan = .and [.fixed nodes, it] := by
  obtain ⟨sub, hsub, rfl⟩ := exists_named_of_restrict h
  unfold named at hsub
  split at hsub
  · cases hsub
    exact .inl rfl
  · cases hn : src.addNamed src.nodeList names with
    | error e =>
      rw [hn] at hsub
      cases hsub
    | ok nodes =>
      rw [hn] at hsub
      cases hsub
      exact .inr ⟨nodes, rfl⟩

end Source

namespace Plan

/-- The far ends of the edges whose predicate is one of `predicates` and whose near end is one of
`it`. -/
def across (near far : Role) (predicates it : Plan) : Plan :=
  .hasA far (.and [.linksTo .predicate predicates, .linksTo near it])

end Plan

mutual

/-- Refines `it` by the steps of the path, from first to last. Paths inside the path are compiled
on the same source, whatever store they are bound to. -/
def Path.apply (src : Source) : Path → Plan → Except PathError Plan
  | ⟨steps, _⟩, it => Step.applyAll src steps it
termination_by structural p => p

def Step.applyAll (src : Source) : List Step → Plan → Except PathError Plan
  | [], it => .ok it
  | s :: ss, it => do
    let next ← s.apply src it
    Step.applyAll src ss next
termination_by structural ss => ss

def Step.apply (src : Source) : Step → Plan → Except PathError Plan
  | .is names, it => src.restrict names it
  | .tag names, it => .ok (it.addTags names)
  | .out via, it => do
    let predicates ← via.compile src
    return .across .subject .object predicates it
  | .into via, it => do
    let predicates ← via.compile src
    return .across .object .subject predicates it
  | .plan p, it => .ok (.and [p, it])
  | .and path, it => do
    let sub ← path.apply src src.seed
    return .and [it, sub]
  | .or path, it => do
    let sub ← path.apply src src.seed
    return .or [it, sub]
  | .except path, it => do
    let sub ← path.apply src src.seed
    return .and [it, .not sub src.seed]
  | .follow path, it => path.apply src it
termination_by structural s => s

/-- The plan of the predicates. -/
def Via.compile (src : Source) : Via → Except PathError Plan
  | .any => src.restrict [] src.seed
  | .name n => src.restrict [n] src.seed
  | .names ns => src.restrict ns src.seed
  | .path path => path.apply src src.seed
termination_by structural v => v

end

namespace Path

/-- The plan of the path on `src`, starting from every node. -/
def buildOn (src : Source) (p : Path) : Except PathError Plan :=
  p.apply src src.seed

/-- The plan of the path on the store that it is bound to. -/
def build (sources : StoreHandle → Source) (p : Path) : Except PathError Plan :=
  match p.binding with
  | some store => p.buildOn (sources store)
  | none => .error .unbound

end Path

theorem Step.applyAll_append (src : Source) (ss ts : List Step) (it : Plan) :
    Step.applyAll src (ss ++ ts) it = (do
      let mid ← Step.applyAll src ss it
      Step.applyAll src ts mid) := by
  induction ss generalizing it with
  | nil => rfl
  | cons s ss ih =>
    simp only [List.cons_append, Step.applyAll]
    cases s.apply src it with
    | error e => rfl
    | ok next => exact ih next

end Traversal
