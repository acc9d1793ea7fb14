import Traversal.Proofs.Plan.Kind

namespace Traversal

mutual

/-- The plans whose answers the steps of the path keep, at any depth. -/
def Path.plans : Path → List Plan
  | ⟨steps, _⟩ => Step.plansAll steps
termination_by structural p => p

def Step.plansAll : List Step → List Plan
  | [] => []
  | s :: ss => s.plans ++ Step.plansAll ss
termination_by structural ss => ss

def Step.plans : Step → List Plan
  | .is _ => []
  | .tag _ => []
  | .out via => via.plans
  | .into via => via.plans
  | .plan it => [it]
  | .and path => path.plans
  | .or path => path.plans
  | .except path => path.plans
  | .follow path => path.plans
termination_by structural s => s

def Via.plans : Via → List Plan
  | .any => []
  | .name _ => []
  | .names _ => []
  | .path path => path.plans
termination_by structural v => v

end

section Compilation

variable {src : Source}

/-- A path whose plans answer nodes leads from a plan that answers nodes to another one. -/
def KeepsKindPath (src : Source) (p : Path) : Prop :=
  (∀ q ∈ p.plans, q.HasKind .nodes) → ∀ it plan, it.HasKind .nodes →
    p.apply src it = .ok plan → plan.HasKind .nodes

def KeepsKindStep (src : Source) (s : Step) : Prop :=
  (∀ q ∈ s.plans, q.HasKind .nodes) → ∀ it plan, it.HasKind .nodes →
    s.apply src it = .ok plan → plan.HasKind .nodes

def KeepsKindVia (src : Source) (v : Via) : Prop :=
  (∀ q ∈ v.plans, q.HasKind .nodes) → ∀ plan, v.compile src = .ok plan → plan.HasKind .nodes

theorem Source.hasKind_restrict (hseed : src.seed.HasKind .nodes) {names : List String}
    {it plan : Plan} (hit : it.HasKind .nodes) (h : src.restrict names it = .ok plan) :
    plan.HasKind .nodes := by
  rcases restrict_cases h with rfl | ⟨nodes, rfl⟩
  · exact .and (.pair hseed hit)
  · exact .and (.pair .fixed hit)

theorem keepsKind_steps {steps : List Step} (binding : Option StoreHandle)
    (hs : ∀ s ∈ steps, KeepsKindStep src s) : KeepsKindPath src ⟨steps, binding⟩ := by
  intro hplans
  replace hplans : ∀ q ∈ Step.plansAll steps, q.HasKind .nodes := hplans
  change ∀ it plan, _ → Step.applyAll src steps it = .ok plan → _
  induction steps with
  | nil =>
    intro it plan hit h
    cases h
    exact hit
  | cons s ss ih =>
    intro it plan hit h
    obtain ⟨next, hnext, h⟩ := bind_eq_ok.1 h
    have here : next.HasKind .nodes := hs s List.mem_cons_self
      (fun q hq => hplans q (List.mem_append_left _ hq)) it next hit hnext
    exact ih (fun t ht => hs t (List.mem_cons_of_mem s ht))
      (fun q hq => hplans q (List.mem_append_right _ hq)) next plan here h

theorem keepsKind (hseed : src.seed.HasKind .nodes) : (∀ p, KeepsKindPath src p) ∧
    (∀ s, KeepsKindStep src s) ∧ ∀ v, KeepsKindVia src v := by
  apply Path.induction
  case mk => exact fun _ binding => keepsKind_steps binding
  case is => exact fun names _ it plan hit h => Source.hasKind_restrict hseed hit h
  case tag =>
    intro names _ it plan hit h
    cases h
    exact hit.withTags _
  case out =>
    intro via hvia hplans it plan hit h
    obtain ⟨predicates, hp, h⟩ := bind_eq_ok.1 h
    cases h
    exact .across (hvia hplans predicates hp) hit
  case into =>
    intro via hvia hplans it plan hit h
    obtain ⟨predicates, hp, h⟩ := bind_eq_ok.1 h
    cases h
    exact .across (hvia hplans predicates hp) hit
  case plan =>
    intro p hplans it plan hit h
    cases h
    exact .and (.pair (hplans p List.mem_cons_self) hit)
  case and =>
    intro p hp hplans it plan hit h
    obtain ⟨sub, hsub, h⟩ := bind_eq_ok.1 h
    cases h
    exact .and (.pair hit (hp hplans src.seed sub hseed hsub))
  case or =>
    intro p hp hplans it plan hit h
    obtain ⟨sub, hsub, h⟩ := bind_eq_ok.1 h
    cases h
    exact .or (.pair hit (hp hplans src.seed sub hseed hsub))
  case except =>
    intro p hp hplans it plan hit h
    obtain ⟨sub, hsub, h⟩ := bind_eq_ok.1 h
    cases h
    exact .and (.pair hit (.not (hp hplans src.seed sub hseed hsub) hseed))
  case follow => exact fun _ hp => hp
  case any => exact fun _ plan h => Source.hasKind_restrict hseed hseed h
  case name => exact fun _ _ plan h => Source.hasKind_restrict hseed hseed h
  case names => exact fun _ _ plan h => Source.hasKind_restrict hseed hseed h
  case path => exact fun p hp hplans plan h => hp hplans src.seed plan hseed h

end Compilation

namespace Store

/-- Compilation keeps to nodes, and whatever keeps to its kind can be evaluated, on the store of
the compilation and on every later state, even if it holds ids that stand for nothing. Plans of
quads answer stored quads only. -/
theorem evaluate_of_hasKind {s : Store} (h : s.Reachable) :
    (∀ (p : Path) (it : Plan), (∀ q ∈ p.plans, q.HasKind .nodes) → it.HasKind .nodes →
      ∃ plan, p.apply s.source it = .ok plan ∧ plan.HasKind .nodes ∧
        ∀ changes, ∃ ids, plan.evaluate (s.after changes).source = .ok ids) ∧
    ∀ (plan : Plan) (k : Kind), plan.HasKind k → ∃ ids, plan.evaluate s.source = .ok ids ∧
      (k = .quads → ∀ id ∈ ids, id.toNat < s.size) := by
  constructor
  · intro p it hplans hit
    obtain ⟨plan, hplan, -⟩ := h.valid.compiles.1 p it
    have kind : plan.HasKind .nodes := (keepsKind .all).1 p hplans it plan hit hplan
    refine ⟨plan, hplan, kind, fun changes => ?_⟩
    exact (h.valid.after changes).1.runs_of_hasKind kind
  · intro plan k hk
    obtain ⟨ids, hids⟩ := h.valid.runs_of_hasKind hk
    refine ⟨ids, hids, ?_⟩
    rintro rfl id hid
    have answer : id ∈ plan.meaning s.source := (plan.sound ids hids id).1 hid
    exact (exists_quad?_iff s id).1 (h.valid.stored_of_hasKind hk id answer)

/-- The path holds a plan over the objects of `alice` and of node 77, which is not there. -/
theorem evaluate_of_hasKind_friends :
    let links : Plan := .linksTo .subject (.fixed (.ofList [0, 77]))
    let p : Path := ⟨[.plan (.hasA .object links), .except ⟨[.out .any], none⟩], none⟩
    (∃ plan, p.apply friends.source .all = .ok plan ∧ plan.HasKind .nodes ∧
      ∀ changes, ∃ ids, plan.evaluate (friends.after changes).source = .ok ids) ∧
    ∃ ids, links.evaluate friends.source = .ok ids ∧ ∀ id ∈ ids, id.toNat < friends.size := by
  intro links p
  obtain ⟨compiles, runs⟩ := evaluate_of_hasKind reachable_friends
  have quads : links.HasKind .quads := .linksTo .fixed
  have nodes : ∀ q ∈ p.plans, q.HasKind .nodes := by
    intro q hq
    obtain rfl : q = .hasA .object links := by
      simpa [p, Path.plans, Step.plansAll, Step.plans, Via.plans] using hq
    exact .hasA quads
  obtain ⟨ids, hids, stored⟩ := runs links .quads quads
  exact ⟨compiles p .all nodes .all, ids, hids, stored rfl⟩

end Store

end Traversal
