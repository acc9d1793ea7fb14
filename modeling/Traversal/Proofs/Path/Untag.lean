import Traversal.Proofs.Path.Inline
import Traversal.Proofs.Plan.Tags

namespace Traversal

mutual

/-- The path without the steps that attach tags, and with no tags on the plans whose answers it
keeps, at any depth. -/
def Path.untag : Path → Path
  | ⟨steps, binding⟩ => ⟨Step.untagAll steps, binding⟩
termination_by structural p => p

def Step.untagAll : List Step → List Step
  | [] => []
  | s :: ss => s.untag ++ Step.untagAll ss
termination_by structural ss => ss

/-- What is left of a step: nothing of one that attaches tags, and otherwise one step. -/
def Step.untag : Step → List Step
  | .is names => [.is names]
  | .tag _ => []
  | .out via => [.out via.untag]
  | .into via => [.into via.untag]
  | .plan it => [.plan it.untag]
  | .and path => [.and path.untag]
  | .or path => [.or path.untag]
  | .except path => [.except path.untag]
  | .follow path => [.follow path.untag]
termination_by structural s => s

def Via.untag : Via → Via
  | .any => .any
  | .name n => .name n
  | .names ns => .names ns
  | .path path => .path path.untag
termination_by structural v => v

end

/-- Whether the step brings no tags of its own. -/
def Step.isUntagged : Step → Bool
  | .tag _ => false
  | .plan it => it.collectTags.isEmpty
  | _ => true

theorem Step.untagAll_eq (ss : List Step) : Step.untagAll ss = ss.flatMap Step.untag := by
  induction ss with
  | nil => rfl
  | cons s ss ih => rw [Step.untagAll, ih, List.flatMap_cons]

theorem every_untag : (∀ p : Path, p.untag.every Step.isUntagged = true) ∧
    (∀ s : Step, Step.everyAll Step.isUntagged s.untag = true) ∧
    ∀ v : Via, v.untag.every Step.isUntagged = true := by
  apply Path.induction
  case mk =>
    intro steps _ hs
    change Step.everyAll Step.isUntagged (Step.untagAll steps) = true
    rw [Step.untagAll_eq]
    exact Step.everyAll_flatMap hs
  case plan =>
    intro it
    have none : it.untag.collectTags.isEmpty = true := by
      rw [Plan.collectTags_untag]
      rfl
    simp [Step.untag, Step.everyAll_singleton, Step.every, Step.isUntagged, none]
  all_goals
    intros
    simp [*, Step.untag, Via.untag, Step.everyAll_singleton, Step.everyAll, Step.every, Via.every,
      Step.isUntagged]

/-- The runs fail alike, or their plans differ in their tags only. -/
def EqUpToTags (run run' : Except PathError Plan) : Prop :=
  run.map Plan.untag = run'.map Plan.untag

namespace EqUpToTags

variable {run run' : Except PathError Plan}

theorem ok {a b : Plan} (h : a.untag = b.untag) : EqUpToTags (.ok a) (.ok b) :=
  congrArg Except.ok h

theorem cases (h : EqUpToTags run run') : (∃ e, run = .error e ∧ run' = .error e) ∨
    ∃ a b, run = .ok a ∧ run' = .ok b ∧ a.untag = b.untag := by
  unfold EqUpToTags at h
  cases run with
  | error e =>
    cases run' with
    | error e' =>
      cases h
      exact .inl ⟨e, rfl, rfl⟩
    | ok b => cases h
  | ok a =>
    cases run' with
    | error e' => cases h
    | ok b => exact .inr ⟨a, b, rfl, rfl, Except.ok.inj h⟩

theorem bind (h : EqUpToTags run run') {next next' : Plan → Except PathError Plan}
    (k : ∀ a b, a.untag = b.untag → EqUpToTags (next a) (next' b)) :
    EqUpToTags (run >>= next) (run' >>= next') := by
  rcases h.cases with ⟨e, rfl, rfl⟩ | ⟨a, b, rfl, rfl, same⟩
  · rfl
  · exact k a b same

/-- A step that builds a plan around the one that it is given needs no more than this. -/
theorem map (h : EqUpToTags run run') {make make' : Plan → Plan}
    (k : ∀ a b, a.untag = b.untag → (make a).untag = (make' b).untag) :
    EqUpToTags (run >>= fun p => .ok (make p)) (run' >>= fun p => .ok (make' p)) :=
  h.bind fun a b same => .ok (k a b same)

end EqUpToTags

section Compilation

variable (src : Source)

/-- From plans that differ in their tags only, a path and what is left of it without tags compile
to such plans. -/
def UntagsPath (p : Path) : Prop :=
  ∀ it it', it.untag = it'.untag → EqUpToTags (p.apply src it) (p.untag.apply src it')

def UntagsStep (s : Step) : Prop :=
  ∀ it it', it.untag = it'.untag →
    EqUpToTags (s.apply src it) (Step.applyAll src s.untag it')

def UntagsVia (v : Via) : Prop :=
  EqUpToTags (v.compile src) (v.untag.compile src)

theorem untags_steps {steps : List Step} (binding : Option StoreHandle)
    (hs : ∀ s ∈ steps, UntagsStep src s) : UntagsPath src ⟨steps, binding⟩ := by
  intro it it' same
  change EqUpToTags (Step.applyAll src steps it) (Step.applyAll src (Step.untagAll steps) it')
  induction steps generalizing it it' with
  | nil => exact .ok same
  | cons s ss ih =>
    rw [Step.untagAll, Step.applyAll_append]
    exact (hs s List.mem_cons_self it it' same).bind
      (ih fun t ht => hs t (List.mem_cons_of_mem s ht))

theorem UntagsStep.of_kept {s t : Step} (kept : s.untag = [t])
    (h : ∀ it it', it.untag = it'.untag → EqUpToTags (s.apply src it) (t.apply src it')) :
    UntagsStep src s := by
  intro it it' same
  rw [kept, Step.applyAll_singleton]
  exact h it it' same

theorem Source.untags_restrict (names : List String) {it it' : Plan} (same : it.untag = it'.untag) :
    EqUpToTags (src.restrict names it) (src.restrict names it') := by
  unfold restrict
  cases src.named names with
  | error e => rfl
  | ok sub => exact .ok (by simp only [Plan.untag, Plan.untagAll, same])

theorem EqUpToTags.across {run run' : Except PathError Plan} (h : EqUpToTags run run')
    (near far : Role) {it it' : Plan} (same : it.untag = it'.untag) :
    EqUpToTags (run >>= fun predicates => .ok (.across near far predicates it))
      (run' >>= fun predicates => .ok (.across near far predicates it')) := by
  refine h.map fun a b hp => ?_
  simp only [Plan.across, Plan.untag, Plan.untagAll, hp, same]

/-- A step that attaches tags changes the root that it finds, so the induction follows both runs
from plans that are not equal. The paths that steps hold start from the same plan in both. -/
theorem untags : (∀ p, UntagsPath src p) ∧ (∀ s, UntagsStep src s) ∧ ∀ v, UntagsVia src v := by
  apply Path.induction
  case mk => exact fun _ binding => untags_steps src binding
  case tag => exact fun names it _ same => .ok ((Plan.untag_addTags it names).trans same)
  case is => exact fun names => .of_kept src rfl fun _ _ => src.untags_restrict names
  case out => exact fun _ hvia => .of_kept src rfl fun _ _ => hvia.across .subject .object
  case into => exact fun _ hvia => .of_kept src rfl fun _ _ => hvia.across .object .subject
  case plan =>
    intro p
    refine .of_kept src rfl fun it it' same => .ok ?_
    simp only [Plan.untag, Plan.untagAll, Plan.untag_untag, same]
  case and =>
    intro p hp
    refine .of_kept src rfl fun it it' same => (hp src.seed src.seed rfl).map fun a b sub => ?_
    simp only [Plan.untag, Plan.untagAll, same, sub]
  case or =>
    intro p hp
    refine .of_kept src rfl fun it it' same => (hp src.seed src.seed rfl).map fun a b sub => ?_
    simp only [Plan.untag, Plan.untagAll, same, sub]
  case except =>
    intro p hp
    refine .of_kept src rfl fun it it' same => (hp src.seed src.seed rfl).map fun a b sub => ?_
    simp only [Plan.untag, Plan.untagAll, same, sub]
  case follow => exact fun _ hp => .of_kept src rfl hp
  case any => rfl
  case name => exact fun _ => rfl
  case names => exact fun _ => rfl
  case path => exact fun _ hp => hp src.seed src.seed rfl

end Compilation

/-- Tags change no answer. Without its tags a path fails to compile where it fails with them, and in
the same way, and otherwise the two plans answer the same, or fail alike, on every source. -/
theorem Path.apply_untag (p : Path) : p.untag.every Step.isUntagged = true ∧
    ∀ (src : Source) (it : Plan),
      (∃ e, p.apply src it = .error e ∧ p.untag.apply src it = .error e) ∨
      ∃ plan bare, p.apply src it = .ok plan ∧ p.untag.apply src it = .ok bare ∧
        ∀ other : Source, plan.evaluate other = bare.evaluate other := by
  refine ⟨every_untag.1 p, fun src it => ?_⟩
  rcases ((untags src).1 p it it rfl).cases with failed | ⟨plan, bare, hplan, hbare, same⟩
  · exact .inl failed
  · refine .inr ⟨plan, bare, hplan, hbare, fun other => ?_⟩
    calc plan.evaluate other
      _ = plan.untag.evaluate other := (plan.evaluate_untag other).symm
      _ = bare.untag.evaluate other := by rw [same]
      _ = bare.evaluate other := bare.evaluate_untag other

example : (⟨[.tag ["t"], .out (.path ⟨[.is ["p"], .tag ["u"]], none⟩),
      .follow ⟨[.plan (.all (.ofList ["v"]))], none⟩], none⟩ : Path).untag =
    ⟨[.out (.path ⟨[.is ["p"]], none⟩), .follow ⟨[.plan .all], none⟩], none⟩ := rfl

end Traversal
