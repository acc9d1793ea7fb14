import Traversal.Proofs.Path.Compile
import Traversal.Proofs.Path.Failure
import Traversal.Proofs.Plan.Tags

namespace Traversal

mutual

/-- Every tag that the steps of the path attach or that stands on a plan whose answers they keep, at
any depth. -/
def Path.tags : Path → TagSet
  | ⟨steps, _⟩ => Step.tagsAll steps
termination_by structural p => p

def Step.tagsAll : List Step → TagSet
  | [] => ∅
  | s :: ss => s.tags ∪ Step.tagsAll ss
termination_by structural ss => ss

def Step.tags : Step → TagSet
  | .is _ => ∅
  | .tag names => .ofList names
  | .out via => via.tags
  | .into via => via.tags
  | .plan it => it.collectTags
  | .and path => path.tags
  | .or path => path.tags
  | .except path => path.tags
  | .follow path => path.tags
termination_by structural s => s

def Via.tags : Via → TagSet
  | .any => ∅
  | .name _ => ∅
  | .names _ => ∅
  | .path path => path.tags
termination_by structural v => v

end

theorem Step.mem_tagsAll {ss : List Step} {t : String} :
    t ∈ Step.tagsAll ss ↔ ∃ s ∈ ss, t ∈ s.tags := by
  induction ss with
  | nil => simp [Step.tagsAll]
  | cons s ss ih => simp [Step.tagsAll, Std.ExtTreeSet.mem_union_iff, ih]

/-- A path walked backwards brings the same tags. -/
theorem tags_reverse : (∀ p : Path, p.reverse.tags = p.tags) ∧
    (∀ s : Step, s.reversal.tags = s.tags) ∧ ∀ _ : Via, True := by
  apply Path.induction
  case mk =>
    intro steps _ hs
    apply Std.ExtTreeSet.ext_mem
    intro t
    change t ∈ Step.tagsAll (Step.reversals steps) ↔ t ∈ Step.tagsAll steps
    simp only [Step.mem_tagsAll, Step.reversals_eq, List.mem_reverse, List.mem_map,
      exists_exists_and_eq_and]
    exact exists_congr fun s => and_congr_right fun mem => by rw [hs s mem]
  case follow => exact fun _ hp => hp
  all_goals
    intros
    trivial

section Compilation

variable {src : Source}

theorem Plan.mem_collectTags_across (near far : Role) (predicates it : Plan) (t : String) :
    t ∈ (across near far predicates it).collectTags ↔
      t ∈ it.collectTags ∨ t ∈ predicates.collectTags := by
  simp [across, or_comm]

/-- The plan of a path holds the tags of the plan that it starts from and those of the path. -/
def GathersPath (src : Source) (p : Path) : Prop :=
  ∀ it plan, p.apply src it = .ok plan →
    ∀ t, t ∈ plan.collectTags ↔ t ∈ it.collectTags ∨ t ∈ p.tags

def GathersStep (src : Source) (s : Step) : Prop :=
  ∀ it plan, s.apply src it = .ok plan →
    ∀ t, t ∈ plan.collectTags ↔ t ∈ it.collectTags ∨ t ∈ s.tags

def GathersVia (src : Source) (v : Via) : Prop :=
  ∀ plan, v.compile src = .ok plan → ∀ t, t ∈ plan.collectTags ↔ t ∈ v.tags

theorem gathers_steps {steps : List Step} (binding : Option StoreHandle)
    (hs : ∀ s ∈ steps, GathersStep src s) : GathersPath src ⟨steps, binding⟩ := by
  intro it plan h t
  replace h : Step.applyAll src steps it = .ok plan := h
  change _ ↔ _ ∨ t ∈ Step.tagsAll steps
  induction steps generalizing it with
  | nil =>
    cases h
    simp [Step.tagsAll]
  | cons s ss ih =>
    obtain ⟨next, hnext, h⟩ := bind_eq_ok.1 h
    have first := hs s List.mem_cons_self it next hnext t
    have rest := ih (fun u hu => hs u (List.mem_cons_of_mem s hu)) next h
    rw [rest, first, Step.tagsAll, Std.ExtTreeSet.mem_union_iff, or_assoc]

theorem Source.mem_collectTags_restrict (hseed : src.seed.collectTags = ∅) {names : List String}
    {it plan : Plan} (h : src.restrict names it = .ok plan) (t : String) :
    t ∈ plan.collectTags ↔ t ∈ it.collectTags := by
  rcases restrict_cases h with rfl | ⟨nodes, rfl⟩
  · simp [hseed]
  · have listed : (Plan.fixed nodes).collectTags = ∅ := rfl
    simp [listed]

/-- A path inside a path starts from a plan without tags. -/
theorem GathersPath.fromSeed {p : Path} (hp : GathersPath src p) (hseed : src.seed.collectTags = ∅)
    {sub : Plan} (h : p.apply src src.seed = .ok sub) (t : String) :
    t ∈ sub.collectTags ↔ t ∈ p.tags := by
  rw [hp src.seed sub h, hseed]
  simp

/-- Crossing an edge keeps the tags of the plan and adds those of the predicates. -/
theorem GathersVia.across {via : Via} (hvia : GathersVia src via) (near far : Role) {it plan : Plan}
    (h : (via.compile src >>= fun predicates => .ok (.across near far predicates it)) = .ok plan)
    (t : String) : t ∈ plan.collectTags ↔ t ∈ it.collectTags ∨ t ∈ via.tags := by
  obtain ⟨predicates, hp, h⟩ := bind_eq_ok.1 h
  cases h
  rw [Plan.mem_collectTags_across, hvia predicates hp]

theorem gathers (hseed : src.seed.collectTags = ∅) : (∀ p, GathersPath src p) ∧
    (∀ s, GathersStep src s) ∧ ∀ v, GathersVia src v := by
  have noTags (t : String) : t ∈ (∅ : TagSet) ↔ False := by simp
  have fromSeed {names : List String} {plan : Plan} (h : src.restrict names src.seed = .ok plan)
      (t : String) : t ∈ plan.collectTags ↔ t ∈ (∅ : TagSet) := by
    rw [Source.mem_collectTags_restrict hseed h, hseed]
  apply Path.induction
  case mk => exact fun _ binding => gathers_steps binding
  case is =>
    intro names it plan h t
    rw [Source.mem_collectTags_restrict hseed h, Step.tags, noTags, or_false]
  case tag =>
    intro names it plan h t
    cases h
    rw [Plan.mem_collectTags_addTags]
    simp [Step.tags]
  case out => exact fun _ hvia _ _ => hvia.across .subject .object
  case into => exact fun _ hvia _ _ => hvia.across .object .subject
  case plan =>
    intro p it plan h t
    cases h
    simp [Step.tags, or_comm]
  case and =>
    intro p hp it plan h t
    obtain ⟨sub, hsub, h⟩ := bind_eq_ok.1 h
    cases h
    simp [hp.fromSeed hseed hsub, Step.tags]
  case or =>
    intro p hp it plan h t
    obtain ⟨sub, hsub, h⟩ := bind_eq_ok.1 h
    cases h
    simp [hp.fromSeed hseed hsub, Step.tags]
  case except =>
    intro p hp it plan h t
    obtain ⟨sub, hsub, h⟩ := bind_eq_ok.1 h
    cases h
    simp [hp.fromSeed hseed hsub, hseed, Step.tags]
  case follow => exact fun _ hp => hp
  case any => exact fun _ => fromSeed
  case name => exact fun _ _ => fromSeed
  case names => exact fun _ _ => fromSeed
  case path => exact fun _ hp plan h => hp.fromSeed hseed h

end Compilation

/-- No tag is lost and none is made up. If every node is sought without tags, the plan of a path
holds the tags of the plan that it starts from and those of the path, wherever they stand, and so
does the plan of the path walked backwards. -/
theorem Path.collectTags_apply {src : Source} (hseed : src.seed.collectTags = ∅) {p : Path}
    {it plan : Plan} (h : p.apply src it = .ok plan) :
    plan.collectTags = it.collectTags ∪ p.tags ∧
    ∃ back, p.reverse.apply src it = .ok back ∧ back.collectTags = plan.collectTags := by
  have all {q : Path} {made : Plan} (hq : q.apply src it = .ok made) :
      made.collectTags = it.collectTags ∪ q.tags := by
    apply Std.ExtTreeSet.ext_mem
    intro t
    rw [(gathers hseed).1 q it made hq, Std.ExtTreeSet.mem_union_iff]
  obtain ⟨back, hback⟩ := (exists_apply_reverse src p it).2 ⟨plan, h⟩
  refine ⟨all h, back, hback, ?_⟩
  rw [all hback, tags_reverse.1 p, all h]

/-- Tags on the start, in a predicate list, on a plan that is kept, and in a path that is dropped. -/
theorem Path.collectTags_apply_friends :
    let p : Path := ⟨[.tag ["first"], .out (.path ⟨[.is ["follows"], .tag ["edge"]], none⟩),
      .except ⟨[.plan (.hasA .object (.linksTo .subject (.all (.ofList ["any"]))))], none⟩], none⟩
    let it : Plan := .fixed (.ofList [0, 77]) (.ofList ["start"])
    ∃ plan, p.apply Store.friends.source it = .ok plan ∧
      plan.collectTags = it.collectTags ∪ p.tags ∧
      (∃ back, p.reverse.apply Store.friends.source it = .ok back ∧
        back.collectTags = plan.collectTags) ∧
      plan.collectTags.toList = ["any", "edge", "first", "start"] := by
  intro p it
  obtain ⟨plan, hplan, -⟩ := Store.reachable_friends.valid.compiles.1 p it
  have noTags : Store.friends.source.seed.collectTags = ∅ := rfl
  obtain ⟨tags, back⟩ := collectTags_apply noTags hplan
  refine ⟨plan, hplan, tags, back, ?_⟩
  rw [tags]
  decide +kernel

end Traversal
