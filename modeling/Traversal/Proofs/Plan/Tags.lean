import Traversal.Plan.Evaluate

namespace Traversal.Plan

theorem mem_foldl_insert (names : List String) (tags : TagSet) (t : String) :
    t ∈ names.foldl (fun tags name => tags.insert name) tags ↔ t ∈ tags ∨ t ∈ names := by
  induction names generalizing tags with
  | nil => simp
  | cons n names ih =>
    have here : t ∈ tags.insert n ↔ t ∈ tags ∨ t = n := by
      rw [Std.ExtTreeSet.mem_insert, Std.LawfulEqCmp.compare_eq_iff_eq, or_comm, eq_comm]
    rw [List.foldl_cons, ih, here, List.mem_cons, or_assoc]

/-- Tags on the root add to those that are collected. -/
theorem mem_collectTags_addTags (p : Plan) (names : List String) (t : String) :
    t ∈ (p.addTags names).collectTags ↔ t ∈ p.collectTags ∨ t ∈ names := by
  cases p with
  | all tags => exact mem_foldl_insert names tags t
  | fixed nodes tags => exact mem_foldl_insert names tags t
  | _ =>
    simp only [addTags, withTags, tags, collectTags, Std.ExtTreeSet.mem_union_iff,
      mem_foldl_insert]
    exact or_right_comm

section Untagged

-- The plans that compilation makes have no tags on their roots.
variable (t : String)

@[simp] theorem mem_collectTags_and (subs : List Plan) :
    t ∈ (Plan.and subs).collectTags ↔ ∃ p ∈ subs, t ∈ p.collectTags := by
  simp [collectTags, Std.ExtTreeSet.mem_union_iff, mem_collectTagsOf]

@[simp] theorem mem_collectTags_or (subs : List Plan) :
    t ∈ (Plan.or subs).collectTags ↔ ∃ p ∈ subs, t ∈ p.collectTags := by
  simp [collectTags, Std.ExtTreeSet.mem_union_iff, mem_collectTagsOf]

@[simp] theorem mem_collectTags_not (inner whole : Plan) :
    t ∈ (Plan.not inner whole).collectTags ↔ t ∈ inner.collectTags ∨ t ∈ whole.collectTags := by
  simp [collectTags, Std.ExtTreeSet.mem_union_iff]

@[simp] theorem mem_collectTags_linksTo (role : Role) (sub : Plan) :
    t ∈ (Plan.linksTo role sub).collectTags ↔ t ∈ sub.collectTags := by
  simp [collectTags, Std.ExtTreeSet.mem_union_iff]

@[simp] theorem mem_collectTags_hasA (role : Role) (sub : Plan) :
    t ∈ (Plan.hasA role sub).collectTags ↔ t ∈ sub.collectTags := by
  simp [collectTags, Std.ExtTreeSet.mem_union_iff]

end Untagged

mutual

/-- The plan with no tags, at any depth. -/
def untag : Plan → Plan
  | .all _ => .all
  | .fixed nodes _ => .fixed nodes
  | .and subs _ => .and (untagAll subs)
  | .or subs _ => .or (untagAll subs)
  | .not inner whole _ => .not inner.untag whole.untag
  | .linksTo role sub _ => .linksTo role sub.untag
  | .hasA role sub _ => .hasA role sub.untag
termination_by structural p => p

def untagAll : List Plan → List Plan
  | [] => []
  | p :: ps => p.untag :: untagAll ps
termination_by structural ps => ps

end

@[simp] theorem untag_addTags (p : Plan) (names : List String) :
    (p.addTags names).untag = p.untag := by
  cases p <;> rfl

theorem untagAll_eq (ps : List Plan) : untagAll ps = ps.map untag := by
  induction ps with
  | nil => rfl
  | cons p ps ih => rw [untagAll, ih, List.map_cons]

theorem untag_untag (p : Plan) : p.untag.untag = p.untag := by
  induction p with
  | all tags => rfl
  | fixed nodes tags => rfl
  | and subs tags ih =>
    simp only [untag, untagAll_eq, List.map_map]
    exact congrArg Plan.and (List.map_congr_left ih)
  | or subs tags ih =>
    simp only [untag, untagAll_eq, List.map_map]
    exact congrArg Plan.or (List.map_congr_left ih)
  | not inner whole tags hinner hwhole => simp only [untag, hinner, hwhole]
  | linksTo role sub tags ih => simp only [untag, ih]
  | hasA role sub tags ih => simp only [untag, ih]

theorem collectTagsOf_untagAll {ps : List Plan} (h : ∀ p ∈ ps, p.untag.collectTags = ∅) :
    collectTagsOf (untagAll ps) = ∅ := by
  induction ps with
  | nil => rfl
  | cons p ps ih =>
    have rest := ih fun q hq => h q (List.mem_cons_of_mem p hq)
    rw [untagAll, collectTagsOf, h p List.mem_cons_self, rest]
    rfl

theorem collectTags_untag (p : Plan) : p.untag.collectTags = ∅ := by
  induction p with
  | all tags => rfl
  | fixed nodes tags => rfl
  | and subs tags ih =>
    rw [untag, collectTags, collectTagsOf_untagAll ih]
    rfl
  | or subs tags ih =>
    rw [untag, collectTags, collectTagsOf_untagAll ih]
    rfl
  | not inner whole tags hinner hwhole =>
    rw [untag, collectTags, hinner, hwhole]
    rfl
  | linksTo role sub tags ih =>
    rw [untag, collectTags, ih]
    rfl
  | hasA role sub tags ih =>
    rw [untag, collectTags, ih]
    rfl

section Evaluation

variable (src : Source)

theorem meet_untagAll {ps : List Plan} (h : ∀ p ∈ ps, p.untag.evaluate src = p.evaluate src)
    (acc : IdSet) : meet src acc (untagAll ps) = meet src acc ps := by
  induction ps generalizing acc with
  | nil => rfl
  | cons p ps ih =>
    have rest := ih fun q hq => h q (List.mem_cons_of_mem p hq)
    simp only [untagAll, meet, h p List.mem_cons_self, rest]

theorem join_untagAll {ps : List Plan} (h : ∀ p ∈ ps, p.untag.evaluate src = p.evaluate src) :
    join src (untagAll ps) = join src ps := by
  induction ps with
  | nil => rfl
  | cons p ps ih =>
    have rest := ih fun q hq => h q (List.mem_cons_of_mem p hq)
    simp only [untagAll, join, h p List.mem_cons_self, rest]

/-- Evaluation looks at no tags: it asks the source the same questions, in the same order. -/
theorem evaluate_untag (p : Plan) : p.untag.evaluate src = p.evaluate src := by
  induction p with
  | all tags => rfl
  | fixed nodes tags => rfl
  | and subs tags ih =>
    cases subs with
    | nil => rfl
    | cons p ps =>
      have rest := meet_untagAll src fun q hq => ih q (List.mem_cons_of_mem p hq)
      simp only [untag, untagAll, evaluate, ih p List.mem_cons_self, rest]
  | or subs tags ih => exact join_untagAll src ih
  | not inner whole tags hinner hwhole => simp only [untag, evaluate, hinner, hwhole]
  | linksTo role sub tags ih => simp only [untag, evaluate, ih]
  | hasA role sub tags ih => simp only [untag, evaluate, ih]

end Evaluation

end Traversal.Plan
