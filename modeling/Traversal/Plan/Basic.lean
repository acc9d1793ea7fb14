import Traversal.NodeList
import Traversal.Quad.Basic

namespace Traversal

/-- The tags on one node of a plan, listed in the order of their code points. -/
abbrev TagSet := Std.ExtTreeSet String

/-- A tree of set operations over a quad store, with result tags on every node of the tree.
`linksTo` answers quad ids; `all`, `fixed` and `hasA` answer node ids. -/
inductive Plan where
  /-- Every node of the store. -/
  | all (tags : TagSet := ∅)
  | fixed (nodes : NodeList) (tags : TagSet := ∅)
  /-- The common answers of the operands; without operands there are none. -/
  | and (subs : List Plan) (tags : TagSet := ∅)
  | or (subs : List Plan) (tags : TagSet := ∅)
  /-- The answers of `whole` that are not answers of `inner`. -/
  | not (inner whole : Plan) (tags : TagSet := ∅)
  /-- The quads with an answer of `sub` in the given role. -/
  | linksTo (role : Role) (sub : Plan) (tags : TagSet := ∅)
  /-- The nodes in the given role of the quads that `sub` answers. -/
  | hasA (role : Role) (sub : Plan) (tags : TagSet := ∅)

namespace Plan

@[induction_eliminator]
theorem induction {motive : Plan → Prop}
    (all : ∀ tags, motive (.all tags))
    (fixed : ∀ nodes tags, motive (.fixed nodes tags))
    (and : ∀ subs tags, (∀ p ∈ subs, motive p) → motive (.and subs tags))
    (or : ∀ subs tags, (∀ p ∈ subs, motive p) → motive (.or subs tags))
    (not : ∀ inner whole tags, motive inner → motive whole → motive (.not inner whole tags))
    (linksTo : ∀ role sub tags, motive sub → motive (.linksTo role sub tags))
    (hasA : ∀ role sub tags, motive sub → motive (.hasA role sub tags))
    (p : Plan) : motive p :=
  Plan.rec (motive_1 := motive) (motive_2 := fun ps => ∀ p ∈ ps, motive p)
    all fixed (fun subs tags h => and subs tags h) (fun subs tags h => or subs tags h)
    not linksTo hasA
    (fun _ h => absurd h List.not_mem_nil)
    (fun _ _ hp hps q hq => (List.mem_cons.1 hq).elim (fun e => e ▸ hp) (hps q))
    p

/-- The tags on the root. -/
def tags : Plan → TagSet
  | .all tags | .fixed _ tags | .and _ tags | .or _ tags | .not _ _ tags | .linksTo _ _ tags
  | .hasA _ _ tags => tags

def withTags (tags : TagSet) : Plan → Plan
  | .all _ => .all tags
  | .fixed nodes _ => .fixed nodes tags
  | .and subs _ => .and subs tags
  | .or subs _ => .or subs tags
  | .not inner whole _ => .not inner whole tags
  | .linksTo role sub _ => .linksTo role sub tags
  | .hasA role sub _ => .hasA role sub tags

/-- Adds tags to the root. -/
def addTags (p : Plan) (names : List String) : Plan :=
  p.withTags (names.foldl (fun tags name => tags.insert name) p.tags)

@[simp] theorem tags_withTags (p : Plan) (tags : TagSet) : (p.withTags tags).tags = tags := by
  cases p <;> rfl

@[simp] theorem withTags_tags (p : Plan) : p.withTags p.tags = p := by
  cases p <;> rfl

mutual

/-- Every tag anywhere in the plan. -/
def collectTags : Plan → TagSet
  | .all tags => tags
  | .fixed _ tags => tags
  | .and subs tags => tags ∪ collectTagsOf subs
  | .or subs tags => tags ∪ collectTagsOf subs
  | .not inner whole tags => tags ∪ (inner.collectTags ∪ whole.collectTags)
  | .linksTo _ sub tags => tags ∪ sub.collectTags
  | .hasA _ sub tags => tags ∪ sub.collectTags

def collectTagsOf : List Plan → TagSet
  | [] => ∅
  | p :: ps => p.collectTags ∪ collectTagsOf ps

end

theorem mem_collectTagsOf {t : String} {ps : List Plan} :
    t ∈ collectTagsOf ps ↔ ∃ p ∈ ps, t ∈ p.collectTags := by
  induction ps with
  | nil => simp [collectTagsOf]
  | cons p ps ih => simp [collectTagsOf, Std.ExtTreeSet.mem_union_iff, ih]

mutual

def beq : Plan → Plan → Bool
  | .all s, .all t => s == t
  | .fixed m s, .fixed n t => m.ids == n.ids && s == t
  | .and ps s, .and qs t => beqAll ps qs && s == t
  | .or ps s, .or qs t => beqAll ps qs && s == t
  | .not p u s, .not q v t => beq p q && beq u v && s == t
  | .linksTo r p s, .linksTo r' q t => r == r' && beq p q && s == t
  | .hasA r p s, .hasA r' q t => r == r' && beq p q && s == t
  | _, _ => false
termination_by structural p => p

def beqAll : List Plan → List Plan → Bool
  | [], [] => true
  | p :: ps, q :: qs => beq p q && beqAll ps qs
  | _, _ => false
termination_by structural ps => ps

end

theorem beqAll_iff {ps qs : List Plan} (h : ∀ p ∈ ps, ∀ q, beq p q = true ↔ p = q) :
    beqAll ps qs = true ↔ ps = qs := by
  induction ps generalizing qs with
  | nil => cases qs <;> simp [beqAll]
  | cons p ps ih =>
    cases qs with
    | nil => simp [beqAll]
    | cons q qs =>
      have ht : beqAll ps qs = true ↔ _ := ih fun p' hp' => h p' (List.mem_cons_of_mem _ hp')
      simp [beqAll, ht, h p List.mem_cons_self q]

theorem beq_iff (p q : Plan) : beq p q = true ↔ p = q := by
  induction p generalizing q with
  | all s => cases q <;> simp [beq]
  | fixed m s =>
    cases q with
    | fixed n t =>
      have h : m.ids = n.ids ↔ m = n := by
        constructor
        · cases m; cases n; rintro rfl; rfl
        · rintro rfl; rfl
      simp [beq, h]
    | _ => simp [beq]
  | and ps s ih => cases q <;> simp [beq, beqAll_iff ih]
  | or ps s ih => cases q <;> simp [beq, beqAll_iff ih]
  | not p u s hp hu => cases q <;> simp [beq, hp, hu, and_assoc]
  | linksTo r p s hp => cases q <;> simp [beq, hp, and_assoc]
  | hasA r p s hp => cases q <;> simp [beq, hp, and_assoc]

instance : DecidableEq Plan := fun p q => decidable_of_iff (beq p q = true) (beq_iff p q)

end Plan

end Traversal
