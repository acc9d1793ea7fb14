import Traversal.Proofs.Path.Compile

namespace Traversal

/-- What the ids in the answers of a plan stand for. -/
inductive Kind where
  | nodes
  | quads
deriving DecidableEq

namespace Plan

/-- The plan puts ids of nodes and ids of quads only where they belong. The operands of an
intersection or a union are of one kind; without operands it is of either kind. -/
inductive HasKind : Plan → Kind → Prop
  | all {tags : TagSet} : HasKind (.all tags) .nodes
  | fixed {nodes : NodeList} {tags : TagSet} : HasKind (.fixed nodes tags) .nodes
  | and {k : Kind} {subs : List Plan} {tags : TagSet} (h : ∀ p ∈ subs, HasKind p k) :
    HasKind (.and subs tags) k
  | or {k : Kind} {subs : List Plan} {tags : TagSet} (h : ∀ p ∈ subs, HasKind p k) :
    HasKind (.or subs tags) k
  | not {inner whole : Plan} {tags : TagSet} (hinner : HasKind inner .nodes)
    (hwhole : HasKind whole .nodes) : HasKind (.not inner whole tags) .nodes
  | linksTo {role : Role} {sub : Plan} {tags : TagSet} (h : HasKind sub .nodes) :
    HasKind (.linksTo role sub tags) .quads
  | hasA {role : Role} {sub : Plan} {tags : TagSet} (h : HasKind sub .quads) :
    HasKind (.hasA role sub tags) .nodes

namespace HasKind

variable {k : Kind} {p q : Plan}

theorem withTags (h : p.HasKind k) (tags : TagSet) : (p.withTags tags).HasKind k := by
  cases h with
  | all => exact all
  | fixed => exact fixed
  | and h => exact and h
  | or h => exact or h
  | not hinner hwhole => exact not hinner hwhole
  | linksTo h => exact linksTo h
  | hasA h => exact hasA h

theorem pair (hp : p.HasKind k) (hq : q.HasKind k) : ∀ r ∈ [p, q], r.HasKind k := by
  simp [hp, hq]

theorem across {near far : Role} (hp : p.HasKind .nodes) (hq : q.HasKind .nodes) :
    (Plan.across near far p q).HasKind .nodes :=
  hasA (and (pair (linksTo hp) (linksTo hq)))

end HasKind

end Plan

namespace Store.Valid

variable {s : Store}

/-- What stands for quads stands for quads of the store, since the index points to no others. -/
theorem stored_of_hasKind (h : s.Valid) {p : Plan} (hp : p.HasKind .quads) :
    ∀ id ∈ p.meaning s.source, ∃ q, s.index.quad? id = some q := by
  generalize hk : Kind.quads = k at hp
  induction hp with
  | all => cases hk
  | fixed => cases hk
  | not => cases hk
  | hasA => cases hk
  | @and k subs tags _ ih =>
    intro id hid
    cases subs with
    | nil => cases hid
    | cons p ps => exact ih p List.mem_cons_self hk id hid.1
  | or _ ih =>
    intro id hid
    obtain ⟨p, hp, hid⟩ := Plan.mem_meaning_or.1 hid
    exact ih p hp hk id hid
  | linksTo =>
    intro id hid
    obtain ⟨q, hq, -⟩ := (h.mem_linksTo _ _ _ id).1 hid
    exact ⟨q, hq⟩

/-- A plan of either kind runs: it looks up quads of the store only. -/
theorem runs_of_hasKind (h : s.Valid) {p : Plan} {k : Kind} (hp : p.HasKind k) :
    p.Runs s.source := by
  induction hp with
  | all => exact ⟨_, rfl⟩
  | fixed => exact ⟨_, rfl⟩
  | and _ ih => exact Plan.runs_and _ ih
  | or _ ih => exact Plan.runs_or _ ih
  | not _ _ hinner hwhole => exact Plan.runs_not _ hinner hwhole
  | linksTo _ ih => exact Plan.runs_linksTo (fun _ _ => ⟨_, rfl⟩) _ _ ih
  | hasA hsub ih =>
    refine Plan.runs_hasA _ _ ih fun id hid => ?_
    obtain ⟨q, hq⟩ := h.stored_of_hasKind hsub id hid
    exact ⟨q, congrArg Except.ok hq⟩

end Store.Valid

end Traversal
