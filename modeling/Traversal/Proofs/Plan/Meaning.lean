import Mathlib.Data.Set.Basic
import Traversal.Plan.Evaluate
import Traversal.Proofs.Except

namespace Traversal

namespace Source

variable {src : Source}

theorem mem_quadsOf {role : Role} {nodes : List NodeId} {ids : IdSet}
    (h : src.quadsOf role nodes = .ok ids) (i : QuadId) :
    i ∈ ids ↔ ∃ node ∈ nodes, ∃ here, src.quadsWith role node = .ok here ∧ i ∈ here := by
  induction nodes generalizing ids with
  | nil =>
    cases h
    simp
  | cons node nodes ih =>
    obtain ⟨here, hhere, h⟩ := bind_eq_ok.1 h
    obtain ⟨rest, hrest, h⟩ := bind_eq_ok.1 h
    cases h
    simp [Std.ExtTreeSet.mem_union_iff, ih hrest, hhere]

theorem exists_quadsOf (h : ∀ role node, ∃ ids, src.quadsWith role node = .ok ids) (role : Role)
    (nodes : List NodeId) : ∃ ids, src.quadsOf role nodes = .ok ids := by
  induction nodes with
  | nil => exact ⟨∅, rfl⟩
  | cons node nodes ih =>
    obtain ⟨here, hhere⟩ := h role node
    obtain ⟨rest, hrest⟩ := ih
    exact ⟨here ∪ rest, bind_eq_ok.2 ⟨here, hhere, bind_eq_ok.2 ⟨rest, hrest, rfl⟩⟩⟩

theorem nodesOf_cons {role : Role} {id : QuadId} {ids : List QuadId} {nodes : IdSet} :
    src.nodesOf role (id :: ids) = .ok nodes ↔
      ∃ q rest, src.quad id = .ok (some q) ∧ src.nodesOf role ids = .ok rest ∧
        nodes = match q.node? role with
          | some node => rest.insert node
          | none => rest := by
  rw [nodesOf, bind_eq_ok]
  constructor
  · intro h
    obtain ⟨_ | q, hq, h⟩ := h
    · cases h
    · obtain ⟨rest, hrest, h⟩ := bind_eq_ok.1 h
      cases h
      exact ⟨q, rest, hq, hrest, rfl⟩
  · intro h
    obtain ⟨q, rest, hq, hrest, rfl⟩ := h
    exact ⟨some q, hq, bind_eq_ok.2 ⟨rest, hrest, rfl⟩⟩

theorem mem_nodesOf {role : Role} {ids : List QuadId} {nodes : IdSet}
    (h : src.nodesOf role ids = .ok nodes) (i : NodeId) :
    i ∈ nodes ↔ ∃ id ∈ ids, ∃ q, src.quad id = .ok (some q) ∧ q.node? role = some i := by
  induction ids generalizing nodes with
  | nil =>
    cases h
    simp
  | cons id ids ih =>
    obtain ⟨q, rest, hq, hrest, rfl⟩ := nodesOf_cons.1 h
    have head : (∃ r, src.quad id = .ok (some r) ∧ r.node? role = some i) ↔
        q.node? role = some i := by simp [hq]
    simp only [List.mem_cons, exists_eq_or_imp, head, ← ih hrest]
    cases hn : q.node? role with
    | none => simp
    | some node => simp [Std.ExtTreeSet.mem_insert]

theorem exists_nodesOf (role : Role) {ids : List QuadId}
    (h : ∀ id ∈ ids, ∃ q, src.quad id = .ok (some q)) :
    ∃ nodes, src.nodesOf role ids = .ok nodes := by
  induction ids with
  | nil => exact ⟨∅, rfl⟩
  | cons id ids ih =>
    obtain ⟨q, hq⟩ := h id List.mem_cons_self
    obtain ⟨rest, hrest⟩ := ih fun id' hid => h id' (List.mem_cons_of_mem id hid)
    exact ⟨_, nodesOf_cons.2 ⟨q, rest, hq, hrest, rfl⟩⟩

end Source

namespace Plan

mutual

/-- The set that a plan stands for, whether or not it is reached when the plan is evaluated.
Calls that fail and quads that are missing add nothing. -/
def meaning (src : Source) : Plan → Set UInt32
  | .all _ => {i | ∃ nodes, src.allNodes = .ok nodes ∧ i ∈ nodes}
  | .fixed nodes _ => {i | i ∈ nodes.ids}
  | .and [] _ => ∅
  | .and (p :: ps) _ => p.meaning src ∩ common src ps
  | .or ps _ => united src ps
  | .not inner whole _ => whole.meaning src \ inner.meaning src
  | .linksTo role sub _ =>
    {id | ∃ node ∈ sub.meaning src, ∃ ids, src.quadsWith role node = .ok ids ∧ id ∈ ids}
  | .hasA role sub _ =>
    {node | ∃ id ∈ sub.meaning src, ∃ q, src.quad id = .ok (some q) ∧ q.node? role = some node}

def common (src : Source) : List Plan → Set UInt32
  | [] => Set.univ
  | p :: ps => p.meaning src ∩ common src ps

def united (src : Source) : List Plan → Set UInt32
  | [] => ∅
  | p :: ps => p.meaning src ∪ united src ps

end

variable {src : Source}

@[simp] theorem meaning_addTags (p : Plan) (names : List String) :
    (p.addTags names).meaning src = p.meaning src := by
  cases p with
  | and subs tags => cases subs <;> rfl
  | _ => rfl

@[simp] theorem evaluate_addTags (p : Plan) (names : List String) :
    (p.addTags names).evaluate src = p.evaluate src := by
  cases p with
  | and subs tags => cases subs <;> rfl
  | _ => rfl

theorem mem_common {ps : List Plan} {i : UInt32} :
    i ∈ common src ps ↔ ∀ p ∈ ps, i ∈ p.meaning src := by
  induction ps with
  | nil => simp [common]
  | cons p ps ih => simp [common, ih]

theorem mem_united {ps : List Plan} {i : UInt32} :
    i ∈ united src ps ↔ ∃ p ∈ ps, i ∈ p.meaning src := by
  induction ps with
  | nil => simp [united]
  | cons p ps ih => simp [united, ih]

/-- Without operands an intersection means nothing rather than everything. -/
theorem mem_meaning_and {ps : List Plan} {tags : TagSet} {i : UInt32} :
    i ∈ (Plan.and ps tags).meaning src ↔ ps ≠ [] ∧ ∀ p ∈ ps, i ∈ p.meaning src := by
  cases ps with
  | nil => simp [meaning]
  | cons p ps => simp [meaning, mem_common]

theorem mem_meaning_or {ps : List Plan} {tags : TagSet} {i : UInt32} :
    i ∈ (Plan.or ps tags).meaning src ↔ ∃ p ∈ ps, i ∈ p.meaning src :=
  mem_united

/-- If the plan can be evaluated, its answers are the members of its meaning. -/
def Sound (src : Source) (p : Plan) : Prop :=
  ∀ ids, p.evaluate src = .ok ids → ∀ i, i ∈ ids ↔ i ∈ p.meaning src

theorem mem_meet {ps : List Plan} (h : ∀ p ∈ ps, p.Sound src) {acc ids : IdSet}
    (hm : meet src acc ps = .ok ids) (i : UInt32) : i ∈ ids ↔ i ∈ acc ∧ i ∈ common src ps := by
  induction ps generalizing acc with
  | nil =>
    cases hm
    simp [common]
  | cons p ps ih =>
    rw [meet] at hm
    split at hm
    · -- The rest is not looked at, but nothing is left to keep.
      rename_i he
      cases hm
      rw [Std.ExtTreeSet.isEmpty_iff.1 he]
      simp
    · obtain ⟨next, hnext, hm⟩ := bind_eq_ok.1 hm
      rw [ih (fun q hq => h q (List.mem_cons_of_mem p hq)) hm, Std.ExtTreeSet.mem_inter_iff,
        h p List.mem_cons_self next hnext, and_assoc]
      rfl

theorem mem_join {ps : List Plan} (h : ∀ p ∈ ps, p.Sound src) {ids : IdSet}
    (hj : join src ps = .ok ids) (i : UInt32) : i ∈ ids ↔ i ∈ united src ps := by
  induction ps generalizing ids with
  | nil =>
    cases hj
    simp [united]
  | cons p ps ih =>
    obtain ⟨here, hhere, hj⟩ := bind_eq_ok.1 hj
    obtain ⟨rest, hrest, hj⟩ := bind_eq_ok.1 hj
    cases hj
    rw [Std.ExtTreeSet.mem_union_iff, h p List.mem_cons_self here hhere,
      ih (fun q hq => h q (List.mem_cons_of_mem p hq)) hrest]
    rfl

/-- Evaluation answers the meaning, whatever the source answers and however it fails. -/
theorem sound (p : Plan) : p.Sound src := by
  induction p with
  | all tags =>
    intro ids h i
    rw [evaluate] at h
    simp [meaning, h]
  | fixed nodes tags =>
    intro ids h i
    cases h
    exact NodeList.mem_toIdSet
  | and subs tags ih =>
    intro ids h i
    cases subs with
    | nil =>
      cases h
      simp [meaning]
    | cons p ps =>
      obtain ⟨first, hfirst, h⟩ := bind_eq_ok.1 h
      rw [mem_meet (fun q hq => ih q (List.mem_cons_of_mem p hq)) h,
        ih p List.mem_cons_self first hfirst]
      rfl
  | or subs tags ih =>
    intro ids h i
    exact mem_join ih h i
  | not inner whole tags hinner hwhole =>
    intro ids h i
    obtain ⟨all, hall, h⟩ := bind_eq_ok.1 h
    obtain ⟨out, hout, h⟩ := bind_eq_ok.1 h
    cases h
    rw [Std.ExtTreeSet.mem_diff_iff, hwhole all hall, hinner out hout]
    rfl
  | linksTo role sub tags ih =>
    intro ids h i
    obtain ⟨nodes, hnodes, h⟩ := bind_eq_ok.1 h
    rw [Source.mem_quadsOf h]
    simp only [Std.ExtTreeSet.mem_toList, ih nodes hnodes]
    rfl
  | hasA role sub tags ih =>
    intro ids h i
    obtain ⟨quads, hquads, h⟩ := bind_eq_ok.1 h
    rw [Source.mem_nodesOf h]
    simp only [Std.ExtTreeSet.mem_toList, ih quads hquads]
    rfl

/-- Plans that mean the same answer the same, if both can be evaluated. -/
theorem eq_of_meaning_eq {p q : Plan} (same : p.meaning src = q.meaning src) {xs ys : IdSet}
    (hp : p.evaluate src = .ok xs) (hq : q.evaluate src = .ok ys) : xs = ys := by
  apply Std.ExtTreeSet.ext_mem
  intro i
  rw [p.sound xs hp, q.sound ys hq, same]

def Runs (src : Source) (p : Plan) : Prop :=
  ∃ ids, p.evaluate src = .ok ids

theorem runs_and {ps : List Plan} (tags : TagSet) (h : ∀ p ∈ ps, p.Runs src) :
    (Plan.and ps tags).Runs src := by
  have rest : ∀ qs acc, (∀ q ∈ qs, Runs src q) → ∃ ids, meet src acc qs = .ok ids := by
    intro qs
    induction qs with
    | nil => exact fun acc _ => ⟨acc, rfl⟩
    | cons q qs ih =>
      intro acc hqs
      obtain ⟨next, hnext⟩ := hqs q List.mem_cons_self
      obtain ⟨ids, hids⟩ := ih (acc ∩ next) fun r hr => hqs r (List.mem_cons_of_mem q hr)
      rw [meet]
      split
      · exact ⟨acc, rfl⟩
      · exact ⟨ids, bind_eq_ok.2 ⟨next, hnext, hids⟩⟩
  cases ps with
  | nil => exact ⟨∅, rfl⟩
  | cons p ps =>
    obtain ⟨first, hfirst⟩ := h p List.mem_cons_self
    obtain ⟨ids, hids⟩ := rest ps first fun q hq => h q (List.mem_cons_of_mem p hq)
    exact ⟨ids, bind_eq_ok.2 ⟨first, hfirst, hids⟩⟩

theorem runs_or {ps : List Plan} (tags : TagSet) (h : ∀ p ∈ ps, p.Runs src) :
    (Plan.or ps tags).Runs src := by
  have all : ∃ ids, join src ps = .ok ids := by
    induction ps with
    | nil => exact ⟨∅, rfl⟩
    | cons p ps ih =>
      obtain ⟨here, hhere⟩ := h p List.mem_cons_self
      obtain ⟨rest, hrest⟩ := ih fun q hq => h q (List.mem_cons_of_mem p hq)
      exact ⟨here ∪ rest, bind_eq_ok.2 ⟨here, hhere, bind_eq_ok.2 ⟨rest, hrest, rfl⟩⟩⟩
  exact all

/-- A union has no early exit, so it needs every operand. -/
theorem runs_of_join {ps : List Plan} {ids : IdSet} (h : join src ps = .ok ids) :
    ∀ p ∈ ps, p.Runs src := by
  induction ps generalizing ids with
  | nil => exact fun _ hp => absurd hp List.not_mem_nil
  | cons p ps ih =>
    obtain ⟨here, hhere, h⟩ := bind_eq_ok.1 h
    obtain ⟨rest, hrest, -⟩ := bind_eq_ok.1 h
    intro q hq
    rcases List.mem_cons.1 hq with rfl | hq
    · exact ⟨here, hhere⟩
    · exact ih hrest q hq

theorem runs_not {inner whole : Plan} (tags : TagSet) (hinner : inner.Runs src)
    (hwhole : whole.Runs src) : (Plan.not inner whole tags).Runs src := by
  obtain ⟨out, hout⟩ := hinner
  obtain ⟨all, hall⟩ := hwhole
  exact ⟨all \ out, bind_eq_ok.2 ⟨all, hall, bind_eq_ok.2 ⟨out, hout, rfl⟩⟩⟩

theorem runs_linksTo (h : ∀ role node, ∃ ids, src.quadsWith role node = .ok ids) (role : Role)
    {sub : Plan} (tags : TagSet) (hsub : sub.Runs src) : (Plan.linksTo role sub tags).Runs src := by
  obtain ⟨nodes, hnodes⟩ := hsub
  obtain ⟨ids, hids⟩ := Source.exists_quadsOf h role nodes.toList
  exact ⟨ids, bind_eq_ok.2 ⟨nodes, hnodes, hids⟩⟩

theorem runs_hasA (role : Role) {sub : Plan} (tags : TagSet) (hsub : sub.Runs src)
    (h : ∀ id ∈ sub.meaning src, ∃ q, src.quad id = .ok (some q)) :
    (Plan.hasA role sub tags).Runs src := by
  obtain ⟨quads, hquads⟩ := hsub
  have stored : ∀ id ∈ quads.toList, ∃ q, src.quad id = .ok (some q) := by
    intro id hid
    exact h id ((sub.sound quads hquads id).1 (Std.ExtTreeSet.mem_toList.1 hid))
  obtain ⟨nodes, hnodes⟩ := Source.exists_nodesOf role stored
  exact ⟨nodes, bind_eq_ok.2 ⟨quads, hquads, hnodes⟩⟩

end Plan

end Traversal
