import Mathlib.Order.Bounds.Defs
import Traversal.Overlay
import Traversal.Proofs.Plan.Meaning
import Traversal.Proofs.Store.Reachable

namespace Traversal

namespace Source

/-- The store answers every question of a plan, rightly or wrongly. -/
structure Answers (src : Source) : Prop where
  allNodes : ∃ nodes, src.allNodes = .ok nodes
  quad : ∀ id, ∃ found, src.quad id = .ok found
  quadsWith : ∀ role node, ∃ ids, src.quadsWith role node = .ok ids

theorem Answers.ofStore (s : Store) : s.source.Answers where
  allNodes := ⟨_, rfl⟩
  quad _ := ⟨_, rfl⟩
  quadsWith _ _ := ⟨_, rfl⟩

/-- Changed answers are answers. -/
theorem Answers.changed {src : Source} (h : src.Answers) (o : Overlay) :
    (o.changed src).Answers where
  allNodes := by
    rw [Overlay.changed]
    cases o.allNodes with
    | none => exact h.allNodes
    | some nodes => exact ⟨nodes, rfl⟩
  quad id := by
    by_cases hidden : id ∈ o.hiddenQuads
    · exact ⟨none, if_pos hidden⟩
    · obtain ⟨found, hfound⟩ := h.quad id
      exact ⟨found, (if_neg hidden).trans hfound⟩
  quadsWith role node := by
    obtain ⟨ids, hids⟩ := h.quadsWith role node
    exact ⟨ids ∪ o.extraQuads role node, bind_eq_ok.2 ⟨ids, hids, rfl⟩⟩

/-- Ids that are met in ascending order: the first quad that is missing is the smallest one. -/
theorem Answers.nodesOf_eq_error {src : Source} (h : src.Answers) {role : Role} {ids : List QuadId}
    (sorted : ids.Pairwise (· < ·)) {e : StoreError} (he : src.nodesOf role ids = .error e) :
    ∃ id, e = .missingQuad id ∧ IsLeast {i | i ∈ ids ∧ src.quad i = .ok none} id := by
  induction ids with
  | nil => cases he
  | cons id ids ih =>
    obtain ⟨below, sorted⟩ := List.pairwise_cons.1 sorted
    rcases bind_eq_error.1 he with he | ⟨_ | q, hfound, he⟩
    · obtain ⟨found, hfound⟩ := h.quad id
      rw [hfound] at he
      cases he
    · cases he
      refine ⟨id, rfl, ⟨List.mem_cons_self, hfound⟩, ?_⟩
      intro i hi
      rcases List.mem_cons.1 hi.1 with rfl | hi
      · exact UInt32.le_refl _
      · exact UInt32.le_of_lt (below i hi)
    · rcases bind_eq_error.1 he with he | ⟨_, -, he⟩
      · obtain ⟨i, rfl, ⟨hi, missing⟩, least⟩ := ih sorted he
        refine ⟨i, rfl, ⟨List.mem_cons_of_mem id hi, missing⟩, ?_⟩
        intro j hj
        obtain ⟨hj, hmissing⟩ := hj
        rcases List.mem_cons.1 hj with rfl | hj
        · rw [hfound] at hmissing
          cases hmissing
        · exact least ⟨hj, hmissing⟩
      · cases he

end Source

namespace Plan

mutual

/-- The plan and the plans below it, at any depth. -/
def subplans : Plan → List Plan
  | .all tags => [.all tags]
  | .fixed nodes tags => [.fixed nodes tags]
  | .and subs tags => .and subs tags :: subplansOf subs
  | .or subs tags => .or subs tags :: subplansOf subs
  | .not inner whole tags => .not inner whole tags :: (inner.subplans ++ whole.subplans)
  | .linksTo role sub tags => .linksTo role sub tags :: sub.subplans
  | .hasA role sub tags => .hasA role sub tags :: sub.subplans

def subplansOf : List Plan → List Plan
  | [] => []
  | p :: ps => p.subplans ++ subplansOf ps

end

theorem mem_subplansOf {q : Plan} {ps : List Plan} :
    q ∈ subplansOf ps ↔ ∃ p ∈ ps, q ∈ p.subplans := by
  induction ps with
  | nil => simp [subplansOf]
  | cons p ps ih => simp [subplansOf, ih]

theorem subset_subplansOf {p : Plan} {ps : List Plan} (h : p ∈ ps) :
    p.subplans ⊆ subplansOf ps :=
  fun _ hq => mem_subplansOf.2 ⟨p, h, hq⟩

variable {src : Source}

/-- The failure names the smallest quad that is missing among those that one part of the plan looks
up. -/
def Dangles (src : Source) (p : Plan) (e : StoreError) : Prop :=
  ∃ role sub tags id, .hasA role sub tags ∈ p.subplans ∧ e = .missingQuad id ∧
    IsLeast {i | i ∈ sub.meaning src ∧ src.quad i = .ok none} id

theorem Dangles.mono {p q : Plan} {e : StoreError} (h : p.Dangles src e)
    (hpq : p.subplans ⊆ q.subplans) : q.Dangles src e := by
  obtain ⟨role, sub, tags, id, hmem, he, least⟩ := h
  exact ⟨role, sub, tags, id, hpq hmem, he, least⟩

theorem exists_of_meet_eq_error {ps : List Plan} {acc : IdSet} {e : StoreError}
    (h : meet src acc ps = .error e) : ∃ p ∈ ps, p.evaluate src = .error e := by
  induction ps generalizing acc with
  | nil => cases h
  | cons p ps ih =>
    rw [meet] at h
    split at h
    · cases h
    · rcases bind_eq_error.1 h with h | ⟨next, -, h⟩
      · exact ⟨p, List.mem_cons_self, h⟩
      · obtain ⟨q, hq, h⟩ := ih h
        exact ⟨q, List.mem_cons_of_mem p hq, h⟩

theorem exists_of_join_eq_error {ps : List Plan} {e : StoreError} (h : join src ps = .error e) :
    ∃ p ∈ ps, p.evaluate src = .error e := by
  induction ps with
  | nil => cases h
  | cons p ps ih =>
    rcases bind_eq_error.1 h with h | ⟨here, -, h⟩
    · exact ⟨p, List.mem_cons_self, h⟩
    · rcases bind_eq_error.1 h with h | ⟨rest, -, h⟩
      · obtain ⟨q, hq, h⟩ := ih h
        exact ⟨q, List.mem_cons_of_mem p hq, h⟩
      · cases h

/-- A failure of an intersection is that of one of its operands. -/
theorem exists_of_and_eq_error {ps : List Plan} {tags : TagSet} {e : StoreError}
    (h : (Plan.and ps tags).evaluate src = .error e) : ∃ p ∈ ps, p.evaluate src = .error e := by
  cases ps with
  | nil => cases h
  | cons p ps =>
    rcases bind_eq_error.1 h with h | ⟨first, -, h⟩
    · exact ⟨p, List.mem_cons_self, h⟩
    · obtain ⟨q, hq, h⟩ := exists_of_meet_eq_error h
      exact ⟨q, List.mem_cons_of_mem p hq, h⟩

theorem dangles_of_eq_error (h : src.Answers) (p : Plan) {e : StoreError}
    (he : p.evaluate src = .error e) : p.Dangles src e := by
  induction p with
  | all tags =>
    obtain ⟨nodes, hnodes⟩ := h.allNodes
    rw [evaluate, hnodes] at he
    cases he
  | fixed nodes tags => cases he
  | and subs tags ih =>
    obtain ⟨p, hp, he⟩ := exists_of_and_eq_error he
    exact (ih p hp he).mono (List.subset_cons_of_subset _ (subset_subplansOf hp))
  | or subs tags ih =>
    obtain ⟨p, hp, he⟩ := exists_of_join_eq_error he
    exact (ih p hp he).mono (List.subset_cons_of_subset _ (subset_subplansOf hp))
  | not inner whole tags hinner hwhole =>
    rcases bind_eq_error.1 he with he | ⟨all, -, he⟩
    · exact (hwhole he).mono (List.subset_cons_of_subset _ (List.subset_append_right _ _))
    · rcases bind_eq_error.1 he with he | ⟨out, -, he⟩
      · exact (hinner he).mono (List.subset_cons_of_subset _ (List.subset_append_left _ _))
      · cases he
  | linksTo role sub tags ih =>
    rcases bind_eq_error.1 he with he | ⟨nodes, -, he⟩
    · exact (ih he).mono (List.subset_cons_self _ _)
    · obtain ⟨ids, hids⟩ := Source.exists_quadsOf h.quadsWith role nodes.toList
      rw [hids] at he
      cases he
  | hasA role sub tags ih =>
    rcases bind_eq_error.1 he with he | ⟨quads, hquads, he⟩
    · exact (ih he).mono (List.subset_cons_self _ _)
    · obtain ⟨id, rfl, least⟩ := h.nodesOf_eq_error quads.pairwise_toList he
      refine ⟨role, sub, tags, id, List.mem_cons_self, rfl, ?_⟩
      simpa only [Std.ExtTreeSet.mem_toList, sub.sound quads hquads] using least

/-- On a store that answers every question, however wrongly, evaluation answers the meaning of the
plan. It succeeds if no part of the plan looks up a quad that is missing, and a failure names the
smallest of the missing quads that some part looks up. -/
theorem evaluate_of_answers (h : src.Answers) (p : Plan) :
    (∀ ids, p.evaluate src = .ok ids → ∀ i, i ∈ ids ↔ i ∈ p.meaning src) ∧
    ((∀ role sub tags, .hasA role sub tags ∈ p.subplans →
      ∀ id ∈ sub.meaning src, src.quad id ≠ .ok none) → ∃ ids, p.evaluate src = .ok ids) ∧
    ∀ e, p.evaluate src = .error e → p.Dangles src e := by
  refine ⟨p.sound, ?_, fun e => dangles_of_eq_error h p⟩
  intro present
  cases hp : p.evaluate src with
  | ok ids => exact ⟨ids, rfl⟩
  | error e =>
    obtain ⟨role, sub, tags, id, hmem, -, ⟨hid, missing⟩, -⟩ := dangles_of_eq_error h p hp
    exact absurd missing (present role sub tags hmem id hid)

/-- The index gives `alice` two quads that are not there, which matters only where they are looked
up. -/
theorem evaluate_of_answers_friends :
    let src := Overlay.changed { extra := [((.subject, 0), [7, 5])] } Store.friends.source
    let links : Plan := .linksTo .subject (.fixed (.ofList [0]))
    (∃ ids, links.evaluate src = .ok ids ∧ ∀ i, i ∈ ids ↔ i ∈ links.meaning src) ∧
    (Plan.hasA .object links).evaluate src = .error (.missingQuad 5) ∧
      (Plan.hasA .object links).Dangles src (.missingQuad 5) := by
  intro src links
  have answers : src.Answers := (Source.Answers.ofStore Store.friends).changed _
  have noLookup : ∀ role sub tags, .hasA role sub tags ∈ links.subplans →
      ∀ id ∈ sub.meaning src, src.quad id ≠ .ok none := by
    intro role sub tags h
    simp [links, subplans] at h
  have failed : (Plan.hasA .object links).evaluate src = .error (.missingQuad 5) := by
    decide +kernel
  obtain ⟨meaning, runs, -⟩ := evaluate_of_answers answers links
  obtain ⟨ids, hids⟩ := runs noLookup
  exact ⟨⟨ids, hids, meaning ids hids⟩, failed,
    (evaluate_of_answers answers (.hasA .object links)).2.2 _ failed⟩

end Plan

end Traversal
