import Traversal.Proofs.Plan.Failure

namespace Traversal

namespace IdSet

/-- What all the sets have in common; without sets there is nothing. -/
def interAll : List IdSet → IdSet
  | [] => ∅
  | ids :: rest => rest.foldl (· ∩ ·) ids

def unionAll (sets : List IdSet) : IdSet :=
  sets.foldr (· ∪ ·) ∅

theorem foldl_inter_empty (sets : List IdSet) : sets.foldl (· ∩ ·) (∅ : IdSet) = ∅ := by
  induction sets with
  | nil => rfl
  | cons ids sets ih =>
    have nothing : (∅ : IdSet) ∩ ids = ∅ := by
      apply Std.ExtTreeSet.ext_mem
      simp [Std.ExtTreeSet.mem_inter_iff]
    rw [List.foldl_cons, nothing, ih]

end IdSet

namespace Plan

mutual

/-- The answers of the plan when every operand is evaluated, from left to right, before any of their
answers are put together. -/
def evaluateFully (src : Source) : Plan → Except StoreError IdSet
  | .all _ => src.allNodes
  | .fixed nodes _ => .ok nodes.toIdSet
  | .and subs _ => do
    let answers ← evaluateEach src subs
    return IdSet.interAll answers
  | .or subs _ => do
    let answers ← evaluateEach src subs
    return IdSet.unionAll answers
  | .not inner whole _ => do
    let all ← whole.evaluateFully src
    let out ← inner.evaluateFully src
    return all \ out
  | .linksTo role sub _ => do
    let nodes ← sub.evaluateFully src
    src.quadsOf role nodes.toList
  | .hasA role sub _ => do
    let quads ← sub.evaluateFully src
    src.nodesOf role quads.toList

def evaluateEach (src : Source) : List Plan → Except StoreError (List IdSet)
  | [] => .ok []
  | p :: ps => do
    let here ← p.evaluateFully src
    let rest ← evaluateEach src ps
    return here :: rest

end

variable {src : Source}

theorem evaluateEach_cons {p : Plan} {ps : List Plan} {answers : List IdSet} :
    evaluateEach src (p :: ps) = .ok answers ↔
      ∃ here rest, p.evaluateFully src = .ok here ∧ evaluateEach src ps = .ok rest ∧
        answers = here :: rest := by
  rw [evaluateEach, bind_eq_ok]
  constructor
  · intro h
    obtain ⟨here, hhere, h⟩ := h
    obtain ⟨rest, hrest, h⟩ := bind_eq_ok.1 h
    cases h
    exact ⟨here, rest, hhere, hrest, rfl⟩
  · intro h
    obtain ⟨here, rest, hhere, hrest, rfl⟩ := h
    exact ⟨here, hhere, bind_eq_ok.2 ⟨rest, hrest, rfl⟩⟩

/-- No operand is left out. -/
theorem exists_of_evaluateEach {ps : List Plan} {answers : List IdSet}
    (h : evaluateEach src ps = .ok answers) : ∀ p ∈ ps, ∃ ids, p.evaluateFully src = .ok ids := by
  induction ps generalizing answers with
  | nil => exact fun _ hp => absurd hp List.not_mem_nil
  | cons p ps ih =>
    obtain ⟨here, rest, hhere, hrest, -⟩ := evaluateEach_cons.1 h
    intro q hq
    rcases List.mem_cons.1 hq with rfl | hq
    · exact ⟨here, hhere⟩
    · exact ih hrest q hq

/-- The full evaluation of the plan needs that of every plan below it. -/
def NeedsAll (src : Source) (p : Plan) : Prop :=
  ∀ ids, p.evaluateFully src = .ok ids → ∀ q ∈ p.subplans, ∃ here, q.evaluateFully src = .ok here

theorem exists_below {ps : List Plan} (h : ∀ p ∈ ps, p.NeedsAll src) {answers : List IdSet}
    (ha : evaluateEach src ps = .ok answers) :
    ∀ q ∈ subplansOf ps, ∃ here, q.evaluateFully src = .ok here := by
  intro q hq
  obtain ⟨p, hp, hq⟩ := mem_subplansOf.1 hq
  obtain ⟨ids, hids⟩ := exists_of_evaluateEach ha p hp
  exact h p hp ids hids q hq

theorem needsAll (p : Plan) : p.NeedsAll src := by
  induction p with
  | all tags => exact fun ids h => List.forall_mem_singleton.2 ⟨ids, h⟩
  | fixed nodes tags => exact fun ids h => List.forall_mem_singleton.2 ⟨ids, h⟩
  | and subs tags ih =>
    intro ids h
    obtain ⟨answers, hanswers, -⟩ := bind_eq_ok.1 h
    exact List.forall_mem_cons.2 ⟨⟨ids, h⟩, exists_below ih hanswers⟩
  | or subs tags ih =>
    intro ids h
    obtain ⟨answers, hanswers, -⟩ := bind_eq_ok.1 h
    exact List.forall_mem_cons.2 ⟨⟨ids, h⟩, exists_below ih hanswers⟩
  | not inner whole tags hinner hwhole =>
    intro ids h
    obtain ⟨all, hall, rest⟩ := bind_eq_ok.1 h
    obtain ⟨out, hout, -⟩ := bind_eq_ok.1 rest
    have below := List.forall_mem_append.2 ⟨hinner out hout, hwhole all hall⟩
    exact List.forall_mem_cons.2 ⟨⟨ids, h⟩, below⟩
  | linksTo role sub tags ih =>
    intro ids h
    obtain ⟨nodes, hnodes, -⟩ := bind_eq_ok.1 h
    exact List.forall_mem_cons.2 ⟨⟨ids, h⟩, ih nodes hnodes⟩
  | hasA role sub tags ih =>
    intro ids h
    obtain ⟨quads, hquads, -⟩ := bind_eq_ok.1 h
    exact List.forall_mem_cons.2 ⟨⟨ids, h⟩, ih quads hquads⟩

/-- Evaluation keeps the answers of the full evaluation. -/
def KeepsFull (src : Source) (p : Plan) : Prop :=
  ∀ ids, p.evaluateFully src = .ok ids → p.evaluate src = .ok ids

theorem meet_of_evaluateEach {ps : List Plan} (h : ∀ p ∈ ps, p.KeepsFull src)
    {answers : List IdSet} (ha : evaluateEach src ps = .ok answers) (acc : IdSet) :
    meet src acc ps = .ok (answers.foldl (· ∩ ·) acc) := by
  induction ps generalizing acc answers with
  | nil =>
    cases ha
    rfl
  | cons p ps ih =>
    obtain ⟨here, rest, hhere, hrest, rfl⟩ := evaluateEach_cons.1 ha
    rw [meet]
    split
    · -- The operands that are skipped could only have kept nothing.
      rename_i he
      rw [Std.ExtTreeSet.isEmpty_iff.1 he, IdSet.foldl_inter_empty]
    · refine bind_eq_ok.2 ⟨here, h p List.mem_cons_self here hhere, ?_⟩
      exact ih (fun q hq => h q (List.mem_cons_of_mem p hq)) hrest (acc ∩ here)

theorem join_of_evaluateEach {ps : List Plan} (h : ∀ p ∈ ps, p.KeepsFull src)
    {answers : List IdSet} (ha : evaluateEach src ps = .ok answers) :
    join src ps = .ok (IdSet.unionAll answers) := by
  induction ps generalizing answers with
  | nil =>
    cases ha
    rfl
  | cons p ps ih =>
    obtain ⟨here, rest, hhere, hrest, rfl⟩ := evaluateEach_cons.1 ha
    have others := ih (fun q hq => h q (List.mem_cons_of_mem p hq)) hrest
    exact bind_eq_ok.2 ⟨here, h p List.mem_cons_self here hhere,
      bind_eq_ok.2 ⟨IdSet.unionAll rest, others, rfl⟩⟩

theorem keepsFull (p : Plan) : p.KeepsFull src := by
  induction p with
  | all tags => exact fun _ h => h
  | fixed nodes tags => exact fun _ h => h
  | and subs tags ih =>
    intro ids h
    obtain ⟨answers, hanswers, h⟩ := bind_eq_ok.1 h
    cases h
    cases subs with
    | nil =>
      cases hanswers
      rfl
    | cons p ps =>
      obtain ⟨first, rest, hfirst, hrest, rfl⟩ := evaluateEach_cons.1 hanswers
      refine bind_eq_ok.2 ⟨first, ih p List.mem_cons_self first hfirst, ?_⟩
      exact meet_of_evaluateEach (fun q hq => ih q (List.mem_cons_of_mem p hq)) hrest first
  | or subs tags ih =>
    intro ids h
    obtain ⟨answers, hanswers, h⟩ := bind_eq_ok.1 h
    cases h
    exact join_of_evaluateEach ih hanswers
  | not inner whole tags hinner hwhole =>
    intro ids h
    obtain ⟨all, hall, h⟩ := bind_eq_ok.1 h
    obtain ⟨out, hout, h⟩ := bind_eq_ok.1 h
    exact bind_eq_ok.2 ⟨all, hwhole all hall, bind_eq_ok.2 ⟨out, hinner out hout, h⟩⟩
  | linksTo role sub tags ih =>
    intro ids h
    obtain ⟨nodes, hnodes, h⟩ := bind_eq_ok.1 h
    exact bind_eq_ok.2 ⟨nodes, ih nodes hnodes, h⟩
  | hasA role sub tags ih =>
    intro ids h
    obtain ⟨quads, hquads, h⟩ := bind_eq_ok.1 h
    exact bind_eq_ok.2 ⟨quads, ih quads hquads, h⟩

/-- The early exit of an intersection is safe, however calls of the source fail. Where the full
evaluation answers, having evaluated every part of the plan, evaluation answers the same; so it only
fails where the full evaluation does. -/
theorem evaluate_of_evaluateFully (src : Source) (p : Plan) :
    (∀ ids, p.evaluateFully src = .ok ids →
      (∀ q ∈ p.subplans, ∃ here, q.evaluateFully src = .ok here) ∧ p.evaluate src = .ok ids) ∧
    (∀ e, p.evaluate src = .error e → ∃ e', p.evaluateFully src = .error e') ∧
    ∀ xs ys, p.evaluateFully src = .ok xs → p.evaluate src = .ok ys → xs = ys := by
  refine ⟨fun ids h => ⟨p.needsAll ids h, p.keepsFull ids h⟩, fun e he => ?_, ?_⟩
  · cases h : p.evaluateFully src with
    | error e' => exact ⟨e', rfl⟩
    | ok ids =>
      rw [p.keepsFull ids h] at he
      cases he
  · intro xs ys hxs hys
    rw [p.keepsFull xs hxs] at hys
    exact Except.ok.inj hys

/-- The exit leaves out an operand that answers. Where it leaves out one that fails, only the full
evaluation fails, and where the first operand fails, both do. -/
theorem evaluate_of_evaluateFully_friends :
    let src := Store.friends.source
    let nothing : Plan := .fixed ∅
    let lost : Plan := .hasA .object (.fixed (.ofList [9]))
    let p : Plan := .not (.and [nothing, .hasA .object (.linksTo .subject .all)]) .all
    (∃ ids, p.evaluateFully src = .ok ids ∧ p.evaluate src = .ok ids) ∧
    (Plan.and [nothing, lost]).evaluate src = .ok ∅ ∧
    (Plan.and [nothing, lost]).evaluateFully src = .error (.missingQuad 9) ∧
    ∃ e, (Plan.and [lost, nothing]).evaluateFully src = .error e := by
  intro src nothing lost p
  have full : p.evaluateFully src = .ok Store.friends.names.idSet := by decide +kernel
  have failed : (Plan.and [lost, nothing]).evaluate src = .error (.missingQuad 9) := by
    decide +kernel
  exact ⟨⟨_, full, ((evaluate_of_evaluateFully src p).1 _ full).2⟩, by decide +kernel,
    by decide +kernel, (evaluate_of_evaluateFully src _).2.1 _ failed⟩

end Plan

end Traversal
