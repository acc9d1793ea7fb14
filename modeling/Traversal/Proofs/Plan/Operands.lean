import Mathlib.Data.Set.Insert
import Traversal.Proofs.Plan.Meaning
import Traversal.Proofs.Store.Reachable

namespace Traversal.Plan

mutual

/-- The plans differ at most in the order of operands and in how often each occurs, at any depth. -/
inductive Rearranged : Plan → Plan → Prop
  | refl (p : Plan) : Rearranged p p
  | and {ps qs : List Plan} {tags : TagSet} (h : RearrangedAll ps qs) :
    Rearranged (.and ps tags) (.and qs tags)
  | or {ps qs : List Plan} {tags : TagSet} (h : RearrangedAll ps qs) :
    Rearranged (.or ps tags) (.or qs tags)
  | not {inner inner' whole whole' : Plan} {tags : TagSet} (hinner : Rearranged inner inner')
    (hwhole : Rearranged whole whole') :
    Rearranged (.not inner whole tags) (.not inner' whole' tags)
  | linksTo {role : Role} {sub sub' : Plan} {tags : TagSet} (h : Rearranged sub sub') :
    Rearranged (.linksTo role sub tags) (.linksTo role sub' tags)
  | hasA {role : Role} {sub sub' : Plan} {tags : TagSet} (h : Rearranged sub sub') :
    Rearranged (.hasA role sub tags) (.hasA role sub' tags)

/-- The operands are the same apart from their order, from how often each occurs, and from changes
of that kind below them. -/
inductive RearrangedAll : List Plan → List Plan → Prop
  | permute {ps qs : List Plan} (h : ps.Perm qs) : RearrangedAll ps qs
  | repeated {p : Plan} {ps : List Plan} (h : p ∈ ps) : RearrangedAll ps (p :: ps)
  | cons {p q : Plan} {ps qs : List Plan} (hp : Rearranged p q) (hps : RearrangedAll ps qs) :
    RearrangedAll (p :: ps) (q :: qs)
  | symm {ps qs : List Plan} (h : RearrangedAll ps qs) : RearrangedAll qs ps
  | trans {ps qs rs : List Plan} (h : RearrangedAll ps qs) (k : RearrangedAll qs rs) :
    RearrangedAll ps rs

end

variable {src : Source}

/-- What the operands mean, apart from their order and from how often each occurs. -/
def meanings (src : Source) (ps : List Plan) : Set (Set UInt32) :=
  {m | ∃ p ∈ ps, p.meaning src = m}

theorem meanings_cons (p : Plan) (ps : List Plan) :
    meanings src (p :: ps) = insert (p.meaning src) (meanings src ps) := by
  ext m
  simp [meanings, Set.mem_insert_iff, eq_comm]

theorem meanings_of_perm {ps qs : List Plan} (h : ps.Perm qs) :
    meanings src ps = meanings src qs := by
  ext m
  simp only [meanings, Set.mem_ofPred_eq, h.mem_iff]

theorem meanings_of_mem {p : Plan} {ps : List Plan} (h : p ∈ ps) :
    meanings src ps = meanings src (p :: ps) := by
  have known : p.meaning src ∈ meanings src ps := ⟨p, h, rfl⟩
  rw [meanings_cons, Set.insert_eq_of_mem known]

theorem meaning_and_eq (ps : List Plan) (tags : TagSet) : (Plan.and ps tags).meaning src =
    {i | (meanings src ps).Nonempty ∧ ∀ m ∈ meanings src ps, i ∈ m} := by
  ext i
  have operands : (meanings src ps).Nonempty ↔ ps ≠ [] := by
    simp [Set.Nonempty, meanings, List.eq_nil_iff_forall_not_mem]
  rw [mem_meaning_and, ← operands]
  simp [meanings]

theorem meaning_or_eq (ps : List Plan) (tags : TagSet) :
    (Plan.or ps tags).meaning src = {i | ∃ m ∈ meanings src ps, i ∈ m} := by
  ext i
  rw [mem_meaning_or]
  simp [meanings]

/-- The runs of the two plans may evaluate different operands, but the plans mean the same. -/
theorem Rearranged.meaning_eq {p q : Plan} (h : Rearranged p q) :
    p.meaning src = q.meaning src := by
  induction h using Rearranged.rec
    (motive_2 := fun ps qs _ => meanings src ps = meanings src qs) with
  | refl p => rfl
  | and h ih => rw [meaning_and_eq, meaning_and_eq, ih]
  | or h ih => rw [meaning_or_eq, meaning_or_eq, ih]
  | not hinner hwhole ihinner ihwhole => simp only [meaning, ihinner, ihwhole]
  | linksTo h ih => simp only [meaning, ih]
  | hasA h ih => simp only [meaning, ih]
  | permute h => exact meanings_of_perm h
  | repeated h => exact meanings_of_mem h
  | cons hp hps ihp ihps => rw [meanings_cons, meanings_cons, ihp, ihps]
  | symm h ih => exact ih.symm
  | trans h k ihh ihk => exact ihh.trans ihk

/-- The order and the repetition of operands change no answer, however calls of the source fail: if
both plans can be evaluated, they answer the same. -/
theorem evaluate_of_rearranged {p q : Plan} (h : Rearranged p q) {xs ys : IdSet}
    (hp : p.evaluate src = .ok xs) (hq : q.evaluate src = .ok ys) : xs = ys :=
  eq_of_meaning_eq h.meaning_eq hp hq

/-- One run stops at the operand that answers nothing, the other goes through all operands. -/
theorem evaluate_of_rearranged_friends :
    let src := Store.friends.source
    let nothing : Plan := .fixed ∅
    let followed : Plan := .hasA .object (.linksTo .subject (.fixed (.ofList [0])))
    let p : Plan := .not (.and [nothing, .or [.all, followed]]) followed
    let q : Plan := .not (.and [.or [followed, .all, followed], nothing, nothing]) followed
    Rearranged p q ∧
      ∃ xs ys, p.evaluate src = .ok xs ∧ q.evaluate src = .ok ys ∧ xs.toList = [2] ∧ xs = ys := by
  intro src nothing followed p q
  have inner : RearrangedAll [.all, followed] [followed, .all, followed] :=
    .repeated (List.mem_cons_of_mem _ List.mem_cons_self)
  have outer : RearrangedAll [nothing, .or [.all, followed]]
      [.or [followed, .all, followed], nothing, nothing] :=
    .trans (.cons (.refl nothing) (.cons (.or inner) (.permute .nil)))
      (.trans (.repeated List.mem_cons_self) (.permute (by decide)))
  have rearranged : Rearranged p q := .not (.and outer) (.refl followed)
  have short : p.evaluate src = .ok (NodeList.ofList [2]).toIdSet := by decide +kernel
  have long : q.evaluate src = .ok (NodeList.ofList [2]).toIdSet := by decide +kernel
  exact ⟨rearranged, _, _, short, long, by decide +kernel,
    evaluate_of_rearranged rearranged short long⟩

/-- The complement of a union is the intersection of the complements. -/
theorem meaning_and_not {ps : List Plan} (h : ps ≠ []) (u : Plan) :
    (Plan.and (ps.map fun p => .not p u)).meaning src = (Plan.not (.or ps) u).meaning src := by
  ext i
  rw [mem_meaning_and]
  constructor
  · intro hi
    obtain ⟨-, outside⟩ := hi
    -- Any operand tells that `i` is an answer of `u`, so there has to be one.
    obtain ⟨p, hp⟩ := List.exists_mem_of_ne_nil ps h
    refine ⟨(outside _ (List.mem_map_of_mem hp)).1, fun hor => ?_⟩
    obtain ⟨q, hq, hi⟩ := mem_meaning_or.1 hor
    exact (outside _ (List.mem_map_of_mem hq)).2 hi
  · intro hi
    obtain ⟨hu, hor⟩ := hi
    refine ⟨mt List.map_eq_nil_iff.1 h, fun q hq => ?_⟩
    obtain ⟨p, hp, rfl⟩ := List.mem_map.1 hq
    exact ⟨hu, fun hi => hor (mem_meaning_or.2 ⟨p, hp, hi⟩)⟩

/-- Where the complement of a union can be evaluated, so can the intersection of the complements,
and it answers the same, although it evaluates `u` once for each operand and may stop before the
last. -/
theorem evaluate_and_not {ps : List Plan} (h : ps ≠ []) {u : Plan} {ids : IdSet}
    (hnot : (Plan.not (.or ps) u).evaluate src = .ok ids) :
    (Plan.and (ps.map fun p => .not p u)).evaluate src = .ok ids := by
  obtain ⟨all, hall, hor⟩ := bind_eq_ok.1 hnot
  obtain ⟨out, hout, -⟩ := bind_eq_ok.1 hor
  have complements : ∀ q ∈ ps.map fun p => Plan.not p u, q.Runs src := by
    intro q hq
    obtain ⟨p, hp, rfl⟩ := List.mem_map.1 hq
    exact runs_not ∅ (runs_of_join hout p hp) ⟨all, hall⟩
  obtain ⟨ids', hand⟩ := runs_and ∅ complements
  rw [hand, eq_of_meaning_eq (meaning_and_not h u) hand hnot]

/-- Nodes outside `alice` and all that is followed, and then nodes outside every node, where the
intersection stops after its first operand. -/
theorem evaluate_and_not_friends :
    let src := Store.friends.source
    let alice : Plan := .fixed (.ofList [0])
    let followed : Plan := .hasA .object (.linksTo .predicate .all)
    [alice, followed] ≠ [] ∧
    (Plan.and [.not alice .all, .not followed .all]).evaluate src =
      .ok (NodeList.ofList [1, 4]).toIdSet ∧
    (Plan.and [.not .all .all, .not followed .all]).evaluate src = .ok ∅ := by
  intro src alice followed
  have outside : (Plan.not (.or [alice, followed]) .all).evaluate src =
      .ok (NodeList.ofList [1, 4]).toIdSet := by decide +kernel
  have nowhere : (Plan.not (.or [.all, followed]) .all).evaluate src = .ok ∅ := by decide +kernel
  exact ⟨List.cons_ne_nil _ _, evaluate_and_not (List.cons_ne_nil _ _) outside,
    evaluate_and_not (List.cons_ne_nil _ _) nowhere⟩

end Traversal.Plan
