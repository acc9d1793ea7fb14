import Traversal.Proofs.Path.Compile
import Traversal.Proofs.Path.Lookups

namespace Traversal.Store

/-- A name keeps its node while the store grows. -/
theorem Kept.id? {s t : Store} (k : Kept s t) (hs : s.Valid) (ht : t.Valid) {n : String}
    {i : NodeId} (hn : s.names.id? n = some i) : t.names.id? n = some i := by
  have old : s.names.name? i = some n := (hs.names.inverse n i).1 hn
  have new : t.names.name? i = some n := k.names i n old
  exact (ht.names.inverse n i).2 new

/-- Names that are known already are all that compilation could see change. -/
theorem Kept.agree {s t : Store} (k : Kept s t) (hs : s.Valid) (ht : t.Valid) {names : List String}
    (known : ∀ n ∈ names, ∃ i, s.source.valueOf n = .ok (some i)) :
    Source.Agree t.source s.source names where
  seed := rfl
  nodeList := rfl
  valueOf n hn := by
    obtain ⟨i, hi⟩ := known n hn
    have old : s.names.id? n = some i := Except.ok.inj hi
    have new : t.names.id? n = some i := k.id? hs ht old
    change Except.ok (t.names.id? n) = Except.ok (s.names.id? n)
    rw [new, old]

/-- A plan that was compiled when every name of the path was known stays the plan of the path while
the store grows, so it never has to be compiled again. -/
theorem apply_after {s : Store} (h : s.Reachable) (changes : List Change) {p : Path}
    (known : ∀ n ∈ p.lookups, ∃ i, s.source.valueOf n = .ok (some i)) (it : Plan) :
    ∃ plan, p.apply s.source it = .ok plan ∧ p.apply (s.after changes).source it = .ok plan ∧
      ∀ fresh, p.apply (s.after changes).source it = .ok fresh →
        plan.evaluate (s.after changes).source = fresh.evaluate (s.after changes).source := by
  obtain ⟨later, kept⟩ := h.valid.after changes
  obtain ⟨plan, hplan, -⟩ := h.valid.compiles.1 p it
  have same : p.apply (s.after changes).source it = p.apply s.source it :=
    (Source.Agree.compiles _ _).1 p (kept.agree h.valid later known) it
  have again : p.apply (s.after changes).source it = .ok plan := same.trans hplan
  refine ⟨plan, hplan, again, ?_⟩
  intro fresh hfresh
  rw [again] at hfresh
  cases hfresh
  rfl

/-- The old plan finds `dave`, who comes later. -/
theorem apply_after_friends :
    let later := friends.after [.add ⟨"dave", "follows", "alice", none⟩]
    let p : Path := ⟨[.is ["alice"], .into (.name "follows")], none⟩
    ∃ plan, p.apply friends.source .all = .ok plan ∧ p.apply later.source .all = .ok plan ∧
      (∀ fresh, p.apply later.source .all = .ok fresh →
        plan.evaluate later.source = fresh.evaluate later.source) ∧
      (plan.evaluate friends.source).map (·.toList) = .ok [] ∧
      (plan.evaluate later.source).map (·.toList) = .ok [5] := by
  intro later p
  have known : ∀ n ∈ p.lookups, ∃ i, friends.source.valueOf n = .ok (some i) := by
    intro n hn
    have names : n = "alice" ∨ n = "follows" := by
      simpa [p, Path.lookups, Step.lookupsAll, Step.lookups, Via.lookups] using hn
    rcases names with rfl | rfl
    · exact ⟨0, by decide +kernel⟩
    · exact ⟨1, by decide +kernel⟩
  obtain ⟨plan, hplan, again, fresh⟩ := apply_after reachable_friends
    [.add ⟨"dave", "follows", "alice", none⟩] known .all
  have compiled : p.apply friends.source .all = .ok (.across .object .subject
      (.and [.fixed (.ofList [1]), .all]) (.and [.fixed (.ofList [0]), .all])) := by
    decide +kernel
  rw [compiled] at hplan
  cases hplan
  exact ⟨_, compiled, again, fresh, by decide +kernel, by decide +kernel⟩

end Traversal.Store
