import Traversal.Proofs.Path.Compile
import Traversal.Query

namespace Traversal.Store

variable {s : Store}

theorem namesOf_eq (ids : List NodeId) :
    s.source.namesOf ids = .ok (ids.filterMap s.names.name?) := by
  induction ids with
  | nil => rfl
  | cons id ids ih =>
    refine bind_eq_ok.2 ⟨s.names.name? id, rfl, bind_eq_ok.2 ⟨_, ih, ?_⟩⟩
    cases hn : s.names.name? id <;> simp [hn] <;> rfl

/-- A query without plans succeeds. It answers the image of all nodes and the names in it. -/
theorem Valid.exists_query (h : s.Valid) {p : Path} (hp : p.planFree = true) :
    ∃ a, p.queryOn s.source = .ok a ∧ (∀ i, i ∈ a.ids ↔ i ∈ p.image s.graph s.graph.nodes) ∧
      ∀ n, n ∈ a.names ↔ ∃ i ∈ a.ids, s.names.name? i = some n := by
  obtain ⟨plan, ids, hplan, hids, image⟩ := h.exists_evaluate hp runs_seed
  rw [meaning_seed] at image
  have hnames : s.source.names ids = .ok (ids.toList.filterMap s.names.name?) := namesOf_eq _
  refine ⟨⟨plan, ids, ids.toList.filterMap s.names.name?⟩, ?_, image, fun n => ?_⟩
  · refine bind_eq_ok.2 ⟨plan, ?_, bind_eq_ok.2 ⟨ids, ?_, bind_eq_ok.2 ⟨_, ?_, rfl⟩⟩⟩
    · rw [Path.buildOn, hplan]
      rfl
    · rw [hids]
      rfl
    · rw [hnames]
      rfl
  · simp only [List.mem_filterMap, Std.ExtTreeSet.mem_toList]

end Traversal.Store
