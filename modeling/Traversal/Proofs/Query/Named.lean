import Mathlib.Data.List.Forall2
import Traversal.Proofs.Path.Closed
import Traversal.Proofs.Query.Answer

namespace Traversal.Store

/-- The id and the name are found by each other. -/
def Named (s : Store) (i : NodeId) (n : String) : Prop :=
  s.source.nameOf i = .ok (some n) ∧ s.source.valueOf n = .ok (some i)

variable {s : Store}

theorem Valid.named_of_name? (h : s.Valid) {i : NodeId} {n : String}
    (hn : s.names.name? i = some n) : s.Named i n :=
  ⟨congrArg Except.ok hn, congrArg Except.ok ((h.names.inverse n i).2 hn)⟩

/-- Nodes of the store have one name each, and no two have the same. -/
theorem Valid.forall₂_names (h : s.Valid) {ids : List NodeId} (hids : ∀ i ∈ ids, i ∈ s.names.idSet) :
    List.Forall₂ s.Named ids (ids.filterMap s.names.name?) := by
  induction ids with
  | nil => exact .nil
  | cons i ids ih =>
    obtain ⟨n, hn⟩ := (s.names.mem_idSet i).1 (hids i List.mem_cons_self)
    rw [List.filterMap_cons_some hn]
    exact .cons (h.named_of_name? hn) (ih fun j hj => hids j (List.mem_cons_of_mem i hj))

theorem Valid.nodup_names (h : s.Valid) {ids : List NodeId} (hids : ids.Nodup) :
    (ids.filterMap s.names.name?).Nodup :=
  hids.filterMap fun _ _ _ hi hj => h.names.id_inj hi hj

/-- Whatever plans a path holds, its answers on a store are nodes of the store. Each has a name, the
names are listed in the order of the ids and none twice, and a name leads back to its id. -/
theorem names_of_evaluate (h : s.Reachable) {p : Path} {plan : Plan} {ids : IdSet}
    (hplan : p.buildOn s.source = .ok plan) (hids : plan.evaluate s.source = .ok ids) :
    (∃ nodes, s.source.allNodes = .ok nodes ∧ ∀ i ∈ ids, i ∈ nodes) ∧
    ∃ names, s.source.names ids = .ok names ∧ ids.toList.Pairwise (· < ·) ∧ names.Nodup ∧
      List.Forall₂ s.Named ids.toList names := by
  obtain ⟨plan', hplan', hmeaning, -⟩ := h.valid.compiles.1 p s.source.seed
  obtain rfl : plan' = plan := Except.ok.inj (hplan'.symm.trans hplan)
  have nodes : ∀ i ∈ ids, i ∈ s.names.idSet := by
    intro i hi
    have image : i ∈ p.image s.graph s.graph.nodes := by
      rw [← meaning_seed, ← hmeaning]
      exact (plan'.sound ids hids i).1 hi
    exact h.valid.graph_closed.image_subset.1 p _ subset_rfl image
  have sorted : ids.toList.Pairwise (· < ·) := ids.pairwise_toList
  have distinct : ids.toList.Nodup := sorted.imp UInt32.ne_of_lt
  refine ⟨⟨_, rfl, nodes⟩, _, namesOf_eq ids.toList, sorted, h.valid.nodup_names distinct, ?_⟩
  exact h.valid.forall₂_names fun i hi => nodes i (Std.ExtTreeSet.mem_toList.1 hi)

/-- The plan that is kept answers node 0, node 77, which is not there, and the ids of two quads, of
which 1 is the id of a node as well. -/
theorem names_of_evaluate_friends :
    let mixed : Plan := .or [.fixed (.ofList [0, 77]), .linksTo .subject .all]
    let p : Path := ⟨[.plan mixed, .or ⟨[.is ["bob"], .out .any], none⟩], none⟩
    ∃ plan ids, p.buildOn friends.source = .ok plan ∧ plan.evaluate friends.source = .ok ids ∧
      (∃ nodes, friends.source.allNodes = .ok nodes ∧ ∀ i ∈ ids, i ∈ nodes) ∧
      (∃ names, friends.source.names ids = .ok names ∧ ids.toList.Pairwise (· < ·) ∧ names.Nodup ∧
        List.Forall₂ friends.Named ids.toList names) ∧
      friends.source.names ids = .ok ["alice", "follows", "carol"] := by
  intro mixed p
  let plan : Plan := .or [.and [mixed, .all], .across .subject .object (.and [.all, .all])
    (.and [.fixed (.ofList [2]), .all])]
  have compiled : p.buildOn friends.source = .ok plan := by decide +kernel
  have found : (do
      let ids ← plan.evaluate friends.source
      friends.source.names ids) = .ok ["alice", "follows", "carol"] := by decide +kernel
  obtain ⟨ids, hids, hnames⟩ := bind_eq_ok.1 found
  obtain ⟨known, names⟩ := names_of_evaluate reachable_friends compiled hids
  exact ⟨plan, ids, compiled, hids, known, names, hnames⟩

end Traversal.Store
