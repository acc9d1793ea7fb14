import Traversal.Proofs.Path.Transfer
import Traversal.Proofs.Query.Answer
import Traversal.Proofs.Store.Content

namespace Traversal.Store

variable {s t : Store}

/-- The ids stand for one and the same name, each in its store. -/
def SameName (s t : Store) (i j : NodeId) : Prop :=
  ∃ n, s.names.name? i = some n ∧ t.names.name? j = some n

theorem SameName.symm {i j : NodeId} (h : SameName s t i j) : SameName t s j i := by
  obtain ⟨n, hi, hj⟩ := h
  exact ⟨n, hj, hi⟩

/-- An edge is a statement about the names of its ends and of its predicate. -/
theorem Valid.edge_iff (h : s.Valid) (x p y : NodeId) :
    s.graph.edge x p y ↔ ∃ st ∈ s.statements, s.names.name? x = some st.subject ∧
      s.names.name? p = some st.predicate ∧ s.names.name? y = some st.object := by
  constructor
  · intro hh
    obtain ⟨q, hq, rfl, rfl, rfl⟩ := hh
    obtain ⟨id, hid⟩ := (h.index.mem_quads q).1 hq
    obtain ⟨st, hst⟩ := h.named id q hid
    have stored := (h.mem_statements st).2 ⟨id, (statement?_eq_some s id st).2 ⟨q, hid, hst⟩⟩
    have role := (NameTable.statement?_eq_some s.names q st).1 hst
    exact ⟨st, stored, Option.some.inj (role .subject), Option.some.inj (role .predicate),
      Option.some.inj (role .object)⟩
  · intro hh
    obtain ⟨st, hst, hx, hp, hy⟩ := hh
    obtain ⟨id, hid⟩ := (h.mem_statements st).1 hst
    obtain ⟨q, hq, hqs⟩ := (statement?_eq_some s id st).1 hid
    have role := (NameTable.statement?_eq_some s.names q st).1 hqs
    have hx' := h.names.id_inj (Option.some.inj (role .subject)) hx
    have hp' := h.names.id_inj (Option.some.inj (role .predicate)) hp
    have hy' := h.names.id_inj (Option.some.inj (role .object)) hy
    exact ⟨q, (h.index.mem_quads q).2 ⟨id, hq⟩, hx', hp', hy'⟩

namespace SameContent

theorem exists_same (c : SameContent s t) {i : NodeId} {n : String}
    (hi : s.names.name? i = some n) : ∃ j, SameName s t i j := by
  have known : n ∈ t.names.list := (c.names n).1 ((s.names.mem_list n).2 ⟨i, hi⟩)
  obtain ⟨j, hj⟩ := (t.names.mem_list n).1 known
  exact ⟨j, n, hi, hj⟩

theorem edge_ends (c : SameContent s t) (hs : s.Valid) {x p y : NodeId}
    (h : s.graph.edge x p y) :
    (∃ x', SameName s t x x') ∧ (∃ p', SameName s t p p') ∧ ∃ y', SameName s t y y' := by
  obtain ⟨st, -, hx, hp, hy⟩ := (hs.edge_iff x p y).1 h
  exact ⟨c.exists_same hx, c.exists_same hp, c.exists_same hy⟩

theorem edge_of_edge (c : SameContent s t) (hs : s.Valid) (ht : t.Valid) {x p y x' p' y' : NodeId}
    (hx : SameName s t x x') (hp : SameName s t p p') (hy : SameName s t y y')
    (h : s.graph.edge x p y) : t.graph.edge x' p' y' := by
  obtain ⟨st, hst, hx', hp', hy'⟩ := (hs.edge_iff x p y).1 h
  have carry {i j : NodeId} {n : String} (hij : SameName s t i j)
      (hi : s.names.name? i = some n) : t.names.name? j = some n := by
    obtain ⟨m, hm, hj⟩ := hij
    rwa [← Option.some.inj (hm.symm.trans hi)]
  exact (ht.edge_iff x' p' y').2 ⟨st, (c.statements st).1 hst, carry hx hx', carry hp hp',
    carry hy hy'⟩

/-- Ids differ, but names tie the graphs of the stores together. -/
theorem graph_matches (c : SameContent s t) (hs : s.Valid) (ht : t.Valid) :
    Graph.Matches (SameName s t) s.graph t.graph where
  nodes i j := by
    intro h
    obtain ⟨n, hi, hj⟩ := h
    exact iff_of_true ((s.names.mem_idSet i).2 ⟨n, hi⟩) ((t.names.mem_idSet j).2 ⟨n, hj⟩)
  node? n i j := by
    intro h
    obtain ⟨m, hi, hj⟩ := h
    change s.names.id? n = some i ↔ t.names.id? n = some j
    rw [hs.names.inverse, ht.names.inverse, hi, hj]
  edge x x' p p' y y' hx hp hy :=
    ⟨c.edge_of_edge hs ht hx hp hy, c.symm.edge_of_edge ht hs hx.symm hp.symm hy.symm⟩
  left x p y h := c.edge_ends hs h
  right x' p' y' h := by
    obtain ⟨⟨x, hx⟩, ⟨p, hp⟩, y, hy⟩ := c.symm.edge_ends ht h
    exact ⟨⟨x, hx.symm⟩, ⟨p, hp.symm⟩, y, hy.symm⟩

end SameContent

/-- A query without plans succeeds, and it answers the names of the image of all nodes. -/
theorem Valid.exists_answer (h : s.Valid) {p : Path} (hp : p.planFree = true) :
    ∃ a, p.queryOn s.source = .ok a ∧ ∀ n, n ∈ a.names ↔
      ∃ i ∈ p.image s.graph s.graph.nodes, s.names.name? i = some n := by
  obtain ⟨a, ha, image, names⟩ := h.exists_query hp
  refine ⟨a, ha, fun n => ?_⟩
  simp only [names, image]

theorem SameContent.names_subset (c : SameContent s t) (hs : s.Valid) (ht : t.Valid) {p : Path}
    (hp : p.planFree = true) {n : String}
    (h : ∃ i ∈ p.image s.graph s.graph.nodes, s.names.name? i = some n) :
    ∃ j ∈ p.image t.graph t.graph.nodes, t.names.name? j = some n := by
  obtain ⟨i, himage, hi⟩ := h
  obtain ⟨j, m, hm, hj⟩ := c.exists_same hi
  have m' := c.graph_matches hs ht
  refine ⟨j, (m'.transfers.1 p hp _ _ m'.nodes i j ⟨m, hm, hj⟩).1 himage, ?_⟩
  rwa [← Option.some.inj (hm.symm.trans hi)]

/-- Stores to which the same statements were added, in any order and however often, have the same
sizes, and every path without plans answers the same names on them. -/
theorem queryOn_addAll {sts us : List Statement} (same : ∀ st, st ∈ sts ↔ st ∈ us)
    (hs : addAll sts {} = (.ok (), s)) (ht : addAll us {} = (.ok (), t)) :
    s.size = t.size ∧ s.nodeCount = t.nodeCount ∧ ∀ p : Path, p.planFree = true →
      ∃ a b, p.queryOn s.source = .ok a ∧ p.queryOn t.source = .ok b ∧
        ∀ n, n ∈ a.names ↔ n ∈ b.names := by
  have c := SameContent.of_addAll same hs ht
  have vs := (Valid.empty.addAll_ok hs).1
  have vt := (Valid.empty.addAll_ok ht).1
  refine ⟨c.size_eq vs vt, c.nodeCount_eq vs vt, fun p hp => ?_⟩
  obtain ⟨a, ha, hna⟩ := vs.exists_answer hp
  obtain ⟨b, hb, hnb⟩ := vt.exists_answer hp
  refine ⟨a, b, ha, hb, fun n => ?_⟩
  rw [hna, hnb]
  exact ⟨c.names_subset vs vt hp, c.symm.names_subset vt vs hp⟩

/-- The later order gives `bob` another id, and yet the successors of `bob` are the same. -/
theorem queryOn_addAll_friends : ∃ s t,
    addAll [⟨"alice", "follows", "bob", none⟩, ⟨"bob", "follows", "carol", some "work"⟩] {} =
      (.ok (), s) ∧
    addAll [⟨"bob", "follows", "carol", some "work"⟩, ⟨"alice", "follows", "bob", none⟩,
      ⟨"bob", "follows", "carol", some "work"⟩] {} = (.ok (), t) ∧
    s.names.id? "bob" ≠ t.names.id? "bob" ∧ s.size = t.size ∧ s.nodeCount = t.nodeCount ∧
    ∃ a b, (⟨[.is ["bob"], .out .any], none⟩ : Path).queryOn s.source = .ok a ∧
      (⟨[.is ["bob"], .out .any], none⟩ : Path).queryOn t.source = .ok b ∧
      ∀ n, n ∈ a.names ↔ n ∈ b.names := by
  have same : ∀ st : Statement,
      st ∈ [⟨"alice", "follows", "bob", none⟩, ⟨"bob", "follows", "carol", some "work"⟩] ↔
        st ∈ [⟨"bob", "follows", "carol", some "work"⟩, ⟨"alice", "follows", "bob", none⟩,
          ⟨"bob", "follows", "carol", some "work"⟩] := by
    intro st
    simp only [List.mem_cons]
    tauto
  obtain ⟨size, count, query⟩ := queryOn_addAll same rfl rfl
  exact ⟨_, _, rfl, rfl, by decide, size, count, query _ rfl⟩

end Traversal.Store
