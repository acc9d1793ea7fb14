import Traversal.Proofs.Store.Reachable

namespace Traversal.Store

/-- The answers of a store and the effect of an addition, told by the quads that are stored. -/
structure Exact (s : Store) : Prop where
  /-- The ids are the numbers below the size. -/
  numbered : ∀ id, (∃ q, s.source.quad id = .ok (some q)) ↔ id.toNat < s.size
  distinct : ∀ i j q, s.source.quad i = .ok (some q) → s.source.quad j = .ok (some q) → i = j
  indexed : ∀ role node, ∃ ids, s.source.quadsWith role node = .ok ids ∧ ∀ id, id ∈ ids ↔
    ∃ q, s.source.quad id = .ok (some q) ∧ q.node? role = some node
  known : ∃ nodes, s.source.allNodes = .ok nodes ∧ ∀ id q role node,
    s.source.quad id = .ok (some q) → q.node? role = some node → node ∈ nodes
  /-- A statement that is stored is found under its id, and nothing changes. -/
  found : ∀ st id, s.statement? id = some st → add st s = (.ok id, s)
  /-- A new statement gets the next id and leaves the earlier quads alone. It is refused only if
  the ids of names or of quads are used up. -/
  stored : ∀ st, (∀ id, s.statement? id ≠ some st) →
    (∃ id t, add st s = (.ok id, t) ∧ id.toNat = s.size ∧ t.size = s.size + 1 ∧
      t.statement? id = some st ∧
      ∀ i : QuadId, i.toNat < s.size → t.source.quad i = s.source.quad i) ∨
    ∃ e t, add st s = (.error e, t) ∧ t.index = s.index ∧
      (t.nodeCount = NameTable.capacity ∨ t.size = QuadIndex.capacity)

theorem quad_eq_ok (s : Store) (id : QuadId) (q : Quad) :
    s.source.quad id = .ok (some q) ↔ s.index.quad? id = some q := by
  simp [source]

namespace Valid

variable {s : Store}

theorem add_of_statement? (h : s.Valid) {st : Statement} {id : QuadId}
    (hst : s.statement? id = some st) : Store.add st s = (.ok id, s) := by
  rcases h.add_cases st with ⟨i, hi, hr⟩ | ⟨new, -⟩ | ⟨new, -⟩
  · rw [hr, h.statement?_inj hi hst]
  · exact absurd hst (new id)
  · exact absurd hst (new id)

theorem exact (h : s.Valid) : s.Exact where
  numbered id := by
    simp only [quad_eq_ok]
    exact exists_quad?_iff s id
  distinct i j q hi hj :=
    h.index.quad?_inj ((quad_eq_ok s i q).1 hi) ((quad_eq_ok s j q).1 hj)
  indexed role node := by
    refine ⟨s.index.quadsWith role node, rfl, ?_⟩
    simp only [quad_eq_ok]
    exact h.index.mem_quadsWith role node
  known := by
    refine ⟨s.names.idSet, rfl, ?_⟩
    intro id q role node hq hn
    exact h.mem_idSet_of_node ((quad_eq_ok s id q).1 hq) hn
  found st id hst := h.add_of_statement? hst
  stored st hst := by
    rcases h.add_cases st with ⟨id, hid, -⟩ | ⟨-, room, t, q, hr, -, -, -, hq, hqs⟩ |
      ⟨-, e, t, hr, -, -, hi, full⟩
    · exact absurd hid (hst id)
    · have hid : (UInt32.ofNat s.size).toNat = s.size := (eq_ofNat_iff room).1 rfl
      refine .inl ⟨.ofNat s.size, t, hr, hid, ?_, ?_, ?_⟩
      · simp [size, hq]
      · rw [statement?_eq_some]
        refine ⟨q, ?_, hqs⟩
        rw [QuadIndex.quad?, hq]
        exact (getElem?_push_toNat room).2 (.inr ⟨rfl, rfl⟩)
      · intro i hi
        change Except.ok (t.index.quad? i) = Except.ok (s.index.quad? i)
        rw [QuadIndex.quad?, hq, Array.getElem?_push_lt hi]
        exact congrArg Except.ok (Array.getElem?_eq_getElem hi).symm
    · exact .inr ⟨e, t, hr, hi, full⟩

end Valid

/-- Additions and loads, those that fail included, keep the index of a store exact. -/
theorem exact_after (changes : List Change) : (({} : Store).after changes).Exact :=
  (Valid.empty.after changes).1.exact

end Traversal.Store
