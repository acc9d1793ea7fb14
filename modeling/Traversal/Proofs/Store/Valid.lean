import Traversal.Proofs.Store.Index
import Traversal.Proofs.Store.Names
import Traversal.Store.Basic

namespace Traversal.Store

/-- The statement that is stored under an id. -/
def statement? (s : Store) (id : QuadId) : Option Statement := do
  let q ← s.index.quad? id
  s.names.statement? q

/-- Names and index are in order, and the nodes of every stored quad have names. -/
structure Valid (s : Store) : Prop where
  names : s.names.Valid
  index : s.index.Valid
  named : ∀ id q, s.index.quad? id = some q → ∃ st, s.names.statement? q = some st

/-- What is stored in `s` is stored in `t` under the same ids. -/
structure Kept (s t : Store) : Prop where
  names : s.names.Kept t.names
  quads : s.index.quads.toList <+: t.index.quads.toList

theorem Kept.refl (s : Store) : Kept s s :=
  ⟨.refl s.names, List.prefix_refl _⟩

theorem Kept.trans {s t u : Store} (h : Kept s t) (k : Kept t u) : Kept s u :=
  ⟨h.names.trans k.names, h.quads.trans k.quads⟩

theorem statement?_eq_some (s : Store) (id : QuadId) (st : Statement) :
    s.statement? id = some st ↔ ∃ q, s.index.quad? id = some q ∧ s.names.statement? q = some st :=
  Option.bind_eq_some_iff

theorem Kept.quad? {s t : Store} (h : Kept s t) {id : QuadId} {q : Quad}
    (hq : s.index.quad? id = some q) : t.index.quad? id = some q := by
  obtain ⟨more, ht⟩ := h.quads
  have hs : s.index.quads.toList[id.toNat]? = some q := by simpa [QuadIndex.quad?] using hq
  obtain ⟨hk, -⟩ := List.getElem?_eq_some_iff.1 hs
  have hu : t.index.quads.toList[id.toNat]? = some q := by
    rw [← ht, List.getElem?_append_left hk]
    exact hs
  simpa [QuadIndex.quad?] using hu

theorem Kept.statement? {s t : Store} (h : Kept s t) {id : QuadId} {st : Statement}
    (hst : s.statement? id = some st) : t.statement? id = some st := by
  rw [statement?_eq_some] at hst ⊢
  obtain ⟨q, hq, hn⟩ := hst
  exact ⟨q, h.quad? hq, h.names.statement? hn⟩

theorem exists_quad?_iff (s : Store) (id : QuadId) :
    (∃ q, s.index.quad? id = some q) ↔ id.toNat < s.size := by
  constructor
  · intro h
    obtain ⟨q, hq⟩ := h
    obtain ⟨hid, -⟩ := Array.getElem?_eq_some_iff.1 hq
    exact hid
  · intro hid
    exact ⟨s.index.quads[id.toNat], Array.getElem?_eq_getElem hid⟩

theorem mem_list_of_statement? {s : Store} {id : QuadId} {st : Statement}
    (hst : s.statement? id = some st) {n : String} (hn : n ∈ st.names) : n ∈ s.names.list := by
  obtain ⟨role, hrole⟩ := (st.mem_names n).1 hn
  obtain ⟨q, -, hq⟩ := (statement?_eq_some s id st).1 hst
  obtain ⟨node, -, hnode⟩ := NameTable.node_of_name hq hrole
  exact (s.names.mem_list n).2 ⟨node, hnode⟩

namespace Valid

variable {s : Store}

theorem empty : ({} : Store).Valid where
  names := .empty
  index := .empty
  named id q h := by simp [QuadIndex.quad?] at h

theorem statement?_inj (h : s.Valid) {i j : QuadId} {st : Statement}
    (hi : s.statement? i = some st) (hj : s.statement? j = some st) : i = j := by
  obtain ⟨q, hq, hqs⟩ := (statement?_eq_some s i st).1 hi
  obtain ⟨r, hr, hrs⟩ := (statement?_eq_some s j st).1 hj
  rw [← h.names.statement?_inj hqs hrs] at hr
  exact h.index.quad?_inj hq hr

theorem mem_idSet_of_node (h : s.Valid) {id : QuadId} {q : Quad} (hq : s.index.quad? id = some q)
    {role : Role} {node : NodeId} (hn : q.node? role = some node) : node ∈ s.names.idSet := by
  obtain ⟨st, hst⟩ := h.named id q hq
  obtain ⟨n, -, hnode⟩ := NameTable.name_of_node hst hn
  exact (s.names.mem_idSet node).2 ⟨n, hnode⟩

/-- The nodes of stored quads have names in any table that keeps the names of the store. -/
theorem named_mono (h : s.Valid) {names : NameTable} (kept : s.names.Kept names)
    {id : QuadId} {q : Quad} (hq : s.index.quad? id = some q) :
    ∃ st, names.statement? q = some st := by
  obtain ⟨st, hst⟩ := h.named id q hq
  exact ⟨st, kept.statement? hst⟩

theorem add_names (h : s.Valid) {names : NameTable} (hn : names.Valid)
    (kept : s.names.Kept names) : Valid ⟨names, s.index⟩ where
  names := hn
  index := h.index
  named _ _ hq := h.named_mono kept hq

/-- A quad that stands for a statement after names were added is stored just where the statement
was stored before. -/
theorem statement?_iff_quad? (h : s.Valid) {names : NameTable} (hn : names.Valid)
    (kept : s.names.Kept names) {q : Quad} {st : Statement}
    (hq : names.statement? q = some st) (id : QuadId) :
    s.statement? id = some st ↔ s.index.quad? id = some q := by
  constructor
  · intro hst
    obtain ⟨r, hid, hr⟩ := (statement?_eq_some s id st).1 hst
    rwa [hn.statement?_inj hq (kept.statement? hr)]
  · intro hid
    obtain ⟨st', hst⟩ := h.named id q hid
    have e := (kept.statement? hst).symm.trans hq
    exact (statement?_eq_some s id st).2 ⟨q, hid, hst.trans e⟩

/-- A statement is found, stored behind the others, or refused because ids have run out. -/
theorem add_cases (h : s.Valid) (st : Statement) :
    (∃ id, s.statement? id = some st ∧ add st s = (.ok id, s)) ∨
    ((∀ id, s.statement? id ≠ some st) ∧ s.size < QuadIndex.capacity ∧
      ∃ t q, add st s = (.ok (.ofNat s.size), t) ∧ t.Valid ∧ s.names.Kept t.names ∧
        t.names.list = arrivals s.names.list st.names ∧
        t.index.quads = s.index.quads.push q ∧ t.names.statement? q = some st) ∨
    ((∀ id, s.statement? id ≠ some st) ∧
      ∃ e t, add st s = (.error e, t) ∧ t.Valid ∧ s.names.Kept t.names ∧
        t.index = s.index ∧ (t.nodeCount = NameTable.capacity ∨ t.size = QuadIndex.capacity)) := by
  obtain ⟨names, hv, kept, ⟨q, hr, hl, hq⟩ | ⟨e, hr, hs, n, hn, new⟩⟩ :=
    NameTable.numbers_quad st s.names h.names
  · have old := h.statement?_iff_quad? hv kept hq
    rcases h.index.insert_cases q with ⟨id, hid, hi⟩ | ⟨new, room, y, hi, hy, hyq⟩ |
      ⟨new, full, e, hi⟩
    · have hst := (old id).2 hid
      have same : names.list = s.names.list := hl.trans
        (arrivals_eq_self _ _ fun n hn => mem_list_of_statement? hst hn)
      have hn : names = s.names := hv.eq_of_list h.names same
      exact .inl ⟨id, hst, by simp [add, hr, hi, hn]⟩
    · have hst : ∀ id, s.statement? id ≠ some st := fun id e => new id ((old id).1 e)
      have ht : Valid ⟨names, y⟩ := by
        refine ⟨hv, hy, ?_⟩
        intro id r hid
        rw [QuadIndex.quad?, hyq, getElem?_push_toNat room] at hid
        rcases hid with hid | ⟨-, rfl⟩
        · exact h.named_mono kept hid
        · exact ⟨st, hq⟩
      exact .inr (.inl ⟨hst, room, ⟨names, y⟩, q, by simp [add, hr, hi, size], ht, kept, hl, hyq,
        hq⟩)
    · have hst : ∀ id, s.statement? id ≠ some st := fun id e => new id ((old id).1 e)
      have ht : Valid ⟨names, s.index⟩ := h.add_names hv kept
      exact .inr (.inr ⟨hst, e, ⟨names, s.index⟩, by simp [add, hr, hi], ht, kept, rfl, .inr full⟩)
  · have hst : ∀ id, s.statement? id ≠ some st := fun id e => new (mem_list_of_statement? e hn)
    have ht : Valid ⟨names, s.index⟩ := h.add_names hv kept
    exact .inr (.inr ⟨hst, e, ⟨names, s.index⟩, by simp [add, hr], ht, kept, rfl, .inl hs⟩)

theorem add (h : s.Valid) (st : Statement) : (add st s).2.Valid ∧ Kept s (Store.add st s).2 := by
  rcases h.add_cases st with ⟨id, -, hr⟩ | ⟨-, -, t, q, hr, ht, kept, -, hq, -⟩ |
    ⟨-, e, t, hr, ht, kept, hi, -⟩
  · rw [hr]
    exact ⟨h, .refl s⟩
  · rw [hr]
    refine ⟨ht, kept, ?_⟩
    change s.index.quads.toList <+: t.index.quads.toList
    rw [hq, Array.toList_push]
    exact List.prefix_append _ _
  · rw [hr]
    refine ⟨ht, kept, ?_⟩
    change s.index.quads.toList <+: t.index.quads.toList
    rw [hi]

end Valid

end Traversal.Store
