import Traversal.Proofs.Store.Valid

namespace Traversal.Store

/-- What is stored, in the order of the ids. -/
def statements (s : Store) : List Statement :=
  s.index.quads.toList.filterMap s.names.statement?

namespace Valid

variable {s t : Store}

theorem mem_statements (h : s.Valid) (st : Statement) :
    st ∈ s.statements ↔ ∃ id, s.statement? id = some st := by
  simp only [statements, List.mem_filterMap, Array.mem_toList_iff, h.index.mem_quads,
    statement?_eq_some]
  constructor
  · intro hh
    obtain ⟨q, ⟨id, hid⟩, hq⟩ := hh
    exact ⟨id, q, hid, hq⟩
  · intro hh
    obtain ⟨id, q, hid, hq⟩ := hh
    exact ⟨q, ⟨id, hid⟩, hq⟩

/-- Names that are added later do not change what is stored. -/
theorem statements_mono (h : s.Valid) {names : NameTable} (kept : s.names.Kept names) :
    s.index.quads.toList.filterMap names.statement? = s.statements := by
  apply List.filterMap_congr
  intro q hq
  obtain ⟨id, hid⟩ := (h.index.mem_quads q).1 (Array.mem_toList_iff.1 hq)
  obtain ⟨st, hst⟩ := h.named id q hid
  rw [hst, kept.statement? hst]

theorem length_statements (h : s.Valid) : s.statements.length = s.size := by
  have all : s.statements.length = s.index.quads.toList.length := by
    rw [statements, List.filterMap_length_eq_length]
    intro q hq
    obtain ⟨id, hid⟩ := (h.index.mem_quads q).1 (Array.mem_toList_iff.1 hq)
    obtain ⟨st, hst⟩ := h.named id q hid
    rw [hst]
    rfl
  exact all.trans Array.length_toList

theorem nodup_statements (h : s.Valid) : s.statements.Nodup := by
  refine List.Nodup.filterMap ?_ (h.index.positions.nodup h.index.size_le)
  intro q r st hq hr
  exact h.names.statement?_inj hq hr

/-- A statement that is added stands behind the others if it is new, and so do its names. -/
theorem add_ok (h : s.Valid) {st : Statement} {id : QuadId}
    (hr : Store.add st s = (.ok id, t)) : t.Valid ∧ t.statements = arrivals s.statements [st] ∧
      t.names.list = arrivals s.names.list st.names := by
  rcases h.add_cases st with ⟨i, hi, e⟩ | ⟨new, -, u, q, e, hu, kept, hl, hq, hst⟩ |
    ⟨-, e', u, e, -⟩
  · rw [e] at hr
    cases hr
    have old : st ∈ s.statements := (h.mem_statements st).2 ⟨_, hi⟩
    have known : ∀ n ∈ st.names, n ∈ s.names.list := fun n hn => mem_list_of_statement? hi hn
    exact ⟨h, by simp [arrivals, old], (arrivals_eq_self _ _ known).symm⟩
  · rw [e] at hr
    cases hr
    have fresh : st ∉ s.statements := by
      intro old
      obtain ⟨i, hi⟩ := (h.mem_statements st).1 old
      exact new i hi
    refine ⟨hu, ?_, hl⟩
    rw [statements, hq, Array.toList_push, List.filterMap_append, h.statements_mono kept]
    simp [arrivals, fresh, hst]
  · rw [e] at hr
    cases hr

/-- Names and statements are kept in the order in which they first come up. -/
theorem addAll_ok (h : s.Valid) {sts : List Statement} (hr : addAll sts s = (.ok (), t)) :
    t.Valid ∧ t.statements = arrivals s.statements sts ∧
      t.names.list = arrivals s.names.list (sts.flatMap Statement.names) := by
  induction sts generalizing s with
  | nil =>
    cases hr
    exact ⟨h, rfl, rfl⟩
  | cons st sts ih =>
    rcases e : Store.add st s with ⟨_ | id, u⟩
    · rw [addAll, bind_of_error e] at hr
      cases hr
    · rw [addAll, bind_of_ok e] at hr
      obtain ⟨hu, hsts, hl⟩ := h.add_ok e
      obtain ⟨ht, hsts', hl'⟩ := ih hu hr
      refine ⟨ht, ?_, ?_⟩
      · rw [hsts', hsts, ← arrivals_append]
        rfl
      · rw [hl', hl, ← arrivals_append]
        rfl

end Valid

/-- The stores know the same names and hold the same statements, under whatever ids. -/
structure SameContent (s t : Store) : Prop where
  names : ∀ n, n ∈ s.names.list ↔ n ∈ t.names.list
  statements : ∀ st, st ∈ s.statements ↔ st ∈ t.statements

namespace SameContent

variable {s t : Store}

theorem symm (c : SameContent s t) : SameContent t s :=
  ⟨fun n => (c.names n).symm, fun st => (c.statements st).symm⟩

theorem size_eq (c : SameContent s t) (hs : s.Valid) (ht : t.Valid) : s.size = t.size := by
  have perm : s.statements.Perm t.statements :=
    (List.perm_ext_iff_of_nodup hs.nodup_statements ht.nodup_statements).2 c.statements
  rw [← hs.length_statements, ← ht.length_statements]
  exact perm.length_eq

theorem nodeCount_eq (c : SameContent s t) (hs : s.Valid) (ht : t.Valid) :
    s.nodeCount = t.nodeCount := by
  have perm : s.names.list.Perm t.names.list :=
    (List.perm_ext_iff_of_nodup hs.names.nodup ht.names.nodup).2 c.names
  rw [nodeCount, nodeCount, ← NameTable.length_list, ← NameTable.length_list]
  exact perm.length_eq

/-- Additions of the same statements, in any order and however often, lead to the same content. -/
theorem of_addAll {sts us : List Statement} (same : ∀ st, st ∈ sts ↔ st ∈ us)
    (hs : addAll sts {} = (.ok (), s)) (ht : addAll us {} = (.ok (), t)) : SameContent s t := by
  obtain ⟨-, hsts, hsn⟩ := Valid.empty.addAll_ok hs
  obtain ⟨-, hus, htn⟩ := Valid.empty.addAll_ok ht
  constructor
  · intro n
    rw [hsn, htn, mem_arrivals, mem_arrivals]
    simp only [List.mem_flatMap, same]
  · intro st
    rw [hsts, hus, mem_arrivals, mem_arrivals, same]

end SameContent

end Traversal.Store
