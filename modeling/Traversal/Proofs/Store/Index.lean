import Mathlib.Data.List.Nodup
import Traversal.Store.Index

namespace Traversal

/-- `ids` answers the position of each element of `xs`, and nothing else. -/
def Positions {α : Type} [Ord α] [Std.TransOrd α] (xs : Array α)
    (ids : Std.ExtTreeMap α UInt32) : Prop :=
  ∀ (a : α) (i : UInt32), ids[a]? = some i ↔ xs[i.toNat]? = some a

namespace Positions

variable {α : Type} [Ord α] [Std.TransOrd α] {xs : Array α} {ids : Std.ExtTreeMap α UInt32}

theorem empty : Positions (#[] : Array α) ∅ := by
  intro a i
  simp

theorem eq_of_getElem? (h : Positions xs ids) {a : α} {i j : UInt32}
    (hi : xs[i.toNat]? = some a) (hj : xs[j.toNat]? = some a) : i = j := by
  have e : some i = some j := ((h a i).2 hi).symm.trans ((h a j).2 hj)
  exact Option.some.inj e

theorem getElem?_ne (h : Positions xs ids) {a : α} (new : ids[a]? = none) (i : UInt32) :
    xs[i.toNat]? ≠ some a := by
  intro hi
  have e := (h a i).2 hi
  rw [new] at e
  cases e

end Positions

/-- An element of a table that fits the range of ids has an id. -/
theorem exists_id {α : Type} {xs : Array α} (hs : xs.size ≤ UInt32.size) {a : α} (ha : a ∈ xs) :
    ∃ i : UInt32, xs[i.toNat]? = some a := by
  obtain ⟨k, hk, rfl⟩ := Array.mem_iff_getElem.1 ha
  refine ⟨UInt32.ofNat k, ?_⟩
  rw [UInt32.toNat_ofNat_of_lt' (by omega)]
  exact Array.getElem?_eq_getElem hk

theorem Positions.nodup {α : Type} [Ord α] [Std.TransOrd α] {xs : Array α}
    {ids : Std.ExtTreeMap α UInt32} (h : Positions xs ids) (hs : xs.size ≤ UInt32.size) :
    xs.toList.Nodup := by
  rw [List.nodup_iff_getElem?_ne_getElem?]
  intro k l hkl hl e
  have hl' : l < xs.size := by simpa using hl
  have hx : xs[l]? = some xs[l] := Array.getElem?_eq_getElem hl'
  have hk : xs[(UInt32.ofNat k).toNat]? = some xs[l] := by
    rw [UInt32.toNat_ofNat_of_lt' (by omega)]
    simpa [hx] using e
  have hl : xs[(UInt32.ofNat l).toNat]? = some xs[l] := by
    rw [UInt32.toNat_ofNat_of_lt' (by omega)]
    exact hx
  have hi := congrArg UInt32.toNat (h.eq_of_getElem? hk hl)
  rw [UInt32.toNat_ofNat_of_lt' (by omega), UInt32.toNat_ofNat_of_lt' (by omega)] at hi
  omega

/-- An id of a longer table is an old id with its old element, or the id of the new end. -/
theorem getElem?_push_toNat {α : Type} {xs : Array α} (hs : xs.size < UInt32.size) {a b : α}
    {i : UInt32} : (xs.push a)[i.toNat]? = some b ↔
      xs[i.toNat]? = some b ∨ i = .ofNat xs.size ∧ b = a := by
  rw [eq_ofNat_iff hs, Array.getElem?_push]
  by_cases hi : i.toNat = xs.size
  · rw [if_pos hi]
    simp [hi, eq_comm]
  · rw [if_neg hi]
    simp [hi]

theorem Positions.push {α : Type} [Ord α] [Std.TransOrd α] [Std.LawfulEqOrd α] {xs : Array α}
    {ids : Std.ExtTreeMap α UInt32} (h : Positions xs ids) (hs : xs.size < UInt32.size) {a : α}
    (new : ids[a]? = none) : Positions (xs.push a) (ids.insert a (.ofNat xs.size)) := by
  intro b i
  rw [Std.ExtTreeMap.getElem?_insert, getElem?_push_toNat hs]
  by_cases hab : a = b
  · subst hab
    have old := h.getElem?_ne new i
    simp [old, eq_comm]
  · simp [hab, Ne.symm hab, h b i]

namespace QuadIndex

/-- No quad is stored twice, and a place lists the quads that hold its node in its role. -/
structure Valid (x : QuadIndex) : Prop where
  positions : Positions x.quads x.ids
  size_le : x.quads.size ≤ capacity
  mem_quadsWith : ∀ role node id, id ∈ x.quadsWith role node ↔
    ∃ q, x.quad? id = some q ∧ q.node? role = some node

theorem mem_addPlace (id : QuadId) (q : Quad) (places : Std.ExtTreeMap Place IdSet)
    (new role : Role) (node : NodeId) (i : QuadId) :
    i ∈ (addPlace id q places new).getD ⟨role, node⟩ ∅ ↔
      i ∈ places.getD ⟨role, node⟩ ∅ ∨ i = id ∧ new = role ∧ q.node? role = some node := by
  unfold addPlace
  cases hq : q.node? new with
  | none =>
    constructor
    · exact .inl
    · intro h
      rcases h with h | ⟨-, rfl, h⟩
      · exact h
      · rw [hq] at h
        cases h
  | some m =>
    simp only [Std.ExtTreeMap.getD_insert, Std.LawfulEqCmp.compare_eq_iff_eq, Place.mk.injEq]
    by_cases hp : new = role ∧ m = node
    · obtain ⟨rfl, rfl⟩ := hp
      rw [if_pos ⟨rfl, rfl⟩, Std.ExtTreeSet.mem_insert, Std.LawfulEqCmp.compare_eq_iff_eq, or_comm]
      simp [hq, eq_comm (a := id)]
    · rw [if_neg hp]
      constructor
      · exact .inl
      · intro h
        rcases h with h | ⟨-, rfl, h⟩
        · exact h
        · rw [hq] at h
          exact absurd ⟨rfl, Option.some.inj h⟩ hp

theorem mem_foldl_addPlace (id : QuadId) (q : Quad) (roles : List Role)
    (places : Std.ExtTreeMap Place IdSet) (role : Role) (node : NodeId) (i : QuadId) :
    i ∈ (roles.foldl (addPlace id q) places).getD ⟨role, node⟩ ∅ ↔
      i ∈ places.getD ⟨role, node⟩ ∅ ∨ i = id ∧ role ∈ roles ∧ q.node? role = some node := by
  induction roles generalizing places with
  | nil => simp
  | cons r roles ih =>
    rw [List.foldl_cons, ih, mem_addPlace, List.mem_cons, or_assoc]
    constructor
    · intro h
      rcases h with h | ⟨hi, rfl, hn⟩ | ⟨hi, hr, hn⟩
      · exact .inl h
      · exact .inr ⟨hi, .inl rfl, hn⟩
      · exact .inr ⟨hi, .inr hr, hn⟩
    · intro h
      rcases h with h | ⟨hi, rfl | hr, hn⟩
      · exact .inl h
      · exact .inr (.inl ⟨hi, rfl, hn⟩)
      · exact .inr (.inr ⟨hi, hr, hn⟩)

namespace Valid

variable {x : QuadIndex}

theorem empty : ({} : QuadIndex).Valid where
  positions := Positions.empty
  size_le := Nat.zero_le _
  mem_quadsWith role node id := by simp [quadsWith, quad?]

theorem quad?_inj (h : x.Valid) {i j : QuadId} {q : Quad} (hi : x.quad? i = some q)
    (hj : x.quad? j = some q) : i = j :=
  h.positions.eq_of_getElem? hi hj

theorem mem_quads (h : x.Valid) (q : Quad) : q ∈ x.quads ↔ ∃ id, x.quad? id = some q := by
  constructor
  · exact exists_id h.size_le
  · intro hh
    obtain ⟨id, hid⟩ := hh
    exact Array.mem_of_getElem? hid

theorem push (h : x.Valid) (room : x.quads.size < capacity) {q : Quad} (new : x.ids[q]? = none) :
    Valid {
      quads := x.quads.push q
      ids := x.ids.insert q (.ofNat x.quads.size)
      places := Role.all.foldl (addPlace (.ofNat x.quads.size) q) x.places } where
  positions := h.positions.push room new
  size_le := by simpa using Nat.succ_le_of_lt room
  mem_quadsWith role node id := by
    have old := h.mem_quadsWith role node id
    simp only [quadsWith, quad?] at old ⊢
    rw [mem_foldl_addPlace, old]
    simp only [getElem?_push_toNat room, Role.mem_all role, true_and]
    constructor
    · intro hh
      rcases hh with ⟨r, hr, hn⟩ | ⟨rfl, hn⟩
      · exact ⟨r, .inl hr, hn⟩
      · exact ⟨q, .inr ⟨rfl, rfl⟩, hn⟩
    · intro hh
      obtain ⟨r, hr | ⟨rfl, rfl⟩, hn⟩ := hh
      · exact .inl ⟨r, hr, hn⟩
      · exact .inr ⟨rfl, hn⟩

/-- A quad is found, stored behind the others, or refused because the ids have run out. -/
theorem insert_cases (h : x.Valid) (q : Quad) :
    (∃ id, x.quad? id = some q ∧ x.insert q = .ok (id, x)) ∨
    ((∀ id, x.quad? id ≠ some q) ∧ x.quads.size < capacity ∧
      ∃ y, x.insert q = .ok (.ofNat x.quads.size, y) ∧ y.Valid ∧ y.quads = x.quads.push q) ∨
    ((∀ id, x.quad? id ≠ some q) ∧ x.quads.size = capacity ∧ ∃ e, x.insert q = .error e) := by
  rw [QuadIndex.insert]
  cases hi : x.ids[q]? with
  | some id => exact .inl ⟨id, (h.positions q id).1 hi, rfl⟩
  | none =>
    have new : ∀ id, x.quad? id ≠ some q := h.positions.getElem?_ne hi
    by_cases room : x.quads.size < capacity
    · simp only [if_pos room]
      exact .inr (.inl ⟨new, room, _, rfl, h.push room hi, rfl⟩)
    · have full : x.quads.size = capacity := Nat.le_antisymm h.size_le (Nat.le_of_not_lt room)
      simp only [if_neg room]
      exact .inr (.inr ⟨new, full, _, rfl⟩)

end Valid

end QuadIndex

end Traversal
