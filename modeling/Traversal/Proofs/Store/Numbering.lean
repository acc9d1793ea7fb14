import Mathlib.Data.List.Sort
import Traversal.NameTable

namespace Traversal.NameTable

theorem toNat_add_one {id : NodeId} (h : id.toNat < capacity) :
    (id + 1).toNat = id.toNat + 1 := by
  have range : capacity = 2 ^ 32 - 1 := rfl
  rw [UInt32.toNat_add, UInt32.toNat_one]
  omega

section Answers

variable (t : NameTable)

theorem mem_names (id : NodeId) : id ∈ t.names ↔ ∃ n, t.name? id = some n := by
  rw [Std.ExtTreeMap.mem_iff_isSome_getElem?, Option.isSome_iff_exists]
  rfl

theorem mem_idSet (id : NodeId) : id ∈ t.idSet ↔ ∃ n, t.name? id = some n := by
  rw [← mem_names]
  simp [idSet]

@[simp] theorem id?_number (m n : String) :
    (t.number n).id? m = if n = m then some t.next else t.id? m := by
  simp only [id?, number, Std.ExtTreeMap.getElem?_insert, Std.compare_eq_iff_eq]

@[simp] theorem name?_number (id : NodeId) (n : String) :
    (t.number n).name? id = if t.next = id then some n else t.name? id := by
  simp only [name?, number, Std.ExtTreeMap.getElem?_insert, Std.compare_eq_iff_eq]

/-- The names in the order of their ids. -/
def list : List String :=
  t.names.toList.map Prod.snd

theorem mem_list (n : String) : n ∈ t.list ↔ ∃ id, t.name? id = some n := by
  simp [list, name?]

theorem length_list : t.list.length = t.size := by
  rw [list, List.length_map, Std.ExtTreeMap.length_toList, size]

end Answers

/-- The names of `t` keep their ids in `u`. -/
def Kept (t u : NameTable) : Prop :=
  ∀ id n, t.name? id = some n → u.name? id = some n

theorem Kept.refl (t : NameTable) : Kept t t :=
  fun _ _ hn => hn

theorem Kept.trans {t u v : NameTable} (h : Kept t u) (k : Kept u v) : Kept t v :=
  fun id n hn => k id n (h id n hn)

theorem Kept.mem_list {t u : NameTable} (h : Kept t u) {n : String} (hn : n ∈ t.list) :
    n ∈ u.list := by
  rw [NameTable.mem_list] at hn ⊢
  obtain ⟨id, hid⟩ := hn
  exact ⟨id, h id n hid⟩

/-- The maps undo each other, and the ids that have names are those that the counter has passed. -/
structure Valid (t : NameTable) : Prop where
  inverse : ∀ n id, t.id? n = some id ↔ t.name? id = some n
  used : ∀ id, (∃ n, t.name? id = some n) ↔ id.toNat < t.next.toNat

namespace Valid

variable {t u : NameTable}

theorem empty : ({} : NameTable).Valid where
  inverse n id := by simp [id?, name?]
  used id := by simp [name?]

theorem id_inj (h : t.Valid) {i j : NodeId} {n : String} (hi : t.name? i = some n)
    (hj : t.name? j = some n) : i = j := by
  rw [← h.inverse] at hi hj
  exact Option.some.inj (hi.symm.trans hj)

theorem name?_eq_none (h : t.Valid) {id : NodeId} (beyond : ¬ id.toNat < t.next.toNat) :
    t.name? id = none := by
  apply Option.eq_none_iff_forall_ne_some.2
  intro n hn
  exact beyond ((h.used id).1 ⟨n, hn⟩)

/-- The next id is free, so a name that gets it takes it from none. -/
theorem kept_number (h : t.Valid) (n : String) : t.Kept (t.number n) := by
  intro id m hm
  have other : t.next ≠ id := by
    intro e
    subst e
    rw [h.name?_eq_none (Nat.lt_irrefl _)] at hm
    cases hm
  rw [name?_number, if_neg other]
  exact hm

/-- Both maps are kept in step with the counter. -/
theorem number (h : t.Valid) (room : t.next.toNat < capacity) {n : String}
    (new : t.id? n = none) : (t.number n).Valid where
  inverse m id := by
    rw [id?_number, name?_number]
    by_cases hn : n = m
    · subst hn
      have unused : t.name? id ≠ some n := by
        rw [ne_eq, ← h.inverse, new]
        exact nofun
      by_cases hid : t.next = id <;> simp [hid, unused]
    · by_cases hid : t.next = id
      · subst hid
        have unused : t.id? m ≠ some t.next := by
          rw [ne_eq, h.inverse, h.name?_eq_none (Nat.lt_irrefl _)]
          exact nofun
        simp [hn, unused]
      · rw [if_neg hn, if_neg hid]
        exact h.inverse m id
  used id := by
    have step : (t.number n).next.toNat = t.next.toNat + 1 := toNat_add_one room
    rw [step, Nat.lt_succ_iff_lt_or_eq, ← h.used, name?_number]
    by_cases hid : t.next = id
    · simp [hid]
    · have other : id.toNat ≠ t.next.toNat := fun e => hid (UInt32.toNat_inj.1 e).symm
      simp [hid, other]

/-- The ids that have names are listed without gaps. -/
theorem keys (h : t.Valid) : t.names.keys = (List.range t.next.toNat).map UInt32.ofNat := by
  have toNat : ∀ k < t.next.toNat, (UInt32.ofNat k).toNat = k :=
    fun k hk => UInt32.toNat_ofNat_of_lt' (hk.trans t.next.toNat_lt_size)
  have sorted : t.names.keys.Pairwise (· < ·) :=
    t.names.ordered_keys.imp Std.compare_eq_lt.1
  apply sorted.eq_of_mem_iff
  · rw [List.pairwise_map]
    refine List.pairwise_lt_range.imp_of_mem ?_
    intro k l hk hl hkl
    rw [List.mem_range] at hk hl
    rwa [UInt32.lt_iff_toNat_lt, toNat k hk, toNat l hl]
  · intro id
    rw [Std.ExtTreeMap.mem_keys, mem_names, h.used]
    simp only [List.mem_map, List.mem_range]
    constructor
    · intro hid
      exact ⟨id.toNat, hid, UInt32.ofNat_toNat⟩
    · intro listed
      obtain ⟨k, hk, rfl⟩ := listed
      rwa [toNat k hk]

theorem size_eq (h : t.Valid) : t.size = t.next.toNat := by
  rw [size, ← Std.ExtTreeMap.length_keys, h.keys, List.length_map, List.length_range]

theorem map_some_list (h : t.Valid) :
    t.list.map some = (List.range t.next.toNat).map fun k => t.name? (.ofNat k) := by
  calc t.list.map some
    _ = t.names.toList.map fun p => t.name? p.1 := by
      rw [list, List.map_map]
      apply List.map_congr_left
      intro p hp
      exact (Std.ExtTreeMap.mem_toList_iff_getElem?_eq_some.1 hp).symm
    _ = t.names.keys.map t.name? := by
      rw [← Std.ExtTreeMap.map_fst_toList_eq_keys, List.map_map]
      rfl
    _ = (List.range t.next.toNat).map fun k => t.name? (.ofNat k) := by
      rw [h.keys, List.map_map]
      rfl

/-- An id is the place of its name in the list. -/
theorem name?_eq_list (h : t.Valid) (id : NodeId) : t.name? id = t.list[id.toNat]? := by
  by_cases hid : id.toNat < t.next.toNat
  · have named : (t.list.map some)[id.toNat]? = some (t.name? id) := by
      rw [h.map_some_list, List.getElem?_map, List.getElem?_range hid, Option.map_some,
        UInt32.ofNat_toNat]
    rw [List.getElem?_map, Option.map_eq_some_iff] at named
    obtain ⟨n, place, same⟩ := named
    rw [place, same]
  · rw [h.name?_eq_none hid, List.getElem?_eq_none]
    rw [length_list, h.size_eq]
    exact Nat.le_of_not_lt hid

theorem list_number (h : t.Valid) (room : t.next.toNat < capacity) {n : String}
    (new : t.id? n = none) : (t.number n).list = t.list ++ [n] := by
  have later := h.number room new
  have step : (t.number n).next.toNat = t.next.toNat + 1 := toNat_add_one room
  have others : ∀ k ∈ List.range t.next.toNat,
      (t.number n).name? (.ofNat k) = t.name? (.ofNat k) := by
    intro k hk
    have below := List.mem_range.1 hk
    have other : t.next ≠ .ofNat k := by
      intro e
      rw [eq_ofNat_iff (below.trans t.next.toNat_lt_size)] at e
      exact below.ne' e
    rw [name?_number, if_neg other]
  have last : (t.number n).name? (.ofNat t.next.toNat) = some n := by
    rw [name?_number, UInt32.ofNat_toNat, if_pos rfl]
  apply List.map_injective_iff.2 (Option.some_injective String)
  rw [later.map_some_list, step, List.range_succ, List.map_append, List.map_append,
    List.map_congr_left others, ← h.map_some_list, List.map_singleton, last, List.map_singleton]

theorem nodup (h : t.Valid) : t.list.Nodup := by
  rw [list, List.Nodup, List.pairwise_map]
  refine t.names.distinct_keys_toList.imp_of_mem ?_
  intro a b ha hb different same
  have named : t.name? a.1 = some a.2 := Std.ExtTreeMap.mem_toList_iff_getElem?_eq_some.1 ha
  have named' : t.name? b.1 = some b.2 := Std.ExtTreeMap.mem_toList_iff_getElem?_eq_some.1 hb
  rw [← same] at named'
  exact different (Std.compare_eq_iff_eq.2 (h.id_inj named named'))

theorem eq_of_list (ht : t.Valid) (hu : u.Valid) (same : t.list = u.list) : t = u := by
  have names : t.names = u.names := by
    apply Std.ExtTreeMap.ext_getElem?
    intro id
    exact (ht.name?_eq_list id).trans (same ▸ (hu.name?_eq_list id).symm)
  have ids : t.ids = u.ids := by
    apply Std.ExtTreeMap.ext_getElem?
    intro n
    apply Option.ext
    intro id
    have answers : t.name? id = u.name? id := by rw [name?, name?, names]
    exact (ht.inverse n id).trans (answers ▸ (hu.inverse n id).symm)
  have next : t.next = u.next := by
    apply UInt32.toNat_inj.1
    rw [← ht.size_eq, ← hu.size_eq, size, size, names]
  cases t
  cases u
  cases names
  cases ids
  cases next
  rfl

end Valid

/-- A name that is known is answered; a new one gets the next id, unless the ids have run out. -/
theorem Valid.intern_cases {t : NameTable} (h : t.Valid) (n : String) :
    (∃ i, t.id? n = some i ∧ intern n t = (.ok i, t)) ∨
    (n ∉ t.list ∧ t.size < capacity ∧ intern n t = (.ok t.next, t.number n) ∧
      (t.number n).Valid ∧ (t.number n).list = t.list ++ [n]) ∨
    (n ∉ t.list ∧ t.size = capacity ∧ ∃ e, intern n t = (.error e, t)) := by
  rw [intern]
  cases hi : t.ids[n]? with
  | some i => exact .inl ⟨i, hi, rfl⟩
  | none =>
    have new : n ∉ t.list := by
      intro hmem
      obtain ⟨i, hn⟩ := (mem_list t n).1 hmem
      have known := (h.inverse n i).2 hn
      rw [id?, hi] at known
      cases known
    by_cases room : t.next.toNat < capacity
    · exact .inr (.inl ⟨new, h.size_eq ▸ room, if_pos room, h.number room hi,
        h.list_number room hi⟩)
    · have range : t.next.toNat < capacity + 1 := t.next.toNat_lt_size
      have full : t.size = capacity := by
        rw [h.size_eq]
        omega
      exact .inr (.inr ⟨new, full, _, if_neg room⟩)

end Traversal.NameTable
