import Mathlib.Data.Finset.Card
import Traversal.Proofs.Store.Names

namespace Traversal

section Arrivals

variable {α : Type} [DecidableEq α]

theorem nodup_arrivals {known : List α} (h : known.Nodup) (xs : List α) :
    (arrivals known xs).Nodup := by
  induction xs generalizing known with
  | nil => exact h
  | cons x xs ih =>
    rw [arrivals]
    split
    · exact ih h
    · rename_i new
      exact ih (by simpa using h.concat new)

/-- What comes up again is not counted again. -/
theorem length_arrivals (xs : List α) : (arrivals [] xs).length = xs.toFinset.card := by
  have same : (arrivals [] xs).toFinset = xs.toFinset := by
    ext a
    simp [mem_arrivals]
  rw [← same, List.toFinset_card_of_nodup (nodup_arrivals List.nodup_nil xs)]

end Arrivals

namespace NameTable

/-- The table after one call for each name; a call that fails changes nothing. -/
def internAll (t : NameTable) (names : List String) : NameTable :=
  names.foldl (fun t name => (intern name t).2) t

theorem internAll_append (t : NameTable) (front back : List String) :
    t.internAll (front ++ back) = (t.internAll front).internAll back :=
  List.foldl_append

namespace Valid

variable {t : NameTable}

/-- A call adds to the names at most. -/
theorem keeps_intern (h : t.Valid) (n : String) :
    (intern n t).2.Valid ∧ t.Kept (intern n t).2 := by
  rcases h.intern_cases n with ⟨i, -, e⟩ | ⟨-, -, e, hu, -⟩ | ⟨-, -, cause, e⟩
  · rw [e]
    exact ⟨h, .refl t⟩
  · rw [e]
    exact ⟨hu, h.kept_number n⟩
  · rw [e]
    exact ⟨h, .refl t⟩

theorem keeps_internAll (h : t.Valid) (names : List String) :
    (t.internAll names).Valid ∧ t.Kept (t.internAll names) := by
  induction names generalizing t with
  | nil => exact ⟨h, .refl t⟩
  | cons n names ih =>
    obtain ⟨hu, first⟩ := h.keeps_intern n
    obtain ⟨hv, later⟩ := ih hu
    exact ⟨hv, first.trans later⟩

theorem id?_internAll (h : t.Valid) (names : List String) {n : String} {i : NodeId}
    (hi : t.id? n = some i) : (t.internAll names).id? n = some i := by
  obtain ⟨hu, kept⟩ := h.keeps_internAll names
  rw [hu.inverse]
  exact kept i n ((h.inverse n i).1 hi)

/-- While there is room, new names stand in the order in which they come up. -/
theorem list_internAll (h : t.Valid) {names : List String}
    (room : (arrivals t.list names).length ≤ capacity) :
    (t.internAll names).list = arrivals t.list names := by
  induction names generalizing t with
  | nil => rfl
  | cons n names ih =>
    change ((intern n t).2.internAll names).list = _
    rcases h.intern_cases n with ⟨i, known, e⟩ | ⟨new, -, e, hu, hul⟩ | ⟨new, full, cause, e⟩
    · have old : n ∈ t.list := (mem_list t n).2 ⟨i, (h.inverse n i).1 known⟩
      rw [arrivals, if_pos old] at room ⊢
      rw [e]
      exact ih h room
    · rw [arrivals, if_neg new, ← hul] at room ⊢
      rw [e]
      exact ih hu room
    · -- The new name would be one too many.
      rw [arrivals, if_neg new] at room
      have longer := (prefix_arrivals (t.list ++ [n]) names).length_le
      have size : t.list.length = capacity := t.length_list.trans full
      rw [List.length_append, List.length_singleton] at longer
      omega

end Valid

theorem list_internAll_empty {names : List String} (room : names.toFinset.card ≤ capacity) :
    (internAll {} names).list = arrivals [] names :=
  Valid.empty.list_internAll (by rwa [← length_arrivals] at room)

theorem size_internAll {names : List String} (room : names.toFinset.card ≤ capacity) :
    (internAll {} names).size = names.toFinset.card := by
  rw [← length_arrivals, ← list_internAll_empty room, length_list]

/-- Each call answers the id that the name keeps; at its first occurrence this is the number of
the names before it. -/
theorem exists_id_internAll {front back : List String} {n : String}
    (room : (front ++ n :: back).toFinset.card ≤ capacity) :
    ∃ i, (intern n (internAll {} front)).1 = .ok i ∧
      (internAll {} (front ++ n :: back)).id? n = some i ∧
      (n ∉ front → i.toNat = front.toFinset.card) := by
  have whole : (front ++ n :: back).toFinset = front.toFinset ∪ insert n back.toFinset := by simp
  rw [whole] at room
  have fits : front.toFinset.card ≤ capacity :=
    (Finset.card_le_card Finset.subset_union_left).trans room
  have valid := (Valid.empty.keeps_internAll front).1
  have mem : n ∈ (internAll {} front).list ↔ n ∈ front := by
    simp [list_internAll_empty fits, mem_arrivals]
  have split : internAll {} (front ++ n :: back) =
      (intern n (internAll {} front)).2.internAll back :=
    internAll_append {} front (n :: back)
  rw [split]
  rcases valid.intern_cases n with ⟨i, known, e⟩ | ⟨new, -, e, hu, -⟩ | ⟨new, full, -⟩
  · have old : n ∈ front := mem.1 ((mem_list _ n).2 ⟨i, (valid.inverse n i).1 known⟩)
    rw [e]
    exact ⟨i, rfl, valid.id?_internAll back known, fun first => absurd old first⟩
  · rw [e]
    refine ⟨_, rfl, hu.id?_internAll back ?_, fun _ => ?_⟩
    · rw [id?_number, if_pos rfl]
    · rw [← size_internAll fits, valid.size_eq]
  · -- All ids are taken before the last of the distinct names.
    rw [size_internAll fits] at full
    have first : n ∉ front.toFinset := fun h => new (mem.2 (List.mem_toFinset.1 h))
    have more : (insert n front.toFinset).card ≤ (front.toFinset ∪ insert n back.toFinset).card :=
      Finset.card_le_card (Finset.insert_subset (by simp) Finset.subset_union_left)
    rw [Finset.card_insert_of_notMem first] at more
    omega

/-- After any calls that number no more names than there are ids, names and ids belong to each other
one to one; the ids are those below the number of names; a name has as its id the number of
names that came up before it; and no call takes an answer back. -/
theorem internAll_laws {names : List String} (room : names.toFinset.card ≤ capacity) :
    let t := internAll {} names
    (∀ n i, t.id? n = some i ↔ t.name? i = some n) ∧
    (t.size = names.toFinset.card ∧ (∀ i, (∃ n, t.name? i = some n) ↔ i.toNat < t.size) ∧
      ∀ i, i ∈ t.idSet ↔ i.toNat < t.size) ∧
    (∀ front n back, names = front ++ n :: back →
      ∃ i, (intern n (internAll {} front)).1 = .ok i ∧ t.id? n = some i ∧
        (n ∉ front → i.toNat = front.toFinset.card)) ∧
    ∀ more, (∀ n i, t.id? n = some i → (t.internAll more).id? n = some i) ∧
      ∀ i n, t.name? i = some n → (t.internAll more).name? i = some n := by
  intro t
  have valid : t.Valid := (Valid.empty.keeps_internAll names).1
  have used : ∀ i, (∃ n, t.name? i = some n) ↔ i.toNat < t.size := valid.size_eq ▸ valid.used
  refine ⟨valid.inverse, ⟨size_internAll room, used, fun i => ?_⟩, ?_, fun more => ?_⟩
  · rw [mem_idSet, used]
  · rintro front n back rfl
    exact exists_id_internAll room
  · exact ⟨fun n i => valid.id?_internAll more, (valid.keeps_internAll more).2⟩

/-- Four calls for three names, one of them empty, and later two more. -/
theorem internAll_laws_three :
    let names := ["bob", "", "bob", "alice"]
    let t := internAll {} names
    names.toFinset.card ≤ capacity ∧ t.size = 3 ∧ t.id? "alice" = some 2 ∧
      (t.internAll ["eve", ""]).name? 2 = some "alice" := by
  intro names t
  have room : names.toFinset.card ≤ capacity := by decide +kernel
  obtain ⟨pairs, ⟨count, -⟩, calls, later⟩ := internAll_laws room
  have distinct : names.toFinset.card = 3 := by decide +kernel
  have before : ["bob", "", "bob"].toFinset.card = 2 := by decide +kernel
  obtain ⟨i, -, known, number⟩ := calls ["bob", "", "bob"] "alice" [] rfl
  have second : i = 2 := by
    apply UInt32.toNat_inj.1
    rw [number (by decide), before]
    rfl
  rw [second] at known
  exact ⟨room, count.trans distinct, known, (later _).2 2 "alice" ((pairs _ _).1 known)⟩

end NameTable

end Traversal
