import Std.Data.ExtTreeSet

namespace Traversal

/-- The number of a node; subjects, predicates, objects and labels share one numbering. -/
abbrev NodeId := UInt32

/-- The position of a quad in its store. -/
abbrev QuadId := UInt32

/-- A set of node ids or of quad ids. Its members are listed in ascending order. -/
abbrev IdSet := Std.ExtTreeSet UInt32

/-- Within the range of ids, an id is as good as its number. -/
theorem eq_ofNat_iff {i : UInt32} {n : Nat} (h : n < UInt32.size) :
    i = .ofNat n ↔ i.toNat = n := by
  constructor
  · rintro rfl
    exact UInt32.toNat_ofNat_of_lt' h
  · rintro rfl
    exact UInt32.ofNat_toNat.symm

namespace IdSet

theorem pairwise_toList (ids : IdSet) : ids.toList.Pairwise (· < ·) :=
  Std.ExtTreeSet.ordered_toList.imp Std.compare_eq_lt.1

end IdSet

end Traversal
