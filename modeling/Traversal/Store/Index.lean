import Std.Data.ExtTreeMap
import Traversal.Quad.Basic
import Traversal.StoreError

namespace Traversal

/-- A node in a role. -/
@[ext] structure Place where
  role : Role
  node : NodeId
deriving DecidableEq

namespace Place

instance : Ord Place where
  compare := compareLex (compareOn fun p => p.role.rank) (compareOn (·.node))

theorem compare_def : compare (α := Place) =
    compareLex (compareOn fun p => p.role.rank) (compareOn (·.node)) := rfl

instance : Std.TransOrd Place := inferInstanceAs <| Std.TransCmp (compareLex _ _)

instance : Std.LawfulEqOrd Place where
  eq_of_compare {a b} h := by
    simp only [compare_def, compareLex_eq_eq] at h
    ext1
    · exact Role.rank_inj.1 (Std.LawfulEqOrd.eq_of_compare h.1)
    · exact Std.LawfulEqOrd.eq_of_compare h.2

end Place

/-- Quads without repetition in order of arrival, with the id of each and the quads at each place. -/
structure QuadIndex where
  quads : Array Quad := #[]
  ids : Std.ExtTreeMap Quad QuadId := ∅
  places : Std.ExtTreeMap Place IdSet := ∅

namespace QuadIndex

/-- The largest number of quads. -/
def capacity : Nat := UInt32.size

def quad? (x : QuadIndex) (id : QuadId) : Option Quad :=
  x.quads[id.toNat]?

def quadsWith (x : QuadIndex) (role : Role) (node : NodeId) : IdSet :=
  x.places.getD ⟨role, node⟩ ∅

/-- Records the quad `id` at the place of one of its nodes. -/
def addPlace (id : QuadId) (q : Quad) (places : Std.ExtTreeMap Place IdSet) (role : Role) :
    Std.ExtTreeMap Place IdSet :=
  match q.node? role with
  | some node => places.insert ⟨role, node⟩ ((places.getD ⟨role, node⟩ ∅).insert id)
  | none => places

/-- The id of a quad, which is stored if it is new. -/
def insert (x : QuadIndex) (q : Quad) : Except StoreError (QuadId × QuadIndex) :=
  match x.ids[q]? with
  | some id => .ok (id, x)
  | none =>
    if x.quads.size < capacity then
      let id := UInt32.ofNat x.quads.size
      .ok (id,
        { quads := x.quads.push q
          ids := x.ids.insert q id
          places := Role.all.foldl (addPlace id q) x.places })
    else .error (.full s!"quad id space exhausted at {x.quads.size} quads")

end QuadIndex

end Traversal
