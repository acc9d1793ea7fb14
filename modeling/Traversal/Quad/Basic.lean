import Std.Data.ExtTreeMap
import Traversal.Ids

namespace Traversal

/-- The four parts that a node can play in a quad. -/
inductive Role where
  | subject
  | predicate
  | object
  | label
deriving DecidableEq

namespace Role

def all : List Role := [subject, predicate, object, label]

def name : Role → String
  | subject => "subject"
  | predicate => "predicate"
  | object => "object"
  | label => "label"

def rank : Role → Nat
  | subject => 0
  | predicate => 1
  | object => 2
  | label => 3

theorem mem_all (r : Role) : r ∈ all := by
  cases r <;> decide

theorem rank_inj {r s : Role} : r.rank = s.rank ↔ r = s := by
  cases r <;> cases s <;> decide

end Role

/-- An edge from subject to object through a predicate, with an optional label. -/
@[ext] structure Quad where
  subject : NodeId
  predicate : NodeId
  object : NodeId
  label : Option NodeId := none
deriving DecidableEq

namespace Quad

/-- The node in the given role; only a label can be absent. -/
def node? (q : Quad) : Role → Option NodeId
  | .subject => some q.subject
  | .predicate => some q.predicate
  | .object => some q.object
  | .label => q.label

instance : Ord Quad where
  compare := compareLex (compareOn (·.subject)) <| compareLex (compareOn (·.predicate)) <|
    compareLex (compareOn (·.object)) (compareOn (·.label))

theorem compare_def : compare (α := Quad) =
    (compareLex (compareOn (·.subject)) <| compareLex (compareOn (·.predicate)) <|
      compareLex (compareOn (·.object)) (compareOn (·.label))) := rfl

instance : Std.TransOrd Quad := inferInstanceAs <| Std.TransCmp (compareLex _ _)

instance : Std.LawfulEqOrd Quad where
  eq_of_compare {a b} h := by
    simp only [compare_def, compareLex_eq_eq] at h
    ext1
    · exact Std.LawfulEqOrd.eq_of_compare h.1
    · exact Std.LawfulEqOrd.eq_of_compare h.2.1
    · exact Std.LawfulEqOrd.eq_of_compare h.2.2.1
    · exact Std.LawfulEqOrd.eq_of_compare h.2.2.2

end Quad

end Traversal
