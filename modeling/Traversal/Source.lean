import Traversal.Plan.Basic
import Traversal.StoreError

namespace Traversal

/-- What a quad store answers at one moment. -/
structure Source where
  /-- The node of a name; `none` if the name is not known. -/
  valueOf : String → Except StoreError (Option NodeId)
  nameOf : NodeId → Except StoreError (Option String)
  allNodes : Except StoreError IdSet
  quad : QuadId → Except StoreError (Option Quad)
  /-- The quads that hold the node in the given role. -/
  quadsWith : Role → NodeId → Except StoreError IdSet
  /-- The plan that stands for every node. -/
  seed : Plan := .all
  /-- The list to which named nodes are added. -/
  nodeList : NodeList := ∅

namespace Source

/-- The names of the nodes that have one, in the given order. -/
def namesOf (src : Source) : List NodeId → Except StoreError (List String)
  | [] => .ok []
  | id :: ids => do
    let name ← src.nameOf id
    let names ← src.namesOf ids
    return name.toList ++ names

/-- The names of the members that have one, in ascending order of ids. -/
def names (src : Source) (ids : IdSet) : Except StoreError (List String) :=
  src.namesOf ids.toList

/-- A store that cannot be reached. -/
def unreachable (reason : String) : Source where
  valueOf _ := .error (.unavailable reason)
  nameOf _ := .error (.unavailable reason)
  allNodes := .error (.unavailable reason)
  quad _ := .error (.unavailable reason)
  quadsWith _ _ := .error (.unavailable reason)

end Source

end Traversal
