import Traversal.Source

namespace Traversal

/-- A question to a store that may fail. -/
inductive Call where
  | valueOf (name : String)
  | nameOf (id : NodeId)
  | allNodes
  | quad (id : QuadId)
  | quadsWith (role : Role) (node : NodeId)
deriving DecidableEq

namespace Source

/-- The source with the calls that `fault` names failing, and all else as it was. -/
def failing (fault : Call → Option StoreError) (src : Source) : Source :=
  let guard {α : Type} (call : Call) (answer : Except StoreError α) : Except StoreError α :=
    match fault call with
    | some e => .error e
    | none => answer
  { src with
    valueOf := fun name => guard (.valueOf name) (src.valueOf name)
    nameOf := fun id => guard (.nameOf id) (src.nameOf id)
    allNodes := guard .allNodes src.allNodes
    quad := fun id => guard (.quad id) (src.quad id)
    quadsWith := fun role node => guard (.quadsWith role node) (src.quadsWith role node) }

end Source

/-- The calls of one kind: all of them, or only the one with the given argument. -/
inductive CallPattern where
  | valueOf (name : Option String)
  | nameOf (id : Option NodeId)
  | allNodes
  | quad (id : Option QuadId)
  | quadsWith (place : Option (Role × NodeId))
deriving DecidableEq

def CallPattern.covers : CallPattern → Call → Bool
  | valueOf name, .valueOf n => name.all (· == n)
  | nameOf id, .nameOf i => id.all (· == i)
  | allNodes, .allNodes => true
  | quad id, .quad i => id.all (· == i)
  | quadsWith place, .quadsWith role node => place.all (· == (role, node))
  | _, _ => false

/-- Calls that fail. -/
structure Fault where
  calls : CallPattern
  error : StoreError
deriving DecidableEq

/-- Changed answers over a store. -/
structure Overlay where
  hiddenValues : List String := []
  hiddenNames : List NodeId := []
  hiddenQuads : List QuadId := []
  /-- Quads that are added to the answers for a place. -/
  extra : List ((Role × NodeId) × List QuadId) := []
  allNodes : Option IdSet := none
  seed : Option Plan := none
  /-- Nodes that are added to the list which the store hands out. -/
  listed : List NodeId := []
  /-- Of several faults that cover a call the first counts. -/
  faults : List Fault := []

namespace Overlay

def fault (o : Overlay) (call : Call) : Option StoreError :=
  (o.faults.find? (·.calls.covers call)).map (·.error)

/-- The extra quads for a place. -/
def extraQuads (o : Overlay) (role : Role) (node : NodeId) : IdSet :=
  Std.ExtTreeSet.ofList ((o.extra.filter fun e => e.1 == (role, node)).flatMap (·.2))

/-- The source with its answers changed, before faults. -/
def changed (o : Overlay) (src : Source) : Source where
  valueOf name := if name ∈ o.hiddenValues then .ok none else src.valueOf name
  nameOf id := if id ∈ o.hiddenNames then .ok none else src.nameOf id
  allNodes := (o.allNodes.map .ok).getD src.allNodes
  quad id := if id ∈ o.hiddenQuads then .ok none else src.quad id
  quadsWith role node := do
    let quads ← src.quadsWith role node
    return quads ∪ o.extraQuads role node
  seed := o.seed.getD src.seed
  nodeList := src.nodeList.addAll o.listed

def apply (o : Overlay) (src : Source) : Source :=
  (o.changed src).failing o.fault

end Overlay

end Traversal
