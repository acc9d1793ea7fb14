import Traversal.Source

namespace Traversal

namespace Source

/-- The quads that hold one of the nodes in the given role. -/
def quadsOf (src : Source) (role : Role) : List NodeId → Except StoreError IdSet
  | [] => .ok ∅
  | node :: nodes => do
    let here ← src.quadsWith role node
    let rest ← src.quadsOf role nodes
    return here ∪ rest

/-- The nodes in the given role of the given quads, each of which has to be in the store. -/
def nodesOf (src : Source) (role : Role) : List QuadId → Except StoreError IdSet
  | [] => .ok ∅
  | id :: ids => do
    let some quad ← src.quad id | .error (.missingQuad id)
    let rest ← src.nodesOf role ids
    return match quad.node? role with
      | some node => rest.insert node
      | none => rest

end Source

namespace Plan

mutual

/-- The answers of the plan. An intersection stops at the first operand that leaves nothing. -/
def evaluate (src : Source) : Plan → Except StoreError IdSet
  | .all _ => src.allNodes
  | .fixed nodes _ => .ok nodes.toIdSet
  | .and [] _ => .ok ∅
  | .and (p :: ps) _ => do
    let first ← p.evaluate src
    meet src first ps
  | .or ps _ => join src ps
  | .not inner whole _ => do
    let all ← whole.evaluate src
    let out ← inner.evaluate src
    return all \ out
  | .linksTo role sub _ => do
    let nodes ← sub.evaluate src
    src.quadsOf role nodes.toList
  | .hasA role sub _ => do
    let quads ← sub.evaluate src
    src.nodesOf role quads.toList

def meet (src : Source) (acc : IdSet) : List Plan → Except StoreError IdSet
  | [] => .ok acc
  | p :: ps =>
    if acc.isEmpty then .ok acc
    else do
      let next ← p.evaluate src
      meet src (acc ∩ next) ps

def join (src : Source) : List Plan → Except StoreError IdSet
  | [] => .ok ∅
  | p :: ps => do
    let here ← p.evaluate src
    let rest ← join src ps
    return here ∪ rest

end

end Plan

end Traversal
