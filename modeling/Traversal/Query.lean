import Traversal.Path.Compile
import Traversal.Plan.Evaluate

namespace Traversal

/-- The plan of a path, its answers, and their names. -/
structure Answer where
  plan : Plan
  ids : IdSet
  names : List String

/-- Where a query failed: while the path was compiled, the plan evaluated, or the names looked up. -/
inductive QueryError where
  | build (cause : PathError)
  | evaluate (cause : StoreError)
  | names (cause : StoreError)
deriving DecidableEq

namespace Path

def queryOn (src : Source) (p : Path) : Except QueryError Answer := do
  let plan ← (p.buildOn src).mapError .build
  let ids ← (plan.evaluate src).mapError .evaluate
  let names ← (src.names ids).mapError .names
  return { plan, ids, names }

def query (sources : StoreHandle → Source) (p : Path) : Except QueryError Answer :=
  match p.binding with
  | some store => p.queryOn (sources store)
  | none => .error (.build .unbound)

end Path

end Traversal
