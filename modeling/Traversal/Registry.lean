import Traversal.Overlay
import Traversal.Path.Basic
import Traversal.Store.Basic

namespace Traversal

/-- What stands behind a store handle. -/
inductive Backing where
  | store (s : Store)
  /-- Changed answers over an earlier store. -/
  | overlay (base : StoreHandle) (o : Overlay)

/-- The stores in use. The handle of a store is its place in the list. -/
structure Registry where
  backings : Array Backing := #[]

namespace Registry

def register (r : Registry) (b : Backing) : StoreHandle × Registry :=
  (r.backings.size, { r with backings := r.backings.push b })

def store? (r : Registry) (h : StoreHandle) : Option Store :=
  match r.backings[h]? with
  | some (.store s) => some s
  | _ => none

/-- Runs an action on the store behind a handle, if it is one that is held in memory. -/
def run? {ε α : Type} (r : Registry) (h : StoreHandle) (act : Store.Action ε α) :
    Option (Except ε α × Registry) := do
  let s ← r.store? h
  let (result, s) := act s
  return (result, { r with backings := r.backings.setIfInBounds h (.store s) })

/-- What the store behind a handle answers. -/
def source (r : Registry) (h : StoreHandle) : Source :=
  match r.backings[h]? with
  | some (.store s) => s.source
  | some (.overlay base o) =>
    if base < h then o.apply (r.source base) else .unreachable "the handle names no store"
  | none => .unreachable "the handle names no store"
termination_by h

end Registry

end Traversal
