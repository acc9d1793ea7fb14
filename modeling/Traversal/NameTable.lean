import Std.Data.ExtTreeMap
import Traversal.Quad.Basic
import Traversal.Statement.Basic
import Traversal.StoreError

namespace Traversal

/-- Names numbered in the order in which they first come up, starting from zero, with a map for each
direction and the number that is next. -/
structure NameTable where
  ids : Std.ExtTreeMap String NodeId := ∅
  names : Std.ExtTreeMap NodeId String := ∅
  next : NodeId := 0

namespace NameTable

/-- The largest number of names; the last id of the 32-bit range is never given out. -/
def capacity : Nat := UInt32.size - 1

def id? (t : NameTable) (name : String) : Option NodeId :=
  t.ids[name]?

def name? (t : NameTable) (id : NodeId) : Option String :=
  t.names[id]?

/-- The number of ids that have names. -/
def size (t : NameTable) : Nat :=
  t.names.size

def isEmpty (t : NameTable) : Bool :=
  t.size == 0

/-- The ids that have names. -/
def idSet (t : NameTable) : IdSet :=
  .ofList t.names.keys

/-- The table in which a name has the next id. -/
def number (t : NameTable) (name : String) : NameTable where
  ids := t.ids.insert name t.next
  names := t.names.insert t.next name
  next := t.next + 1

/-- Actions that may number new names; a failure keeps the names numbered so far. -/
abbrev Numbering := ExceptT StoreError (StateM NameTable)

/-- The id of a name, which is numbered if it is new. -/
def intern (name : String) : Numbering NodeId := fun t =>
  match t.ids[name]? with
  | some id => (.ok id, t)
  | none =>
    if t.next.toNat < capacity then (.ok t.next, t.number name)
    else (.error (.full "node id space exhausted"), t)

/-- The quad of a statement; its names are numbered in the order of their roles. -/
def quad (st : Statement) : Numbering Quad := do
  let subject ← intern st.subject
  let predicate ← intern st.predicate
  let object ← intern st.object
  let label ← st.label.mapM intern
  return { subject, predicate, object, label }

end NameTable

end Traversal
