import Traversal.NameTable
import Traversal.Source
import Traversal.Store.Index

namespace Traversal

/-- A quad store held in memory. -/
structure Store where
  names : NameTable := {}
  index : QuadIndex := {}

namespace Store

/-- Actions on a store; a failure keeps what was stored before it. -/
abbrev Action (ε : Type) := ExceptT ε (StateM Store)

def size (s : Store) : Nat :=
  s.index.quads.size

def isEmpty (s : Store) : Bool :=
  s.index.quads.isEmpty

/-- The number of distinct names. -/
def nodeCount (s : Store) : Nat :=
  s.names.size

/-- The id of the quad of a statement, which is stored if it is new. -/
def add (st : Statement) : Action StoreError QuadId := fun ⟨names, index⟩ =>
  match NameTable.quad st names with
  | (.error e, names) => (.error e, ⟨names, index⟩)
  | (.ok q, names) =>
    match index.insert q with
    | .error e => (.error e, ⟨names, index⟩)
    | .ok (id, index) => (.ok id, ⟨names, index⟩)

/-- Adds statements until one of them fails. -/
def addAll : List Statement → Action StoreError Unit
  | [] => pure ()
  | st :: sts => do
    let _ ← add st
    addAll sts

/-- What the store answers in its present state. -/
def source (s : Store) : Source where
  valueOf name := .ok (s.names.id? name)
  nameOf id := .ok (s.names.name? id)
  allNodes := .ok s.names.idSet
  quad id := .ok (s.index.quad? id)
  quadsWith role node := .ok (s.index.quadsWith role node)

end Store

end Traversal
