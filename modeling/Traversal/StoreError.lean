import Traversal.Ids

namespace Traversal

/-- Why a quad store could not answer. A name that is not known is an answer, not a failure. -/
inductive StoreError where
  | unavailable (reason : String)
  | inconsistent (reason : String)
  | full (reason : String)
deriving DecidableEq

namespace StoreError

/-- An index points to a quad that the store does not hold. -/
def missingQuad (id : QuadId) : StoreError :=
  .inconsistent s!"quad {id} is indexed but missing"

def message : StoreError → String
  | unavailable reason => s!"quad store unavailable: {reason}"
  | inconsistent reason => s!"quad store index is inconsistent: {reason}"
  | full reason => s!"quad store is full: {reason}"

end StoreError

end Traversal
