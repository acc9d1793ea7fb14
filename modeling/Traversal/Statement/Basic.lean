namespace Traversal

/-- A quad by the names of its nodes. -/
structure Statement where
  subject : String
  predicate : String
  object : String
  label : Option String := none
deriving DecidableEq

end Traversal
