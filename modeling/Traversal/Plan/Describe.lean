import Traversal.Plan.Basic

namespace Traversal.Plan

/-- Writes a number in decimal digits without leading zeros before `rest`. -/
def writeId (id : NodeId) (rest : List Char) : List Char :=
  Nat.toDigits 10 id.toNat ++ rest

def writeIds : List NodeId → List Char → List Char
  | [], rest => rest
  | [id], rest => writeId id rest
  | id :: ids, rest => writeId id (',' :: ' ' :: writeIds ids rest)

/-- Writes tags in brackets; without tags there are no brackets. -/
def writeTags (tags : TagSet) (rest : List Char) : List Char :=
  if tags.isEmpty then rest
  else '#' :: '[' :: [','].intercalate (tags.toList.map String.toList) ++ ']' :: rest

def writeRole (role : Role) (rest : List Char) : List Char :=
  '[' :: role.name.toList ++ ']' :: rest

mutual

/-- Writes the plan before `rest`. -/
def write : Plan → List Char → List Char
  | .all tags, rest => "all".toList ++ writeTags tags rest
  | .fixed nodes tags, rest =>
    "fixed(".toList ++ writeIds nodes.ids (')' :: writeTags tags rest)
  | .and subs tags, rest => "and(".toList ++ writeSubs subs (')' :: writeTags tags rest)
  | .or subs tags, rest => "or(".toList ++ writeSubs subs (')' :: writeTags tags rest)
  | .not inner whole tags, rest =>
    "not(".toList ++ inner.write (',' :: ' ' :: whole.write (')' :: writeTags tags rest))
  | .linksTo role sub tags, rest =>
    "links_to".toList ++ writeRole role ('(' :: sub.write (')' :: writeTags tags rest))
  | .hasA role sub tags, rest =>
    "has_a".toList ++ writeRole role ('(' :: sub.write (')' :: writeTags tags rest))
termination_by structural p => p

def writeSubs : List Plan → List Char → List Char
  | [], rest => rest
  | p :: ps, rest => p.write (writeMore ps rest)
termination_by structural ps => ps

/-- Writes operands after another one. -/
def writeMore : List Plan → List Char → List Char
  | [], rest => rest
  | p :: ps, rest => ',' :: ' ' :: p.write (writeMore ps rest)
termination_by structural ps => ps

end

/-- The plan on one line, such as `and(fixed(0, 3), all)#[t,u]`. -/
def describe (p : Plan) : String :=
  String.ofList (p.write [])

end Traversal.Plan
