import Traversal.Json.Token

namespace Traversal.Json

/-- A JSON value as far as it can be read from the left. A container is closed if it is read to its
end; a container that is not closed leaves every container around it open. -/
inductive Node where
  | null
  | bool (b : Bool)
  | number (n : Numeral)
  | string (s : List Piece)
  | array (items : List Node) (closed : Bool)
  | object (members : List (List Piece × Node)) (closed : Bool)
  /-- Nothing that starts a value. -/
  | cut

namespace Node

/-- Whether the value is read to its end. -/
def isWhole : Node → Bool
  | array _ closed => closed
  | object _ closed => closed
  | cut => false
  | _ => true

end Node

/-- A value, and whether it is all that the text holds. -/
structure Document where
  root : Node
  complete : Bool

/-- A container around the place that is being read, with what was read of it in reverse. -/
inductive Frame where
  | items (before : List Node)
  | members (before : List (List Piece × Node)) (key : List Piece)

namespace Document

/-- The document that breaks off after `n`. -/
def breakOff : List Frame → Node → Document
  | [], n => ⟨n, false⟩
  | .items before :: frames, n => breakOff frames (.array (n :: before).reverse false)
  | .members before key :: frames, n => breakOff frames (.object ((key, n) :: before).reverse false)

mutual

/-- Reads a value inside of the given containers, and then the rest of these. -/
def readValue (frames : List Frame) : List Token → Document
  | .null :: ts => readRest frames .null ts
  | .bool b :: ts => readRest frames (.bool b) ts
  | .number n :: ts => readRest frames (.number n) ts
  | .string s :: ts => readRest frames (.string s) ts
  | .openBracket :: .closeBracket :: ts => readRest frames (.array [] true) ts
  | .openBracket :: ts => readValue (.items [] :: frames) ts
  | .openBrace :: .closeBrace :: ts => readRest frames (.object [] true) ts
  | .openBrace :: ts => readMember frames [] ts
  | _ => breakOff frames .cut
termination_by structural ts => ts

/-- Reads a member of an object. -/
def readMember (frames : List Frame) (before : List (List Piece × Node)) : List Token → Document
  | .string key :: .colon :: ts => readValue (.members before key :: frames) ts
  | .string key :: _ => breakOff (.members before key :: frames) .cut
  | _ => breakOff frames (.object before.reverse false)
termination_by structural ts => ts

/-- Goes on after the value `n`. -/
def readRest : List Frame → Node → List Token → Document
  | [], n, ts => ⟨n, ts.isEmpty⟩
  | .items before :: frames, n, .comma :: ts => readValue (.items (n :: before) :: frames) ts
  | .items before :: frames, n, .closeBracket :: ts =>
    readRest frames (.array (n :: before).reverse true) ts
  | .items before :: frames, n, _ => breakOff frames (.array (n :: before).reverse false)
  | .members before key :: frames, n, .comma :: ts => readMember frames ((key, n) :: before) ts
  | .members before key :: frames, n, .closeBrace :: ts =>
    readRest frames (.object ((key, n) :: before).reverse true) ts
  | .members before key :: frames, n, _ =>
    breakOff frames (.object ((key, n) :: before).reverse false)
termination_by structural _ _ ts => ts

end

def ofTokens (ts : List Token) : Document :=
  readValue [] ts

def ofChars (cs : List Char) : Document :=
  ofTokens (tokens cs)

end Document

end Traversal.Json
