import Traversal.Decimal.Shortest
import Traversal.Json.Node
import Traversal.Json.Number
import Traversal.Text.Quoted

namespace Traversal.Json

/-- What stood in the place of a value of another type. A double is given by its shortest text. -/
inductive Found where
  | integer (n : Int)
  | real (text : String)
  | bool (b : Bool)
  | string (s : String)
  | null
  | sequence
  | map
deriving DecidableEq

def Found.text : Found → String
  | integer n => s!"integer `{n}`"
  | real text => s!"floating point `{text}`"
  | bool b => s!"boolean `{b}`"
  | string s => "string " ++ Text.quoted s
  | null => "null"
  | sequence => "sequence"
  | map => "map"

/-- Why a text does not hold the value that is to be read from it. -/
inductive DecodeError where
  | malformed
  | invalidType (found : Found) (expected : String)
  | invalidValue (found : Found) (expected : String)
  /-- An array ended after `n` items. -/
  | invalidLength (n : Nat) (expected : String)
  | unknownVariant (name : String) (known : List String)
  | missingField (name : String)
  | duplicateField (name : String)
deriving DecidableEq

namespace DecodeError

/-- The names one may choose from. -/
def choice : List String → String
  | [] => "there are no variants"
  | [a] => s!"expected `{a}`"
  | [a, b] => s!"expected `{a}` or `{b}`"
  | names => "expected one of " ++ ", ".intercalate (names.map fun n => s!"`{n}`")

def message : DecodeError → String
  | malformed => "malformed JSON"
  | invalidType found expected => s!"invalid type: {found.text}, expected {expected}"
  | invalidValue found expected => s!"invalid value: {found.text}, expected {expected}"
  | invalidLength n expected => s!"invalid length {n}, expected {expected}"
  | unknownVariant name known => s!"unknown variant `{name}`, {choice known}"
  | missingField name => s!"missing field `{name}`"
  | duplicateField name => s!"duplicate field `{name}`"

end DecodeError

abbrev Decoded := Except DecodeError

/-- The characters of a string. Units above the basic plane come in pairs; `none` if a half of a
pair stands alone. -/
def Piece.join : List Piece → Option (List Char)
  | [] => some []
  | .char c :: ps => (c :: ·) <$> join ps
  | .unit a :: .unit b :: ps =>
    if 0xD800 ≤ a && a < 0xDC00 then
      if 0xDC00 ≤ b && b < 0xE000 then
        (Char.ofNat ((a - 0xD800) * 0x400 + (b - 0xDC00) + 0x10000) :: ·) <$> join ps
      else none
    else if 0xDC00 ≤ a && a < 0xE000 then none
    else (Char.ofNat a :: ·) <$> join (.unit b :: ps)
  | .unit a :: ps =>
    if 0xD800 ≤ a && a < 0xE000 then none else (Char.ofNat a :: ·) <$> join ps

namespace Node

/-- The text of a string that is spelled in pieces. -/
def textOf (s : List Piece) : Decoded String :=
  match Piece.join s with
  | some cs => .ok (String.ofList cs)
  | none => .error .malformed

/-- Refuses a value of another type than the expected one. Scalars are read to their end first. -/
def refuse {α : Type} (expected : String) : Node → Decoded α
  | null => .error (.invalidType .null expected)
  | bool b => .error (.invalidType (.bool b) expected)
  | number n =>
    match n.value? with
    | some (.natural k) => .error (.invalidType (.integer k) expected)
    | some (.negative k) => .error (.invalidType (.integer (-k)) expected)
    | some (.real x) => .error (.invalidType (.real (Decimal.floatText x)) expected)
    | none => .error .malformed
  | string s => do
    let text ← textOf s
    .error (.invalidType (.string text) expected)
  | array _ _ => .error (.invalidType .sequence expected)
  | object _ _ => .error (.invalidType .map expected)
  | cut => .error .malformed

def readText (expected : String) : Node → Decoded String
  | string s => textOf s
  | n => n.refuse expected

def readBool : Node → Decoded Bool
  | bool b => .ok b
  | n => n.refuse "a boolean"

def readUInt32 : Node → Decoded UInt32
  | number n =>
    match n.value? with
    | some (.natural k) =>
      if k < UInt32.size then .ok (UInt32.ofNat k)
      else .error (.invalidValue (.integer k) "u32")
    | some (.negative k) => .error (.invalidValue (.integer (-k)) "u32")
    | _ => (number n).refuse "u32"
  | n => n.refuse "u32"

def readUnit : Node → Decoded Unit
  | null => .ok ()
  | n => n.refuse "unit"

def readOption {α : Type} (read : Node → Decoded α) : Node → Decoded (Option α)
  | null => .ok none
  | n => some <$> read n

/-- Passes over a value. -/
def skip (n : Node) : Decoded Unit :=
  if n.isWhole then .ok () else .error .malformed

def variant {α : Type} (variants : List (String × α)) (name : String) : Decoded α :=
  match variants.lookup name with
  | some a => .ok a
  | none => .error (.unknownVariant name (variants.map (·.1)))

/-- One of several names, as a string or as an object with the name as its key and nothing in it. -/
def readVariant {α : Type} (variants : List (String × α)) : Node → Decoded α
  | string s => do
    let name ← textOf s
    variant variants name
  | object ((key, value) :: rest) closed => do
    let name ← textOf key
    let a ← variant variants name
    value.readUnit
    if rest.isEmpty && closed then .ok a else .error .malformed
  | _ => .error .malformed

end Node

/-- A field of a record, and the part of a draft `δ` in which its content is kept once it has been
read. -/
structure Field (δ : Type) where
  name : String
  /-- An array may end before the field. -/
  optional : Bool
  Content : Type
  value : Node → Decoded Content
  part : δ → Option Content
  put : Content → δ → δ

namespace Field

variable {δ : Type}

def isSet (f : Field δ) (d : δ) : Bool :=
  (f.part d).isSome

def read (f : Field δ) (n : Node) (d : δ) : Decoded δ := do
  let content ← f.value n
  return f.put content d

end Field

/-- How a record is read: as an object, or as an array of its fields in order. What has been read
is kept in `δ`. -/
structure Record (δ ρ : Type) where
  name : String
  fields : List (Field δ)
  empty : δ
  finish : δ → Decoded ρ

namespace Record

variable {δ ρ : Type}

def expected (r : Record δ ρ) : String :=
  "struct " ++ r.name

/-- Reads members in the order of the text and passes over those of other names. -/
def readMembers (fields : List (Field δ)) : List (List Piece × Node) → δ → Decoded δ
  | [], d => .ok d
  | (key, value) :: ms, d => do
    let key ← Node.textOf key
    match fields.find? (·.name == key) with
    | some f =>
      if f.isSet d then .error (.duplicateField f.name)
      else do
        let d ← f.read value d
        readMembers fields ms d
    | none => do
      value.skip
      readMembers fields ms d

/-- Reads items into fields, the first of which has the place `i`. -/
def readItems (expected : String) (closed : Bool) (i : Nat) :
    List (Field δ) → List Node → δ → Decoded δ
  | [], [], d => if closed then .ok d else .error .malformed
  | [], _ :: _, _ => .error .malformed
  | f :: fs, [], d =>
    if !closed then .error .malformed
    else if f.optional then readItems expected closed (i + 1) fs [] d
    else .error (.invalidLength i expected)
  | f :: fs, item :: items, d => do
    let d ← f.read item d
    readItems expected closed (i + 1) fs items d

def read (r : Record δ ρ) : Node → Decoded ρ
  | .object members closed => do
    let d ← readMembers r.fields members r.empty
    if closed then r.finish d else .error .malformed
  | .array items closed => do
    let expected := s!"{r.expected} with {r.fields.length} elements"
    let d ← readItems expected closed 0 r.fields items r.empty
    r.finish d
  | n => n.refuse r.expected

end Record

/-- Reads the only value of a text. -/
def decode {α : Type} (read : Node → Decoded α) (cs : List Char) : Decoded α := do
  let doc := Document.ofChars cs
  let a ← read doc.root
  if doc.complete then .ok a else .error .malformed

end Traversal.Json
