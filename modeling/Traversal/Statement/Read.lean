import Traversal.Json.Decode
import Traversal.Statement.Basic
import Traversal.Text.Blank

namespace Traversal.Statement

/-- Why a line holds no quad. -/
inductive LineError where
  | fieldCount (n : Nat)
  | record (cause : Json.DecodeError)
deriving DecidableEq

def LineError.message : LineError → String
  | fieldCount n => s!"expected 3 or 4 fields, found {n}"
  | record cause => s!"invalid quad record: {cause.message}"

/-- Drops a full stop that stands alone at the end. -/
def dropStop (fields : List (List Char)) : List (List Char) :=
  if fields.getLast? == some ['.'] then fields.dropLast else fields

/-- Subject, predicate, object and perhaps a label, separated by white space, with or without a
full stop after them. -/
def ofWords (line : List Char) : Except LineError Statement :=
  match dropStop (Text.words line) with
  | [s, p, o] => .ok
    { subject := String.ofList s, predicate := String.ofList p, object := String.ofList o }
  | [s, p, o, l] => .ok
    { subject := String.ofList s, predicate := String.ofList p, object := String.ofList o
      label := some (String.ofList l) }
  | fields => .error (.fieldCount fields.length)

/-- The members that have been read. -/
structure Draft where
  subject : Option String := none
  predicate : Option String := none
  object : Option String := none
  label : Option (Option String) := none

def fields : List (Json.Field Draft) := [
  { name := "subject"
    optional := false
    Content := String
    value := Json.Node.readText "a string"
    part := (·.subject)
    put := fun name d => { d with subject := some name } },
  { name := "predicate"
    optional := false
    Content := String
    value := Json.Node.readText "a string"
    part := (·.predicate)
    put := fun name d => { d with predicate := some name } },
  { name := "object"
    optional := false
    Content := String
    value := Json.Node.readText "a string"
    part := (·.object)
    put := fun name d => { d with object := some name } },
  { name := "label"
    optional := true
    Content := Option String
    value := Json.Node.readOption (Json.Node.readText "a string")
    part := (·.label)
    put := fun name d => { d with label := some name } }]

def Draft.finish (d : Draft) : Json.Decoded Statement :=
  match d.subject, d.predicate, d.object with
  | some subject, some predicate, some object =>
    .ok { subject, predicate, object, label := d.label.getD none }
  | none, _, _ => .error (.missingField "subject")
  | _, none, _ => .error (.missingField "predicate")
  | _, _, none => .error (.missingField "object")

def record : Json.Record Draft Statement where
  name := "QuadRecord"
  fields := fields
  empty := {}
  finish := Draft.finish

def ofJson (line : List Char) : Except LineError Statement :=
  (Json.decode record.read line).mapError .record

end Traversal.Statement
