import Traversal.Json.Decode
import Traversal.Json.Value
import Traversal.Quad.Basic

namespace Traversal

namespace Role

def toJson (r : Role) : Json.Value :=
  .string r.name

def read : Json.Node → Json.Decoded Role :=
  Json.Node.readVariant (all.map fun r => (r.name, r))

end Role

namespace Quad

def toJson (q : Quad) : Json.Value :=
  .object [
    ("subject", .number q.subject.toNat),
    ("predicate", .number q.predicate.toNat),
    ("object", .number q.object.toNat),
    ("label", .ofOption (fun l : NodeId => .number l.toNat) q.label)]

/-- The members that have been read. -/
structure Draft where
  subject : Option NodeId := none
  predicate : Option NodeId := none
  object : Option NodeId := none
  label : Option (Option NodeId) := none

def fields : List (Json.Field Draft) := [
  { name := "subject"
    optional := false
    Content := NodeId
    value := Json.Node.readUInt32
    part := (·.subject)
    put := fun id d => { d with subject := some id } },
  { name := "predicate"
    optional := false
    Content := NodeId
    value := Json.Node.readUInt32
    part := (·.predicate)
    put := fun id d => { d with predicate := some id } },
  { name := "object"
    optional := false
    Content := NodeId
    value := Json.Node.readUInt32
    part := (·.object)
    put := fun id d => { d with object := some id } },
  { name := "label"
    optional := false
    Content := Option NodeId
    value := Json.Node.readOption Json.Node.readUInt32
    part := (·.label)
    put := fun id d => { d with label := some id } }]

/-- Only the label may be left out of an object. -/
def Draft.finish (d : Draft) : Json.Decoded Quad :=
  match d.subject, d.predicate, d.object with
  | some subject, some predicate, some object =>
    .ok { subject, predicate, object, label := d.label.getD none }
  | none, _, _ => .error (.missingField "subject")
  | _, none, _ => .error (.missingField "predicate")
  | _, _, none => .error (.missingField "object")

def record : Json.Record Draft Quad where
  name := "Quad"
  fields := fields
  empty := {}
  finish := Draft.finish

def read (n : Json.Node) : Json.Decoded Quad :=
  record.read n

end Quad

end Traversal
