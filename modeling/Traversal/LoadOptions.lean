import Traversal.Json.Decode
import Traversal.Json.Value

namespace Traversal

/-- How the quads of a file are spelled. -/
inductive QuadFormat where
  /-- The names of a quad on a line, separated by white space. -/
  | tsv
  /-- A JSON object on a line. -/
  | jsonLines
deriving DecidableEq

namespace QuadFormat

def name : QuadFormat → String
  | tsv => "tsv"
  | jsonLines => "json_lines"

def read : Json.Node → Json.Decoded QuadFormat :=
  Json.Node.readVariant ([tsv, jsonLines].map fun f => (f.name, f))

end QuadFormat

/-- Where quads are read from, and how. -/
structure LoadOptions where
  /-- The file to read when a store is opened; without one the store is empty. -/
  quadsPath : Option String := none
  format : QuadFormat := .tsv
  /-- Pass over lines that hold no quad. -/
  skipMalformed : Bool := false
  /-- The label of quads that have none of their own. -/
  defaultLabel : Option String := none
deriving DecidableEq

namespace LoadOptions

def toJson (o : LoadOptions) : Json.Value :=
  .object [
    ("quads_path", .ofOption .string o.quadsPath),
    ("format", .string o.format.name),
    ("skip_malformed", .bool o.skipMalformed),
    ("default_label", .ofOption .string o.defaultLabel)]

/-- The members that have been read. -/
structure Draft where
  quadsPath : Option (Option String) := none
  format : Option QuadFormat := none
  skipMalformed : Option Bool := none
  defaultLabel : Option (Option String) := none

def fields : List (Json.Field Draft) := [
  { name := "quads_path"
    optional := true
    Content := Option String
    value := Json.Node.readOption (Json.Node.readText "path string")
    part := (·.quadsPath)
    put := fun path d => { d with quadsPath := some path } },
  { name := "format"
    optional := true
    Content := QuadFormat
    value := QuadFormat.read
    part := (·.format)
    put := fun format d => { d with format := some format } },
  { name := "skip_malformed"
    optional := true
    Content := Bool
    value := Json.Node.readBool
    part := (·.skipMalformed)
    put := fun skip d => { d with skipMalformed := some skip } },
  { name := "default_label"
    optional := true
    Content := Option String
    value := Json.Node.readOption (Json.Node.readText "a string")
    part := (·.defaultLabel)
    put := fun label d => { d with defaultLabel := some label } }]

/-- Members that are left out have their default values. -/
def Draft.finish (d : Draft) : LoadOptions where
  quadsPath := d.quadsPath.getD none
  format := d.format.getD .tsv
  skipMalformed := d.skipMalformed.getD false
  defaultLabel := d.defaultLabel.getD none

def record : Json.Record Draft LoadOptions where
  name := "StoreConfig"
  fields := fields
  empty := {}
  finish d := .ok d.finish

def read (n : Json.Node) : Json.Decoded LoadOptions :=
  record.read n

def ofJson (text : List Char) : Json.Decoded LoadOptions :=
  Json.decode read text

end LoadOptions

end Traversal
