import Std.Data.ExtTreeMap
import Traversal.InputError
import Traversal.Text.Segments

namespace Traversal

/-- A directory of files. There are other directories around it, but nothing is known in them. -/
structure Directory where
  files : Std.ExtTreeMap String (List UInt8) := ∅

namespace Directory

/-- What a path leads to. -/
inductive Entry where
  | file (bytes : List UInt8)
  /-- The directory itself. -/
  | here
  /-- Any other directory. -/
  | elsewhere

/-- The largest size of a name in bytes. -/
def maxName : Nat := 255

/-- The largest size of a path in bytes. -/
def maxPath : Nat := 4095

/-- Goes on from an entry by a part of a path. -/
def enter (d : Directory) : Entry → List Char → Except InputError Entry
  | .file _, _ => .error .notDirectory
  | e, [] => .ok e
  | e, ['.'] => .ok e
  | _, ['.', '.'] => .ok .elsewhere
  | e, name =>
    let name := String.ofList name
    if maxName < name.utf8ByteSize then .error .nameTooLong
    else
      match e, d.files[name]? with
      | .here, some bytes => .ok (.file bytes)
      | _, _ => .error .notFound

/-- The parts of a path, and the entry from which it starts. -/
def parts (path : String) : Except InputError (Entry × List (List Char)) :=
  let cs := path.toList
  if '\x00' ∈ cs then .error .nulInName
  else if cs.isEmpty then .error .notFound
  else if maxPath < path.utf8ByteSize then .error .nameTooLong
  else .ok (if cs.head? == some '/' then .elsewhere else .here, Text.segments (· == '/') cs)

def find (d : Directory) (path : String) : Except InputError Entry := do
  let (start, names) ← parts path
  names.foldlM d.enter start

/-- The bytes of the file at a path. -/
def read (d : Directory) (path : String) : Except InputError (List UInt8) := do
  match ← d.find path with
  | .file bytes => return bytes
  | _ => throw .isDirectory

/-- Puts a file into the directory, in the place of the one with its name if there is one. -/
def write (d : Directory) (path : String) (bytes : List UInt8) : Except InputError Directory := do
  let (start, names) ← parts path
  let name := names.getLastD []
  match ← names.dropLast.foldlM d.enter start with
  | .here =>
    match d.enter .here name with
    | .ok (.file _) | .error .notFound =>
      return { files := d.files.insert (String.ofList name) bytes }
    | .ok _ => throw .isDirectory
    | .error e => throw e
  | .elsewhere => throw .notFound
  | .file _ => throw .notDirectory

end Directory

end Traversal
