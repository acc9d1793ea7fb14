import Traversal.Directory
import Traversal.Store.Load

namespace Traversal

/-- Why a file of quads could not be loaded. -/
inductive FileError where
  | opening (path : String) (cause : InputError)
  | loading (path : String) (cause : LoadError)
deriving DecidableEq

def FileError.message : FileError → String
  | opening path cause => s!"opening quad file {path}: {cause.message}"
  | loading path cause => s!"loading quad file {path}: {cause.message}"

/-- Why a file of options could not be read. -/
inductive OptionsError where
  | reading (path : String) (cause : InputError)
  | parsing (path : String) (cause : Json.DecodeError)
deriving DecidableEq

def OptionsError.message : OptionsError → String
  | reading path cause => s!"reading store config {path}: {cause.message}"
  | parsing path cause => s!"parsing store config {path}: {cause.message}"

namespace Store

/-- Loads the file at a path. A directory can be opened, but its first line cannot be read. -/
def loadFile (dir : Directory) (path : String) (o : LoadOptions) : Action FileError Nat :=
  match dir.find path with
  | .error e => throw (.opening path e)
  | .ok (.file bytes) => (load o bytes).adapt (.loading path)
  | .ok _ => throw (.loading path (.reading 1 .isDirectory))

/-- A store with the quads of the file that the options name, if they name one. -/
def ofOptions (dir : Directory) (o : LoadOptions) : Except FileError Store :=
  match o.quadsPath with
  | none => .ok {}
  | some path =>
    match loadFile dir path o {} with
    | (.ok _, s) => .ok s
    | (.error e, _) => .error e

end Store

namespace LoadOptions

/-- The options in a file of JSON. -/
def ofFile (dir : Directory) (path : String) : Except OptionsError LoadOptions :=
  match dir.read path with
  | .error e => .error (.reading path e)
  | .ok bytes =>
    match Store.decodeLine bytes with
    | none => .error (.reading path .encoding)
    | some cs => (ofJson cs).mapError (.parsing path)

end LoadOptions

end Traversal
