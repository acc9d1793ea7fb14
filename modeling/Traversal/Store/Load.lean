import Traversal.InputError
import Traversal.LoadOptions
import Traversal.Statement.Read
import Traversal.Store.Basic

namespace Traversal

/-- Why a text could not be loaded. Lines are counted from one. -/
inductive LoadError where
  | reading (line : Nat) (cause : InputError)
  | malformed (line : Nat) (cause : Statement.LineError)
  | store (line : Nat) (cause : StoreError)
deriving DecidableEq

def LoadError.message : LoadError → String
  | reading line cause => s!"reading line {line}: {cause.message}"
  | malformed line cause => s!"malformed quad at line {line}: {cause.message}"
  | store line cause => s!"storing quad from line {line}: {cause.message}"

namespace QuadFormat

/-- The statement on a line without white space at its ends. -/
def statement (f : QuadFormat) (line : List Char) : Except Statement.LineError Statement :=
  match f with
  | tsv => Statement.ofWords line
  | jsonLines => Statement.ofJson line

end QuadFormat

/-- What a line asks for. -/
inductive LineContent where
  /-- A blank line, a comment, or a malformed line that is passed over. -/
  | skipped
  | statement (st : Statement)
deriving DecidableEq

namespace LoadOptions

/-- Reads a line of characters. Blank lines and lines that start with a number sign are skipped. -/
def content (o : LoadOptions) (line : List Char) : Except Statement.LineError LineContent :=
  match Text.trim line with
  | [] => .ok .skipped
  | '#' :: _ => .ok .skipped
  | cs =>
    match o.format.statement cs with
    | .ok st => .ok (.statement { st with label := st.label <|> o.defaultLabel })
    | .error e => if o.skipMalformed then .ok .skipped else .error e

end LoadOptions

namespace Store

def newline : UInt8 := 10

/-- The lines of a text; the last one need not be terminated. -/
def lines (bytes : List UInt8) : List (List UInt8) :=
  Text.terminated (· == newline) bytes

/-- The characters of a line, if it is encoded in UTF-8. -/
def decodeLine (bytes : List UInt8) : Option (List Char) :=
  (String.fromUTF8? bytes.toByteArray).map String.toList

/-- Loads a line and answers whether it held a statement. -/
def loadLine (o : LoadOptions) (number : Nat) (line : List UInt8) : Action LoadError Bool :=
  match decodeLine line with
  | none => throw (.reading number .encoding)
  | some cs =>
    match o.content cs with
    | .error e => throw (.malformed number e)
    | .ok .skipped => return false
    | .ok (.statement st) => do
      let _ ← (add st).adapt (.store number)
      return true

/-- Loads lines, the first of which has the given number, and counts the statements. -/
def loadLines (o : LoadOptions) (number : Nat) : List (List UInt8) → Action LoadError Nat
  | [] => return 0
  | line :: rest => do
    let accepted ← loadLine o number line
    let count ← loadLines o (number + 1) rest
    return if accepted then count + 1 else count

/-- Loads a text and counts the statements in it. What was loaded before a failure stays. -/
def load (o : LoadOptions) (bytes : List UInt8) : Action LoadError Nat :=
  loadLines o 1 (lines bytes)

end Store

end Traversal
