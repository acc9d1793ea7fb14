namespace Traversal.Json

/-- A JSON value to be written. -/
inductive Value where
  | null
  | bool (b : Bool)
  | number (n : Nat)
  | string (s : String)
  | array (items : List Value)
  | object (members : List (String × Value))

/-- A character as it stands in a string: quote, backslash and control characters are escaped. -/
def escapedChar (c : Char) : List Char :=
  match c with
  | '"' => ['\\', '"']
  | '\\' => ['\\', '\\']
  | '\x08' => ['\\', 'b']
  | '\x0c' => ['\\', 'f']
  | '\n' => ['\\', 'n']
  | '\r' => ['\\', 'r']
  | '\t' => ['\\', 't']
  | c =>
    if c.toNat < 0x10 then ['\\', 'u', '0', '0', '0'] ++ Nat.toDigits 16 c.toNat
    else if c.toNat < 0x20 then ['\\', 'u', '0', '0'] ++ Nat.toDigits 16 c.toNat
    else [c]

def stringChars (s : String) : List Char :=
  '"' :: s.toList.flatMap escapedChar ++ ['"']

namespace Value

mutual

/-- The value on one line without white space. -/
def chars : Value → List Char
  | null => "null".toList
  | bool b => (if b then "true" else "false").toList
  | number n => Nat.toDigits 10 n
  | string s => stringChars s
  | array items => '[' :: [','].intercalate (itemChars items) ++ [']']
  | object members => '\x7b' :: [','].intercalate (memberChars members) ++ ['\x7d']

def itemChars : List Value → List (List Char)
  | [] => []
  | v :: vs => v.chars :: itemChars vs

def memberChars : List (String × Value) → List (List Char)
  | [] => []
  | (key, v) :: ms => (stringChars key ++ ':' :: v.chars) :: memberChars ms

end

def text (v : Value) : String :=
  String.ofList v.chars

def ofOption {α : Type} (write : α → Value) : Option α → Value
  | some a => write a
  | none => null

end Value

end Traversal.Json
