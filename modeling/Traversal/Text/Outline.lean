import Traversal.Text.Quoted

namespace Traversal.Text

/-- A name with arguments in parentheses. -/
def call (name arg : String) : String :=
  name ++ "(" ++ arg ++ ")"

/-- A name with named fields in braces. -/
def fields (name : String) (fs : List (String × String)) : String :=
  name ++ " \x7b " ++ ", ".intercalate (fs.map fun f => f.1 ++ ": " ++ f.2) ++ " \x7d"

def list (items : List String) : String :=
  "[" ++ ", ".intercalate items ++ "]"

def set (items : List String) : String :=
  "\x7b" ++ ", ".intercalate items ++ "\x7d"

end Traversal.Text
