namespace Traversal

/-- Why a text could not be read. -/
inductive InputError where
  | notFound
  /-- The path goes on after a file. -/
  | notDirectory
  | isDirectory
  | nameTooLong
  | nulInName
  /-- The bytes are not in UTF-8. -/
  | encoding
deriving DecidableEq

def InputError.message : InputError → String
  | notFound => "No such file or directory (os error 2)"
  | notDirectory => "Not a directory (os error 20)"
  | isDirectory => "Is a directory (os error 21)"
  | nameTooLong => "File name too long (os error 36)"
  | nulInName => "file name contained an unexpected NUL byte"
  | encoding => "stream did not contain valid UTF-8"

end Traversal
