import Docroot.Errno
import Docroot.Text.Quoted
/-!
What can go wrong when content is accessed, and how it is told.

A failure of the system is a number, or a kind with or without a text of its own. It becomes a
`FileError` that names the path: a missing file, a folder in place of a file, a text that is not
UTF-8, or any other failure together with its source.
-/
namespace Docroot

/-- A failed request to the system. -/
inductive IoError where
  /-- The system answered with an error number. -/
  | os (code : Int)
  /-- Only the kind is known. -/
  | plain (kind : IoKind)
  /-- The failure brings its own text. -/
  | told (kind : IoKind) (text : String)
  deriving DecidableEq, Repr

namespace IoError

def kind : IoError → IoKind
  | os code => Errno.kind code
  | plain k => k
  | told k _ => k

def message : IoError → String
  | os code => Errno.text code ++ " (os error " ++ Decimal.ofInt code ++ ")"
  | plain k => k.text
  | told _ text => text

def describe : IoError → String
  | os code => Quoted.record "Os" [("code", Decimal.ofInt code), ("kind", (Errno.kind code).name),
      ("message", Quoted.text (Errno.text code))]
  | plain k => Quoted.wrap "Kind" k.name
  | told k text => Quoted.record "Custom" [("kind", k.name), ("error", Quoted.text text)]

/-- The failure of every request whose path holds the character NUL. -/
def nulInPath : IoError := .told .invalidInput "file name contained an unexpected NUL byte"

end IoError

/-- Why content could not be had. -/
inductive FileError where
  | notFound (path : String)
  | isDirectory (path : String)
  | invalidUtf8 (path : String)
  | io (path : String) (source : IoError)
  deriving DecidableEq, Repr

namespace FileError

/-- Classifies a failed request by its kind. -/
def ofIo (e : IoError) (path : String) : FileError :=
  match e.kind with
  | .notFound => notFound path
  | .isADirectory => isDirectory path
  | .invalidData => invalidUtf8 path
  | _ => io path e

/-- The path that the error is about. -/
def path : FileError → String
  | notFound p | isDirectory p | invalidUtf8 p | io p _ => p

def message : FileError → String
  | notFound p => "file not found: " ++ p
  | isDirectory p => "is a directory: " ++ p
  | invalidUtf8 p => "file is not valid utf-8: " ++ p
  | io p source => "failed to access " ++ p ++ ": " ++ source.message

/-- The failure behind the error, where it is not one of the classified kinds. -/
def source? : FileError → Option IoError
  | io _ source => some source
  | _ => none

def describe : FileError → String
  | notFound p => Quoted.wrap "NotFound" (Quoted.text p)
  | isDirectory p => Quoted.wrap "IsDirectory" (Quoted.text p)
  | invalidUtf8 p => Quoted.wrap "InvalidUtf8" (Quoted.text p)
  | io p source => Quoted.record "Io" [("path", Quoted.text p), ("source", source.describe)]

end FileError

end Docroot
