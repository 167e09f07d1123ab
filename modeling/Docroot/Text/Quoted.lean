/-!
Values written out for a reader of diagnostics.

A text stands between quotation marks, with a backslash before a quotation mark or a backslash,
short names for five control characters and code points for the others. A record is its name and
its fields in order.
-/
namespace Docroot.Quoted

def hexDigits (n : Nat) : List Char := Nat.toDigits 16 n

/-- One character as it stands between quotation marks. -/
def escape (c : Char) : List Char :=
  if c = '"' then ['\\', '"']
  else if c = '\\' then ['\\', '\\']
  else if c = '\n' then ['\\', 'n']
  else if c = '\r' then ['\\', 'r']
  else if c = '\t' then ['\\', 't']
  else if c = '\x00' then ['\\', '0']
  else if c.toNat < 0x20 ∨ c.toNat = 0x7F then ['\\', 'u', '\x7b'] ++ hexDigits c.toNat ++ ['\x7d']
  else [c]

def text (s : String) : String :=
  String.ofList ('"' :: s.toList.flatMap escape ++ ['"'])

/-- A record with named fields. -/
def record (name : String) (fields : List (String × String)) : String :=
  name ++ " \x7b " ++ ", ".intercalate (fields.map fun f => f.1 ++ ": " ++ f.2) ++ " \x7d"

/-- A constructor around one value. -/
def wrap (name value : String) : String := name ++ "(" ++ value ++ ")"

def list (items : List String) : String := "[" ++ ", ".intercalate items ++ "]"

def bool (b : Bool) : String := if b then "true" else "false"

def option (o : Option String) : String :=
  match o with
  | some s => wrap "Some" s
  | none => "None"

end Docroot.Quoted
