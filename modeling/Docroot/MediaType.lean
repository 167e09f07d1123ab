/-!
Media types of files, and which of them are text.

Which media type an extension stands for is a table from outside, and so is how the type is read:
`MediaTypes` is any such table. Text types are the `text` family, scripts, JSON and XML, and types
whose suffix is JSON or XML; they are served with their character set, unless they name one.
-/
namespace Docroot

/-- A media type, as it is read. -/
structure MediaType where
  /-- What stands in front of the slash. -/
  family : String
  /-- What stands behind it, up to the suffix. -/
  subtype : String
  /-- What follows the plus sign. -/
  suffix : Option String
  /-- The character set that is given as a parameter. -/
  charset : Option String
  /-- The type without its parameters, as text. -/
  essence : String
  /-- The type with its parameters, as text. -/
  text : String
  deriving DecidableEq, Repr

/-- The media types of extensions, whatever they are. -/
class MediaTypes where
  /-- The media type of an extension, which is that of octets where nothing else is known. -/
  ofExtension : String → MediaType

namespace MediaType

/-- A type without parameters. -/
def plain (family subtype : String) (suffix : Option String) : MediaType :=
  let text := family ++ "/" ++ subtype ++ ((suffix.map ("+" ++ ·)).getD "")
  { family, subtype, suffix, charset := none, essence := text, text }

def isText (type : MediaType) : Bool :=
  type.family == "text" ||
    ["javascript", "ecmascript", "json", "xml"].contains type.subtype ||
    [some "xml", some "json"].contains type.suffix

/-- The content type under which a file is served, and whether its body is text. -/
def contentType [MediaTypes] (extension : String) : String × Bool :=
  let type := MediaTypes.ofExtension extension
  if type.isText && type.charset.isNone then (type.essence ++ "; charset=utf-8", true)
  else (type.text, type.isText)

end MediaType

end Docroot
