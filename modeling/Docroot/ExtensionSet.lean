import Docroot.Text.Case
import Docroot.Text.Quoted
/-!
File extensions in order of preference.
-/
namespace Docroot

/-- The extensions to try for a name that comes without one, the preferred one first. -/
structure ExtensionSet where
  extensions : List String
  deriving DecidableEq, Repr

namespace ExtensionSet

def html : ExtensionSet := ⟨["html", "htm"]⟩

def css : ExtensionSet := ⟨["css"]⟩

def javascript : ExtensionSet := ⟨["js"]⟩

def json : ExtensionSet := ⟨["json"]⟩

def text : ExtensionSet := ⟨["txt"]⟩

/-- The extensions of page templates. -/
def template : ExtensionSet := ⟨["html", "htm", "txt"]⟩

/-- The extension of the path that is tried when none matches. -/
def primary (s : ExtensionSet) : Option String := s.extensions.head?

/-- Whether the set holds an extension, up to the case of ASCII letters. -/
def accepts (s : ExtensionSet) (extension : String) : Bool :=
  s.extensions.any (sameName · extension)

def describe (s : ExtensionSet) : String :=
  Quoted.record "Extension" [("extensions", Quoted.list (s.extensions.map Quoted.text))]

end ExtensionSet

end Docroot
