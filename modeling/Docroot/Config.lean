import Docroot.Policy
import Docroot.Text.Quoted
/-!
The settings of one server.
-/
namespace Docroot

structure Config where
  /-- Whether file contents go into the content cache. -/
  cacheEnabled : Bool := true
  ioPolicy : IoPolicy := .degrade
  /-- Whether headers report the names and cookies they get. -/
  debug : Bool := false
  deriving DecidableEq, Repr, Inhabited

namespace Config

/-- The settings that were chosen; the others keep their defaults. -/
def choose (cacheEnabled : Option Bool) (ioPolicy : Option IoPolicy) (debug : Option Bool) :
    Config :=
  let standard : Config := {}
  { cacheEnabled := cacheEnabled.getD standard.cacheEnabled
    ioPolicy := ioPolicy.getD standard.ioPolicy
    debug := debug.getD standard.debug }

def describe (c : Config) : String :=
  Quoted.record "Config" [("cache_enabled", Quoted.bool c.cacheEnabled),
    ("io_policy", c.ioPolicy.name), ("debug", Quoted.bool c.debug)]

end Config

end Docroot
