import Docroot.Failure
/-!
What becomes of a failed access.

Serving goes on where it can: by default a failure is noted and answered with a fallback. The
strict policy hands the error to the caller.
-/
namespace Docroot

inductive IoPolicy where
  | degrade
  | strict
  deriving DecidableEq, Repr

instance : Inhabited IoPolicy := ⟨.degrade⟩

/-- How an access ended under a policy. -/
inductive Verdict (α : Type) where
  /-- It succeeded. -/
  | value (a : α)
  /-- It failed, and the fallback stands in for the answer. -/
  | degraded (fallback : α) (error : FileError)
  /-- It failed, and the caller learns why. -/
  | failed (error : FileError)

namespace Verdict

variable {α : Type}

/-- What the caller gets. -/
def answer : Verdict α → Except FileError α
  | value a => .ok a
  | degraded a _ => .ok a
  | failed e => .error e

/-- The failure that the caller is not told about. -/
def hidden? : Verdict α → Option FileError
  | degraded _ e => some e
  | _ => none

end Verdict

namespace IoPolicy

variable {α : Type}

def isStrict (p : IoPolicy) : Bool := p = strict

/-- Judges an error that is already classified. -/
def recover (p : IoPolicy) (e : FileError) (fallback : α) : Verdict α :=
  match p with
  | degrade => .degraded fallback e
  | strict => .failed e

/-- Judges the result of a request about `path`. -/
def judge (p : IoPolicy) (path : String) (result : Except IoError α) (fallback : α) : Verdict α :=
  match result with
  | .ok a => .value a
  | .error e => p.recover (.ofIo e path) fallback

def name : IoPolicy → String
  | degrade => "Degrade"
  | strict => "Strict"

end IoPolicy

end Docroot
