import Docroot.Proofs.Tree
import Docroot.Server.Respond
import Docroot.Server.Warm

/-!
Calls, and runs of calls.

A call is made with handles that were given out before; `perform` has no answer to a call with
any other, nor to a warm-up that goes beyond its bound. Between two calls the disk may become any
other tree.
-/

namespace Docroot

/-- A question that is asked of each path in a folder. -/
inductive Question where
  /-- About the path as it was resolved. -/
  | of (test : PathNode → Bool)
  /-- Whether the content cache holds its text. -/
  | cached

/-- What can be asked of a server. File systems, paths and content caches go by their numbers. -/
inductive Call where
  | newCache
  | mount (root : String) (cache : Option Nat) (config : Config)
  | retain (v : Nat)
  | release (v : Nat)
  | root (v : Nat)
  | get (v : Nat) (raw : String)
  | resolve (v parent : Nat) (raw : String)
  | resolveWith (v parent : Nat) (name : String) (exts : ExtensionSet)
  | children (p : Nat) (folders : Bool)
  | matching (p : Nat) (questions : List Question)
  | invalidate (v p : Nat)
  | length (p : Nat)
  | readBytes (p : Nat)
  | readText (p : Nat)
  | isCached (p : Nat)
  | create (p : Nat)
  | respond (p : Nat) (h : Header)
  | warm (bound p : Nat)
  | askText (c : Nat) (key : String)
  | writeText (c : Nat) (key text : String)
  | removeText (c : Nat) (key : String)
  | clearTexts (c : Nat)
  /-- The disk is another one from now on. -/
  | change (d : Tree)

inductive Answer where
  | done
  | cache (c : Nat)
  | system (v : Nat)
  | path (p : Nat)
  | paths (ps : List Nat)
  | flag (b : Bool)
  | count (n : Nat)
  | length (r : Except FileError (Option Nat))
  | bytes (r : Except FileError Utf8.Bytes)
  | text (r : Except FileError String)
  | created (r : Except FileError Bool)
  | response (r : Except FileError Response)
  | entry (t : Option String)

/-- The media types of pages and plain texts. Anything else is octets. -/
@[reducible]
def MediaTypes.familiar : MediaTypes where
  ofExtension
    | "html" => .plain "text" "html" none
    | "txt" => .plain "text" "plain" none
    | _ => .plain "application" "octet-stream" none

namespace Question

/-- The question as a test of a path. -/
def test : Question → Server.Test
  | of t, p, s => (t (s.node p), s)
  | cached, p, s => s.isCached p

end Question

namespace Server

/-- A server over a disk, before any call. -/
def start (d : Tree) : Server := { disk := d.1 }

/-- Whether the handles of a call are known. -/
def knows (s : Server) : Call → Bool
  | .newCache | .change _ => true
  | .mount _ cache _ => cache.all (· < s.caches.size)
  | .retain v | .release v | .root v | .get v _ => v < s.systems.size
  | .resolve v p _ | .resolveWith v p _ _ | .invalidate v p =>
    v < s.systems.size && p < s.nodes.size
  | .children p _ | .matching p _ | .length p | .readBytes p | .readText p | .isCached p
  | .create p | .respond p _ | .warm _ p => p < s.nodes.size
  | .askText c _ | .writeText c _ _ | .removeText c _ | .clearTexts c => c < s.caches.size

variable [MediaTypes]

/-- Carries out a call, whatever its handles are. -/
def carryOut (s : Server) : Call → Option (Answer × Server)
  | .newCache => let (c, s) := s.addCache .memory; some (.cache c, s)
  | .mount root cache config => let (v, s) := s.mount root cache config; some (.system v, s)
  | .retain v => some (.done, s.retain v)
  | .release v => some (.done, s.release v)
  | .root v => let (p, s) := s.root v; some (.path p, s)
  | .get v raw => let (p, s) := s.get v raw; some (.path p, s)
  | .resolve v parent raw => let (p, s) := s.resolve v parent raw; some (.path p, s)
  | .resolveWith v parent name exts =>
    let (p, s) := s.resolveWith v parent name exts; some (.path p, s)
  | .children p folders => let (l, s) := s.children p folders; some (.paths l, s)
  | .matching p questions =>
    let (l, s) := s.childrenPassing p (questions.map Question.test); some (.paths l, s)
  | .invalidate v p => let (b, s) := s.invalidate v p; some (.flag b, s)
  | .length p => let (r, s) := s.length p; some (.length r, s)
  | .readBytes p => let (r, s) := s.readBytes p; some (.bytes r, s)
  | .readText p => let (r, s) := s.readText p; some (.text r, s)
  | .isCached p => let (b, s) := s.isCached p; some (.flag b, s)
  | .create p => let (r, s) := s.create p; some (.created r, s)
  | .respond p h => let (r, s) := s.respond p h; some (.response r, s)
  | .warm bound p => (warm bound s p).map fun (n, s) => (.count n, s)
  | .askText c key =>
    let (t, cache) := (s.cache c).read key; some (.entry t, s.setCache c cache)
  | .writeText c key text => some (.done, s.setCache c ((s.cache c).write key text))
  | .removeText c key =>
    let (t, cache) := (s.cache c).remove key; some (.entry t, s.setCache c cache)
  | .clearTexts c => some (.done, s.setCache c (s.cache c).clear)
  | .change d => some (.done, { s with disk := d.1 })

def perform (s : Server) (c : Call) : Option (Answer × Server) :=
  if s.knows c then s.carryOut c else none

/-- Where calls lead, one after the other. -/
def run (s : Server) : List Call → Option Server
  | [] => some s
  | c :: rest => (s.perform c).bind fun (_, s) => s.run rest

/-- The states that some run leads to. -/
def Reachable (s : Server) : Prop := ∃ d calls, (start d).run calls = some s

end Server

end Docroot
