import Docroot.Table
/-!
Caches for the text of files, by path key.

A cache either keeps what is written to it until it is removed, or keeps nothing. It also counts
how often it was asked, how often with success, and how often it was written to.
-/
namespace Docroot

structure ContentCache where
  /-- Whether writes are kept. -/
  keeps : Bool := true
  entries : Table String String := .empty
  reads : Nat := 0
  hits : Nat := 0
  writes : Nat := 0
  deriving Inhabited

namespace ContentCache

/-- A cache that keeps everything, empty at first. -/
def memory : ContentCache := {}

/-- A cache that never holds anything. -/
def disabled : ContentCache := { keeps := false }

/-- What is held under a key, without counting the question. -/
def peek (c : ContentCache) (key : String) : Option String := c.entries.find? key

/-- Asks for the text under a key. -/
def read (c : ContentCache) (key : String) : Option String × ContentCache :=
  let found := c.peek key
  (found, { c with
    reads := c.reads + 1
    hits := c.hits + if found.isSome then 1 else 0 })

/-- Stores a text under a key, in place of the one that is there. -/
def write (c : ContentCache) (key content : String) : ContentCache :=
  { c with
    entries := if c.keeps then c.entries.insert key content else c.entries
    writes := c.writes + 1 }

/-- Drops the text under a key, which is the answer. -/
def remove (c : ContentCache) (key : String) : Option String × ContentCache :=
  (c.peek key, { c with entries := c.entries.erase key })

/-- Drops every text. -/
def clear (c : ContentCache) : ContentCache := { c with entries := .empty }

def size (c : ContentCache) : Nat := c.entries.size

theorem peek_write (c : ContentCache) (k k' t : String) (keeps : c.keeps = true) :
    (c.write k t).peek k' = if k = k' then some t else c.peek k' := by
  simp [peek, write, keeps, Table.find?_insert]

theorem peek_read (c : ContentCache) (k k' : String) : (c.read k).2.peek k' = c.peek k' := rfl

end ContentCache

end Docroot
