import Docroot.Event
/-!
Snapshots by request target, each built at most once at a time.

Every key has a slot, which is filled when its snapshot was built. A build holds its slot until it
is over; a call that needs a held slot cannot go on. Removing a key or clearing the cache takes
slots out of it, and a build that ends in a slot taken out is not stored.
-/
namespace Docroot

structure Slot where
  value : Option Snapshot
  /-- Whether a build is in progress. -/
  held : Bool
  deriving Inhabited

/-- The slots made so far, and which of them stands for which key now. -/
structure ResponseCache where
  slots : Array Slot
  keys : Table String Nat
  deriving Inhabited

/-- A call needs the slot of a build that is still in progress. -/
inductive Blocked where
  | blocked
  deriving DecidableEq, Repr

/-- What can be frozen: a response, or a snapshot once more. -/
inductive Body where
  | fresh (response : Response)
  | replayed (snapshot : Snapshot)
  deriving DecidableEq, Repr

namespace ResponseCache

def empty : ResponseCache := ⟨#[], .empty⟩

/-- The number of keys that have a slot. -/
def size (c : ResponseCache) : Nat := c.keys.size

def isEmpty (c : ResponseCache) : Bool := c.keys.isEmpty

def slot (c : ResponseCache) (i : Nat) : Slot := c.slots.getD i default

/-- The slot of a key, which is made if there is none. -/
def slotFor (c : ResponseCache) (key : String) : Nat × ResponseCache :=
  match c.keys.find? key with
  | some i => (i, c)
  | none => (c.slots.size, ⟨c.slots.push ⟨none, false⟩, c.keys.insert key c.slots.size⟩)

def setSlot (c : ResponseCache) (i : Nat) (s : Slot) : ResponseCache :=
  { c with slots := c.slots.setIfInBounds i s }

/-- The snapshot under a key. -/
def get (c : ResponseCache) (key : String) : Except Blocked (Option Snapshot) :=
  match c.keys.find? key with
  | none => .ok none
  | some i => if (c.slot i).held then .error .blocked else .ok (c.slot i).value

/-- Stores a snapshot under a key. The answer is the one that was there. -/
def insert (c : ResponseCache) (key : String) (s : Snapshot) :
    Except Blocked (Option Snapshot × ResponseCache) :=
  let (i, c) := c.slotFor key
  if (c.slot i).held then .error .blocked
  else .ok ((c.slot i).value, c.setSlot i ⟨some s, false⟩)

/-- Takes the slot of a key out. The answer is the snapshot in it. -/
def remove (c : ResponseCache) (key : String) :
    Except Blocked (Option Snapshot × ResponseCache) :=
  match c.keys.find? key with
  | none => .ok (none, c)
  | some i =>
    if (c.slot i).held then .error .blocked
    else .ok ((c.slot i).value,
      ({ c with keys := c.keys.erase key } : ResponseCache).setSlot i ⟨none, false⟩)

/-- Takes all slots out. -/
def clear (c : ResponseCache) : ResponseCache := { c with keys := .empty }

/-- How a build starts: there is nothing to build, or a slot is held. -/
inductive Start where
  | hit (snapshot : Snapshot)
  | build (slot : Nat)

def start (c : ResponseCache) (key : String) : Except Blocked (Start × ResponseCache) :=
  let (i, c) := c.slotFor key
  if (c.slot i).held then .error .blocked
  else match (c.slot i).value with
    | some s => .ok (.hit s, c)
    | none => .ok (.build i, c.setSlot i ⟨none, true⟩)

/-- Ends a build without a snapshot. -/
def abandon (c : ResponseCache) (i : Nat) : ResponseCache := c.setSlot i ⟨none, false⟩

/-- Whether slot `i` still stands for the key. -/
def registered (c : ResponseCache) (key : String) (i : Nat) : Bool := c.keys.find? key == some i

/-- Ends a build with a snapshot, which is stored if the slot still stands for the key. -/
def finish (c : ResponseCache) (key : String) (i : Nat) (s : Snapshot) : ResponseCache :=
  c.setSlot i ⟨if c.registered key i then some s else none, false⟩

/-- What a response cache needs of the state that it is a part of: its own place there, a log, and
a way to freeze a body. -/
structure Host (σ : Type) where
  cache : σ → ResponseCache
  put : ResponseCache → σ → σ
  report : Event → σ → σ
  freeze : Body → σ → Except SnapshotError Snapshot × σ

/-- The snapshot under a key, which is built if there is none. The build may call the cache in its
turn. Nothing is stored if it fails, or if its slot was taken out meanwhile. -/
def getOrBuild {σ : Type} (host : Host σ) (key : String)
    (build : σ → Except Blocked (Except ServeError Body × σ)) (s : σ) :
    Except Blocked (Except ServeError Snapshot × σ) :=
  match (host.cache s).start key with
  | .error b => .error b
  | .ok (.hit snapshot, c) => .ok (.ok snapshot, host.report (.responseHit key) (host.put c s))
  | .ok (.build i, c) =>
    match build (host.put c s) with
    | .error b => .error b
    | .ok (.error e, s) => .ok (.error e, host.put ((host.cache s).abandon i) s)
    | .ok (.ok body, s) =>
      match host.freeze body s with
      | (.error e, s) => .ok (.error (.snapshot e), host.put ((host.cache s).abandon i) s)
      | (.ok snapshot, s) =>
        let c := host.cache s
        let event := if c.registered key i then Event.responseStored key snapshot.id
          else Event.buildEvicted key snapshot.id
        .ok (.ok snapshot, host.report event (host.put (c.finish key i snapshot) s))

end ResponseCache

end Docroot
