import Docroot.ResponseCache

/-!
Programs over a response cache.

A program calls the cache and goes on with the answer. The build of a snapshot is such a program as
well, over the same cache, so builds are nested to any depth. `Script.run` runs a program over a
response cache. `Script.runPlain` runs it over what the cache stands for: a map from keys to
snapshots, together with the builds that are in progress.
-/

namespace Docroot

/-- A program that calls a response cache and acts on a state `τ` besides. -/
inductive Script (τ : Type) where
  /-- The end. In a build this is what is to be frozen. -/
  | yield (r : Except ServeError Body)
  /-- Anything but a call of the cache. It goes on with the state after it. -/
  | aside (act : τ → τ) (next : τ → Script τ)
  | get (key : String) (next : Option Snapshot → Script τ)
  | insert (key : String) (x : Snapshot) (next : Option Snapshot → Script τ)
  | remove (key : String) (next : Option Snapshot → Script τ)
  | clear (next : Script τ)
  /-- Asks for the snapshot under a key, to be built by `closure` if there is none. -/
  | build (key : String) (closure : Script τ) (next : Except ServeError Snapshot → Script τ)

/-- What a cache answered. -/
inductive Reply where
  | got (x : Option Snapshot)
  | inserted (old : Option Snapshot)
  | removed (old : Option Snapshot)
  | built (r : Except ServeError Snapshot)

/-- A cache of the kind `κ`, what there is besides it, and its answers so far, the latest first. -/
structure Scene (κ τ : Type) where
  cache : κ
  outside : τ
  replies : List Reply

def Scene.reply {κ τ : Type} (s : Scene κ τ) (r : Reply) : Scene κ τ :=
  { s with replies := r :: s.replies }

/-- How a state `τ` takes note of events and freezes bodies. -/
structure Outside (τ : Type) where
  report : Event → τ → τ
  freeze : Body → τ → Except SnapshotError Snapshot × τ

variable {τ : Type}

def Outside.host (o : Outside τ) : ResponseCache.Host (Scene ResponseCache τ) where
  cache s := s.cache
  put c s := { s with cache := c }
  report e s := { s with outside := o.report e s.outside }
  freeze body s :=
    let answer := o.freeze body s.outside
    (answer.1, { s with outside := answer.2 })

/-- Runs a program over a response cache. There is no answer if it needs a slot that is held. -/
def Script.run (o : Outside τ) : Script τ → Scene ResponseCache τ →
    Except Blocked (Except ServeError Body × Scene ResponseCache τ)
  | yield r, s => .ok (r, s)
  | aside act next, s =>
    let t := act s.outside
    (next t).run o { s with outside := t }
  | get key next, s =>
    match s.cache.get key with
    | .error b => .error b
    | .ok x => (next x).run o (s.reply (.got x))
  | insert key x next, s =>
    match s.cache.insert key x with
    | .error b => .error b
    | .ok (old, c) => (next old).run o ({ s with cache := c }.reply (.inserted old))
  | remove key next, s =>
    match s.cache.remove key with
    | .error b => .error b
    | .ok (old, c) => (next old).run o ({ s with cache := c }.reply (.removed old))
  | clear next, s => next.run o { s with cache := s.cache.clear }
  | build key closure next, s =>
    match ResponseCache.getOrBuild o.host key (closure.run o) s with
    | .error b => .error b
    | .ok (r, s) => (next r).run o (s.reply (.built r))

/-- A build in progress. -/
structure Pending where
  key : String
  /-- Whether the cache was cleared since it began. Nothing else evicts a build: a key that is being
  built cannot be removed. -/
  evicted : Bool

/-- A map from keys to snapshots, and the builds in progress, the innermost first. -/
structure Plain where
  map : Table String Snapshot
  builds : List Pending

namespace Plain

/-- Whether a key is being built. A build that was evicted leaves its key to others. -/
def busy (p : Plain) (key : String) : Bool := p.builds.any fun b => b.key == key && !b.evicted

def get (p : Plain) (key : String) : Except Blocked (Option Snapshot) :=
  if p.busy key then .error .blocked else .ok (p.map.find? key)

def insert (p : Plain) (key : String) (x : Snapshot) : Except Blocked (Option Snapshot × Plain) :=
  if p.busy key then .error .blocked
  else .ok (p.map.find? key, { p with map := p.map.insert key x })

def remove (p : Plain) (key : String) : Except Blocked (Option Snapshot × Plain) :=
  if p.busy key then .error .blocked
  else .ok (p.map.find? key, { p with map := p.map.erase key })

/-- Drops every snapshot, and evicts every build in progress. -/
def clear (p : Plain) : Plain where
  map := .empty
  builds := p.builds.map fun b => { b with evicted := true }

def begin (p : Plain) (key : String) : Plain := { p with builds := ⟨key, false⟩ :: p.builds }

/-- Ends the innermost build, and leaves the map as it is. -/
def abandon (p : Plain) : Plain := { p with builds := p.builds.tail }

/-- Whether the innermost build was not evicted. -/
def keeps (p : Plain) : Bool := p.builds.head?.any (!·.evicted)

/-- Ends the innermost build, which is of the given key. Its snapshot is stored unless the build
was evicted. -/
def finish (p : Plain) (key : String) (x : Snapshot) : Plain :=
  if p.keeps then { p.abandon with map := p.map.insert key x } else p.abandon

/-- The snapshot under a key, which is built if there is none. -/
def getOrBuild (o : Outside τ) (key : String)
    (build : Scene Plain τ → Except Blocked (Except ServeError Body × Scene Plain τ))
    (s : Scene Plain τ) : Except Blocked (Except ServeError Snapshot × Scene Plain τ) :=
  if s.cache.busy key then .error .blocked
  else match s.cache.map.find? key with
    | some x => .ok (.ok x, { s with outside := o.report (.responseHit key) s.outside })
    | none =>
      match build { s with cache := s.cache.begin key } with
      | .error b => .error b
      | .ok (.error e, s) => .ok (.error e, { s with cache := s.cache.abandon })
      | .ok (.ok body, s) =>
        match o.freeze body s.outside with
        | (.error e, t) =>
          .ok (.error (.snapshot e), { s with cache := s.cache.abandon, outside := t })
        | (.ok x, t) =>
          let event := if s.cache.keeps then Event.responseStored key x.id
            else .buildEvicted key x.id
          .ok (.ok x, { s with cache := s.cache.finish key x, outside := o.report event t })

end Plain

/-- Runs a program over a plain map. -/
def Script.runPlain (o : Outside τ) : Script τ → Scene Plain τ →
    Except Blocked (Except ServeError Body × Scene Plain τ)
  | yield r, s => .ok (r, s)
  | aside act next, s =>
    let t := act s.outside
    (next t).runPlain o { s with outside := t }
  | get key next, s =>
    match s.cache.get key with
    | .error b => .error b
    | .ok x => (next x).runPlain o (s.reply (.got x))
  | insert key x next, s =>
    match s.cache.insert key x with
    | .error b => .error b
    | .ok (old, p) => (next old).runPlain o ({ s with cache := p }.reply (.inserted old))
  | remove key next, s =>
    match s.cache.remove key with
    | .error b => .error b
    | .ok (old, p) => (next old).runPlain o ({ s with cache := p }.reply (.removed old))
  | clear next, s => next.runPlain o { s with cache := s.cache.clear }
  | build key closure next, s =>
    match Plain.getOrBuild o key (closure.runPlain o) s with
    | .error b => .error b
    | .ok (r, s) => (next r).runPlain o (s.reply (.built r))

end Docroot
