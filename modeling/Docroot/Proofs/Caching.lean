import Docroot.Proofs.Lockstep
import Docroot.Proofs.Texts

/-!
With a content cache and without one.

A file system that caches is run beside the same file system without a cache. As long as the disk
only grows, every text in the cache is still the one that the file has on disk, so a hit answers
what the disk would. `Uncached` is the relation that keeps the two together; only a path that was
missing when it was resolved is answered from the cache where the disk is not asked.
-/

namespace Docroot

/-- Text on disk stays as it is while the disk only grows. -/
theorem Server.textOnDisk_grows {d d' : Disk} (grows : d.Grows d') {path : Utf8.Bytes}
    {text : String} (read : textOnDisk d path = .ok text) : textOnDisk d' path = .ok text := by
  simp only [textOnDisk] at read
  cases content : d.read path with
  | error e =>
    rw [content] at read
    cases read
  | ok bytes =>
    rw [content] at read
    simpa only [textOnDisk, Disk.read_grows grows content] using read

namespace Server

/-- The file system `v` of the first server has the content cache `c` to itself, and all texts in it
are on disk. The other server is the same, but its cache `c` is switched off. -/
structure Uncached (v c : Nat) (s t : Server) : Prop where
  alike : s.Alike (fun _ => True) t
  sound : s.Sound
  disk : t.disk = s.disk
  cacheOf : ∀ w, (t.system w).cache = (s.system w).cache
  policy : ∀ w, (t.system w).config.ioPolicy = (s.system w).config.ioPolicy
  known : v < s.systems.size
  own : ∀ w, w < s.systems.size → ((s.system w).cache = c ↔ w = v)
  others : ∀ b, b ≠ c → t.cache b = s.cache b
  size : t.caches.size = s.caches.size
  off : (t.cache c).keeps = false ∧ (t.cache c).entries = .empty
  onDisk : ∀ k text, (s.cache c).peek k = some text →
    textOnDisk s.disk (Utf8.ofText (Key.below (s.system v).root k)) = .ok text

variable {s t : Server} {v c : Nat}

namespace Uncached

variable (un : Uncached v c s t)

include un

/-- Effects on paths keep the two servers together. -/
theorem places {e : Effect} (kind : e.Places) (lawful : e.Lawful s) :
    Uncached v c (e.apply s) (e.apply t) := by
  obtain ⟨disk, caches, size, systems⟩ := Effect.places_frame kind s
  obtain ⟨disk', caches', size', systems'⟩ := Effect.places_frame kind t
  have same (b : Nat) : (e.apply s).cache b = s.cache b := by rw [cache, caches, cache]
  have same' (b : Nat) : (e.apply t).cache b = t.cache b := by rw [cache, caches', cache]
  exact {
    alike := un.alike.apply kind (by cases e <;> trivial) lawful
    sound := un.sound.apply lawful
    disk := by rw [disk, disk', un.disk]
    cacheOf := fun w => by rw [(systems w).2, (systems' w).2, un.cacheOf]
    policy := fun w => by rw [(systems w).1, (systems' w).1, un.policy]
    known := by rw [size]; exact un.known
    own := fun w known => by
      rw [(systems w).2]
      exact un.own w (size ▸ known)
    others := fun b ne => by rw [same, same', un.others b ne]
    size := by rw [caches, caches', un.size]
    off := by rw [same']; exact un.off
    onDisk := fun k text entry => by
      rw [same] at entry
      rw [disk, (e.system_kept un.known).1]
      exact un.onDisk k text entry }

/-- What the two servers note makes no difference. -/
theorem report (e e' : Event) : Uncached v c (s.report e) (t.report e') :=
  { un with
    alike := { un.alike with }
    sound := un.sound.apply (e := .note e) trivial }

/-- Any other cache may change in both servers. -/
theorem setOther {b : Nat} (ne : b ≠ c) (a : ContentCache) (sound : (s.setCache b a).Sound) :
    Uncached v c (s.setCache b a) (t.setCache b a) :=
  { un with
    alike := { un.alike with }
    sound
    others := fun i ne => by
      simp only [cache_setCache, un.size]
      split
      · rfl
      · exact un.others i ne
    size := by simpa using un.size
    off := by simpa only [cache_setCache, ne, false_and, if_false] using un.off
    onDisk := fun k text entry => by
      simp only [cache_setCache, ne, false_and, if_false] at entry
      exact un.onDisk k text entry }

/-- The cache itself may change: in the one server to texts that are on disk, in the other it stays
switched off. -/
theorem setOwn {a b : ContentCache} (sound : (s.setCache c a).Sound)
    (off : b.keeps = false ∧ b.entries = .empty)
    (onDisk : ∀ k text, a.peek k = some text →
      textOnDisk s.disk (Utf8.ofText (Key.below (s.system v).root k)) = .ok text) :
    Uncached v c (s.setCache c a) (t.setCache c b) :=
  { un with
    alike := { un.alike with }
    sound
    others := fun i ne => by
      simp only [cache_setCache, Ne.symm ne, false_and, if_false]
      exact un.others i ne
    size := by simpa using un.size
    off := by
      rw [cache_setCache]
      split
      · exact off
      · exact un.off
    onDisk := fun k text entry => by
      rw [cache_setCache] at entry
      split at entry
      · exact onDisk k text entry
      · exact un.onDisk k text entry }

/-- The disk may grow. -/
theorem grow {d : Disk} (grows : s.disk.Grows d) (tree : d.IsTree) :
    Uncached v c { s with disk := d } { t with disk := d } :=
  { un with
    alike := { un.alike with disk := fun _ _ _ _ _ => ⟨rfl, rfl, rfl⟩ }
    sound := un.sound.apply (e := .alter d) fun _ => tree
    disk := rfl
    onDisk := fun k text entry => textOnDisk_grows grows (un.onDisk k text entry) }

end Uncached

/-- Effects on paths keep a server with a cache and one without together. -/
theorem uncached_lockstep (v c : Nat) : Lockstep (fun _ => True) (Uncached v c) where
  alike _ _ un := un.alike
  sound _ _ un := un.sound
  apply _ _ _ un kind _ lawful := un.places kind lawful

/-! ## Reading and creating -/

namespace Uncached

variable (un : Uncached v c s t)

include un

theorem settle {α : Type} (verdict : Verdict α) :
    Match (Uncached v c) (s.settle verdict) (t.settle verdict) := by
  simp only [Server.settle]
  split
  · exact ⟨rfl, un.report _ _⟩
  · exact ⟨rfl, un⟩

theorem configOf (n : PathNode) : (t.configOf n).ioPolicy = (s.configOf n).ioPolicy :=
  un.policy n.system

theorem length (p : Nat) : Match (Uncached v c) (s.length p) (t.length p) := by
  simp only [Server.length, un.alike.node, un.disk, un.configOf]
  split
  · exact ⟨rfl, un⟩
  · exact un.settle _

theorem readBytes (p : Nat) : Match (Uncached v c) (s.readBytes p) (t.readBytes p) := by
  simp only [Server.readBytes, un.alike.node, un.disk, un.configOf]
  split
  · exact ⟨rfl, un⟩
  · split <;> exact un.settle _

/-- Other caches are asked alike. -/
theorem ask_other {n : PathNode} (ne : (s.system n.system).cache ≠ c) :
    Match (Uncached v c) (s.askCache n) (t.askCache n) := by
  have sound := un.sound.apply (e := .ask (s.system n.system).cache n.key) trivial
  have asked := un.setOther ne ((s.cache (s.system n.system).cache).read n.key).2 sound
  simp only [askCache, un.cacheOf, un.others _ ne]
  exact ⟨rfl, asked⟩

/-- The cache that is switched off is asked in vain. -/
theorem ask_own {n : PathNode} (own : (s.system n.system).cache = c) :
    (t.askCache n).1 = none ∧ Uncached v c (s.askCache n).2 (t.askCache n).2 := by
  have sound := un.sound.apply (e := .ask c n.key) trivial
  have asked := un.setOwn (a := ((s.cache c).read n.key).2) (b := ((t.cache c).read n.key).2)
    sound un.off un.onDisk
  refine ⟨?_, ?_⟩
  · simp only [askCache, un.cacheOf, own, ContentCache.read, ContentCache.peek, un.off.2]
    rfl
  · simp only [askCache, un.cacheOf, own]
    exact asked

/-- The text that a file has on disk may go into its cache. -/
theorem fill {p : Nat} {text : String} (known : p < s.nodes.size)
    (lawful : (Effect.fill p text).Lawful s) :
    Uncached v c (s.fillCache (s.node p) text) (t.fillCache (s.node p) text) := by
  have sound := un.sound.apply lawful
  obtain ⟨_, _, _, read⟩ := lawful
  have made := un.sound.made p known
  by_cases own : (s.system (s.node p).system).cache = c
  · have system : (s.node p).system = v := (un.own _ made.system).mp own
    simp only [Effect.apply, fillCache, un.cacheOf, own] at sound ⊢
    refine un.setOwn sound ?_ ?_
    · simp only [ContentCache.write, un.off, Bool.false_eq_true, if_false, and_self]
    · intro k text' entry
      by_cases same : (s.node p).key = k
      · cases keeps : (s.cache c).keeps with
        | true =>
          rw [ContentCache.peek_write _ _ _ _ keeps, if_pos same] at entry
          rw [← same, ← Option.some.inj entry, ← system, ← made.diskPath]
          exact read
        | false =>
          simp only [ContentCache.peek, ContentCache.write, keeps, Bool.false_eq_true,
            if_false] at entry
          exact un.onDisk k text' entry
      · rw [ContentCache.peek_write_of_ne _ _ same] at entry
        exact un.onDisk k text' entry
  · simp only [Effect.apply, fillCache, un.cacheOf, un.others _ own] at sound ⊢
    exact un.setOther own _ sound

/-- What is read into a cache that is switched off is lost. -/
theorem fill_off {n : PathNode} (own : (s.system n.system).cache = c) (text : String) :
    Uncached v c s (t.fillCache n text) :=
  { un with
    alike := { un.alike with }
    others := fun b ne => by
      simp only [fillCache, un.cacheOf, own, cache_setCache, Ne.symm ne, false_and, if_false]
      exact un.others b ne
    size := by simpa [fillCache] using un.size
    off := by
      simp only [fillCache, un.cacheOf, own, cache_setCache]
      split
      · simp only [ContentCache.write, un.off, Bool.false_eq_true, if_false, and_self]
      · exact un.off }

/-- Files of other file systems, and files that the cache does not hold, are read alike. -/
theorem readText_missing {p : Nat} (known : p < s.nodes.size)
    (missed : (s.askCache (s.node p)).1 = none) (missed' : (t.askCache (s.node p)).1 = none)
    (asked : Uncached v c (s.askCache (s.node p)).2 (t.askCache (s.node p)).2) :
    Match (Uncached v c) (s.readText p) (t.readText p) := by
  have noted := asked.report (.contentMiss (s.node p).key) (.contentMiss (s.node p).key)
  rw [readText_missed missed, readText_missed (by rw [un.alike.node]; exact missed')]
  simp only [un.alike.node, un.disk, un.configOf]
  split
  · exact ⟨rfl, noted⟩
  · rename_i present
    split
    · exact noted.settle _
    · rename_i file
      split
      · rename_i text read
        refine ⟨rfl, noted.fill (p := p) known ⟨?_, ?_, ?_, read⟩⟩
        · simpa using present
        · simpa using file
        · exact (peek_askCache s _ _ _).trans missed
      · exact noted.settle _

/-- A file that is there is read from the cache as it is on disk. -/
theorem readText_held {p : Nat} {text : String} (known : p < s.nodes.size)
    (own : (s.system (s.node p).system).cache = c)
    (held : (s.askCache (s.node p)).1 = some text) :
    (s.readText p).1 = .ok text ∧
    (t.readText p).1 = .ok (if (s.node p).present then text else "") ∧
    Uncached v c (s.readText p).2 (t.readText p).2 := by
  obtain ⟨missed, asked⟩ := un.ask_own own
  have noted := asked.report (.contentHit (s.node p).key) (.contentMiss (s.node p).key)
  have made := un.sound.made p known
  have system : (s.node p).system = v := (un.own _ made.system).mp own
  have hit : s.readText p =
      (.ok text, (s.askCache (s.node p)).2.report (.contentHit (s.node p).key)) := by
    simp only [readText, held]
  have read : textOnDisk s.disk (Utf8.ofText (s.node p).diskPath) = .ok text := by
    rw [made.diskPath, system]
    refine un.onDisk _ _ ?_
    rw [← own]
    exact held
  rw [hit, readText_missed (by rw [un.alike.node]; exact missed)]
  simp only [un.alike.node, un.disk, un.configOf, read]
  cases present : (s.node p).present with
  | false => exact ⟨trivial, rfl, noted⟩
  | true =>
    have file : (s.node p).isFolder = false := made.file_of_text un.sound.tree read
    simp only [file, Bool.not_true, Bool.false_eq_true, if_false, if_true]
    exact ⟨trivial, trivial, noted.fill_off (n := s.node p) own text⟩

theorem confirm (p : Nat) (n : PathNode) (sound : (s.setNode p n).Sound) :
    Uncached v c (s.setNode p n) (t.setNode p n) :=
  { un with
    alike := { un.alike with nodes := by simp only [setNode, un.alike.nodes] }
    sound }

/-- What is made on disk is made alike, and leaves all texts that are there. -/
theorem create (p : Nat) : Match (Uncached v c) (s.create p) (t.create p) := by
  simp only [Server.create, un.alike.node, un.disk]
  split
  · exact ⟨rfl, un⟩
  · rename_i absent
    have builds := s.disk.make_builds (s.node p).isFolder (Utf8.ofText (s.node p).diskPath)
    rcases made : (if (s.node p).isFolder then s.disk.makeFolders (Utf8.ofText (s.node p).diskPath)
      else s.disk.makeFileAndFolders (Utf8.ofText (s.node p).diskPath)) with ⟨result, disk⟩
    rw [made] at builds
    have grown : Uncached v c { s with disk } { t with disk } :=
      un.grow builds.grows (builds.isTree un.sound.tree)
    have policy := un.configOf (s.node p)
    simp only [policy]
    cases result with
    | ok =>
      have confirmed := grown.confirm p { s.node p with present := true }
        (grown.sound.apply (e := .confirm p) (by simpa [Effect.Lawful] using absent))
      exact ⟨rfl, confirmed⟩
    | error e =>
      cases (s.configOf (s.node p)).ioPolicy with
      | strict => exact ⟨rfl, grown⟩
      | degrade => exact ⟨rfl, grown.report _ _⟩

end Uncached

/-! ## Whole calls -/

/-- The text that a call reads from the cache of the file system `v` although its path was missing
when it was resolved. -/
def staleText (s : Server) (v : Nat) : Call → Option String
  | .readText p =>
    if (s.node p).system = v ∧ (s.node p).present = false then
      (s.cache (s.system v).cache).peek (s.node p).key
    else none
  | _ => none

/-- The answers to a call that go together, with a cache and without: they are equal, but a path
that was missing is read from the cache with its text and from the disk without. -/
def Told (s : Server) (v : Nat) (call : Call) (a b : Answer) : Prop :=
  match s.staleText v call with
  | none => b = a
  | some text => a = .text (.ok text) ∧ b = .text (.ok "")

end Server

/-- The calls that serve paths, and make them on disk. -/
def Call.serves : Call → Bool
  | length _ | readBytes _ | readText _ | create _ | respond .. => true
  | call => call.places

namespace Server

variable {s t : Server} {v c p : Nat}

namespace Uncached

variable (un : Uncached v c s t)

include un

theorem readText_told (known : p < s.nodes.size) (told : s.staleText v (.readText p) = none) :
    Match (Uncached v c) (s.readText p) (t.readText p) := by
  have made := un.sound.made p known
  by_cases own : (s.system (s.node p).system).cache = c
  · have system : (s.node p).system = v := (un.own _ made.system).mp own
    obtain ⟨missed', asked⟩ := un.ask_own own
    cases held : (s.askCache (s.node p)).1 with
    | none => exact un.readText_missing known held missed' asked
    | some text =>
      obtain ⟨first, second, after⟩ := un.readText_held known own held
      cases present : (s.node p).present with
      | true =>
        rw [present, if_pos rfl] at second
        exact ⟨second.trans first.symm, after⟩
      | false =>
        have held : (s.cache (s.system (s.node p).system).cache).peek (s.node p).key = some text :=
          held
        rw [staleText, if_pos ⟨system, present⟩, ← system, held] at told
        cases told
  · obtain ⟨same, asked⟩ := un.ask_other own
    cases held : (s.askCache (s.node p)).1 with
    | none => exact un.readText_missing known held (same.trans held) asked
    | some text =>
      rw [held] at same
      have noted := asked.report (.contentHit (s.node p).key) (.contentHit (s.node p).key)
      simp only [Server.readText, un.alike.node, held, same]
      exact ⟨rfl, noted⟩

theorem readText_stale {text : String} (known : p < s.nodes.size)
    (stale : s.staleText v (.readText p) = some text) :
    (s.readText p).1 = .ok text ∧ (t.readText p).1 = .ok "" ∧
    Uncached v c (s.readText p).2 (t.readText p).2 := by
  simp only [staleText] at stale
  split at stale
  · rename_i missing
    obtain ⟨rfl, absent⟩ := missing
    have own := (un.own _ un.known).mpr rfl
    obtain ⟨first, second, after⟩ := un.readText_held known own stale
    rw [absent, if_neg Bool.false_ne_true] at second
    exact ⟨first, second, after⟩
  · cases stale

variable [MediaTypes]

theorem respond (known : p < s.nodes.size) (h : Header) :
    Match (Uncached v c) (s.respond p h) (t.respond p h) := by
  rw [respond_eq, respond_eq, un.alike.node]
  generalize MediaType.contentType (s.node p).extension = type
  split
  · exact ⟨rfl, un⟩
  · rename_i served
    dsimp only
    split
    · have told : s.staleText v (.readText p) = none := by
        have present : (s.node p).present = true := by
          simp only [Bool.or_eq_true, Bool.not_eq_true', not_or, Bool.not_eq_false] at served
          exact served.1
        simp [staleText, present]
      obtain ⟨same, after⟩ := un.readText_told known told
      exact ⟨by rw [same], after⟩
    · obtain ⟨same, after⟩ := un.readBytes p
      exact ⟨by rw [same], after⟩

/-- A call that serves paths is answered alike, unless it reads a stale text. -/
theorem perform {call : Call} (kind : call.serves = true) :
    Option.Rel (fun x y => s.Told v call x.1 y.1 ∧ Uncached v c x.2 y.2) (s.perform call)
      (t.perform call) := by
  by_cases places : call.places = true
  · have same := (uncached_lockstep v c).perform un places fun _ _ => trivial
    have told : s.staleText v call = none := by
      cases call <;> first | rfl | cases places
    rcases rel_cases same with ⟨first, second⟩ | ⟨x, y, first, second, same, after⟩
    · rw [first, second]
      exact .none
    · rw [first, second]
      exact .some ⟨by rw [Told, told]; exact same, after⟩
  · have knows : t.knows call = s.knows call := by
      cases call <;> simp only [Server.knows, un.alike.nodes, un.alike.size, un.size]
    simp only [Server.perform, knows]
    split
    · rename_i known
      cases call with
      | length p =>
        obtain ⟨same, after⟩ := un.length p
        exact .some ⟨congrArg Answer.length same, after⟩
      | readBytes p =>
        obtain ⟨same, after⟩ := un.readBytes p
        exact .some ⟨congrArg Answer.bytes same, after⟩
      | create p =>
        obtain ⟨same, after⟩ := un.create p
        exact .some ⟨congrArg Answer.created same, after⟩
      | respond p h =>
        have known : p < s.nodes.size := by simpa [Server.knows] using known
        obtain ⟨same, after⟩ := un.respond known h
        exact .some ⟨congrArg Answer.response same, after⟩
      | readText p =>
        have known : p < s.nodes.size := by simpa [Server.knows] using known
        cases stale : s.staleText v (.readText p) with
        | none =>
          obtain ⟨same, after⟩ := un.readText_told known stale
          refine .some ⟨?_, after⟩
          rw [Told, stale]
          exact congrArg Answer.text same
        | some text =>
          obtain ⟨first, second, after⟩ := un.readText_stale known stale
          refine .some ⟨?_, after⟩
          rw [Told, stale]
          exact ⟨congrArg Answer.text first, congrArg Answer.text second⟩
      | root | get | resolve | resolveWith | children | invalidate => exact absurd rfl places
      | _ => cases kind
    · exact .none

theorem run {calls : List Call} (kind : ∀ call ∈ calls, call.serves = true) :
    Option.Rel (Uncached v c) (s.run calls) (t.run calls) := by
  induction calls generalizing s t with
  | nil => exact .some un
  | cons call rest ih =>
    have first := un.perform (kind call List.mem_cons_self)
    rcases rel_cases first with ⟨cached, plain⟩ | ⟨x, y, cached, plain, _, after⟩
    · simp only [Server.run, cached, plain]
      exact .none
    · simp only [Server.run, cached, plain]
      exact ih after fun call mem => kind call (List.mem_cons_of_mem _ mem)

end Uncached

/-- A new file system with a cache of its own, and the same with its cache switched off. -/
theorem mount_uncached (sound : s.Sound) (root : String) (config : Config) :
    Uncached s.systems.size s.caches.size (s.mount root none { config with cacheEnabled := true }).2
      (s.mount root none { config with cacheEnabled := false }).2 := by
  have goes := mount_goes s root none { config with cacheEnabled := true } (by simp)
  have system (f f' : FileSystem) {α : Type} (g : FileSystem → α) (same : g f' = g f) (w : Nat) :
      g ((s.systems.push f').getD w default) = g ((s.systems.push f).getD w default) := by
    rw [getD_push, getD_push]
    split
    · exact same
    · rfl
  refine {
    alike := ⟨rfl, ?_, system _ _ _ rfl, system _ _ _ rfl, system _ _ _ rfl,
      fun _ _ _ _ _ => ⟨rfl, rfl, rfl⟩⟩
    sound := sound.goes goes
    disk := rfl
    cacheOf := system _ _ _ rfl
    policy := system _ _ (fun f => f.config.ioPolicy) rfl
    known := ?_
    own := ?_
    others := ?_
    size := ?_
    off := ?_
    onDisk := ?_ }
  · simp [mount, addCache]
  · simp [mount, addCache]
  · intro w known
    simp only [mount, addCache, Server.system, if_true, getD_push]
    split
    · rename_i new
      exact iff_of_true rfl new
    · rename_i older
      have known : w < s.systems.size := by
        simp [mount, addCache] at known
        omega
      exact iff_of_false (Nat.ne_of_lt (sound.cache w known)) older
  · intro b ne
    change (s.caches.push _).getD b default = (s.caches.push _).getD b default
    rw [getD_push, getD_push, if_neg ne, if_neg ne]
  · simp [mount, addCache]
  · simp [mount, addCache, Server.cache, ContentCache.disabled]
  · intro k text entry
    simp [mount, addCache, Server.cache, ContentCache.memory, ContentCache.peek] at entry

/-- **Caching goes unseen, but for paths that were missing.** The same file system is mounted twice
over the same disk, once with a content cache of its own and once with caching switched off, and
serves the same calls, of which `create` alone changes the disk. Whatever the calls are, either both
servers can carry them out or none can, and then they have the same disk, the same paths and the
same registries, and the next call is answered alike. The one exception is a path that was missing
when it was resolved, is read as text, and whose key has a text in the cache by now: this text is
the answer with the cache, and the empty text is the answer without. -/
theorem caching_goes_unseen [MediaTypes] {s₀ : Server} (reach : Reachable s₀) (root : String)
    (config : Config) {calls : List Call} (kind : ∀ call ∈ calls, call.serves = true) :
    Option.Rel (fun s t =>
        t.disk = s.disk ∧ t.nodes = s.nodes ∧
        (∀ w, (t.system w).registry = (s.system w).registry) ∧
        ∀ call, call.serves = true →
          Option.Rel (fun x y => s.Told s₀.systems.size call x.1 y.1) (s.perform call)
            (t.perform call))
      (s₀.run (.mount root none { config with cacheEnabled := true } :: calls))
      (s₀.run (.mount root none { config with cacheEnabled := false } :: calls)) := by
  have ran := (mount_uncached reach.sound root config).run kind
  have mounted (enabled : Bool) :
      s₀.run (.mount root none { config with cacheEnabled := enabled } :: calls) =
        (s₀.mount root none { config with cacheEnabled := enabled }).2.run calls := run_cons_of rfl
  rw [mounted, mounted]
  rcases rel_cases ran with ⟨cached, plain⟩ | ⟨s, t, cached, plain, un⟩
  · rw [cached, plain]
    exact .none
  · rw [cached, plain]
    refine .some ⟨un.disk, un.alike.nodes, un.alike.registry, ?_⟩
    intro call kind
    have next := un.perform kind
    rcases rel_cases next with ⟨first, second⟩ | ⟨x, y, first, second, told, _⟩
    · rw [first, second]
      exact .none
    · rw [first, second]
      exact .some told

attribute [local instance] MediaTypes.familiar

/-- Once the file `x.txt` was read, it is read again from the cache, and without a cache alike. -/
theorem text_reread_alike : ∃ s t s' t',
    (start textDisk).run [.mount "/" none { cacheEnabled := true }, .root 0,
      .resolve 0 0 "x.txt", .readText 1] = some s ∧
    (start textDisk).run [.mount "/" none { cacheEnabled := false }, .root 0,
      .resolve 0 0 "x.txt", .readText 1] = some t ∧ t.disk = s.disk ∧
    (s.cache 0).peek "x.txt" = some "hi\n" ∧
    s.perform (.readText 1) = some (.text (.ok "hi\n"), s') ∧
    t.perform (.readText 1) = some (.text (.ok "hi\n"), t') := by
  obtain ⟨s, ran, _, entry, known, ofCache, made⟩ := read_textDisk
  have kind : ∀ call ∈ [Call.root 0, .resolve 0 0 "x.txt", .readText 1], call.serves = true := by
    decide
  have unseen := caching_goes_unseen ⟨textDisk, [], rfl⟩ "/" {} kind
  obtain ⟨cached, _⟩ | ⟨s', t, cached, plain, disk, _, _, next⟩ := rel_cases unseen
  · cases ran.symm.trans cached
  cases ran.symm.trans cached
  have hit : (s.readText 1).1 = .ok "hi\n" :=
    readText_entry (by rw [made, ofCache, entry])
  have first := perform_readText known
  rw [hit] at first
  have told := next (.readText 1) rfl
  have fresh : s.staleText (start textDisk).systems.size (.readText 1) = none := by
    rw [staleText, made]
    rfl
  simp only [Told, fresh, first] at told
  obtain ⟨nothing, _⟩ | ⟨_, ⟨answer, t'⟩, same, second, alike⟩ := rel_cases told
  · cases nothing
  cases same
  cases alike
  exact ⟨s, t, _, t', ran, plain, disk, entry, first, second⟩

/-! ## A text that turns up late -/

/-- The disk once the root directory `/m/..` was made. -/
def lateDisk : Disk := (textDisk.1.makeFolders (Utf8.ofText "/m/../")).2

theorem lateDisk_made : textDisk.1.makeFolders (Utf8.ofText "/m/../") = (.ok (), lateDisk) := by
  have made : (textDisk.1.makeFolders (Utf8.ofText "/m/../")).1 = .ok () := by cbv
  exact Prod.ext made rfl

theorem lateDisk_reads : textDisk.1.stat (Utf8.ofText "/m/../x.txt") = .error (.os Errno.noEntry) ∧
    lateDisk.stat (Utf8.ofText "/m/../x.txt") = .ok ⟨false, 2⟩ ∧
    textOnDisk lateDisk (Utf8.ofText "/m/../x.txt") = .ok "hi\n" :=
  ⟨by cbv, by cbv, by cbv⟩

theorem late_paths : Key.below "/m/.." "" = "/m/../" ∧
    Key.below "/m/.." "x.txt" = "/m/../x.txt" := by
  decide

section

variable [MediaTypes]

/-- The server of the file system at `/m/..`, which is missing, with its root. -/
theorem late_root : ∃ s, (start textDisk).run [.mount "/m/.." none {}, .root 0] = some s ∧
    s.disk = textDisk.1 ∧ s.systems.size = 1 ∧ s.nodes.size = 1 ∧ s.caches = #[.memory] ∧
    (s.system 0).root = "/m/.." ∧ (s.system 0).cache = 0 ∧
    s.node 0 = ⟨0, "", true, "/m/../", false, none⟩ ∧
    ∀ key, key ≠ "" → s.lookup 0 key = none := by
  have root : absoluteRoot textDisk.1 "/m/.." = "/m/.." := by cbv
  have missing : textDisk.1.exists? (Utf8.ofText "/m/../") = false := by cbv
  have made : (⟨0, "", true, Key.below (absoluteRoot textDisk.1 "/m/..") "",
      textDisk.1.exists? (Utf8.ofText (Key.below (absoluteRoot textDisk.1 "/m/..") "")), none⟩ :
        PathNode) = ⟨0, "", true, "/m/../", false, none⟩ := by
    rw [root, late_paths.1, missing]
  refine ⟨_, rfl, rfl, rfl, rfl, rfl, root, rfl, made, ?_⟩
  intro key below
  exact (Table.find?_insert _ _ _ _).trans (if_neg (Ne.symm below))

/-- The file was asked for while the root was missing. -/
theorem late_missing : ∃ s, (start textDisk).run
      [.mount "/m/.." none {}, .root 0, .resolve 0 0 "x.txt"] = some s ∧
    s.disk = textDisk.1 ∧ s.systems.size = 1 ∧ s.nodes.size = 2 ∧ s.caches = #[.memory] ∧
    (s.system 0).root = "/m/.." ∧ (s.system 0).cache = 0 ∧
    s.node 0 = ⟨0, "", true, "/m/../", false, none⟩ ∧
    s.node 1 = ⟨0, "x.txt", false, "/m/../x.txt", false, none⟩ ∧
    s.lookup 0 "x.txt" = some 1 ∧ ∀ key, key ≠ "" → key ≠ "x.txt" → s.lookup 0 key = none := by
  obtain ⟨s, ran, disk, systems, nodes, caches, root, cache, node, free⟩ := late_root
  have known : 0 < s.systems.size := by omega
  have stat : s.disk.stat (Utf8.ofText (Key.below (s.system 0).root "x.txt")) =
      .error (.os Errno.noEntry) := by
    rw [disk, root, late_paths.2, lateDisk_reads.1]
  have file : s.classify 0 "x.txt" = false := by
    rw [classify, stat]
    decide
  have resolved := resolve_xtxt (by rw [node]) (free _ (by decide)) (free _ (by decide)) file
  have new := free "x.txt" (by decide)
  have goes := resolve_goes known 0 "x.txt"
  have led : s.run [.resolve 0 0 "x.txt"] = some (s.resolve 0 0 "x.txt").2 :=
    run_cons_of (perform_resolve known (by omega) _)
  have number : (s.intern 0 "x.txt" false).1 = 1 := by simp only [intern, new, nodes]
  have made : _ = s.makeNode 0 "x.txt" false := intern_anew new
  have there := lookup_intern known "x.txt" false
  rw [resolved] at goes led
  rw [number] at made there
  refine ⟨_, (run_append_of ran).trans led, (goes.mono Effect.Resolves.looks).disk_kept.trans disk,
    ?_, ?_, ?_, (goes.system_kept known).1.trans root, (goes.system_kept known).2.1.trans cache,
    (goes.node_kept (by omega)).trans node, ?_, there, ?_⟩
  · simp [intern, new, report, setSystem, systems]
  · simp [intern, new, report, setSystem, nodes]
  · simp only [intern, new]
    exact caches
  · rw [made, makeNode, Disk.exists?, stat, root, late_paths.2]
  · intro key below other
    rw [lookup_intern_other false (Ne.symm other) known, free key below]

/-- The root is made, and the path of the file is forgotten. -/
theorem late_forgotten : ∃ s, (start textDisk).run [.mount "/m/.." none {}, .root 0,
      .resolve 0 0 "x.txt", .create 0, .invalidate 0 1] = some s ∧
    s.disk = lateDisk ∧ s.systems.size = 1 ∧ s.nodes.size = 2 ∧ s.caches = #[.memory] ∧
    (s.system 0).root = "/m/.." ∧ (s.system 0).cache = 0 ∧ (s.node 0).key = "" ∧
    s.node 1 = ⟨0, "x.txt", false, "/m/../x.txt", false, none⟩ ∧
    ∀ key, key ≠ "" → s.lookup 0 key = none := by
  obtain ⟨s, ran, disk, systems, nodes, caches, root, cache, folder, file, there, free⟩ :=
    late_missing
  have made : s.create 0 = (.ok true, ({ s with disk := lateDisk } : Server).setNode 0
      ⟨0, "", true, "/m/../", true, none⟩) := by
    simp only [create, folder, disk, Bool.false_eq_true, if_false, if_true, lateDisk_made]
    rfl
  obtain ⟨t, create⟩ : ∃ t, s.create 0 = (.ok true, t) := ⟨_, made⟩
  have same : t = ({ s with disk := lateDisk } : Server).setNode 0
      ⟨0, "", true, "/m/../", true, none⟩ := congrArg Prod.snd (create.symm.trans made)
  have folder' : (t.node 0).key = "" := by
    rw [same, node_setNode, if_pos ⟨rfl, by show 0 < s.nodes.size; omega⟩]
  have file' : t.node 1 = ⟨0, "x.txt", false, "/m/../x.txt", false, none⟩ := by
    rw [same, node_setNode, if_neg (by simp)]
    exact file
  have there' : t.lookup 0 "x.txt" = some 1 := by
    rw [same]
    exact there
  have systems' : t.systems = s.systems := by rw [same]; rfl
  have nodes' : t.nodes.size = 2 := by rw [same, size_nodes_setNode]; exact nodes
  have gone : t.invalidate 0 1 = (true, t.setSystem 0
      { t.system 0 with registry := (t.system 0).registry.erase "x.txt" }) := by
    simp only [invalidate, file', there', if_true]
  have known : 0 < t.systems.size := by rw [systems']; omega
  have first : s.perform (.create 0) = some (.created (.ok true), t) := by
    simp [perform, knows, carryOut, nodes, create]
  have second : t.perform (.invalidate 0 1) = some (.flag true, (t.invalidate 0 1).2) := by
    simp [perform, knows, carryOut, known, nodes', gone]
  obtain ⟨_, _, lookups⟩ := invalidate_eq t 0 1
  obtain ⟨root', cache', _⟩ := (invalidate_goes t 0 1).system_kept known
  refine ⟨_, (run_append_of ran).trans ((run_cons_of first).trans (run_cons_of second)), ?_, ?_, ?_,
    ?_, root'.trans ?_, cache'.trans ?_, ?_, ?_, ?_⟩
  · rw [gone, same]
    rfl
  · rw [gone, size_systems_setSystem, systems', systems]
  · rw [gone]
    exact nodes'
  · rw [gone, same]
    exact caches
  · rw [system, systems']
    exact root
  · rw [system, systems']
    exact cache
  · rw [gone]
    exact folder'
  · rw [gone]
    exact file'
  · intro key below
    rw [lookups, gone, file']
    by_cases this : key = "x.txt"
    · rw [if_pos ⟨rfl, rfl, this⟩]
    · rw [if_neg fun h => this h.2.2, same]
      exact free key below this

/-- What is asked of the file system: the file is looked for while the root directory is missing,
the root is made, and the file is looked for again and read. -/
def lateCalls : List Call :=
  [.root 0, .resolve 0 0 "x.txt", .create 0, .invalidate 0 1, .resolve 0 0 "x.txt", .readText 2]

/-- The path that was missing is read from the cache by now. -/
theorem late_stale : ∃ s, (start textDisk).run (.mount "/m/.." none {} :: lateCalls) = some s ∧
    1 < s.nodes.size ∧ s.staleText 0 (.readText 1) = some "hi\n" := by
  obtain ⟨s, ran, disk, systems, nodes, caches, root, cache, key, file, free⟩ := late_forgotten
  have known : 0 < s.systems.size := by omega
  have stat : s.disk.stat (Utf8.ofText (Key.below (s.system 0).root "x.txt")) = .ok ⟨false, 2⟩ := by
    rw [disk, root, late_paths.2, lateDisk_reads.2.1]
  have isFile : s.classify 0 "x.txt" = false := classify_of_stat stat
  have resolved := resolve_xtxt key (free _ (by decide)) (free _ (by decide)) isFile
  have new := free "x.txt" (by decide)
  have goes := resolve_goes known 0 "x.txt"
  have first := perform_resolve known (show 0 < s.nodes.size by omega) "x.txt"
  have number : (s.intern 0 "x.txt" false).1 = 2 := by simp only [intern, new, nodes]
  have made : _ = s.makeNode 0 "x.txt" false := intern_anew new
  rw [resolved] at goes first
  rw [number] at made
  have size : (s.intern 0 "x.txt" false).2.nodes.size = 3 := by
    simp [intern, new, report, setSystem, nodes]
  have caches' : (s.intern 0 "x.txt" false).2.caches = #[.memory] := by
    simp only [intern, new]
    exact caches
  have file' : (s.intern 0 "x.txt" false).2.node 1 =
      ⟨0, "x.txt", false, "/m/../x.txt", false, none⟩ := (goes.node_kept (by omega)).trans file
  have cache' := (goes.system_kept known).2.1.trans cache
  have disk' := (goes.mono Effect.Resolves.looks).disk_kept.trans disk
  rw [makeNode, Disk.exists?, stat, root, late_paths.2] at made
  generalize (s.intern 0 "x.txt" false).2 = t at *
  have memory : t.cache 0 = .memory := by rw [Server.cache, caches']; rfl
  have filled : ((t.readText 2).2.cache 0).peek "x.txt" = some "hi\n" :=
    readText_fills (by rw [made, cache']) (by rw [made]) (by rw [made]) (by rw [made])
      (by rw [made, disk', lateDisk_reads.2.2]) (by rw [caches']; exact Nat.zero_lt_one)
      (by rw [memory]; rfl) (by rw [memory]; rfl)
  have second := perform_readText (show 2 < t.nodes.size by omega)
  obtain ⟨nodes', systems'⟩ := (readText_goes t 2).reads_kept
  refine ⟨_, (run_append_of ran).trans ((run_cons_of first).trans (run_cons_of second)),
    by rw [nodes']; omega, ?_⟩
  have same : (t.readText 2).2.node 1 = t.node 1 := by rw [node, nodes']; rfl
  have cache'' : ((t.readText 2).2.system 0).cache = 0 := by rw [system, systems']; exact cache'
  rw [staleText, same, file', if_pos ⟨rfl, rfl⟩, cache'', filled]

end

/-- With a cache, the text of a path that was missing turns up; without, it stays empty. -/
theorem late_text_differs : ∃ s t s' t',
    (start textDisk).run (.mount "/m/.." none { cacheEnabled := true } :: lateCalls) = some s ∧
    (start textDisk).run (.mount "/m/.." none { cacheEnabled := false } :: lateCalls) = some t ∧
    s.perform (.readText 1) = some (.text (.ok "hi\n"), s') ∧
    t.perform (.readText 1) = some (.text (.ok ""), t') := by
  obtain ⟨s, ran, known, stale⟩ := late_stale
  have kind : ∀ call ∈ lateCalls, call.serves = true := by decide
  have un := (mount_uncached (start_sound textDisk) "/m/.." {}).run kind
  have mounted (enabled : Bool) :
      (start textDisk).run (.mount "/m/.." none { cacheEnabled := enabled } :: lateCalls) =
        ((start textDisk).mount "/m/.." none { cacheEnabled := enabled }).2.run lateCalls :=
    run_cons_of rfl
  rw [← mounted, ← mounted] at un
  obtain ⟨cached, _⟩ | ⟨s', t, cached, plain, un⟩ := rel_cases un
  · cases ran.symm.trans cached
  cases ran.symm.trans cached
  obtain ⟨first, second, _⟩ := un.readText_stale known stale
  refine ⟨s, t, (s.readText 1).2, (t.readText 1).2, ran, plain, ?_, ?_⟩
  · rw [perform_readText known, first]
  · rw [perform_readText (by rw [un.alike.nodes]; exact known), second]

end Server

end Docroot
