import Docroot.Proofs.Lockstep

/-!
The strict policy and the lenient one.

Two servers are asked the same, one with file systems that hand errors to the caller, one with file
systems that degrade. `Softer` says how they go together: the same disk, the same paths and
registries, the same texts in the caches, and a log that differs only in the failures that were
hidden. Every effect keeps this, every call does, and a call is answered differently only where the
strict server reports an error.
-/

namespace Docroot

namespace ContentCache

/-- Two caches hold the same texts, however often they were asked. -/
structure SameTexts (a b : ContentCache) : Prop where
  keeps : b.keeps = a.keeps
  entries : b.entries = a.entries

namespace SameTexts

variable {a b : ContentCache}

theorem refl (a : ContentCache) : a.SameTexts a := ⟨rfl, rfl⟩

theorem peek (same : a.SameTexts b) (key : String) : b.peek key = a.peek key := by
  simp only [ContentCache.peek, same.entries]

theorem read (same : a.SameTexts b) (key : String) :
    (b.read key).1 = (a.read key).1 ∧ (a.read key).2.SameTexts (b.read key).2 :=
  ⟨same.peek key, same.keeps, same.entries⟩

theorem write (same : a.SameTexts b) (key text : String) :
    (a.write key text).SameTexts (b.write key text) := by
  refine ⟨same.keeps, ?_⟩
  simp only [ContentCache.write, same.keeps, same.entries]

theorem remove (same : a.SameTexts b) (key : String) :
    (b.remove key).1 = (a.remove key).1 ∧ (a.remove key).2.SameTexts (b.remove key).2 := by
  refine ⟨same.peek key, same.keeps, ?_⟩
  simp only [ContentCache.remove, same.entries]

theorem clear (same : a.SameTexts b) : a.clear.SameTexts b.clear := ⟨same.keeps, rfl⟩

end SameTexts

end ContentCache

/-- The same file system, except that it hides failures. -/
def FileSystem.eased (f : FileSystem) : FileSystem :=
  { f with config := { f.config with ioPolicy := .degrade } }

namespace Server

/-- The failures that were hidden from callers, the latest first. -/
def hidden (s : Server) : List FileError := s.log.filterMap Event.hidden?

/-- All events but those of hidden failures. -/
def openLog (s : Server) : List Event := s.log.filter (·.hidden?.isNone)

/-- What a server with strict file systems has in common with one whose file systems degrade, which
hid the given failures. -/
structure Softer (errors : List FileError) (s t : Server) : Prop where
  sound : s.Sound
  disk : t.disk = s.disk
  nodes : t.nodes = s.nodes
  size : t.systems.size = s.systems.size
  system : ∀ v, t.system v = (s.system v).eased
  strict : ∀ v, v < s.systems.size → (s.system v).config.ioPolicy = .strict
  caches : t.caches.size = s.caches.size
  texts : ∀ c, (s.cache c).SameTexts (t.cache c)
  openLog : t.openLog = s.log
  hidden : t.hidden = errors

variable {s t : Server} {errors : List FileError}

/-- A cache may change in both servers if it holds the same texts afterwards. -/
theorem sameTexts_setCache (size : t.caches.size = s.caches.size)
    (texts : ∀ c, (s.cache c).SameTexts (t.cache c)) {a b : ContentCache} (same : a.SameTexts b)
    (i c : Nat) : ((s.setCache i a).cache c).SameTexts ((t.setCache i b).cache c) := by
  simp only [cache_setCache, size]
  split
  · exact same
  · exact texts c

theorem sameTexts_addCache (size : t.caches.size = s.caches.size)
    (texts : ∀ c, (s.cache c).SameTexts (t.cache c)) (a : ContentCache) (c : Nat) :
    ((s.addCache a).2.cache c).SameTexts ((t.addCache a).2.cache c) := by
  simp only [addCache, cache, getD_push, size]
  split
  · exact .refl a
  · exact texts c

namespace Softer

variable (soft : Softer errors s t)

include soft

theorem node (p : Nat) : t.node p = s.node p := by
  simp only [Server.node, soft.nodes]

theorem peek (c : Nat) (key : String) : (t.cache c).peek key = (s.cache c).peek key :=
  (soft.texts c).peek key

theorem alike : s.Alike (fun _ => True) t where
  nodes := soft.nodes
  size := soft.size
  root v := by rw [soft.system]; rfl
  registry v := by rw [soft.system]; rfl
  owners v := by rw [soft.system]; rfl
  disk v _ known path within := by rw [soft.disk]; exact ⟨rfl, rfl, rfl⟩

/-- A path belongs to a strict file system in one server, and to one that degrades in the other. -/
theorem policy {p : Nat} (known : p < s.nodes.size) :
    (s.configOf (s.node p)).ioPolicy = .strict ∧ (t.configOf (s.node p)).ioPolicy = .degrade := by
  refine ⟨soft.strict _ (soft.sound.made p known).system, ?_⟩
  simp only [configOf, soft.system, FileSystem.eased]

/-! ### Effects -/

/-- A file system may change in both servers, but for its settings. -/
theorem setSystem {v : Nat} {f : FileSystem} (settings : f.config = (s.system v).config) :
    (t.setSystem v f.eased).systems.size = (s.setSystem v f).systems.size ∧
    (∀ w, (t.setSystem v f.eased).system w = ((s.setSystem v f).system w).eased) ∧
    ∀ w, w < (s.setSystem v f).systems.size →
      ((s.setSystem v f).system w).config.ioPolicy = .strict := by
  refine ⟨by simpa using soft.size, ?_, ?_⟩
  · intro w
    simp only [system_setSystem, soft.size]
    split
    · rfl
    · exact soft.system w
  · intro w known
    have strict := soft.strict w (by simpa using known)
    rw [system_setSystem]
    split
    · rename_i same
      rw [settings, same.1, strict]
    · exact strict

theorem setNode (p : Nat) (n : PathNode) (sound : (s.setNode p n).Sound) :
    Softer errors (s.setNode p n) (t.setNode p n) :=
  { soft with
    sound
    nodes := by simp only [Server.setNode, soft.nodes] }

theorem setCache {a b : ContentCache} (same : a.SameTexts b) (i : Nat)
    (sound : (s.setCache i a).Sound) : Softer errors (s.setCache i a) (t.setCache i b) :=
  { soft with
    sound
    caches := by simpa using soft.caches
    texts := sameTexts_setCache soft.caches soft.texts same i }

/-- Whatever happens in both servers keeps them together, but for failures that are hidden and for
new file systems. -/
theorem apply {e : Effect} (lawful : e.Lawful s) (told : ∀ err, e ≠ .note (.degraded err))
    (mounts : ∀ f, e ≠ .mount f) : Softer errors (e.apply s) (e.apply t) := by
  have sound := soft.sound.apply lawful
  cases e with
  | note ev =>
    have shown : ev.hidden? = none := by
      cases ev with
      | degraded err => exact absurd rfl (told err)
      | _ => rfl
    exact { soft with
      sound
      openLog := by simpa [Effect.apply, report, Server.openLog, shown] using soft.openLog
      hidden := by simpa [Effect.apply, report, Server.hidden, shown] using soft.hidden }
  | register v key isFolder =>
    obtain ⟨known, _, shape⟩ := lawful
    have made := soft.alike.makeNode trivial known shape
    obtain ⟨size, system, strict⟩ := soft.setSystem (v := v)
      (f := { s.system v with registry := (s.system v).registry.insert key s.nodes.size }) rfl
    simp only [Effect.apply, made, soft.system, soft.nodes]
    exact { soft with sound, nodes := rfl, size, system, strict }
  | keep p l =>
    have kept := soft.setNode p { s.node p with listing := some l } sound
    simpa only [Effect.apply, soft.node] using kept
  | confirm p =>
    have kept := soft.setNode p { s.node p with present := true } sound
    simpa only [Effect.apply, soft.node] using kept
  | ask c key => exact soft.setCache ((soft.texts c).read key).2 c sound
  | fill p text =>
    have filled := soft.setCache ((soft.texts (s.system (s.node p).system).cache).write
      (s.node p).key text) _ sound
    simpa only [Effect.apply, fillCache, soft.node, soft.system, FileSystem.eased] using filled
  | overwrite c key text => exact soft.setCache ((soft.texts c).write key text) c sound
  | drop c key => exact soft.setCache ((soft.texts c).remove key).2 c sound
  | wipe c => exact soft.setCache (soft.texts c).clear c sound
  | alter d => exact { soft with sound, disk := rfl }
  | forget v key =>
    obtain ⟨size, system, strict⟩ := soft.setSystem (v := v)
      (f := { s.system v with registry := (s.system v).registry.erase key }) rfl
    simp only [Effect.apply, soft.system]
    exact { soft with sound, size, system, strict }
  | share v owners =>
    obtain ⟨size, system, strict⟩ :=
      soft.setSystem (v := v) (f := { s.system v with owners }) rfl
    simp only [Effect.apply, soft.system]
    exact { soft with sound, size, system, strict }
  | addCache c =>
    exact { soft with
      sound
      caches := by simp [Effect.apply, soft.caches]
      texts := sameTexts_addCache soft.caches soft.texts c }
  | mount f => exact absurd rfl (mounts f)

/-- A failure is reported by the strict server and hidden by the other. -/
theorem hides (e : FileError) : Softer (e :: errors) s (t.report (.degraded e)) :=
  { soft with
    openLog := by simpa [report, Server.openLog, Event.hidden?] using soft.openLog
    hidden := by simpa [report, Server.hidden, Event.hidden?] using soft.hidden }

/-- A question that only the lenient server asks of a cache leaves no trace in the texts. -/
theorem asksOnly (n : PathNode) : Softer errors s (t.askCache n).2 :=
  { soft with
    caches := by simpa [askCache] using soft.caches
    texts := fun c => by
      simp only [askCache, cache_setCache]
      split
      · rename_i same
        rw [← same.1]
        exact ⟨(soft.texts _).keeps, (soft.texts _).entries⟩
      · exact soft.texts c }

theorem mounted {f : FileSystem} (strict : f.config.ioPolicy = .strict)
    (lawful : (Effect.mount f).Lawful s) :
    Softer errors { s with systems := s.systems.push f }
      { t with systems := t.systems.push f.eased } :=
  { soft with
    sound := soft.sound.apply lawful
    size := by simp [soft.size]
    system := fun v => by
      simp only [Server.system, getD_push, soft.size]
      split
      · rfl
      · exact soft.system v
    strict := fun v known => by
      simp only [Server.system, getD_push]
      split
      · exact strict
      · rename_i older
        exact soft.strict v (by simp at known; omega) }

end Softer

/-- Effects on paths keep a strict server and one that degrades together. -/
theorem softer_lockstep (errors : List FileError) : Lockstep (fun _ => True) (Softer errors) where
  alike _ _ soft := soft.alike
  sound _ _ soft := soft.sound
  apply _ _ e soft kind _ lawful := by
    refine soft.apply lawful ?_ ?_
    · rintro err rfl
      cases kind
    · rintro f rfl
      cases kind

/-! ## Answers -/

/-- Two answers that go together: the same, or an error and the fallback that hides it. -/
def Eased {α : Type} (errors : List FileError) (fallback : α) (x y : Except FileError α × Server) :
    Prop :=
  match x.1 with
  | .ok a => y.1 = .ok a ∧ Softer errors x.2 y.2
  | .error e => y.1 = .ok fallback ∧ Softer (e :: errors) x.2 y.2

/-- What is made of an answer is made of the fallback as well. -/
theorem Eased.map {α β : Type} {fallback : α} {x y : Except FileError α × Server}
    (eased : Eased errors fallback x y) (f : α → β) :
    Eased errors (f fallback) (x.1.map f, x.2) (y.1.map f, y.2) := by
  obtain ⟨result, s'⟩ := x
  cases result with
  | ok a =>
    obtain ⟨same, soft⟩ := eased
    exact ⟨congrArg (Except.map f) same, soft⟩
  | error e =>
    obtain ⟨hidden, soft⟩ := eased
    exact ⟨congrArg (Except.map f) hidden, soft⟩

namespace Softer

variable {α : Type} (soft : Softer errors s t)

include soft

theorem recover (e : FileError) (fallback : α) :
    Eased errors fallback (s.settle (IoPolicy.strict.recover e fallback))
      (t.settle (IoPolicy.degrade.recover e fallback)) :=
  ⟨rfl, soft.hides e⟩

theorem judge (path : String) (result : Except IoError α) (fallback : α) :
    Eased errors fallback (s.settle (IoPolicy.strict.judge path result fallback))
      (t.settle (IoPolicy.degrade.judge path result fallback)) := by
  cases result with
  | ok a => exact ⟨rfl, soft⟩
  | error e => exact soft.recover (.ofIo e path) fallback

theorem length (p : Nat) : Eased errors none (s.length p) (t.length p) := by
  simp only [Server.length, soft.node, soft.disk]
  split
  · exact ⟨rfl, soft⟩
  · rename_i present
    obtain ⟨strict, lenient⟩ := soft.policy (s.known_of_present (by simpa using present))
    rw [strict, lenient]
    exact soft.judge _ _ none

theorem readBytes (p : Nat) : Eased errors [] (s.readBytes p) (t.readBytes p) := by
  simp only [Server.readBytes, soft.node, soft.disk]
  split
  · exact ⟨rfl, soft⟩
  · rename_i present
    obtain ⟨strict, lenient⟩ := soft.policy (s.known_of_present (by simpa using present))
    rw [strict, lenient]
    split
    · exact soft.recover _ []
    · exact soft.judge _ _ []

theorem askCache (n : PathNode) : Match (Softer errors) (s.askCache n) (t.askCache n) := by
  have asked := soft.apply (e := .ask (s.system n.system).cache n.key) trivial
    (fun _ => Effect.noConfusion) (fun _ => Effect.noConfusion)
  have same := soft.peek (s.system n.system).cache n.key
  simp only [Server.askCache, soft.system]
  exact ⟨same, asked⟩

theorem isCached (p : Nat) : Match (Softer errors) (s.isCached p) (t.isCached p) := by
  obtain ⟨same, soft'⟩ := soft.askCache (s.node p)
  simp only [Server.isCached, soft.node, same]
  exact ⟨rfl, soft'⟩

theorem readText (p : Nat) : Eased errors "" (s.readText p) (t.readText p) := by
  obtain ⟨same, asked⟩ := soft.askCache (s.node p)
  simp only [Server.readText, soft.node, same]
  split
  · rename_i text _
    refine ⟨rfl, asked.apply (e := .note (.contentHit (s.node p).key)) trivial ?_ ?_⟩ <;> simp
  · rename_i missed
    have noted : Softer errors ((s.askCache (s.node p)).2.report (.contentMiss (s.node p).key))
        ((t.askCache (s.node p)).2.report (.contentMiss (s.node p).key)) := by
      refine asked.apply (e := .note (.contentMiss (s.node p).key)) trivial ?_ ?_ <;> simp
    split
    · exact ⟨rfl, noted⟩
    · rename_i present
      have present : (s.node p).present = true := by simpa using present
      obtain ⟨strict, lenient⟩ := soft.policy (s.known_of_present present)
      rw [strict, lenient]
      split
      · exact noted.recover _ ""
      · rename_i file
        simp only [disk_report, disk_askCache, soft.disk]
        split
        · rename_i text read
          have filled := noted.apply (e := .fill p text) ⟨present, by simpa using file, ?_, read⟩
            (fun _ => Effect.noConfusion) (fun _ => Effect.noConfusion)
          · refine ⟨rfl, ?_⟩
            simpa only [Effect.apply, node_report, node_askCache, soft.node] using filled
          · exact (peek_askCache s _ _ _).trans missed
        · exact noted.judge _ _ ""

theorem create {p : Nat} (known : p < s.nodes.size) :
    Eased errors false (s.create p) (t.create p) := by
  simp only [Server.create, soft.node, soft.disk]
  split
  · exact ⟨rfl, soft⟩
  · rename_i absent
    obtain ⟨strict, lenient⟩ := soft.policy known
    have tree := (s.disk.make_builds (s.node p).isFolder (Utf8.ofText (s.node p).diskPath)).isTree
    rcases made : (if (s.node p).isFolder then s.disk.makeFolders (Utf8.ofText (s.node p).diskPath)
      else s.disk.makeFileAndFolders (Utf8.ofText (s.node p).diskPath)) with ⟨result, disk⟩
    have altered : Softer errors { s with disk } { t with disk } := by
      rw [made] at tree
      exact soft.apply (e := .alter disk) tree (by simp) (by simp)
    simp only [configOf] at strict lenient ⊢
    rw [strict, lenient]
    cases result with
    | ok =>
      have confirmed := altered.apply (e := .confirm p) (by simpa [Effect.Lawful] using absent)
        (by simp) (by simp)
      refine ⟨rfl, ?_⟩
      simpa only [Effect.apply, node_disk, soft.node, settle, IoPolicy.judge, Verdict.answer,
        Verdict.hidden?, Except.map] using confirmed
    | error e => exact ⟨rfl, altered.hides _⟩

theorem respond [MediaTypes] (p : Nat) (h : Header) :
    Eased errors (.ofContent h (MediaType.contentType (s.node p).extension).1
      (MediaType.contentType (s.node p).extension).2 []) (s.respond p h) (t.respond p h) := by
  rw [respond_eq, respond_eq, soft.node]
  generalize MediaType.contentType (s.node p).extension = type
  have text := (soft.readText p).map fun t => Response.ofContent h type.1 type.2 (Utf8.ofText t)
  have bytes := (soft.readBytes p).map (Response.ofContent h type.1 type.2)
  split
  · exact ⟨rfl, soft⟩
  · dsimp only
    split
    · exact text
    · exact bytes

end Softer

/-! ## Warm-ups -/

/-- A read that fails leaves the cache without the text. -/
theorem peek_of_readText_error {p : Nat} {e : FileError} (failed : (s.readText p).1 = .error e) :
    ((s.readText p).2.cache (s.system (s.node p).system).cache).peek (s.node p).key = none := by
  have asked (key : String) := s.peek_askCache (s.node p) (s.system (s.node p).system).cache key
  have found : (s.askCache (s.node p)).1 = _ := (asked (s.node p).key).symm
  rcases answer : s.askCache (s.node p) with ⟨entry, u⟩
  simp only [answer] at asked found
  simp only [readText, answer] at failed ⊢
  cases entry with
  | some text => cases failed
  | none =>
    dsimp only at failed ⊢
    split at failed
    · cases failed
    · rename_i present
      rw [if_neg present]
      split at failed
      · rename_i folder
        rw [if_pos folder, cache_settle, cache_report, ← found]
      · rename_i file
        rw [if_neg file]
        split at failed
        · cases failed
        · rw [cache_settle, cache_report, ← found]

end Server

/-- A value that is set is the one value of its name. -/
theorem Header.get?_set (h : Header) (n : HeaderName) (value : String) :
    (h.set n value).get? n = some value := by
  have gone : (h.remove n).entries.find? (fun e => e.1.agrees n) = none := by
    refine List.find?_eq_none.mpr ?_
    intro e mem
    simpa using (List.mem_filter.mp mem).2
  have self : n.agrees n = true := by simp [HeaderName.agrees]
  simp [Header.get?, Header.set, Header.append, List.find?_append, gone, self]

/-- The error that an answer reports, if it is one. -/
def failureOf {α : Type} : Except FileError α → Option FileError
  | .ok _ => none
  | .error e => some e

namespace Server

variable {s t : Server} {errors : List FileError}

section

variable [MediaTypes]

/-- The error that reading a file during a warm-up ends in. -/
def loadError (s : Server) (p : Nat) : Option FileError :=
  if (MediaType.contentType (s.node p).extension).2 then failureOf (s.readText p).1 else none

/-- The errors of reading files one after the other. -/
def loadErrors (s : Server) : List Nat → List FileError
  | [] => []
  | p :: rest => (s.loadError p).toList ++ (s.loadFile p).2.loadErrors rest

/-- The errors of all file reads of a warm-up. -/
def warmErrors (s : Server) (bound dir : Nat) : List FileError :=
  match collect bound s [dir] [] with
  | none => []
  | some (files, s) => s.loadErrors files

end

namespace Softer

variable (soft : Softer errors s t)

include soft

variable [MediaTypes]

theorem loadFile (p : Nat) :
    Match (Softer ((s.loadError p).toList ++ errors)) (s.loadFile p) (t.loadFile p) := by
  have eased := soft.readText p
  simp only [Server.loadFile, Server.loadError, soft.node]
  split
  · rcases first : s.readText p with ⟨result, s'⟩
    rcases second : t.readText p with ⟨result', t'⟩
    rw [first, second] at eased
    cases result with
    | ok text =>
      obtain ⟨same, soft'⟩ := eased
      obtain rfl : result' = .ok text := same
      exact soft'.isCached p
    | error e =>
      obtain ⟨same, soft'⟩ := eased
      obtain rfl : result' = .ok "" := same
      -- Nothing was read into either cache, so the lenient server finds nothing there.
      have missing := peek_of_readText_error (congrArg Prod.fst first)
      obtain ⟨nodes, systems⟩ := (readText_goes s p).reads_kept
      rw [first] at missing nodes systems
      have node : t'.node p = s.node p := by
        rw [soft'.node, Server.node, nodes]
        rfl
      have system : (t'.system (s.node p).system).cache = (s.system (s.node p).system).cache := by
        rw [soft'.system, Server.system, systems]
        rfl
      have absent : (t'.askCache (s.node p)).1 = none := by
        simp only [Server.askCache, system]
        exact (soft'.peek _ _).trans missing
      refine ⟨?_, ?_⟩
      · simp only [Server.isCached, node, absent, Option.isSome_none]
      · exact soft'.asksOnly _
  · exact ⟨rfl, soft⟩

theorem load (files : List Nat) :
    Match (Softer ((s.loadErrors files).reverse ++ errors)) (s.load files) (t.load files) := by
  induction files generalizing s t errors with
  | nil => exact ⟨rfl, soft⟩
  | cons p files ih =>
    obtain ⟨same, soft'⟩ := soft.loadFile p
    obtain ⟨same', soft''⟩ := ih soft'
    refine ⟨?_, ?_⟩
    · simp only [Server.load, same, same']
    · have order : (s.loadErrors (p :: files)).reverse ++ errors =
          ((s.loadFile p).2.loadErrors files).reverse ++ ((s.loadError p).toList ++ errors) := by
        rcases first : s.loadError p with - | e <;> simp [Server.loadErrors, first]
      rw [order]
      simpa only [Server.load] using soft''

theorem warm (bound : Nat) {dir : Nat} (known : dir < s.nodes.size) :
    Option.Rel (Match (Softer ((s.warmErrors bound dir).reverse ++ errors)))
      (Server.warm bound s dir) (Server.warm bound t dir) := by
  have belong : ∀ p ∈ [dir], s.Belongs (fun _ => True) p :=
    fun p mem => ⟨List.mem_singleton.mp mem ▸ known, trivial⟩
  have collected := (softer_lockstep errors).collect soft bound belong []
  rcases rel_cases collected with ⟨first, second⟩ | ⟨x, y, first, second, same, soft'⟩
  · simp only [Server.warm, first, second]
    exact .none
  · obtain ⟨loaded, soft''⟩ := soft'.load x.1
    simp only [Server.warm, Server.warmErrors, first, second, same, loaded, soft''.node]
    refine .some ⟨rfl, soft''.apply (e := .note (.warmed _ _ _)) trivial ?_ ?_⟩ <;> simp

end Softer

end Server

/-! ## Whole calls -/

/-- The error that an answer reports. -/
def Answer.failure? : Answer → Option FileError
  | length r => failureOf r
  | bytes r => failureOf r
  | text r => failureOf r
  | created r => failureOf r
  | response r => failureOf r
  | _ => none

/-- The same call; a file system that it mounts follows the given policy. -/
def Call.under (policy : IoPolicy) : Call → Call
  | mount dir cache config => mount dir cache { config with ioPolicy := policy }
  | c => c

namespace Server

variable {s t : Server} {hidden : List FileError} {c : Call}

section

variable [MediaTypes]

/-- What a call is answered in place of an error: no length, nothing in the file, not made, or a
response with an empty body. -/
def degraded (s : Server) : Call → Answer
  | .length _ => .length (.ok none)
  | .readBytes _ => .bytes (.ok [])
  | .readText _ => .text (.ok "")
  | .create _ => .created (.ok false)
  | .respond p h =>
    let type := MediaType.contentType (s.node p).extension
    .response (.ok (.ofContent h type.1 type.2 []))
  | _ => .done

/-- The errors of a call to a strict server, in the order in which they occur. -/
def errors (s : Server) : Call → List FileError
  | .warm bound dir => s.warmErrors bound dir
  | c => ((s.perform (c.under .strict)).bind fun x => x.1.failure?).toList

/-- The outcomes of a call that go together, in a strict server and in one that degrades: the
second answers as the first does, or in place of the error, and hid all errors of the call. -/
structure Hides (hidden : List FileError) (s : Server) (c : Call) (x y : Answer × Server) :
    Prop where
  answer : y.1 = x.1.failure?.elim x.1 fun _ => s.degraded c
  served : y.1.failure? = none
  soft : Softer ((s.errors c).reverse ++ hidden) x.2 y.2

/-- Calls that report no errors. -/
theorem Hides.told {x y : Answer × Server} (done : s.perform (c.under .strict) = some x)
    (same : Match (Softer hidden) x y) (warms : ∀ bound p, c ≠ .warm bound p)
    (told : x.1.failure? = none) : Hides hidden s c x y := by
  obtain ⟨same, soft⟩ := same
  refine ⟨?_, ?_, ?_⟩
  · rw [told]
    exact same
  · rw [same]
    exact told
  · have none' : s.errors c = [] := by
      cases c with
      | warm bound p => exact absurd rfl (warms bound p)
      | _ => simp [errors, done, told]
    rw [none']
    exact soft

/-- Calls that access a file. -/
theorem Eased.hides {α : Type} {x y : Except FileError α × Server} {fallback : α}
    {f : Except FileError α → Answer} (eased : Eased hidden fallback x y)
    (done : s.perform (c.under .strict) = some (f x.1, x.2))
    (shows : ∀ r, (f r).failure? = failureOf r) (hides : s.degraded c = f (.ok fallback))
    (warms : ∀ bound p, c ≠ .warm bound p) :
    Hides hidden s c (f x.1, x.2) (f y.1, y.2) := by
  have errs : s.errors c = (failureOf x.1).toList := by
    cases c with
    | warm bound p => exact absurd rfl (warms bound p)
    | _ => simp [errors, done, shows]
  obtain ⟨result, s'⟩ := x
  cases result with
  | ok a =>
    obtain ⟨same, soft⟩ := eased
    refine ⟨?_, ?_, ?_⟩
    · rw [shows, same]
      rfl
    · rw [shows, same]
      rfl
    · rw [errs]
      exact soft
  | error e =>
    obtain ⟨same, soft⟩ := eased
    refine ⟨?_, ?_, ?_⟩
    · rw [shows, same, hides]
      rfl
    · rw [shows, same]
      rfl
    · rw [errs]
      exact soft

theorem failure_of_places {a : Answer} (kind : c.places = true) (done : s.perform c = some (a, t)) :
    a.failure? = none := by
  obtain ⟨_, done⟩ := perform_eq done
  cases c <;> cases kind <;> cases done <;> rfl

end

theorem under_places (policy : IoPolicy) (kind : c.places = true) : c.under policy = c := by
  cases c with
  | mount => cases kind
  | _ => rfl

namespace Softer

variable (soft : Softer hidden s t)

include soft

theorem cacheFor (cache : Option Nat) (enabled : Bool) :
    Match (Softer hidden) (s.cacheFor cache enabled) (t.cacheFor cache enabled) := by
  have added (a : ContentCache) (new : a.entries = .empty ∧ a.writes = 0) :
      Match (Softer hidden) (s.addCache a) (t.addCache a) :=
    ⟨soft.caches, soft.apply (e := .addCache a) new (fun _ => Effect.noConfusion)
      (fun _ => Effect.noConfusion)⟩
  simp only [Server.cacheFor]
  split
  · cases cache with
    | none => exact added .memory ⟨rfl, rfl⟩
    | some c => exact ⟨rfl, soft⟩
  · exact added .disabled ⟨rfl, rfl⟩

/-- A file system may be mounted with either policy. -/
theorem mount (root : String) {cache : Option Nat} (config : Config)
    (known : ∀ c, cache = some c → c < s.caches.size) :
    Match (Softer hidden) (s.mount root cache { config with ioPolicy := .strict })
      (t.mount root cache { config with ioPolicy := .degrade }) := by
  obtain ⟨number, soft'⟩ := soft.cacheFor cache config.cacheEnabled
  obtain ⟨_, there⟩ := cacheFor_goes s root cache config known
  let f : FileSystem := ⟨absoluteRoot (s.cacheFor cache config.cacheEnabled).2.disk root,
    (s.cacheFor cache config.cacheEnabled).1, { config with ioPolicy := .strict }, .empty, 1⟩
  have mounted := soft'.mounted (f := f) rfl ⟨rfl, there⟩
  refine ⟨soft'.size, ?_⟩
  simpa only [mount_over, number, soft'.disk, FileSystem.eased] using mounted

theorem knows (c : Call) : t.knows (c.under .degrade) = s.knows (c.under .strict) := by
  cases c <;> simp only [Call.under, Server.knows, soft.nodes, soft.size, soft.caches]

/-- Every call goes together with the same call to the other server. -/
theorem perform [MediaTypes] (c : Call) : Option.Rel (Hides hidden s c)
    (s.perform (c.under .strict)) (t.perform (c.under .degrade)) := by
  by_cases places : c.places = true
  · rw [under_places _ places, under_places _ places]
    have same := (softer_lockstep hidden).perform soft places fun _ _ => trivial
    rcases rel_cases same with ⟨first, second⟩ | ⟨⟨a, s'⟩, y, first, second, same⟩
    · rw [first, second]
      exact .none
    · rw [first, second]
      refine .some (.told (by rw [under_places _ places, first]) same ?_
        (failure_of_places places first))
      rintro bound p rfl
      cases places
  · simp only [Server.perform, soft.knows]
    split
    · rename_i known
      have told {a : Answer} {s' : Server} {y : Answer × Server}
          (done : s.carryOut (c.under .strict) = some (a, s'))
          (same : Match (Softer hidden) (a, s') y) (warms : ∀ bound p, c ≠ .warm bound p)
          (told : a.failure? = none) :
          Hides hidden s c (a, s') y :=
        .told ((if_pos known).trans done) same warms told
      cases c with
      | root | get | resolve | resolveWith | children | invalidate => exact absurd rfl places
      | newCache =>
        have added := soft.apply (e := .addCache .memory) ⟨rfl, rfl⟩ (by simp) (by simp)
        exact .some (told rfl ⟨congrArg Answer.cache soft.caches, added⟩ (by simp) rfl)
      | mount dir cache config =>
        have cacheKnown : ∀ i, cache = some i → i < s.caches.size := fun i some' => by
          simpa [Server.knows, Call.under, some'] using known
        obtain ⟨same, mounted⟩ := soft.mount dir config cacheKnown
        exact .some (told rfl ⟨congrArg Answer.system same, mounted⟩ (by simp) rfl)
      | retain v =>
        have shared := soft.apply (e := .share v ((s.system v).owners + 1)) trivial (by simp)
          (by simp)
        refine .some (told rfl ⟨rfl, ?_⟩ (by simp) rfl)
        simpa only [Effect.apply, retain, soft.system, FileSystem.eased] using shared
      | release v =>
        have shared := soft.apply (e := .share v ((s.system v).owners - 1)) trivial (by simp)
          (by simp)
        refine .some (told rfl ⟨rfl, ?_⟩ (by simp) rfl)
        simpa only [Effect.apply, release, soft.system, FileSystem.eased] using shared
      | matching p questions =>
        obtain ⟨same, soft'⟩ := (softer_lockstep hidden).matching soft
          (fun p _ _ soft => soft.isCached p) (p := p) trivial questions
        exact .some (told rfl ⟨congrArg Answer.paths same, soft'⟩ (by simp) rfl)
      | isCached p =>
        obtain ⟨same, soft'⟩ := soft.isCached p
        exact .some (told rfl ⟨congrArg Answer.flag same, soft'⟩ (by simp) rfl)
      | length p =>
        exact .some ((soft.length p).hides (f := .length) (c := .length p) (if_pos known)
          (fun _ => rfl) rfl (by simp))
      | readBytes p =>
        exact .some ((soft.readBytes p).hides (f := .bytes) (c := .readBytes p) (if_pos known)
          (fun _ => rfl) rfl (by simp))
      | readText p =>
        exact .some ((soft.readText p).hides (f := .text) (c := .readText p) (if_pos known)
          (fun _ => rfl) rfl (by simp))
      | create p =>
        have known' : p < s.nodes.size := by simpa [Server.knows, Call.under] using known
        exact .some ((soft.create known').hides (f := .created) (c := .create p)
          (if_pos known) (fun _ => rfl) rfl (by simp))
      | respond p h =>
        exact .some ((soft.respond p h).hides (f := .response) (c := .respond p h)
          (if_pos known) (fun _ => rfl) rfl (by simp))
      | warm bound p =>
        have known' : p < s.nodes.size := by simpa [Server.knows, Call.under] using known
        have warmed := soft.warm bound known'
        rcases rel_cases warmed with ⟨first, second⟩ | ⟨x, y, first, second, same, soft'⟩
        · simp only [Call.under, carryOut, first, second]
          exact .none
        · simp only [Call.under, carryOut, first, second]
          exact .some ⟨congrArg Answer.count same, rfl, soft'⟩
      | askText i key =>
        have asked := soft.apply (e := .ask i key) trivial (by simp) (by simp)
        exact .some (told rfl ⟨congrArg Answer.entry (soft.peek i key), asked⟩ (by simp) rfl)
      | writeText i key text =>
        have written := soft.apply (e := .overwrite i key text) trivial (by simp) (by simp)
        exact .some (told rfl ⟨rfl, written⟩ (by simp) rfl)
      | removeText i key =>
        have removed := soft.apply (e := .drop i key) trivial (by simp) (by simp)
        exact .some (told rfl ⟨congrArg Answer.entry (soft.peek i key), removed⟩ (by simp) rfl)
      | clearTexts i =>
        have cleared := soft.apply (e := .wipe i) trivial (by simp) (by simp)
        exact .some (told rfl ⟨rfl, cleared⟩ (by simp) rfl)
      | change d =>
        have changed := soft.apply (e := .alter d.1) (fun _ => d.2) (by simp) (by simp)
        exact .some (told rfl ⟨rfl, changed⟩ (by simp) rfl)
    · exact .none

end Softer

theorem Softer.run [MediaTypes] (soft : Softer hidden s t) (calls : List Call) :
    Option.Rel (fun s t => ∃ hidden, Softer hidden s t) (s.run (calls.map (·.under .strict)))
      (t.run (calls.map (·.under .degrade))) := by
  induction calls generalizing s t hidden with
  | nil => exact .some ⟨hidden, soft⟩
  | cons c rest ih =>
    have first := soft.perform c
    rcases rel_cases first with ⟨strict, lenient⟩ | ⟨x, y, strict, lenient, outcome⟩
    · simp only [List.map_cons, Server.run, strict, lenient]
      exact .none
    · simp only [List.map_cons, Server.run, strict, lenient]
      exact ih outcome.soft

theorem start_softer (d : Tree) : Softer [] (start d) (start d) where
  sound := start_sound d
  disk := rfl
  nodes := rfl
  size := rfl
  system _ := rfl
  strict _ known := absurd known (Nat.not_lt_zero _)
  caches := rfl
  texts _ := .refl _
  openLog := rfl
  hidden := rfl

/-- The response that stands in for a file that cannot be read: the status that was asked for, no
body, and a length that says so. -/
theorem empty_ofContent (h : Header) (type : String) (isText : Bool) :
    (Response.ofContent h type isText []).header.status = h.status ∧
    (Response.ofContent h type isText []).stream = .known (.new []) ∧
    (Response.ofContent h type isText []).header.get? (h.standard .contentLength) = some "0" := by
  have zero : Decimal.ofNat 0 = "0" := by decide
  refine ⟨rfl, rfl, ?_⟩
  rw [← zero]
  exact Header.get?_set _ _ _

/-- **The policies differ only in what they report.** The same calls are made to two servers over
the same disk, whose file systems differ only in their policy: strict in one, degrading in the
other. Whatever the calls are, either both servers can carry them out or none can, and then both
have the same disk, the same paths with the same listings, the same registries and the same texts
in their caches, and their logs differ only in the failures that were hidden. The next call is
answered alike, except that an error in the one server is its fallback in the other, which reports
no error; and for each error of the call, those of the file reads within a warm-up included, the
other notes one failure that it hid. A response that is such a fallback has the status that was
asked for, an empty body and the length 0. -/
theorem policies_differ_in_reports [MediaTypes] (d : Tree) (calls : List Call) :
    Option.Rel (fun s t =>
        (t.disk = s.disk ∧ t.nodes = s.nodes ∧
          (∀ v, (t.system v).registry = (s.system v).registry) ∧
          (∀ c, (t.cache c).entries = (s.cache c).entries) ∧ t.openLog = s.log) ∧
        (∀ c, Option.Rel (fun x y =>
            y.1 = (x.1.failure?.elim x.1 fun _ => s.degraded c) ∧ y.1.failure? = none ∧
            y.2.hidden = (s.errors c).reverse ++ t.hidden)
          (s.perform (c.under .strict)) (t.perform (c.under .degrade))) ∧
        ∀ p h, ∃ r, s.degraded (.respond p h) = .response (.ok r) ∧ r.header.status = h.status ∧
          r.stream = .known (.new []) ∧ r.header.get? (h.standard .contentLength) = some "0")
      ((start d).run (calls.map (·.under .strict)))
      ((start d).run (calls.map (·.under .degrade))) := by
  have ran := (start_softer d).run calls
  rcases rel_cases ran with ⟨strict, lenient⟩ | ⟨s, t, strict, lenient, hidden, soft⟩
  · rw [strict, lenient]
    exact .none
  · rw [strict, lenient]
    refine .some ⟨⟨soft.disk, soft.nodes, ?_, fun c => (soft.texts c).entries, soft.openLog⟩, ?_,
      fun p h => ⟨_, rfl, empty_ofContent h _ _⟩⟩
    · intro v
      rw [soft.system]
      rfl
    · intro c
      have next := soft.perform c
      rcases rel_cases next with ⟨strict, lenient⟩ | ⟨x, y, strict, lenient, outcome⟩
      · rw [strict, lenient]
        exact .none
      · rw [strict, lenient]
        refine .some ⟨outcome.answer, outcome.served, ?_⟩
        rw [outcome.soft.hidden, soft.hidden]

end Server

end Docroot
