import Docroot.Proofs.Lockstep
import Docroot.Proofs.Names
import Docroot.Proofs.Resolution

/-!
Nothing leaves the root directory.

The place of a path on disk is the root directory of its file system, extended by the segments of
its key, and no segment leads back up. Calls that look at the disk look there and nowhere else: on
any other disk that gives the same answers below the roots of the file systems that are asked, they
are answered the same and do the same. A path that is created appears there as well, with the
folders on the way to it.
-/

namespace Docroot

namespace Disk

open Utf8 (Bytes)

variable {d : Disk} {root path : Bytes}

/-- A path on disk that goes down from a root directory: it starts where the directory's path starts
and follows the names in it, and then names that lead further down. -/
structure Under (root path : Bytes) : Prop where
  start : isAbsolute path = isAbsolute root
  names : ∃ down, (∀ n ∈ down, Onward n) ∧ namesOf path = namesOf root ++ down

theorem under_below (root raw : String) (isFolder : Bool) :
    Under (Utf8.ofText root) (Utf8.ofText (Key.below root (Key.normalize raw isFolder))) := by
  refine ⟨isAbsolute_below root raw isFolder, _, ?_, namesOf_below root raw isFolder⟩
  intro n mem
  obtain ⟨seg, there, rfl⟩ := List.mem_map.mp mem
  exact (Plain.of_clean (Key.segments_clean _ seg there)).toOnward

theorem namesOf_entryPath {n : Name} (onward : Onward n) :
    namesOf (entryPath path n) = namesOf path ++ [n] := by
  rw [entryPath]
  split
  · rename_i shut
    rcases shut with rfl | ends
    · exact namesOf_onward onward
    · obtain ⟨front, rfl⟩ := List.getLast?_eq_some_iff.mp (beq_iff_eq.mp ends)
      rw [List.append_assoc, List.singleton_append, namesOf_append, namesOf_append,
        namesOf_onward onward]
      exact congrArg (· ++ [n]) (List.append_nil _).symm
  · rw [namesOf_append, namesOf_onward onward]

theorem isAbsolute_entryPath {n : Name} (onward : Onward n) :
    isAbsolute (entryPath path n) = isAbsolute path := by
  cases path with
  | nil =>
    cases n with
    | nil => exact absurd rfl onward.ne_nil
    | cons a rest =>
      have other : a ≠ slash := fun same => onward.slash (same ▸ List.mem_cons_self)
      simp [entryPath, isAbsolute, other]
  | cons a rest =>
    rw [entryPath]
    split <;> rfl

/-- What a folder under a root directory holds is under it too. -/
theorem Under.entry (under : Under root path) {n : Name} (onward : Onward n) :
    Under root (entryPath path n) := by
  obtain ⟨start, down, lead, names⟩ := under
  refine ⟨(isAbsolute_entryPath onward).trans start, down ++ [n], ?_, ?_⟩
  · intro m mem
    rcases List.mem_append.mp mem with old | new
    · exact lead m old
    · exact List.mem_singleton.mp new ▸ onward
  · rw [namesOf_entryPath onward, names, List.append_assoc]

/-- What is there is reached. -/
theorem there_of_exists (there : d.exists? path = true) :
    ∃ found, d.lead true (isAbsolute path) (namesToEntry path) = .ok found ∧
      d.atPlace? found ≠ none := by
  cases found : d.find path with
  | error e => simp [exists?, stat, found] at there
  | ok x =>
    obtain ⟨_, _, led⟩ := bind_ok found
    obtain ⟨place, led, entry⟩ := bind_ok led
    refine ⟨place, led, ?_⟩
    intro none
    rw [none] at entry
    cases entry

end Disk

namespace Server

/-- Where a file system can be asked at all is under its root. -/
theorem Within.under {d : Disk} {root : String} {path : Utf8.Bytes}
    (proper : ∀ l n, n ∈ d.namesIn l → Disk.Onward n) (within : Within d root path) :
    Disk.Under (Utf8.ofText root) path := by
  cases within with
  | key raw isFolder => exact Disk.under_below root raw isFolder
  | entry listed mem =>
    obtain ⟨l, there⟩ := Disk.mem_of_list listed mem
    exact (Disk.under_below root _ true).entry (proper l _ there)

/-- The same server over another disk. -/
def withDisk (s : Server) (d : Disk) : Server := { s with disk := d }

@[simp] theorem disk_withDisk (s : Server) (d : Disk) : (s.withDisk d).disk = d := rfl

@[simp] theorem node_withDisk (s : Server) (d : Disk) (p : Nat) :
    (s.withDisk d).node p = s.node p := rfl

@[simp] theorem configOf_withDisk (s : Server) (d : Disk) (n : PathNode) :
    (s.withDisk d).configOf n = s.configOf n := rfl

@[simp] theorem report_withDisk (s : Server) (d : Disk) (e : Event) :
    (s.withDisk d).report e = (s.report e).withDisk d := rfl

@[simp] theorem askCache_withDisk (s : Server) (d : Disk) (n : PathNode) :
    (s.withDisk d).askCache n = ((s.askCache n).1, (s.askCache n).2.withDisk d) := rfl

@[simp] theorem fillCache_withDisk (s : Server) (d : Disk) (n : PathNode) (text : String) :
    (s.withDisk d).fillCache n text = (s.fillCache n text).withDisk d := rfl

@[simp] theorem settle_withDisk {α : Type} (s : Server) (d : Disk) (v : Verdict α) :
    (s.withDisk d).settle v = ((s.settle v).1, (s.settle v).2.withDisk d) := by
  simp only [settle]
  split <;> rfl

/-- One server is the other over the disk `d`, which gives the same answers wherever the file
systems of `V` ask. -/
structure Moved (V : Nat → Prop) (d : Disk) (s t : Server) : Prop where
  sound : s.Sound
  alike : s.Alike V t
  same : t = s.withDisk d

variable {V : Nat → Prop} {d : Disk} {s t s' : Server} {p : Nat}

namespace Moved

/-- Whatever leaves the disk and the number of file systems as they are keeps two servers
together. -/
theorem of_goes {P : Effect → Prop} (moved : Moved V d s t) (goes : Goes P s s')
    (disk : s'.disk = s.disk) (size : s'.systems.size = s.systems.size) :
    Moved V d s' (s'.withDisk d) where
  sound := moved.sound.goes goes
  alike := {
    nodes := rfl
    size := rfl
    root := fun _ => rfl
    registry := fun _ => rfl
    owners := fun _ => rfl
    disk := fun v asked known path within => by
      have known : v < s.systems.size := size ▸ known
      rw [disk, (goes.system_kept known).1] at within
      have agree := moved.alike.disk v asked known path within
      rw [moved.same] at agree
      rw [disk]
      exact agree }
  same := rfl

theorem apply (moved : Moved V d s t) {e : Effect} (kind : e.Places) (stays : e.Stays V)
    (lawful : e.Lawful s) : Moved V d (e.apply s) (e.apply t) where
  sound := moved.sound.apply lawful
  alike := moved.alike.apply kind stays lawful
  same := by
    cases e with
    | register v key isFolder =>
      have made := moved.alike.makeNode stays lawful.1 lawful.2.2
      rw [moved.same] at made ⊢
      simp only [Effect.apply, made]
      rfl
    | note | keep | forget =>
      rw [moved.same]
      rfl
    | _ => cases kind

end Moved

theorem moved_lockstep (V : Nat → Prop) (d : Disk) : Lockstep V (Moved V d) where
  alike _ _ moved := moved.alike
  sound _ _ moved := moved.sound
  apply _ _ _ moved kind stays lawful := moved.apply kind stays lawful

/-! ## Reading -/

namespace Moved

variable (moved : Moved V d s t)

include moved

/-- Reading keeps two servers together, if it gives the same over the other disk. -/
theorem reads {α : Type} {x y : α × Server} (goes : Goes Effect.Reads s x.2)
    (same : y = (x.1, x.2.withDisk d)) : Match (Moved V d) x y := by
  rw [same]
  exact ⟨rfl, moved.of_goes goes (goes.mono Effect.Reads.looks).disk_kept
    (congrArg Array.size goes.reads_kept.2)⟩

theorem atNode (asked : V (s.node p).system) (present : (s.node p).present = true) :
    s.disk.Agree d (Utf8.ofText (s.node p).diskPath) := by
  have agree := moved.alike.atNode moved.sound asked (s.known_of_present present)
  rw [moved.same] at agree
  exact agree

theorem length (asked : V (s.node p).system) :
    Match (Moved V d) (s.length p) (t.length p) := by
  refine moved.reads (length_goes s p) ?_
  rw [moved.same]
  simp only [Server.length, node_withDisk, configOf_withDisk, disk_withDisk, settle_withDisk]
  cases present : (s.node p).present with
  | false => rfl
  | true =>
    rw [(moved.atNode asked present).stat]
    rfl

theorem readBytes (asked : V (s.node p).system) :
    Match (Moved V d) (s.readBytes p) (t.readBytes p) := by
  refine moved.reads (readBytes_goes s p) ?_
  rw [moved.same]
  simp only [Server.readBytes, node_withDisk, configOf_withDisk, disk_withDisk, settle_withDisk]
  cases present : (s.node p).present with
  | false => rfl
  | true =>
    rw [(moved.atNode asked present).read]
    simp only [Bool.not_true, Bool.false_eq_true, if_false]
    split <;> rfl

theorem isCached (p : Nat) : Match (Moved V d) (s.isCached p) (t.isCached p) := by
  refine moved.reads (isCached_goes s p) ?_
  rw [moved.same]
  rfl

theorem readText (asked : V (s.node p).system) :
    Match (Moved V d) (s.readText p) (t.readText p) := by
  refine moved.reads (readText_goes s p) ?_
  rw [moved.same]
  simp only [Server.readText, node_withDisk, configOf_withDisk, askCache_withDisk, report_withDisk,
    disk_withDisk, settle_withDisk, fillCache_withDisk]
  split
  · rfl
  · cases present : (s.node p).present with
    | false => rfl
    | true =>
      have text : textOnDisk d (Utf8.ofText (s.node p).diskPath) =
          textOnDisk s.disk (Utf8.ofText (s.node p).diskPath) := by
        simp only [textOnDisk, (moved.atNode asked present).read]
      simp only [Bool.not_true, Bool.false_eq_true, if_false, disk_report, disk_askCache, text]
      split
      · rfl
      · split <;> rfl

section

variable [MediaTypes]

theorem respond (asked : V (s.node p).system) (h : Header) :
    Match (Moved V d) (s.respond p h) (t.respond p h) := by
  have node : t.node p = s.node p := moved.alike.node p
  rw [respond_eq, respond_eq, node]
  split
  · exact ⟨rfl, moved⟩
  · dsimp only
    split
    · obtain ⟨same, moved'⟩ := moved.readText asked
      exact ⟨by rw [same], moved'⟩
    · obtain ⟨same, moved'⟩ := moved.readBytes asked
      exact ⟨by rw [same], moved'⟩

/-! ### Warming up -/

theorem loadFile (asked : V (s.node p).system) :
    Match (Moved V d) (s.loadFile p) (t.loadFile p) := by
  obtain ⟨same, moved'⟩ := moved.readText asked
  simp only [Server.loadFile, moved.alike.node]
  split
  · rcases first : s.readText p with ⟨answer, s'⟩
    rcases second : t.readText p with ⟨answer', t'⟩
    rw [first, second] at same moved'
    obtain rfl : answer' = answer := same
    cases answer' with
    | ok text => exact moved'.isCached p
    | error e => exact ⟨rfl, moved'⟩
  · exact ⟨rfl, moved⟩

theorem load {files : List Nat} (belong : ∀ p ∈ files, s.Belongs V p) :
    Match (Moved V d) (s.load files) (t.load files) := by
  induction files generalizing s t with
  | nil => exact ⟨rfl, moved⟩
  | cons p files ih =>
    obtain ⟨same, moved'⟩ := moved.loadFile (belong p List.mem_cons_self).2
    obtain ⟨same', moved''⟩ := ih moved' fun q mem =>
      (belong q (List.mem_cons_of_mem _ mem)).goes (loadFile_goes s p)
    simp only [Match, Server.load, same, same', true_and]
    exact moved''

end

omit moved in
/-- What a walk finds belongs to the file systems of the paths that it starts from. -/
theorem collect_belongs {bound : Nat} {pending files files' : List Nat} (sound : s.Sound)
    (belong : ∀ p ∈ pending, s.Belongs V p) (belong' : ∀ p ∈ files, s.Belongs V p)
    (done : collect bound s pending files = some (files', s')) : ∀ p ∈ files', s'.Belongs V p := by
  fun_induction collect bound s pending files with
  | case1 =>
    cases done
    exact belong'
  | case2 => cases done
  | case3 _ s folder _ _ _ _ listed =>
    rename_i ih
    have goes := children_goes s folder true
    have inside := (belong folder List.mem_cons_self).children sound true
    have rest := Belongs.pending belong sound
    rw [listed] at goes inside rest
    refine ih (sound.goes goes) (rest _) ?_ done
    intro p mem
    rcases List.mem_append.mp mem with old | new
    · exact (belong' p old).goes goes
    · exact inside p (List.mem_filter.mp new).1

theorem warm [MediaTypes] (bound : Nat) (belongs : s.Belongs V p) :
    Option.Rel (Match (Moved V d)) (Server.warm bound s p) (Server.warm bound t p) := by
  have belong : ∀ q ∈ [p], s.Belongs V q := fun q mem => List.mem_singleton.mp mem ▸ belongs
  have collected := (moved_lockstep V d).collect moved bound belong []
  rcases rel_cases collected with ⟨first, second⟩ | ⟨x, y, first, second, same, moved'⟩
  · simp only [Server.warm, first, second]
    exact .none
  · have found := collect_belongs moved.sound belong (by simp) first
    obtain ⟨loaded, moved''⟩ := moved'.load found
    simp only [Server.warm, first, second, same, loaded, moved''.alike.node]
    exact .some ⟨rfl, moved''.apply (e := .note (.warmed _ _ _)) rfl trivial trivial⟩

end Moved

end Server

/-- The calls that look at nothing but what is below the roots of file systems. -/
def Call.inside : Call → Bool
  | mount .. | create _ | change _ => false
  | _ => true

namespace Server

variable {V : Nat → Prop} {d : Disk} {s t s' : Server} {p : Nat}

theorem Moved.perform [MediaTypes] (moved : Moved V d s t) {c : Call} (kind : c.inside = true)
    (asks : ∀ v, c.Asks s v → V v) :
    Option.Rel (Match (Moved V d)) (s.perform c) (t.perform c) := by
  by_cases places : c.places = true
  · exact (moved_lockstep V d).perform moved places asks
  · have knows : t.knows c = s.knows c := by
      rw [moved.same]
      cases c <;> rfl
    simp only [Server.perform, knows]
    split
    · rename_i known
      have alters {x y : Answer × Server} (done : s.carryOut c = some x)
          (disk : x.2.disk = s.disk) (size : x.2.systems.size = s.systems.size)
          (same : y = (x.1, x.2.withDisk d)) : Match (Moved V d) x y := by
        rw [same]
        exact ⟨rfl, moved.of_goes (perform_goes ((if_pos known).trans done)) disk size⟩
      cases c with
      | newCache => exact .some (alters rfl rfl rfl (by rw [moved.same]; rfl))
      | retain v | release v =>
        exact .some (alters rfl rfl (by simp [retain, release]) (by rw [moved.same]; rfl))
      | askText c key | removeText c key | writeText c key text | clearTexts c =>
        exact .some (alters rfl rfl rfl (by rw [moved.same]; rfl))
      | matching p questions =>
        obtain ⟨same, moved'⟩ := (moved_lockstep V d).matching moved
          (fun p _ _ moved => moved.isCached p) (asks _ rfl) questions
        exact .some ⟨congrArg Answer.paths same, moved'⟩
      | length p =>
        obtain ⟨same, moved'⟩ := moved.length (asks _ rfl)
        exact .some ⟨congrArg Answer.length same, moved'⟩
      | readBytes p =>
        obtain ⟨same, moved'⟩ := moved.readBytes (asks _ rfl)
        exact .some ⟨congrArg Answer.bytes same, moved'⟩
      | readText p =>
        obtain ⟨same, moved'⟩ := moved.readText (asks _ rfl)
        exact .some ⟨congrArg Answer.text same, moved'⟩
      | isCached p =>
        obtain ⟨same, moved'⟩ := moved.isCached p
        exact .some ⟨congrArg Answer.flag same, moved'⟩
      | respond p h =>
        obtain ⟨same, moved'⟩ := moved.respond (asks _ rfl) h
        exact .some ⟨congrArg Answer.response same, moved'⟩
      | warm bound p =>
        have known : p < s.nodes.size := by simpa [Server.knows] using known
        have warmed := moved.warm bound ⟨known, asks _ rfl⟩
        rcases rel_cases warmed with ⟨first, second⟩ | ⟨x, y, first, second, same, moved'⟩
        · simp only [carryOut, first, second]
          exact .none
        · simp only [carryOut, first, second]
          exact .some ⟨congrArg Answer.count same, moved'⟩
      | root | get | resolve | resolveWith | children | invalidate => exact absurd rfl places
      | mount | create | change => cases kind
    · exact .none

/-- Calls are answered the same over any disk that gives the same answers under the roots of the
file systems that are asked, and do the same there. -/
theorem perform_withDisk [MediaTypes] (sound : s.Sound) {c : Call} (kind : c.inside = true)
    (agree : ∀ v, v < s.systems.size → c.Asks s v → ∀ path, Within s.disk (s.system v).root path →
      s.disk.Agree d path) :
    (s.withDisk d).perform c = (s.perform c).map fun (a, t) => (a, t.withDisk d) := by
  have moved : Moved (c.Asks s) d s (s.withDisk d) := {
    sound
    alike := ⟨rfl, rfl, fun _ => rfl, fun _ => rfl, fun _ => rfl,
      fun v asked known path within => agree v known asked path within⟩
    same := rfl }
  have same := moved.perform kind fun _ => id
  rcases rel_cases same with ⟨first, second⟩ | ⟨x, y, first, second, answer, moved'⟩
  · rw [first, second]
    rfl
  · rw [first, second]
    exact congrArg some (Prod.ext answer moved'.same)

/-! ## Creating -/

@[simp] theorem disk_settle {α : Type} (s : Server) (v : Verdict α) :
    (s.settle v).2.disk = s.disk := by
  simp only [settle]
  split <;> rfl

theorem create_builds (s : Server) (p : Nat) :
    s.disk.Builds (Disk.isAbsolute (Utf8.ofText (s.node p).diskPath))
      (Disk.namesOf (Utf8.ofText (s.node p).diskPath)) (s.create p).2.disk := by
  have made := s.disk.make_builds (s.node p).isFolder (Utf8.ofText (s.node p).diskPath)
  simp only [create]
  split
  · exact .stay
  · split <;> simpa using made

/-- Whatever appears on the disk when a path is created is on the way to it, and below the root
directory if that was there. -/
theorem create_below (sound : s.Sound) (known : p < s.nodes.size) {l : Location}
    (changed : (s.create p).2.disk.at? l ≠ s.disk.at? l) : s.disk.at? l = none ∧
    ∃ part, part <+: Disk.namesOf (Utf8.ofText (s.node p).diskPath) ∧
      (s.create p).2.disk.lead false (Disk.isAbsolute (Utf8.ofText (s.node p).diskPath)) part =
        .ok (some l) ∧
      (s.disk.exists? (Utf8.ofText (s.system (s.node p).system).root) = true →
        Disk.namesOf (Utf8.ofText (s.system (s.node p).system).root) <+: part) := by
  obtain ⟨free, part, sub, led, nowhere⟩ := (create_builds s p).new sound.tree changed
  refine ⟨free, part, sub, led, ?_⟩
  intro there
  have made := sound.made p known
  obtain ⟨raw, shape⟩ := made.key
  have under := Disk.under_below (s.system (s.node p).system).root raw (s.node p).isFolder
  rw [← shape, ← made.diskPath] at under
  obtain ⟨start, down, _, names⟩ := under
  rw [names] at sub
  rcases List.prefix_or_prefix_of_prefix (List.prefix_append _ down) sub with outer | ⟨rest, cut⟩
  · exact outer
  · -- A part of the directory's own path led to something before, so nothing is made there.
    obtain ⟨found, led', there'⟩ := Disk.there_of_exists there
    rw [Disk.namesToEntry, ← cut, List.append_assoc, ← start] at led'
    exact absurd (Disk.lead_part sound.tree led' there') nowhere

end Server

/-- A path whose key is made of clean segments, and whose place on disk is the root directory
extended by these segments. -/
structure PathNode.Confined (root : String) (n : PathNode) (segs : List Key.Segment) : Prop where
  clean : ∀ seg ∈ segs, Key.Clean seg
  key : n.key.toList = ['/'].intercalate segs ++ if n.isFolder = true ∧ segs ≠ [] then ['/'] else []
  place : n.diskPath = root ++ Disk.joint root ++ n.key
  start : Disk.isAbsolute (Utf8.ofText n.diskPath) = Disk.isAbsolute (Utf8.ofText root)
  names : Disk.namesOf (Utf8.ofText n.diskPath) =
    Disk.namesOf (Utf8.ofText root) ++ segs.map Utf8.encode

namespace Server

theorem Made.confined {s : Server} {n : PathNode} (made : s.Made n) :
    ∃ segs, n.Confined (s.system n.system).root segs := by
  obtain ⟨raw, shape⟩ := made.key
  have place := made.diskPath
  refine ⟨Key.segments raw.toList, Key.segments_clean _, ?_, ?_, ?_, ?_⟩
  · rw [shape, Key.normalize, String.toList_ofList, Key.render]
    cases n.isFolder <;> simp
  · rw [place, shape, Disk.below_normalize]
  · rw [place, shape, Disk.isAbsolute_below]
  · rw [place, shape, Disk.namesOf_below]

/-- **Nothing leaves the root directory.** However a server came about, the key of every path
consists of clean segments, with a `/` at the end where it is a folder below the root, and its place
on disk is the root directory of its file system, extended by these segments. A call that neither
mounts nor creates nor stands for a change of the disk asks the disk for nothing else: over any
other disk that gives the same answers under the root directories of the file systems that the call
asks, it is answered the same and leaves the same state. Whatever appears on the disk when a path is
created is at a place that was free and that is on the way to the path, below the root directory if
that was there. -/
theorem nothing_leaves_root [MediaTypes] {s : Server} (reach : Reachable s) :
    (∀ p, p < s.nodes.size → ∃ segs,
      (s.node p).Confined (s.system (s.node p).system).root segs) ∧
    ((∀ l n, n ∈ s.disk.namesIn l → Disk.Onward n) → ∀ c d, c.inside = true →
      (∀ v, v < s.systems.size → c.Asks s v → ∀ path,
        Disk.Under (Utf8.ofText (s.system v).root) path → s.disk.Agree d path) →
      (s.withDisk d).perform c = (s.perform c).map fun (a, t) => (a, t.withDisk d)) ∧
    (∀ p a t, s.perform (.create p) = some (a, t) → ∀ l, t.disk.at? l ≠ s.disk.at? l →
      s.disk.at? l = none ∧
      ∃ part, part <+: Disk.namesOf (Utf8.ofText (s.node p).diskPath) ∧
        t.disk.lead false (Disk.isAbsolute (Utf8.ofText (s.node p).diskPath)) part =
          .ok (some l) ∧
        (s.disk.exists? (Utf8.ofText (s.system (s.node p).system).root) = true →
          Disk.namesOf (Utf8.ofText (s.system (s.node p).system).root) <+: part)) := by
  have sound := reach.sound
  refine ⟨?_, ?_, ?_⟩
  · intro p known
    exact (sound.made p known).confined
  · intro proper c d kind agree
    refine perform_withDisk sound kind ?_
    intro v known asked path within
    exact agree v known asked path (within.under proper)
  · intro p a t done l changed
    obtain ⟨known, done⟩ := perform_eq done
    cases done
    exact create_below sound (by simpa [knows] using known) changed

attribute [local instance] MediaTypes.familiar

/-- A request that climbs further than there are folders stays below the root. -/
theorem climb_confined : ∃ s p segs,
    (start textDisk).run [.mount "/" none {}, .root 0, .resolve 0 0 "..\\../a/./"] = some s ∧
    p < s.nodes.size ∧ (s.node p).key = "a/" ∧ (s.node p).Confined "/" segs := by
  obtain ⟨s₀, ran, _, systems, nodes, _, root, _, free, key⟩ := start_textDisk
  have known : 0 < s₀.systems.size := by omega
  have asks : s₀.asksForFolder 0 "..\\../a/./" = true := by
    rw [asksForFolder, show Key.asksForFolder "..\\../a/./" = true by decide, Bool.true_or]
  have folder : s₀.keyBelow 0 "..\\../a/./" true = "a/" := by
    rw [keyBelow_root key]
    decide +kernel
  have new : s₀.remembered 0 0 "..\\../a/./" = none := by
    rw [remembered, if_pos asks, folder, free "a/" (by decide)]
  have made : (s₀.resolve 0 0 "..\\../a/./").2.node (s₀.resolve 0 0 "..\\../a/./").1 =
      s₀.makeNode 0 "a/" true := by
    rw [resolve_anew new, anew, folderAnew, asks, Bool.true_or, Bool.true_or, folder]
  have led : s₀.run [.resolve 0 0 "..\\../a/./"] = some (s₀.resolve 0 0 "..\\../a/./").2 :=
    run_cons_of (perform_resolve known (by omega) _)
  have goes := resolve_goes known 0 "..\\../a/./"
  have reach : Reachable (s₀.resolve 0 0 "..\\../a/./").2 :=
    ⟨textDisk, _, (run_append_of ran).trans led⟩
  generalize s₀.resolve 0 0 "..\\../a/./" = resolved at made led goes reach
  have there : resolved.1 < resolved.2.nodes.size := known_of_isFolder _ (by rw [made]; rfl)
  obtain ⟨segs, confined⟩ := (nothing_leaves_root reach).1 resolved.1 there
  refine ⟨resolved.2, resolved.1, segs, (run_append_of ran).trans led, there, by rw [made]; rfl, ?_⟩
  have system : (resolved.2.node resolved.1).system = 0 := by
    rw [made]
    rfl
  rw [system, (goes.system_kept known).1, root] at confined
  exact confined

end Server

end Docroot
