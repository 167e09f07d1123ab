import Docroot.Proofs.Kinds
import Docroot.Proofs.Scans

/-!
Listings and requests on the same entry.

A listing takes the kind of an entry from the disk, and what cannot be looked at is no folder. A
request takes it from the disk as well, but what cannot be looked at is a folder unless its name has
a dot. So the two agree on every entry that the disk can look at, and on every other one with a dot
in its name. They differ on links to nowhere, and the like, whose names have none.
-/

namespace Docroot

namespace Key

/-! ## Keys in a folder -/

theorem folderPrefix_normalize (raw : String) :
    folderPrefix (normalize raw true) = normalize raw true := by
  rw [folderPrefix, if_pos]
  by_cases root : normalize raw true = ""
  · left
    rw [root]
    rfl
  · exact .inr (normalize_folder_last root)

/-- The key of a file in a folder is the key of the folder, followed by the name. -/
theorem normalize_join (raw : String) {s : Segment} (clean : Clean s) :
    normalize (join (normalize raw true) (String.ofList s)) false =
      normalize raw true ++ String.ofList s := by
  rw [normalize, segments_join raw clean, render_file, String.ofList_append]
  rfl

theorem afterLastSlash_append {front s : List Char} (ends : front = [] ∨ front.getLast? = some '/')
    (plain : '/' ∉ s) : afterLastSlash (front ++ s) = s := by
  have all : ∀ c ∈ s.reverse, (decide (c ≠ '/')) = true := by
    intro c mem
    rw [decide_eq_true_eq]
    rintro rfl
    exact plain (List.mem_reverse.mp mem)
  have stops : front.reverse.takeWhile (fun c => decide (c ≠ '/')) = [] := by
    rcases ends with rfl | last
    · rfl
    · obtain ⟨rest, rfl⟩ := List.getLast?_eq_some_iff.mp last
      simp
  rw [afterLastSlash, List.reverse_append, List.takeWhile_append_of_pos all, stops,
    List.append_nil, List.reverse_reverse]

/-- The name of a file is the segment that its key leads to last. -/
theorem fileName_normalize {raw : String} {front : List Segment} {last : Segment}
    (led : segments raw.toList = front ++ [last]) : fileName (normalize raw false) = last := by
  have clean : Clean last := segments_clean raw.toList last (by simp [led])
  have plain : '/' ∉ last := by
    intro mem
    have separator := clean.separators '/' mem
    cases separator
  have ends : render front true = [] ∨ (render front true).getLast? = some '/' := by
    cases front with
    | nil => exact .inl rfl
    | cons s rest => exact .inr (by simp [render])
  rw [fileName, if_neg (normalize_file_last raw), normalize, String.toList_ofList, led, render_file]
  exact afterLastSlash_append ends plain

/-- The last segment of such a key is the name. -/
theorem fileName_join (raw : String) {s : Segment} (clean : Clean s) :
    fileName (normalize (join (normalize raw true) (String.ofList s)) false) = s :=
  fileName_normalize (segments_join raw clean)

/-- A key in a folder is neither that of the root nor that of the folder. -/
theorem normalize_join_ne (raw : String) {s : Segment} (clean : Clean s) (isFolder : Bool) :
    normalize (join (normalize raw true) (String.ofList s)) isFolder ≠ "" ∧
    normalize (join (normalize raw true) (String.ofList s)) isFolder ≠ normalize raw true := by
  have led := segments_join raw clean
  rw [← segments_normalize _ isFolder] at led
  constructor
  · intro root
    rw [root, segments_empty] at led
    simp at led
  · intro here
    rw [here, segments_normalize] at led
    simp at led

/-- A name does not ask for a folder. -/
theorem asksForFolder_of_clean {text : String} (clean : Clean text.toList) :
    asksForFolder text = false := by
  rw [asksForFolder, Bool.eq_false_iff]
  intro separator
  obtain ⟨c, last, separator⟩ := Option.any_eq_true _ _ |>.mp separator
  rw [clean.separators c (List.mem_of_getLast? last)] at separator
  cases separator

end Key

namespace Disk

/-- The place of an entry is the place of the key that a file gets there. -/
theorem entryPath_below (root raw : String) {s : Key.Segment} (clean : Key.Clean s) :
    entryPath (Utf8.ofText (Key.below root (Key.normalize raw true))) (Utf8.encode s) =
      Utf8.ofText (Key.below root
        (Key.normalize (Key.join (Key.normalize raw true) (String.ofList s)) false)) := by
  have shut : Utf8.ofText (Key.below root (Key.normalize raw true)) = [] ∨
      endsOpen (Utf8.ofText (Key.below root (Key.normalize raw true))) = true := by
    by_cases top : Key.normalize raw true = ""
    · rw [top]
      rcases Key.below_root root with none | last
      · left
        rw [none]
        rfl
      · exact .inr (endsOpen_ofText last)
    · right
      refine endsOpen_ofText ?_
      rw [Key.below_last root top]
      exact Key.normalize_folder_last top
  rw [entryPath, if_pos shut, below_normalize root _ false, Key.normalize_join raw clean,
    ← String.append_assoc, ← below_normalize, Utf8.ofText_append]
  rw [Utf8.ofText, Utf8.ofText, String.toList_ofList]

end Disk

namespace Server

variable {s t : Server} {v w p q : Nat} {root raw : String}

/-! ## Every entry is listed -/

theorem mem_enlist_self (key : String) (l : List (String × Nat)) : (key, p) ∈ enlist key p l := by
  induction l with
  | nil => exact List.mem_singleton_self _
  | cons x rest ih =>
    obtain ⟨k, r⟩ := x
    simp only [enlist]
    split
    · exact List.mem_cons_self
    · split
      · exact List.mem_cons_self
      · exact List.mem_cons_of_mem _ ih

theorem mem_enlist_other {key : String} {l : List (String × Nat)} {x : String × Nat} (mem : x ∈ l)
    (other : x.1 ≠ key) : x ∈ enlist key p l := by
  induction l with
  | nil => cases mem
  | cons y rest ih =>
    obtain ⟨k, r⟩ := y
    simp only [enlist]
    split
    · exact List.mem_cons_of_mem _ mem
    · split
      · rename_i same
        rcases List.mem_cons.mp mem with rfl | later
        · exact absurd same.symm other
        · exact List.mem_cons_of_mem _ later
      · rcases List.mem_cons.mp mem with rfl | later
        · exact List.mem_cons_self
        · exact List.mem_cons_of_mem _ (ih later)

/-- A listing in the making: its paths are registered under the keys that they stand at. -/
def Kept (s : Server) (v : Nat) (l : List (String × Nat)) : Prop :=
  ∀ x ∈ l, s.lookup v x.1 = some x.2

theorem enlistEntry_kept (sound : s.Sound) {n : PathNode} (known : n.system < s.systems.size)
    {l : List (String × Nat)} (kept : s.Kept n.system l) (name : Name) :
    (enlistEntry n (l, s) name).2.Kept n.system (enlistEntry n (l, s) name).1 ∧
    (∀ x ∈ l, x ∈ (enlistEntry n (l, s) name).1) ∧
    ∃ q, (s.entryKey n name, q) ∈ (enlistEntry n (l, s) name).1 := by
  have goes : Goes Effect.Resolves s
      (s.intern n.system (s.entryKey n name) (s.entryIsFolder n name)).2 :=
    intern_goes known ⟨_, rfl⟩
  have there := lookup_intern known (s.entryKey n name) (s.entryIsFolder n name)
  obtain ⟨_, _, key⟩ := (sound.goes goes).registered _ _ _ there
  have made : (enlistEntry n (l, s) name).1 = enlist (s.entryKey n name)
      (s.intern n.system (s.entryKey n name) (s.entryIsFolder n name)).1 l :=
    congrArg (enlist · _ l) key
  rw [made, enlistEntry_eq]
  have still (x : String × Nat) (mem : x ∈ l) := goes.lookup_kept id (kept x mem)
  refine ⟨?_, ?_, ⟨_, mem_enlist_self _ _⟩⟩
  · intro x mem
    rcases mem_enlist mem with rfl | old
    · exact there
    · exact still x old
  · intro x mem
    by_cases same : x.1 = s.entryKey n name
    · -- The path that stands at this key already is the one that is registered.
      have registered := still x mem
      rw [same, there, Option.some.injEq] at registered
      obtain rfl : x = (s.entryKey n name, _) := Prod.ext same registered.symm
      exact mem_enlist_self _ _
    · exact mem_enlist_other mem same

theorem enlistEntries_kept {n : PathNode} {names : List Name} {l : List (String × Nat)}
    (sound : s.Sound) (known : n.system < s.systems.size) (kept : s.Kept n.system l) :
    (names.foldl (enlistEntry n) (l, s)).2.Kept n.system
      (names.foldl (enlistEntry n) (l, s)).1 ∧
    (∀ x ∈ l, x ∈ (names.foldl (enlistEntry n) (l, s)).1) ∧
    ∀ name ∈ names, ∃ q, (s.entryKey n name, q) ∈ (names.foldl (enlistEntry n) (l, s)).1 := by
  induction names generalizing s l with
  | nil => exact ⟨kept, fun _ => id, fun _ mem => absurd mem List.not_mem_nil⟩
  | cons name rest ih =>
    have goes : Goes Effect.Resolves s (enlistEntry n (l, s) name).2 :=
      intern_goes known ⟨_, rfl⟩
    have disk := (goes.mono Effect.Resolves.looks).disk_kept
    obtain ⟨kept', old, q, new⟩ := enlistEntry_kept sound known kept name
    rw [List.foldl_cons]
    generalize enlistEntry n (l, s) name = made at goes disk kept' old new ⊢
    obtain ⟨l', s'⟩ := made
    replace disk : s'.disk = s.disk := disk
    obtain ⟨kept'', old', all⟩ :=
      ih (sound.goes goes) (Nat.lt_of_lt_of_le known goes.size_systems) kept'
    refine ⟨kept'', fun x mem => old' x (old x mem), ?_⟩
    intro m mem
    rcases List.mem_cons.mp mem with rfl | later
    · exact ⟨q, old' _ new⟩
    · simpa only [entryKey, entryIsFolder, disk] using all m later

/-- The first listing of a folder that is there holds a path for every entry. -/
theorem listing_complete {names : List Name} (sound : s.Sound) (known : p < s.nodes.size)
    (new : (s.node p).listing = none) (folder : (s.node p).isFolder = true)
    (present : (s.node p).present = true) (alive : (s.system (s.node p).system).owners ≠ 0)
    (listed : s.disk.list (Utf8.ofText (s.node p).diskPath) = .ok names) {name : Name}
    (mem : name ∈ names) :
    ∃ q ∈ (s.listing p).1,
      (s.listing p).2.lookup (s.node p).system (s.entryKey (s.node p) name) = some q := by
  have nothing : s.Kept (s.node p).system [] := fun _ mem => absurd mem List.not_mem_nil
  obtain ⟨kept, _, all⟩ :=
    @enlistEntries_kept s (s.node p) names [] sound (sound.made p known).system nothing
  obtain ⟨q, mem⟩ := all name mem
  have there := kept _ mem
  simp only [listing, new, makeListing_eq folder present alive listed]
  generalize names.foldl (enlistEntry (s.node p)) ([], s) = made at mem there ⊢
  exact ⟨q, List.mem_map.mpr ⟨_, mem, rfl⟩, there⟩

/-! ## File systems in which one folder was asked for -/

/-- The file system `v` was mounted just now, over the root directory `root` of the disk `d`, and
`p` is the first path that was asked for in it. -/
def Opened [MediaTypes] (s : Server) (d : Disk) (root : String) (v p : Nat) : Prop :=
  ∃ s₀ s₁ cache config raw, Reachable s₀ ∧ s₀.disk = d ∧
    s₀.perform (.mount root cache config) = some (.system v, s₁) ∧
    s₁.perform (.get v raw) = some (.path p, s)

/-- What is known of such a file system: it has no paths but the root and the one that was asked
for, which is not listed yet. -/
structure Fresh (s : Server) (d : Disk) (root : String) (v p : Nat) : Prop where
  sound : s.Sound
  there : v < s.systems.size
  known : p < s.nodes.size
  disk : s.disk = d
  system : (s.node p).system = v
  place : (s.system v).root = absoluteRoot d root
  alive : (s.system v).owners ≠ 0
  unlisted : (s.node p).listing = none
  free : ∀ key, key ≠ "" → key ≠ (s.node p).key → s.lookup v key = none

/-- Looking takes no handle of a file system. -/
theorem Goes.owners_kept (h : Goes Effect.Looks s t) (v : Nat) :
    (t.system v).owners = (s.system v).owners := by
  refine h.keeps (I := fun t => (t.system v).owners = (s.system v).owners)
    (fun t e kind _ ih => ?_) rfl
  rw [← ih]
  cases e with
  | note | keep | ask | fill => rfl
  | register w key isFolder =>
    simp only [Effect.apply, system_setSystem]
    split
    · rename_i same
      rw [← same.1]
    · rfl
  | _ => cases kind

/-- What is registered after a request was so before, or is the answer. -/
theorem intern_lookup {key k : String} {isFolder : Bool} (known : v < s.systems.size)
    (there : (s.intern v key isFolder).2.lookup v k = some q) :
    s.lookup v k = some q ∨ q = (s.intern v key isFolder).1 := by
  by_cases same : key = k
  · subst same
    rw [lookup_intern known, Option.some.injEq] at there
    exact .inr there.symm
  · rw [lookup_intern_other isFolder same known] at there
    exact .inl there

theorem resolve_lookup {parent : Nat} {k : String} (known : v < s.systems.size)
    (there : (s.resolve v parent raw).2.lookup v k = some q) :
    s.lookup v k = some q ∨ q = (s.resolve v parent raw).1 := by
  cases found : s.remembered v parent raw with
  | some r =>
    rw [resolve_remembered found] at there
    exact .inl there
  | none =>
    rw [(resolve_interns found).1] at there ⊢
    exact intern_lookup known there

theorem get_lookup {k : String} (known : v < s.systems.size)
    (there : (s.get v raw).2.lookup v k = some q) :
    s.lookup v k = some q ∨ q = (s.root v).1 ∨ q = (s.get v raw).1 := by
  have knownThen := Nat.lt_of_lt_of_le known (root_goes known).size_systems
  rcases resolve_lookup knownThen there with first | answer
  · rcases intern_lookup known first with before | root
    · exact .inl before
    · exact .inr (.inl root)
  · exact .inr (.inr answer)

theorem owners_mount [MediaTypes] {cache : Option Nat} {config : Config}
    (h : s.perform (.mount root cache config) = some (.system v, t)) :
    (t.system v).owners = 1 := by
  obtain ⟨_, done⟩ := perform_eq h
  simp only [carryOut, mount_over, Option.some.injEq, Prod.mk.injEq, Answer.system.injEq] at done
  obtain ⟨rfl, rfl⟩ := done
  simp [system]

theorem Opened.fresh [MediaTypes] {d : Disk} (opened : s.Opened d root v p) :
    s.Fresh d root v p := by
  obtain ⟨s₀, s₁, cache, config, raw, reach, disk, mounted, asked⟩ := opened
  obtain ⟨_, there, disk₁, _, place, free⟩ := perform_mount mounted
  obtain ⟨_, done⟩ := perform_eq asked
  simp only [carryOut, Option.some.injEq, Prod.mk.injEq, Answer.path.injEq] at done
  obtain ⟨rfl, rfl⟩ := done
  have sound := reach.sound.goes (perform_goes mounted)
  have goes := get_goes there raw
  have soundThen := sound.goes goes
  have known := Nat.lt_of_lt_of_le there (root_goes there).size_systems
  obtain ⟨key, registered⟩ := lookup_resolve known (s₁.root v).1 raw
  obtain ⟨old, system, _⟩ := soundThen.registered _ _ _ registered
  have new : s₁.nodes.size ≤ (s₁.get v raw).1 := by
    by_contra older
    exact goes.unregistered (Nat.lt_of_not_le older) (by simp [free]) registered
  refine ⟨soundThen, Nat.lt_of_lt_of_le there goes.size_systems, old, ?_, system, ?_, ?_,
    goes.unlisted (by rw [node_beyond _ new]; rfl), ?_⟩
  · rw [(goes.mono Effect.Resolves.looks).disk_kept, disk₁, disk]
  · rw [(goes.system_kept there).1, place, disk]
  · rw [(goes.mono Effect.Resolves.looks).owners_kept v, owners_mount mounted]
    exact Nat.one_ne_zero
  · intro k below other
    by_contra some'
    obtain ⟨q, there'⟩ := Option.ne_none_iff_exists'.mp some'
    obtain ⟨_, _, key⟩ := soundThen.registered _ _ _ there'
    rcases get_lookup there there' with before | rfl | rfl
    · rw [free] at before
      cases before
    · have top := (resolve_goes known (s₁.root v).1 raw).lookup_kept id
        (lookup_intern there "" true)
      obtain ⟨_, _, empty⟩ := soundThen.registered _ _ _ top
      exact below (key.symm.trans empty)
    · exact other key.symm

/-! ## One entry, listed and asked for -/

theorem repair_ofText (text : String) : Utf8.repair (Utf8.ofText text) = text.toList :=
  Utf8.repair_of_decode? (Utf8.decode?_encode _)

/-- What the disk says of a place and what a request takes it for agree, if it is there or its name
has a dot. -/
theorem classify_agrees_iff (v : Nat) (key : String) :
    s.disk.isFolder (Utf8.ofText (Key.below (s.system v).root key)) = s.classify v key ↔
      s.disk.exists? (Utf8.ofText (Key.below (s.system v).root key)) = true ∨
      '.' ∈ Key.fileName key := by
  simp only [Disk.isFolder, Disk.exists?, classify, Key.looksLikeFile]
  cases s.disk.stat (Utf8.ofText (Key.below (s.system v).root key)) with
  | ok st => simp
  | error e => simp

/-- Below the root, the kind of a path is that of its key. -/
theorem Made.isFolder_eq {n : PathNode} (made : s.Made n) {isFolder : Bool}
    (key : n.key = Key.normalize raw isFolder) (below : n.key ≠ "") : n.isFolder = isFolder := by
  rw [Bool.eq_iff_iff, made.last below, key]
  rw [key] at below
  exact (Key.normalize_last below).symm

/-- In a file system that has but one folder, a listing of this folder holds a path for every entry.
Its kind is what the disk says. -/
theorem Fresh.listed {d : Disk} (fresh : s.Fresh d root v p) {front : String}
    (key : (s.node p).key = Key.normalize front true) (folder : (s.node p).isFolder = true)
    (present : (s.node p).present = true) {names : List Name}
    (entries : d.list (Utf8.ofText (s.node p).diskPath) = .ok names) {text : String}
    (clean : Key.Clean text.toList) (mem : Utf8.ofText text ∈ names) :
    let isFolder := s.entryIsFolder (s.node p) (Utf8.ofText text)
    ∃ q ∈ (s.listing p).1,
      (s.listing p).2.lookup v (s.entryKey (s.node p) (Utf8.ofText text)) = some q ∧
      ((s.listing p).2.node q).key = Key.normalize (Key.join (s.node p).key text) isFolder ∧
      ((s.listing p).2.node q).isFolder = isFolder := by
  intro isFolder
  have entryKey : s.entryKey (s.node p) (Utf8.ofText text) =
      Key.normalize (Key.join (s.node p).key text) isFolder := by
    rw [Server.entryKey, repair_ofText, String.ofList_toList]
  obtain ⟨q, mem, there⟩ := listing_complete fresh.sound fresh.known fresh.unlisted folder present
    (by rw [fresh.system]; exact fresh.alive) (by rw [fresh.disk]; exact entries) mem
  rw [fresh.system] at there
  have sound := fresh.sound.goes (listing_goes s p)
  obtain ⟨known, _, listedKey⟩ := sound.registered _ _ _ there
  rw [entryKey] at listedKey
  refine ⟨q, mem, there, listedKey, (sound.made q known).isFolder_eq listedKey ?_⟩
  have below := (Key.normalize_join_ne front clean isFolder).1
  rw [String.ofList_toList, ← key] at below
  rw [listedKey]
  exact below

/-- In a file system that has but one folder, a request for a name in this folder gives a new path.
Its kind is what the name is taken for. -/
theorem Fresh.resolve {d : Disk} (fresh : s.Fresh d root v p) {front : String}
    (key : (s.node p).key = Key.normalize front true) {text : String}
    (clean : Key.Clean text.toList) :
    (s.resolve v p text).2.node (s.resolve v p text).1 =
      let isFolder := s.classify v (Key.normalize (Key.join (s.node p).key text) false)
      s.makeNode v (Key.normalize (Key.join (s.node p).key text) isFolder) isFolder := by
  have keys (isFolder : Bool) :
      s.keyBelow p text isFolder = Key.normalize (Key.join (s.node p).key text) isFolder := by
    rw [keyBelow, key, Key.folderPrefix_normalize]
  have new (isFolder : Bool) : Key.normalize (Key.join (s.node p).key text) isFolder ≠ "" ∧
      Key.normalize (Key.join (s.node p).key text) isFolder ≠ (s.node p).key := by
    have new := Key.normalize_join_ne front clean isFolder
    rw [String.ofList_toList, ← key] at new
    exact new
  have free (isFolder : Bool) := fresh.free _ (new isFolder).1 (new isFolder).2
  have some' : text.isEmpty = false := by
    rw [Bool.eq_false_iff]
    intro empty
    rw [String.isEmpty_iff] at empty
    exact clean.ne_nil (by rw [empty]; rfl)
  have asks : s.asksForFolder p text = false := by
    rw [asksForFolder, Key.asksForFolder_of_clean clean, some']
    rfl
  have unknown : s.remembered v p text = none := by
    rw [remembered, asks, if_neg Bool.false_ne_true, keys, keys, free, free]
    rfl
  have taken : s.folderAnew v p text =
      s.classify v (Key.normalize (Key.join (s.node p).key text) false) := by
    have below := (new false).1
    rw [ne_eq, ← String.isEmpty_iff, Bool.not_eq_true] at below
    rw [folderAnew, asks, keys, below, Bool.or_self, Bool.false_or]
  rw [resolve_anew unknown, anew, taken, keys]

/-- **A listing and a request agree on an entry exactly if the disk can look at it or its name has a
dot.** Take two file systems over the same root directory of the same disk, mounted just now, and a
folder that is there and is the first path asked for in either. A listing of the folder in the one
has a path for every entry; and for an entry whose name is a plain text this path has the key and
the kind of what a request for the name in the other gives, exactly if the place of the entry
exists or the name has a dot. -/
theorem classified_alike_iff [MediaTypes] {d : Disk} {w p' r : Nat} {s' t' : Server} {l : List Nat}
    {names : List Name} {text : String} (opened : s.Opened d root v p)
    (opened' : t.Opened d root w p') (same : (t.node p').key = (s.node p).key)
    (folder : (s.node p).isFolder = true) (present : (s.node p).present = true)
    (entries : d.list (Utf8.ofText (s.node p).diskPath) = .ok names)
    (mem : Utf8.ofText text ∈ names) (plain : Disk.Plain (Utf8.ofText text))
    (listed : s.perform (.children p true) = some (.paths l, s'))
    (resolved : t.perform (.resolve w p' text) = some (.path r, t')) :
    ∃ q ∈ l, s'.lookup v (s.entryKey (s.node p) (Utf8.ofText text)) = some q ∧
      ((s'.node q).key = (t'.node r).key ∧ (s'.node q).isFolder = (t'.node r).isFolder ↔
        d.exists? (Disk.entryPath (Utf8.ofText (s.node p).diskPath) (Utf8.ofText text)) = true ∨
        '.' ∈ text.toList) := by
  have fresh := opened.fresh
  have fresh' := opened'.fresh
  have clean : Key.Clean text.toList := repair_ofText text ▸ plain.clean
  have made := fresh.sound.made p fresh.known
  obtain ⟨front, key⟩ := made.key
  rw [folder] at key
  have place : Disk.entryPath (Utf8.ofText (s.node p).diskPath) (Utf8.ofText text) =
      Utf8.ofText (Key.below (t.system w).root
        (Key.normalize (Key.join (s.node p).key text) false)) := by
    have place := Disk.entryPath_below (absoluteRoot d root) front clean
    rw [String.ofList_toList, ← key] at place
    rw [made.diskPath, fresh.system, fresh.place, fresh'.place]
    exact place
  obtain ⟨_, done⟩ := perform_eq listed
  simp only [carryOut, children, Bool.true_or, List.filter_true, Option.some.injEq, Prod.mk.injEq,
    Answer.paths.injEq] at done
  obtain ⟨rfl, rfl⟩ := done
  obtain ⟨q, mem, there, listedKey, kind⟩ :=
    fresh.listed key folder present entries clean mem
  refine ⟨q, mem, there, ?_⟩
  -- The request gives a path of the kind that the name is taken for.
  obtain ⟨_, done⟩ := perform_eq resolved
  simp only [carryOut, Option.some.injEq, Prod.mk.injEq, Answer.path.injEq] at done
  obtain ⟨rfl, rfl⟩ := done
  rw [fresh'.resolve (same.trans key) clean, same, listedKey, kind]
  simp only [makeNode]
  have agree := t.classify_agrees_iff w (Key.normalize (Key.join (s.node p).key text) false)
  have name := Key.fileName_join front clean
  rw [String.ofList_toList, ← key] at name
  rw [name, ← place, fresh'.disk, ← fresh.disk] at agree
  rw [← fresh.disk, ← agree]
  constructor
  · exact And.right
  · intro alike
    rw [entryIsFolder, alike]
    exact ⟨rfl, rfl⟩

attribute [local instance] MediaTypes.familiar

/-- A file that is there is the same for a listing and for a request. -/
theorem file_classified_alike : ∃ (s s' t' : Server) (l : List Nat) (q r : Nat),
    s.Opened textDisk.1 "/" 0 0 ∧
    (s.node 0).isFolder = true ∧ (s.node 0).present = true ∧
    textDisk.1.list (Utf8.ofText (s.node 0).diskPath) = .ok [Utf8.ofText "x.txt"] ∧
    Disk.Plain (Utf8.ofText "x.txt") ∧ s.perform (.children 0 true) = some (.paths l, s') ∧
    s.perform (.resolve 0 0 "x.txt") = some (.path r, t') ∧ q ∈ l ∧
    (s'.node q).key = (t'.node r).key ∧ (s'.node q).isFolder = (t'.node r).isFolder := by
  obtain ⟨s, opened, node⟩ : ∃ s : Server, s.Opened textDisk.1 "/" 0 0 ∧
      s.node 0 = ⟨0, "", true, "/", true, none⟩ := by
    refine ⟨_, ⟨_, _, none, {}, "", ⟨textDisk, [], rfl⟩, rfl, rfl, rfl⟩, ?_⟩
    cbv
  have plain : Disk.Plain (Utf8.ofText "x.txt") :=
    ⟨⟨by decide +kernel, by decide +kernel, by decide +kernel, by decide +kernel⟩,
      by decide +kernel⟩
  have names : textDisk.1.list (Utf8.ofText (s.node 0).diskPath) = .ok [Utf8.ofText "x.txt"] := by
    rw [node]
    exact names_textDisk
  have listed : s.perform (.children 0 true) =
      some (.paths (s.children 0 true).1, (s.children 0 true).2) := by
    simp [perform, knows, opened.fresh.known, carryOut]
  have resolved := perform_resolve opened.fresh.there opened.fresh.known "x.txt"
  obtain ⟨q, mem, _, alike⟩ := classified_alike_iff opened opened rfl (by rw [node]) (by rw [node])
    names (List.mem_singleton_self _) plain listed resolved
  obtain ⟨key, kind⟩ := alike.mpr (.inr (by decide))
  exact ⟨s, _, _, _, q, _, opened, by rw [node], by rw [node], names, plain, listed, resolved, mem,
    key, kind⟩

/-! ## A link to nowhere -/

/-- The disk with a link named `x` to a place that is not there. -/
def linkDisk : Tree := .linked (Utf8.ofText "x") (Utf8.ofText "nowhere")

theorem absoluteRoot_linkDisk : absoluteRoot linkDisk.1 "/" = "/" := by
  cbv

/-- A link `x` to nowhere is a file for a listing, and a folder for a request. -/
theorem link_classified_apart : ∃ (s s' t' : Server) (q r : Nat),
    s.Opened linkDisk.1 "/" 0 0 ∧
    s.perform (.children 0 true) = some (.paths [q], s') ∧
    s.perform (.resolve 0 0 "x") = some (.path r, t') ∧
    (s'.node q).key = "x" ∧ (s'.node q).isFolder = false ∧
    (t'.node r).key = "x/" ∧ (t'.node r).isFolder = true := by
  obtain ⟨s, opened, nodes, node⟩ : ∃ s : Server, s.Opened linkDisk.1 "/" 0 0 ∧
      s.nodes.size = 1 ∧ s.node 0 = ⟨0, "", true, "/", true, none⟩ := by
    refine ⟨_, ⟨_, _, none, {}, "", ⟨linkDisk, [], rfl⟩, rfl, rfl, rfl⟩, rfl, ?_⟩
    cbv
  have fresh := opened.fresh
  have clean : Key.Clean "x".toList :=
    ⟨by decide, by decide, by decide, by simp [Key.isSeparator]⟩
  have names : s.disk.list (Utf8.ofText (s.node 0).diskPath) = .ok [Utf8.ofText "x"] := by
    rw [node, fresh.disk]
    cbv
  have file : s.entryIsFolder (s.node 0) (Utf8.ofText "x") = false := by
    rw [entryIsFolder, node, fresh.disk]
    cbv
  have key : s.entryKey (s.node 0) (Utf8.ofText "x") = "x" := by
    rw [entryKey, file, node]
    cbv
  -- The listing
  have free : s.lookup 0 "x" = none :=
    fresh.free "x" (by decide) (by rw [node]; decide)
  have first := listing_single (by rw [node]; exact fresh.there) fresh.known (by rw [node])
    (by rw [node]) (by rw [node]) (by rw [node]; exact fresh.alive) names
    (by rw [key, node]; exact free)
  rw [key, file, nodes, node] at first
  obtain ⟨paths, _, _, entry⟩ := first
  have performed : s.perform (.children 0 true) = some (.paths [1], (s.listing 0).2) := by
    simp [perform, knows, fresh.known, carryOut, children, paths]
  -- The request
  have below (isFolder : Bool) : Key.normalize (Key.join (s.node 0).key "x") isFolder =
      if isFolder then "x/" else "x" := by
    rw [node]
    cases isFolder <;> cbv
  have taken : s.classify 0 "x" = true := by
    rw [classify, fresh.place, absoluteRoot_linkDisk, fresh.disk]
    cbv
  have top : (s.node 0).key = Key.normalize "" true := by
    rw [node]
    rfl
  have asked := fresh.resolve top clean
  simp only [below, Bool.false_eq_true, if_false, taken, if_true] at asked
  refine ⟨s, _, _, 1, _, opened, performed, perform_resolve fresh.there fresh.known "x", ?_, ?_, ?_,
    ?_⟩
  · rw [entry]
    rfl
  · rw [entry]
    rfl
  · rw [asked]
    rfl
  · rw [asked]
    rfl

end Server

end Docroot
