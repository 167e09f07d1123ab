import Mathlib
import Docroot.Proofs.KeyShape
import Docroot.Proofs.Registry

/-!
Resolving, and what the registry remembers of earlier calls.

A request is looked up under its key as a file, then under its key as a folder, and only then on
disk. While nobody changes the disk, a path that is remembered tells the truth about it, but it
need not be the path that the disk asks for: a request with a separator at its end registers the
key of a folder whatever is on disk, and later requests without the separator find that folder in
place of the file. `resolve_as_anew_iff` says exactly when earlier calls make a difference.
-/

namespace Docroot

/-- What a caller sees of a path: its key, whether it is a folder, and whether it is there. -/
def PathNode.seen (n : PathNode) : String × Bool × Bool := (n.key, n.isFolder, n.present)

/-- The effects that leave the disk alone, and what paths know of it. -/
def Effect.LeavesDisk : Effect → Prop
  | alter _ | confirm _ => False
  | _ => True

/-- The calls that leave the disk alone. -/
def Call.leavesDisk : Call → Bool
  | create _ | change _ => false
  | _ => true

theorem Call.leavesDisk_may {c : Call} (h : c.leavesDisk = true) {e : Effect} (kind : c.may e) :
    e.LeavesDisk := by
  cases c with
  | create | change => cases h
  | newCache =>
    obtain ⟨t, rfl⟩ := kind
    trivial
  | mount =>
    obtain ⟨t, rfl⟩ | ⟨f, rfl⟩ := kind <;> trivial
  | retain | release =>
    obtain ⟨owners, rfl⟩ := kind
    trivial
  | invalidate =>
    obtain ⟨key, rfl⟩ := kind
    trivial
  | writeText | removeText | clearTexts =>
    subst kind
    trivial
  | _ =>
    cases e with
    | alter | confirm => cases kind
    | _ => trivial

namespace Server

variable {s t : Server} {v : Nat}

/-! ## A disk that stays as it is -/

/-- The paths of a file system know what is on disk. -/
def Current (s : Server) (v : Nat) : Prop :=
  ∀ p, p < s.nodes.size → (s.node p).system = v →
    (s.node p).present = s.disk.exists? (Utf8.ofText (s.node p).diskPath)

theorem disk_leavesDisk {e : Effect} (kind : e.LeavesDisk) (s : Server) :
    (e.apply s).disk = s.disk := by
  rw [e.disk_apply]
  cases e <;> first | rfl | cases kind

theorem Current.apply (current : s.Current v) {e : Effect} (kind : e.LeavesDisk)
    (lawful : e.Lawful s) : (e.apply s).Current v := by
  intro p known system
  rw [disk_leavesDisk kind]
  rcases known_apply known with old | ⟨w, key, isFolder, rfl, rfl⟩
  · have became := Effect.node_became lawful old
    have other : e ≠ .confirm p := by
      rintro rfl
      cases kind
    rw [present_apply old other, became.diskPath]
    exact current p old (became.system ▸ system)
  · rw [Effect.node_register, if_pos rfl]
    rfl

theorem Goes.disk_still (h : Goes Effect.LeavesDisk s t) : t.disk = s.disk :=
  h.keeps (I := fun t => t.disk = s.disk)
    (fun t _ kind _ ih => (disk_leavesDisk kind t).trans ih) rfl

theorem Goes.current (h : Goes Effect.LeavesDisk s t) (current : s.Current v) : t.Current v :=
  h.keeps (I := fun t => t.Current v) (fun _ _ kind lawful ih => ih.apply kind lawful) current

theorem mount_eq (s : Server) (root : String) (cache : Option Nat) (config : Config) :
    ∃ (u : Server) (f : FileSystem),
      s.mount root cache config = (s.systems.size, { u with systems := s.systems.push f }) ∧
      u.disk = s.disk ∧ u.nodes = s.nodes ∧ f.root = absoluteRoot s.disk root ∧
      f.registry = .empty := by
  simp only [mount]
  split
  · cases cache with
    | none => exact ⟨(s.addCache .memory).2, _, rfl, rfl, rfl, rfl, rfl⟩
    | some c => exact ⟨s, _, rfl, rfl, rfl, rfl, rfl⟩
  · exact ⟨(s.addCache .disabled).2, _, rfl, rfl, rfl, rfl, rfl⟩

/-- A new file system has no paths, and its root depends on nothing but the disk. -/
theorem perform_mount [MediaTypes] {root : String} {cache : Option Nat} {config : Config} {v : Nat}
    (h : s.perform (.mount root cache config) = some (.system v, t)) :
    v = s.systems.size ∧ v < t.systems.size ∧ t.disk = s.disk ∧ t.nodes = s.nodes ∧
    (t.system v).root = absoluteRoot s.disk root ∧ ∀ key, t.lookup v key = none := by
  obtain ⟨_, done⟩ := perform_eq h
  obtain ⟨u, f, mounted, disk, nodes, root', new⟩ := mount_eq s root cache config
  simp only [carryOut, mounted, Option.some.injEq, Prod.mk.injEq, Answer.system.injEq] at done
  obtain ⟨rfl, rfl⟩ := done
  have now : ({ u with systems := s.systems.push f } : Server).system s.systems.size = f := by
    simp [system]
  refine ⟨rfl, by simp, disk, nodes, by rw [now, root'], fun key => ?_⟩
  simp only [lookup, now, new]
  rfl

/-! ## What is remembered -/

/-- Whether a text asks for a folder, whatever is on disk. -/
def asksForFolder (s : Server) (parent : Nat) (raw : String) : Bool :=
  Key.asksForFolder raw || (raw.isEmpty && (s.node parent).isFolder)

/-- The key of a text below a path. -/
def keyBelow (s : Server) (parent : Nat) (raw : String) (isFolder : Bool) : String :=
  Key.normalize (Key.join (Key.folderPrefix (s.node parent).key) raw) isFolder

/-- The path that a request finds in the registry. -/
def remembered (s : Server) (v parent : Nat) (raw : String) : Option Nat :=
  if s.asksForFolder parent raw then s.lookup v (s.keyBelow parent raw true)
  else (s.lookup v (s.keyBelow parent raw false)).or (s.lookup v (s.keyBelow parent raw true))

/-- Whether a request that finds nothing there leads to a folder. -/
def folderAnew (s : Server) (v parent : Nat) (raw : String) : Bool :=
  s.asksForFolder parent raw || (s.keyBelow parent raw false).isEmpty ||
    s.classify v (s.keyBelow parent raw false)

/-- The path that is made for such a request. -/
def anew (s : Server) (v parent : Nat) (raw : String) : PathNode :=
  s.makeNode v (s.keyBelow parent raw (s.folderAnew v parent raw)) (s.folderAnew v parent raw)

theorem keyBelow_empty {parent : Nat} {raw : String} :
    s.keyBelow parent raw true = "" ↔ s.keyBelow parent raw false = "" :=
  (Key.normalize_eq_empty _ true).trans (Key.normalize_eq_empty _ false).symm

theorem keyBelow_root {parent : Nat} (root : (s.node parent).key = "") (raw : String)
    (isFolder : Bool) :
    s.keyBelow parent raw isFolder = Key.normalize (Key.join "" raw) isFolder := by
  rw [keyBelow, root]
  rfl

theorem asksForFolder_eq_false {parent : Nat} {raw : String} (asks : Key.asksForFolder raw = false)
    (named : raw.isEmpty = false) : s.asksForFolder parent raw = false := by
  rw [asksForFolder, asks, named, Bool.false_and, Bool.or_false]

theorem intern_remembered {key : String} {isFolder : Bool} {q : Nat}
    (there : s.lookup v key = some q) : s.intern v key isFolder = (q, s) := by
  simp only [intern, there]

theorem intern_anew {key : String} {isFolder : Bool} (free : s.lookup v key = none) :
    (s.intern v key isFolder).2.node (s.intern v key isFolder).1 =
      s.makeNode v key isFolder := by
  simp only [intern, free]
  exact (Effect.node_register v key isFolder _).trans (if_pos rfl)

theorem lookup_intern_other {key other : String} (isFolder : Bool) (ne : key ≠ other)
    (known : v < s.systems.size) :
    (s.intern v key isFolder).2.lookup v other = s.lookup v other := by
  simp only [intern]
  split
  · rfl
  · have known' : v < ({ s with nodes := s.nodes.push (s.makeNode v key isFolder) } :
      Server).systems.size := known
    simp [lookup, system_setSystem, known', Table.find?_insert, ne]

/-- A first listing with one entry, whose key is not registered. -/
theorem listing_single {p : Nat} {name : Name} (there : (s.node p).system < s.systems.size)
    (known : p < s.nodes.size) (new : (s.node p).listing = none)
    (folder : (s.node p).isFolder = true) (present : (s.node p).present = true)
    (alive : (s.system (s.node p).system).owners ≠ 0)
    (listed : s.disk.list (Utf8.ofText (s.node p).diskPath) = .ok [name])
    (free : s.lookup (s.node p).system (s.entryKey (s.node p) name) = none) :
    (s.listing p).1 = [s.nodes.size] ∧ s.nodes.size < (s.listing p).2.nodes.size ∧
    (s.listing p).2.lookup (s.node p).system (s.entryKey (s.node p) name) = some s.nodes.size ∧
    (s.listing p).2.node s.nodes.size =
      s.makeNode (s.node p).system (s.entryKey (s.node p) name)
        (s.entryIsFolder (s.node p) name) := by
  have goes : Goes Effect.Resolves s
      (s.intern (s.node p).system (s.entryKey (s.node p) name)
        (s.entryIsFolder (s.node p) name)).2 :=
    intern_goes there ⟨_, rfl⟩
  have same {made : Nat × Server} (interned : s.intern (s.node p).system
      (s.entryKey (s.node p) name) (s.entryIsFolder (s.node p) name) = made) :
      s.listing p = ([made.1], (made.2.report (.listed (s.node p).key 1)).setNode p
        { s.node p with listing := some [made.1] }) := by
    subst interned
    simp only [listing, new, makeListing_eq folder present alive listed, List.foldl_cons,
      List.foldl_nil, enlistEntry_eq, node_report, goes.node_kept known]
    rfl
  have size : s.nodes.size < (s.intern (s.node p).system (s.entryKey (s.node p) name)
      (s.entryIsFolder (s.node p) name)).2.nodes.size := by
    simp [intern, free, report, setSystem]
  have path : (s.intern (s.node p).system (s.entryKey (s.node p) name)
      (s.entryIsFolder (s.node p) name)).1 = s.nodes.size := by
    simp only [intern, free]
  have registered := lookup_intern there (s.entryKey (s.node p) name)
    (s.entryIsFolder (s.node p) name)
  have entry := @intern_anew s _ _ (s.entryIsFolder (s.node p) name) free
  rw [path] at registered entry
  rw [same rfl]
  generalize s.intern (s.node p).system (s.entryKey (s.node p) name)
    (s.entryIsFolder (s.node p) name) = made at size path registered entry ⊢
  refine ⟨congrArg (fun q => [q]) path, ?_, registered, ?_⟩
  · rw [size_nodes_setNode]
    exact size
  · rw [node_setNode, if_neg (fun here => Nat.ne_of_lt known here.1), node_report]
    exact entry

theorem resolve_eq (s : Server) (v parent : Nat) (raw : String) : s.resolve v parent raw =
    if s.asksForFolder parent raw then s.intern v (s.keyBelow parent raw true) true
    else if (s.keyBelow parent raw false).isEmpty then s.intern v "" true
    else match s.lookup v (s.keyBelow parent raw false) with
      | some p => (p, s)
      | none =>
        match s.lookup v (s.keyBelow parent raw true) with
        | some p => (p, s)
        | none =>
          if s.classify v (s.keyBelow parent raw false) then
            s.intern v (s.keyBelow parent raw true) true
          else s.intern v (s.keyBelow parent raw false) false := rfl

/-- A request gives the path that is remembered. -/
theorem resolve_remembered {parent q : Nat} {raw : String}
    (there : s.remembered v parent raw = some q) : s.resolve v parent raw = (q, s) := by
  rw [resolve_eq]
  simp only [remembered] at there
  split at there
  · rename_i asks
    rw [if_pos asks]
    exact intern_remembered there
  · rename_i asks
    rw [if_neg asks]
    split
    · rename_i empty
      rw [String.isEmpty_iff] at empty
      rw [empty, keyBelow_empty.mpr empty, Option.or_self] at there
      exact intern_remembered there
    · cases file : s.lookup v (s.keyBelow parent raw false) with
      | some p =>
        rw [file, Option.some_or, Option.some.injEq] at there
        rw [there]
      | none =>
        rw [file, Option.none_or] at there
        simp only [there]

/-- A request for which nothing is remembered registers what it leads to anew. -/
theorem resolve_interns {parent : Nat} {raw : String} (free : s.remembered v parent raw = none) :
    s.resolve v parent raw = s.intern v (s.keyBelow parent raw (s.folderAnew v parent raw))
      (s.folderAnew v parent raw) ∧
    s.lookup v (s.keyBelow parent raw (s.folderAnew v parent raw)) = none := by
  rw [resolve_eq]
  simp only [remembered] at free
  simp only [folderAnew]
  split at free
  · rename_i asks
    rw [if_pos asks, asks]
    exact ⟨rfl, free⟩
  · rename_i asks
    obtain ⟨file, folder⟩ := Option.or_eq_none_iff.mp free
    rw [if_neg asks, Bool.eq_false_iff.mpr asks]
    split
    · rename_i empty
      rw [empty]
      rw [String.isEmpty_iff] at empty
      rw [empty] at file
      simp only [Bool.false_or, Bool.true_or, keyBelow_empty.mpr empty]
      exact ⟨trivial, file⟩
    · rename_i below
      rw [file, folder, Bool.eq_false_iff.mpr below]
      simp only [Bool.false_or]
      split
      · rename_i isFolder
        rw [isFolder]
        exact ⟨rfl, folder⟩
      · rename_i isFile
        rw [Bool.eq_false_iff.mpr isFile]
        exact ⟨rfl, file⟩

/-- A request makes a new path if none is remembered. -/
theorem resolve_anew {parent : Nat} {raw : String} (free : s.remembered v parent raw = none) :
    (s.resolve v parent raw).2.node (s.resolve v parent raw).1 = s.anew v parent raw := by
  obtain ⟨made, new⟩ := resolve_interns free
  rw [made]
  exact intern_anew new

/-- Its number is the next. -/
theorem resolve_new {parent : Nat} {raw : String} (free : s.remembered v parent raw = none) :
    (s.resolve v parent raw).1 = s.nodes.size ∧
    s.nodes.size < (s.resolve v parent raw).2.nodes.size := by
  obtain ⟨made, new⟩ := resolve_interns free
  simp [made, intern, new, setSystem, report]

/-- A request below the root that the registry does not know makes a path of its own, of the kind
that the disk tells. -/
theorem resolve_below_root (raw file folder : String) (root : (s.node 0).key = "")
    (asks : Key.asksForFolder raw = false) (named : raw.isEmpty = false)
    (asFile : Key.normalize (Key.join "" raw) false = file)
    (asFolder : Key.normalize (Key.join "" raw) true = folder) (below : file.isEmpty = false)
    (free : s.lookup v file = none) (free' : s.lookup v folder = none) :
    s.resolve v 0 raw = s.intern v (if s.classify v file then folder else file)
      (s.classify v file) := by
  rw [resolve_eq, asksForFolder_eq_false asks named, keyBelow_root root, keyBelow_root root, asFile,
    asFolder, below, free, free']
  cases s.classify v file <;> rfl

/-! ## Where the registry and the disk differ -/

/-- The registry leads a request elsewhere than the disk does. Where a folder is asked for in so
many words, its key is that of the root, and stands for a file; where the disk has a folder, a file
is registered under its name; and where the disk has a file, or nothing with a dot in its name, a
folder is registered under that name and no file is. -/
def Misled (s : Server) (v parent : Nat) (raw : String) : Prop :=
  if s.asksForFolder parent raw ∨ s.keyBelow parent raw false = "" then
    ∃ q, s.lookup v (s.keyBelow parent raw true) = some q ∧ (s.node q).isFolder = false
  else if s.classify v (s.keyBelow parent raw false) then
    s.lookup v (s.keyBelow parent raw false) ≠ none
  else
    s.lookup v (s.keyBelow parent raw false) = none ∧
    s.lookup v (s.keyBelow parent raw true) ≠ none

/-- A path under the key of a folder is one, below the root. -/
theorem Sound.isFolder_of_folder (sound : s.Sound) {q parent : Nat} {raw : String}
    (there : s.lookup v (s.keyBelow parent raw true) = some q)
    (below : s.keyBelow parent raw true ≠ "") : (s.node q).isFolder = true := by
  obtain ⟨known, _, key⟩ := sound.registered _ _ _ there
  obtain ⟨raw', shape⟩ := (sound.made q known).key
  cases folder : (s.node q).isFolder with
  | true => rfl
  | false =>
    rw [folder, key] at shape
    exact absurd shape (Key.normalize_ne below)

/-- A path under the key of a file is one, below the root. -/
theorem Sound.isFolder_of_file (sound : s.Sound) {q parent : Nat} {raw : String}
    (there : s.lookup v (s.keyBelow parent raw false) = some q)
    (below : s.keyBelow parent raw false ≠ "") : (s.node q).isFolder = false := by
  obtain ⟨known, _, key⟩ := sound.registered _ _ _ there
  obtain ⟨raw', shape⟩ := (sound.made q known).key
  cases folder : (s.node q).isFolder with
  | false => rfl
  | true =>
    rw [folder, key] at shape
    exact absurd shape.symm (Key.normalize_ne (shape ▸ below))

/-- A path that is remembered differs from the one that would be made exactly if the registry
misleads the request. -/
theorem remembered_isFolder (sound : s.Sound) {parent q : Nat} {raw : String}
    (there : s.remembered v parent raw = some q) :
    (s.node q).key = s.keyBelow parent raw (s.node q).isFolder ∧
    ((s.node q).isFolder = s.folderAnew v parent raw ↔ ¬ s.Misled v parent raw) := by
  by_cases asked : s.asksForFolder parent raw ∨ s.keyBelow parent raw false = ""
  · have there : s.lookup v (s.keyBelow parent raw true) = some q := by
      simp only [remembered] at there
      split at there
      · exact there
      · rename_i notAsks
        have empty := asked.resolve_left notAsks
        rw [empty, keyBelow_empty.mpr empty, Option.or_self] at there
        rw [keyBelow_empty.mpr empty]
        exact there
    have folderAnew : s.folderAnew v parent raw = true := by
      rcases asked with asks | empty
      · simp [folderAnew, asks]
      · simp [folderAnew, empty]
    simp only [Misled, if_pos asked, folderAnew, there, Option.some.injEq, exists_eq_left',
      Bool.not_eq_false, and_true]
    cases folder : (s.node q).isFolder with
    | true => exact (sound.registered _ _ _ there).2.2
    | false =>
      have empty : s.keyBelow parent raw true = "" := Classical.byContradiction fun below => by
        simp [sound.isFolder_of_folder there below] at folder
      rw [keyBelow_empty.mp empty, ← empty]
      exact (sound.registered _ _ _ there).2.2
  · obtain ⟨notAsks, below⟩ := not_or.mp asked
    have folderAnew : s.folderAnew v parent raw = s.classify v (s.keyBelow parent raw false) := by
      simp [folderAnew, notAsks, below]
    simp only [remembered, if_neg notAsks] at there
    simp only [Misled, if_neg asked, folderAnew]
    cases file : s.lookup v (s.keyBelow parent raw false) with
    | some p =>
      rw [file, Option.some_or, Option.some.injEq] at there
      subst there
      rw [sound.isFolder_of_file file below]
      refine ⟨(sound.registered _ _ _ file).2.2, ?_⟩
      cases s.classify v (s.keyBelow parent raw false) <;> simp
    | none =>
      rw [file, Option.none_or] at there
      rw [sound.isFolder_of_folder there fun empty => below (keyBelow_empty.mp empty)]
      refine ⟨(sound.registered _ _ _ there).2.2, ?_⟩
      cases s.classify v (s.keyBelow parent raw false) <;> simp [there]

theorem Misled.remembered {parent : Nat} {raw : String} (misled : s.Misled v parent raw) :
    s.remembered v parent raw ≠ none := by
  intro free
  simp only [Server.remembered] at free
  simp only [Misled] at misled
  split at free
  · rename_i asks
    simp [asks, free] at misled
  · rename_i notAsks
    obtain ⟨file, folder⟩ := Option.or_eq_none_iff.mp free
    simp [notAsks, file, folder] at misled

/-- A request gives what it would give without a registry, unless the registry misleads it. -/
theorem resolve_seen_iff (sound : s.Sound) (current : s.Current v) (parent : Nat) (raw : String) :
    ((s.resolve v parent raw).2.node (s.resolve v parent raw).1).seen =
      (s.anew v parent raw).seen ↔ ¬ s.Misled v parent raw := by
  cases there : s.remembered v parent raw with
  | none =>
    have notMisled : ¬ s.Misled v parent raw := fun misled => misled.remembered there
    simp [resolve_anew there, notMisled]
  | some q =>
    obtain ⟨key, kind⟩ := remembered_isFolder sound there
    rw [resolve_remembered there, ← kind]
    constructor
    · exact fun same => congrArg (·.2.1) same
    · intro same
      have registered : ∃ key, s.lookup v key = some q := by
        simp only [remembered] at there
        split at there
        · exact ⟨_, there⟩
        · rcases Option.or_eq_some_iff.mp there with file | ⟨_, folder⟩
          · exact ⟨_, file⟩
          · exact ⟨_, folder⟩
      obtain ⟨_, registered⟩ := registered
      obtain ⟨known, system, _⟩ := sound.registered _ _ _ registered
      have present := current q known system
      rw [(sound.made q known).diskPath, system, key] at present
      simp only [PathNode.seen, anew, makeNode, key, same, present]

theorem Current.mounted [MediaTypes] (sound : s.Sound) {root : String} {cache : Option Nat}
    {config : Config} (h : s.perform (.mount root cache config) = some (.system v, t)) :
    t.Current v := by
  obtain ⟨rfl, _, _, nodes, _⟩ := perform_mount h
  intro p known system
  rw [nodes] at known
  rw [node, nodes, ← node] at system
  exact absurd system (Nat.ne_of_lt (sound.made p known).system)

theorem perform_resolve [MediaTypes] {parent : Nat} (knownSystem : v < s.systems.size)
    (known : parent < s.nodes.size) (raw : String) :
    s.perform (.resolve v parent raw) =
      some (.path (s.resolve v parent raw).1, (s.resolve v parent raw).2) := by
  simp [perform, knows, carryOut, knownSystem, known]

theorem classify_congr {w : Nat} (disk : t.disk = s.disk)
    (root : (t.system w).root = (s.system v).root) (key : String) :
    t.classify w key = s.classify v key := by
  delta classify
  rw [disk, root]

theorem classify_of_stat {key : String} {st : Disk.Stat}
    (found : s.disk.stat (Utf8.ofText (Key.below (s.system v).root key)) = .ok st) :
    s.classify v key = st.isFolder := by
  delta classify
  rw [found]

theorem anew_seen {parent w : Nat} (parents : t.node parent = s.node parent)
    (disk : t.disk = s.disk) (root : (t.system w).root = (s.system v).root) (raw : String) :
    (t.anew w parent raw).seen = (s.anew v parent raw).seen := by
  simp only [anew, folderAnew, asksForFolder, keyBelow, makeNode, PathNode.seen, parents,
    classify_congr disk root, disk, root]

/-- A file system without paths gives what would be made for a request. -/
theorem resolve_seen_mounted [MediaTypes] {root : String} {cache : Option Nat} {config : Config}
    {w : Nat} (h : s.perform (.mount root cache config) = some (.system w, t))
    (same : (s.system v).root = absoluteRoot s.disk root) (parent : Nat) (raw : String) :
    ((t.resolve w parent raw).2.node (t.resolve w parent raw).1).seen =
      (s.anew v parent raw).seen := by
  obtain ⟨_, _, disk, nodes, root', free⟩ := perform_mount h
  rw [resolve_anew (by simp [remembered, free])]
  exact anew_seen (by rw [node, nodes, ← node]) disk (root'.trans same.symm) raw

/-- **Resolving does not depend on earlier calls, unless the registry misleads it.** On a disk that
stays as it is from the mounting of a file system on, a request gives a path with the same key, of
the same kind and as present as the same request on a file system that was mounted just now, unless
the registry misleads the request; and then it does not. -/
theorem resolve_as_anew_iff [MediaTypes] {s₀ s₁ s t : Server} (reach : Reachable s₀) {root : String}
    {cache cache' : Option Nat} {config config' : Config} {v w : Nat} {history : List Call}
    (mounted : s₀.perform (.mount root cache config) = some (.system v, s₁))
    (led : s₁.run history = some s) (still : ∀ c ∈ history, c.leavesDisk = true)
    (fresh : s.perform (.mount root cache' config') = some (.system w, t)) {parent : Nat}
    (known : parent < s.nodes.size) (raw : String) :
    ∃ p s' q t', s.perform (.resolve v parent raw) = some (.path p, s') ∧
      t.perform (.resolve w parent raw) = some (.path q, t') ∧
      ((s'.node p).seen = (t'.node q).seen ↔ ¬ s.Misled v parent raw) := by
  obtain ⟨_, known₁, disk₁, _, root₁, _⟩ := perform_mount mounted
  obtain ⟨_, knownFresh, _, nodes, _⟩ := perform_mount fresh
  have goes : Goes Effect.LeavesDisk s₁ s :=
    run_goes led fun c mem e kind => Call.leavesDisk_may (still c mem) kind
  have sound := (reach.sound.goes (perform_goes mounted)).goes goes
  have current := goes.current (Current.mounted reach.sound mounted)
  have same : (s.system v).root = absoluteRoot s.disk root := by
    rw [(goes.system_kept known₁).1, root₁, goes.disk_still, disk₁]
  refine ⟨_, _, _, _, perform_resolve (Nat.lt_of_lt_of_le known₁ goes.size_systems) known raw,
    perform_resolve knownFresh (nodes ▸ known) raw, ?_⟩
  rw [resolve_seen_mounted fresh same]
  exact resolve_seen_iff sound current parent raw

/-- A server whose root was mounted on a disk and asked for. -/
theorem start_mounted [MediaTypes] {d : Tree} (place : absoluteRoot d.1 "/" = "/") : ∃ s,
    (start d).run [.mount "/" none {}, .root 0] = some s ∧
    s.disk = d.1 ∧ s.systems.size = 1 ∧ s.nodes.size = 1 ∧ s.caches = #[.memory] ∧
    (s.system 0).root = "/" ∧ (s.system 0).cache = 0 ∧ (s.system 0).owners = 1 ∧
    (∀ key, key ≠ "" → s.lookup 0 key = none) ∧
    s.node 0 = ⟨0, "", true, "/", d.1.exists? (Utf8.ofText "/"), none⟩ := by
  have free (key : String) (below : key ≠ "") : (Table.insert .empty "" 0).find? key = none := by
    rw [Table.find?_insert, if_neg (Ne.symm below), Table.find?_empty]
  have root : PathNode.mk 0 "" true (Key.below (absoluteRoot d.1 "/") "")
      (d.1.exists? (Utf8.ofText (Key.below (absoluteRoot d.1 "/") ""))) none =
      ⟨0, "", true, "/", d.1.exists? (Utf8.ofText "/"), none⟩ := by
    rw [place, show Key.below "/" "" = "/" by decide]
  exact ⟨_, rfl, rfl, rfl, rfl, rfl, place, rfl, rfl, free, root⟩

/-- The root directory of a disk is mounted as the file system 0, and its root is the path 0. -/
structure AtRoot (s : Server) (d : Disk) : Prop where
  disk : s.disk = d
  systems : s.systems.size = 1
  known : 0 < s.nodes.size
  place : (s.system 0).root = "/"
  key : (s.node 0).key = ""

theorem AtRoot.mounted {d : Disk} (atRoot : s.AtRoot d) : 0 < s.systems.size :=
  atRoot.systems ▸ Nat.zero_lt_one

theorem AtRoot.goes {d : Disk} (atRoot : s.AtRoot d) (h : Goes Effect.Resolves s t) :
    t.AtRoot d where
  disk := (h.mono Effect.Resolves.looks).disk_kept.trans atRoot.disk
  systems := (h.mono Effect.Resolves.looks).systems_looks.trans atRoot.systems
  known := Nat.lt_of_lt_of_le atRoot.known h.size_nodes
  place := (h.system_kept atRoot.mounted).1.trans atRoot.place
  key := (congrArg _ (h.node_kept atRoot.known)).trans atRoot.key

/-- The disk of a site: pages whose names differ in their case or their extensions, and a folder
with a text and with octets. -/
def siteDisk : Tree :=
  Tree.bare
    |>.add (.file (Utf8.ofText "hi")) (Utf8.ofText "x.txt") [] rfl rfl
    |>.add .folder (Utf8.ofText "docs") [] rfl rfl
    |>.add (.file (Utf8.ofText "yo")) (Utf8.ofText "y.txt") [Utf8.ofText "docs"] rfl rfl
    |>.add (.file [255]) (Utf8.ofText "z.bin") [Utf8.ofText "docs"] rfl rfl
    |>.add (.file (Utf8.ofText "<p>")) (Utf8.ofText "x.html") [] rfl rfl
    |>.add (.file (Utf8.ofText "HI")) (Utf8.ofText "X.txt") [] rfl rfl

theorem stat_siteDisk : siteDisk.1.stat (Utf8.ofText "/x.txt") = .ok ⟨false, 2⟩ ∧
    siteDisk.1.stat (Utf8.ofText "/docs") = .ok ⟨true, 0⟩ :=
  ⟨by cbv, by cbv⟩

theorem absoluteRoot_siteDisk : absoluteRoot siteDisk.1 "/" = "/" := by
  cbv

theorem classify_siteDisk (atRoot : s.AtRoot siteDisk.1) :
    s.classify 0 "docs" = true ∧ s.classify 0 "x.txt" = false := by
  have folder : Key.below "/" "docs" = "/docs" := by decide
  have file : Key.below "/" "x.txt" = "/x.txt" := by decide
  constructor
  · exact classify_of_stat (by rw [atRoot.place, atRoot.disk, folder, stat_siteDisk.2])
  · exact classify_of_stat (by rw [atRoot.place, atRoot.disk, file, stat_siteDisk.1])

/-- A request for the file `x.txt` that the registry does not know makes a path of its own. -/
theorem resolve_xtxt (key : (s.node 0).key = "") (free : s.lookup 0 "x.txt" = none)
    (free' : s.lookup 0 "x.txt/" = none) (file : s.classify 0 "x.txt" = false) :
    s.resolve 0 0 "x.txt" = s.intern 0 "x.txt" false := by
  have asked := resolve_below_root "x.txt" "x.txt" "x.txt/" key (by decide) (by decide)
    (by decide +kernel) (by decide +kernel) (by decide) free free'
  rw [file, if_neg Bool.false_ne_true] at asked
  exact asked

attribute [local instance] MediaTypes.familiar

/-- The folder `docs` and the file `x.txt` were asked for, and now the file is again, by way of the
folder. -/
theorem file_as_anew : ∃ s₁ s t p s' q t',
    (start siteDisk).perform (.mount "/" none {}) = some (.system 0, s₁) ∧
    s₁.run [.root 0, .resolve 0 0 "docs", .resolve 0 0 "x.txt"] = some s ∧
    s.perform (.mount "/" none {}) = some (.system 1, t) ∧
    s.perform (.resolve 0 0 "docs/../x.txt") = some (.path p, s') ∧
    t.perform (.resolve 1 0 "docs/../x.txt") = some (.path q, t') ∧
    s.lookup 0 "x.txt" = some p ∧ (s'.node p).seen = (t'.node q).seen := by
  obtain ⟨u, ran, disk, systems, nodes, _, root, _, _, free, node⟩ :=
    start_mounted absoluteRoot_siteDisk
  obtain ⟨s₁, mounted⟩ : ∃ s₁, (start siteDisk).perform (.mount "/" none {}) =
      some (.system 0, s₁) := ⟨_, rfl⟩
  have led : s₁.run [.root 0] = some u := (run_cons_of mounted).symm.trans ran
  have atRoot : u.AtRoot siteDisk.1 := ⟨disk, systems, by omega, root, by rw [node]⟩
  -- The folder is registered
  have folder := resolve_below_root "docs" "docs" "docs/" atRoot.key (by decide) (by decide)
    (by decide +kernel) (by decide +kernel) (by decide) (free _ (by decide)) (free _ (by decide))
  rw [(classify_siteDisk atRoot).1, if_pos rfl] at folder
  have free₁ (key : String) (below : key ≠ "") (other : "docs/" ≠ key) :
      (u.resolve 0 0 "docs").2.lookup 0 key = none := by
    rw [folder, lookup_intern_other true other atRoot.mounted, free key below]
  have led₁ := run_snoc_of led (perform_resolve atRoot.mounted atRoot.known "docs")
  have atRoot₁ := atRoot.goes (resolve_goes atRoot.mounted 0 "docs")
  generalize (u.resolve 0 0 "docs").2 = u₁ at led₁ atRoot₁ free₁
  -- The file is registered
  have file := resolve_xtxt atRoot₁.key (free₁ _ (by decide) (by decide))
    (free₁ _ (by decide) (by decide)) (classify_siteDisk atRoot₁).2
  have there := lookup_intern atRoot₁.mounted "x.txt" false
  rw [← file] at there
  have led₂ := run_snoc_of led₁ (perform_resolve atRoot₁.mounted atRoot₁.known "x.txt")
  have atRoot₂ := atRoot₁.goes (resolve_goes atRoot₁.mounted 0 "x.txt")
  generalize u₁.resolve 0 0 "x.txt" = asked at led₂ atRoot₂ there
  obtain ⟨p, s⟩ := asked
  -- The registry has the file that the disk has
  have notAsks : s.asksForFolder 0 "docs/../x.txt" = false :=
    asksForFolder_eq_false (by decide) (by decide)
  have asFile : s.keyBelow 0 "docs/../x.txt" false = "x.txt" := by
    rw [keyBelow_root atRoot₂.key]
    decide +kernel
  have remembered : s.remembered 0 0 "docs/../x.txt" = some p := by
    rw [Server.remembered, notAsks, asFile, if_neg Bool.false_ne_true, there, Option.some_or]
  have notMisled : ¬ s.Misled 0 0 "docs/../x.txt" := by
    rw [Misled, notAsks, asFile, if_neg (by decide), (classify_siteDisk atRoot₂).2,
      if_neg Bool.false_ne_true, there]
    rintro ⟨none, _⟩
    cases none
  obtain ⟨t, fresh⟩ : ∃ t, s.perform (.mount "/" none {}) = some (.system s.systems.size, t) :=
    ⟨_, rfl⟩
  obtain ⟨p', s', q, t', again, anew, iff⟩ := resolve_as_anew_iff ⟨siteDisk, [], rfl⟩ mounted led₂
    (by simp [Call.leavesDisk]) fresh atRoot₂.known "docs/../x.txt"
  have same := perform_resolve atRoot₂.mounted atRoot₂.known "docs/../x.txt"
  rw [resolve_remembered remembered, again] at same
  cases same
  rw [atRoot₂.systems] at fresh anew
  exact ⟨s₁, s, t, p, s, q, t', mounted, led₂, fresh, again, anew, there, iff.mpr notMisled⟩

/-! ## A folder in place of a file -/

/-- A folder that was asked for in so many words is what later requests for its name find, whatever
is on disk. -/
theorem remembered_after_folder {parent : Nat} {raw : String} (known : v < s.systems.size)
    (parentKnown : parent < s.nodes.size) (notAsks : s.asksForFolder parent raw = false)
    (below : s.keyBelow parent raw true ≠ "")
    (free : s.lookup v (s.keyBelow parent raw false) = none) :
    (s.intern v (s.keyBelow parent raw true) true).2.remembered v parent raw =
      some (s.intern v (s.keyBelow parent raw true) true).1 := by
  have goes : Goes Effect.Resolves s (s.intern v (s.keyBelow parent raw true) true).2 :=
    intern_goes known ⟨_, rfl⟩
  have kept := goes.node_kept parentKnown
  have there := lookup_intern known (s.keyBelow parent raw true) true
  have other : (s.intern v (s.keyBelow parent raw true) true).2.lookup v
      (s.keyBelow parent raw false) = none :=
    (lookup_intern_other true (Key.normalize_ne below) known).trans free
  generalize s.intern v (s.keyBelow parent raw true) true = made at kept there other
  have key (isFolder : Bool) :
      made.2.keyBelow parent raw isFolder = s.keyBelow parent raw isFolder := by
    rw [keyBelow, kept, keyBelow]
  have asks : made.2.asksForFolder parent raw = false := by
    rw [asksForFolder, kept, ← notAsks, asksForFolder]
  rw [remembered, key, key, asks, if_neg Bool.false_ne_true, other, Option.none_or]
  exact there

/-- The disk with a file named `x.txt`. -/
def textDisk : Tree := .lone (Utf8.ofText "x.txt") (Utf8.ofText "hi")

theorem stat_textDisk : textDisk.1.stat (Utf8.ofText "/x.txt") = .ok ⟨false, 2⟩ ∧
    textDisk.1.stat (Utf8.ofText "/x.txt/") = .error (.os Errno.notDirectory) :=
  ⟨by cbv, by cbv⟩

theorem names_textDisk : textDisk.1.list (Utf8.ofText "/") = .ok [Utf8.ofText "x.txt"] := by
  cbv

theorem absoluteRoot_textDisk : absoluteRoot textDisk.1 "/" = "/" := by
  cbv

/-- A server whose root was mounted on that disk and asked for. -/
theorem start_textDisk [MediaTypes] : ∃ s,
    (start textDisk).run [.mount "/" none {}, .root 0] = some s ∧
    s.disk = textDisk.1 ∧ s.systems.size = 1 ∧ s.nodes.size = 1 ∧ s.caches = #[.memory] ∧
    (s.system 0).root = "/" ∧ (s.system 0).cache = 0 ∧
    (∀ key, key ≠ "" → s.lookup 0 key = none) ∧ (s.node 0).key = "" := by
  obtain ⟨s, ran, disk, systems, nodes, caches, root, cache, _, free, node⟩ :=
    start_mounted absoluteRoot_textDisk
  exact ⟨s, ran, disk, systems, nodes, caches, root, cache, free, by rw [node]⟩

/-- The two keys that a request for `x.txt` is looked up under. -/
theorem keys_textDisk (root : (s.node 0).key = "") :
    s.asksForFolder 0 "x.txt" = false ∧ s.keyBelow 0 "x.txt" false = "x.txt" ∧
    s.keyBelow 0 "x.txt" true = "x.txt/" := by
  refine ⟨asksForFolder_eq_false (by decide) (by decide), ?_, ?_⟩
  · rw [keyBelow_root root]
    decide +kernel
  · rw [keyBelow_root root]
    decide +kernel

/-- Without a registry, a request for `x.txt` gives the file. -/
theorem anew_textDisk (disk : s.disk = textDisk.1) (root : (s.system v).root = "/")
    (key : (s.node 0).key = "") : (s.anew v 0 "x.txt").seen = ("x.txt", false, true) := by
  obtain ⟨notAsks, file, _⟩ := keys_textDisk key
  have path : Key.below "/" "x.txt" = "/x.txt" := by decide
  have found :
      s.disk.stat (Utf8.ofText (Key.below (s.system v).root "x.txt")) = .ok ⟨false, 2⟩ := by
    rw [root, disk, path, stat_textDisk.1]
  have isFile : s.folderAnew v 0 "x.txt" = false := by
    rw [folderAnew, notAsks, file, classify_of_stat found]
    decide
  rw [anew, isFile, file, PathNode.seen, makeNode]
  simp only [Disk.exists?, found]

/-- A request for `x.txt/` registers a folder, which is missing and which is what a request for
`x.txt` finds from then on. -/
theorem folder_textDisk [MediaTypes] (disk : s.disk = textDisk.1) (root : (s.system 0).root = "/")
    (key : (s.node 0).key = "") (known : 0 < s.systems.size) (parentKnown : 0 < s.nodes.size)
    (free : ∀ key, key ≠ "" → s.lookup 0 key = none) :
    ∃ p t, s.run [.resolve 0 0 "x.txt/"] = some t ∧ Goes Effect.Resolves s t ∧
      t.remembered 0 0 "x.txt" = some p ∧ (t.node p).seen = ("x.txt/", true, false) := by
  obtain ⟨notAsks, file, folder⟩ := keys_textDisk key
  have asked : s.resolve 0 0 "x.txt/" = s.intern 0 "x.txt/" true := by
    have folder : s.keyBelow 0 "x.txt/" true = "x.txt/" := by
      rw [keyBelow_root key]
      decide +kernel
    rw [resolve_eq, asksForFolder, show Key.asksForFolder "x.txt/" = true by decide, Bool.true_or,
      if_pos rfl, folder]
  have there := remembered_after_folder known parentKnown notAsks (by rw [folder]; decide)
    (by rw [file, free _ (by decide)])
  have made : (s.intern 0 "x.txt/" true).2.node (s.intern 0 "x.txt/" true).1 =
      s.makeNode 0 "x.txt/" true := intern_anew (free _ (by decide))
  have ran : s.run [.resolve 0 0 "x.txt/"] = some (s.resolve 0 0 "x.txt/").2 := by
    rw [run, perform_resolve known parentKnown]
    rfl
  have path : Key.below "/" "x.txt/" = "/x.txt/" := by decide
  rw [folder, ← asked] at there
  rw [← asked] at made
  refine ⟨_, _, ran, resolve_goes known 0 "x.txt/", there, ?_⟩
  rw [made, PathNode.seen, makeNode, root, disk, path, Disk.exists?, stat_textDisk.2]

/-- After a request for `x.txt/`, a request for the file `x.txt` gives a folder that is missing. -/
theorem folder_before_file : ∃ s₀ s s' t t' w p q,
    (start textDisk).run [.mount "/" none {}, .root 0] = some s₀ ∧
    s₀.run [.resolve 0 0 "x.txt/"] = some s ∧
    s.perform (.resolve 0 0 "x.txt") = some (.path p, s') ∧
    s.perform (.mount "/" none {}) = some (.system w, t) ∧
    t.perform (.resolve w 0 "x.txt") = some (.path q, t') ∧
    (s'.node p).seen = ("x.txt/", true, false) ∧ (t'.node q).seen = ("x.txt", false, true) := by
  obtain ⟨s₀, ran, disk, systems, nodes, _, root, _, free, key⟩ := start_textDisk
  have known : 0 < s₀.systems.size := by omega
  have parentKnown : 0 < s₀.nodes.size := by omega
  obtain ⟨p, s, ran', goes, there, missing⟩ :=
    folder_textDisk disk root key known parentKnown free
  have known' := Nat.lt_of_lt_of_le known goes.size_systems
  have parentKnown' := Nat.lt_of_lt_of_le parentKnown goes.size_nodes
  have disk' : s.disk = textDisk.1 := ((goes.mono Effect.Resolves.looks).disk_kept).trans disk
  have root' : (s.system 0).root = "/" := (goes.system_kept known).1.trans root
  have key' : (s.node 0).key = "" := (congrArg _ (goes.node_kept parentKnown)).trans key
  obtain ⟨t, mounted⟩ : ∃ t, s.perform (.mount "/" none {}) = some (.system s.systems.size, t) :=
    ⟨_, rfl⟩
  obtain ⟨_, knownFresh, _, nodes, _⟩ := perform_mount mounted
  refine ⟨s₀, s, _, t, _, _, _, _, ran, ran', perform_resolve known' parentKnown' _, mounted,
    perform_resolve knownFresh (nodes ▸ parentKnown') _, ?_, ?_⟩
  · rw [resolve_remembered there, missing]
  · rw [resolve_seen_mounted mounted (by rw [root', disk', absoluteRoot_textDisk]),
      anew_textDisk disk' root' key']

end Server

end Docroot
