import Docroot.Proofs.Registry

/-!
Servers in lockstep.

Resolving and listing look at little of a server: at its paths, at the roots, registries and owners
of its file systems, and at what the disk answers to requests below the roots of those that are
asked. `Alike` says that two servers agree in this, and every effect on paths of these file systems
keeps it. A relation in `Lockstep` is kept by these effects too; the calls that consist of them then
give equal answers in related states and leave related states, whatever else the relation says.
-/

namespace Docroot

/-- The failure that an event hides from the caller. -/
def Event.hidden? : Event → Option FileError
  | degraded e => some e
  | _ => none

namespace Effect

/-- The effects on paths: they are registered, listed and forgotten. No failure is hidden. -/
def Places : Effect → Prop
  | note ev => ev.hidden? = none
  | register .. | keep .. | forget .. => True
  | _ => False

/-- New paths are registered in the file systems of `V` only. -/
def Stays (V : Nat → Prop) : Effect → Prop
  | register v .. => V v
  | _ => True

/-- The effects on paths leave everything else alone, but for what they note. -/
theorem places_frame {e : Effect} (kind : e.Places) (s : Server) :
    (e.apply s).disk = s.disk ∧ (e.apply s).caches = s.caches ∧
    (e.apply s).systems.size = s.systems.size ∧
    ∀ v, ((e.apply s).system v).config = (s.system v).config ∧
      ((e.apply s).system v).cache = (s.system v).cache := by
  cases e with
  | note | keep => exact ⟨rfl, rfl, rfl, fun _ => ⟨rfl, rfl⟩⟩
  | register w key isFolder | forget w key =>
    refine ⟨rfl, rfl, by simp [apply, Server.setSystem], ?_⟩
    intro v
    simp only [apply, Server.system_setSystem]
    split
    · rename_i same
      obtain ⟨rfl, _⟩ := same
      exact ⟨rfl, rfl⟩
    · exact ⟨rfl, rfl⟩
  | _ => cases kind

end Effect

/-- Two disks give the same answers to requests for a path. -/
structure Disk.Agree (d d' : Disk) (path : Utf8.Bytes) : Prop where
  stat : d'.stat path = d.stat path
  read : d'.read path = d.read path
  list : d'.list path = d.list path

namespace Server

/-- The paths on disk that a file system asks for: the place of a key, and what a folder that can be
listed holds. -/
inductive Within (d : Disk) (root : String) : Utf8.Bytes → Prop
  | key (raw : String) (isFolder : Bool) :
      Within d root (Utf8.ofText (Key.below root (Key.normalize raw isFolder)))
  | entry {raw : String} {names : List Name} {name : Name}
      (listed : d.list (Utf8.ofText (Key.below root (Key.normalize raw true))) = .ok names)
      (mem : name ∈ names) :
      Within d root (Disk.entryPath (Utf8.ofText (Key.below root (Key.normalize raw true))) name)

/-- All that resolving and listing look at is the same in both servers, as far as the file systems
of `V` are asked. -/
structure Alike (V : Nat → Prop) (s t : Server) : Prop where
  nodes : t.nodes = s.nodes
  size : t.systems.size = s.systems.size
  root : ∀ v, (t.system v).root = (s.system v).root
  registry : ∀ v, (t.system v).registry = (s.system v).registry
  owners : ∀ v, (t.system v).owners = (s.system v).owners
  disk : ∀ v, V v → v < s.systems.size → ∀ path, Within s.disk (s.system v).root path →
    s.disk.Agree t.disk path

/-- Two results that go together are both missing or both there. -/
theorem rel_cases {α β : Type} {R : α → β → Prop} {x : Option α} {y : Option β}
    (rel : Option.Rel R x y) :
    x = none ∧ y = none ∨ ∃ a b, x = some a ∧ y = some b ∧ R a b := by
  cases rel with
  | none => exact .inl ⟨rfl, rfl⟩
  | some both => exact .inr ⟨_, _, rfl, rfl, both⟩

/-- Two calls that go together: they give the same answer, and the states that they leave are
related. -/
def Match {α : Type} (R : Server → Server → Prop) (x y : α × Server) : Prop :=
  y.1 = x.1 ∧ R x.2 y.2

variable {V : Nat → Prop} {s t : Server} {v p : Nat} {key : String} {isFolder : Bool}

namespace Alike

theorem node (alike : s.Alike V t) (p : Nat) : t.node p = s.node p := by
  simp only [Server.node, alike.nodes]

theorem lookup (alike : s.Alike V t) (v : Nat) (key : String) :
    t.lookup v key = s.lookup v key := by
  simp only [Server.lookup, alike.registry]

theorem atKey (alike : s.Alike V t) (asked : V v) (known : v < s.systems.size) (raw : String)
    (isFolder : Bool) :
    s.disk.Agree t.disk
      (Utf8.ofText (Key.below (s.system v).root (Key.normalize raw isFolder))) :=
  alike.disk v asked known _ (.key raw isFolder)

theorem makeNode (alike : s.Alike V t) (asked : V v) (known : v < s.systems.size)
    (shape : ∃ raw, key = Key.normalize raw isFolder) :
    t.makeNode v key isFolder = s.makeNode v key isFolder := by
  obtain ⟨raw, rfl⟩ := shape
  simp only [Server.makeNode, alike.root, Disk.exists?, (alike.atKey asked known raw isFolder).stat]

/-- The place of a path is within the root of its file system. -/
theorem atNode (alike : s.Alike V t) (sound : s.Sound) (asked : V (s.node p).system)
    (known : p < s.nodes.size) : s.disk.Agree t.disk (Utf8.ofText (s.node p).diskPath) := by
  have made := sound.made p known
  obtain ⟨raw, shape⟩ := made.key
  rw [made.diskPath, shape]
  exact alike.atKey asked made.system raw _

/-- One file system may change in both servers, as long as its root stays. -/
theorem setSystem (alike : s.Alike V t) {f g : FileSystem} (old : f.root = (s.system v).root)
    (root : g.root = f.root) (registry : g.registry = f.registry) (owners : g.owners = f.owners) :
    (s.setSystem v f).Alike V (t.setSystem v g) where
  nodes := alike.nodes
  size := by simpa using alike.size
  root w := by
    simp only [system_setSystem, alike.size]
    split
    · exact root
    · exact alike.root w
  registry w := by
    simp only [system_setSystem, alike.size]
    split
    · exact registry
    · exact alike.registry w
  owners w := by
    simp only [system_setSystem, alike.size]
    split
    · exact owners
    · exact alike.owners w
  disk w asked known path within := by
    have same : ((s.setSystem v f).system w).root = (s.system w).root := by
      rw [system_setSystem]
      split
      · rename_i this
        rw [old, this.1]
      · rfl
    rw [same] at within
    exact alike.disk w asked (by simpa using known) path within

/-- Every effect on paths keeps two servers alike. -/
theorem apply (alike : s.Alike V t) {e : Effect} (kind : e.Places) (stays : e.Stays V)
    (lawful : e.Lawful s) : (e.apply s).Alike V (e.apply t) := by
  cases e with
  | note ev => exact { alike with }
  | keep q l =>
    refine { alike with nodes := ?_ }
    simp only [Effect.apply, setNode, alike.node, alike.nodes]
  | forget w k =>
    exact alike.setSystem rfl (alike.root w) (by simp only [alike.registry]) (alike.owners w)
  | register w k folder =>
    obtain ⟨known, _, shape⟩ := lawful
    have nodes : t.nodes.push (t.makeNode w k folder) = s.nodes.push (s.makeNode w k folder) := by
      rw [alike.makeNode stays known shape, alike.nodes]
    -- The new path stands in both tables before the registries change.
    have pushed : Alike V { s with nodes := s.nodes.push (s.makeNode w k folder) }
        { t with nodes := t.nodes.push (t.makeNode w k folder) } := { alike with nodes }
    refine pushed.setSystem rfl (alike.root w) ?_ (alike.owners w)
    simp only [alike.registry, alike.nodes]
  | _ => cases kind

end Alike

theorem passes_match {R : Server → Server → Prop} (r : R s t) {tests : List Test}
    (alike : ∀ test ∈ tests, ∀ p s t, R s t → Match R (test p s) (test p t)) (p : Nat) :
    Match R (Server.passes tests p s) (Server.passes tests p t) := by
  induction tests generalizing s t with
  | nil => exact ⟨rfl, r⟩
  | cons test tests ih =>
    obtain ⟨same, r'⟩ := alike test List.mem_cons_self p s t r
    have rest := ih r' fun test mem => alike test (List.mem_cons_of_mem _ mem)
    simp only [Server.passes]
    rcases first : test p s with ⟨answer, s'⟩
    rcases second : test p t with ⟨answer', t'⟩
    rw [first, second] at same r' rest
    obtain rfl : answer' = answer := same
    cases answer' with
    | true => exact rest
    | false => exact ⟨rfl, r'⟩

theorem sift_match {R : Server → Server → Prop} (r : R s t) {tests : List Test}
    (alike : ∀ test ∈ tests, ∀ p s t, R s t → Match R (test p s) (test p t)) (l : List Nat) :
    Match R (Server.sift tests l s) (Server.sift tests l t) := by
  induction l generalizing s t with
  | nil => exact ⟨rfl, r⟩
  | cons p l ih =>
    obtain ⟨same, r'⟩ := passes_match r alike p
    obtain ⟨same', r''⟩ := ih r'
    refine ⟨?_, r''⟩
    simp only [Server.sift, same, same']

/-! ## Relations that effects on paths keep -/

/-- The servers that `R` relates are alike, and stay related when an effect on paths happens in
both, as far as the file systems of `V` are asked. -/
structure Lockstep (V : Nat → Prop) (R : Server → Server → Prop) : Prop where
  alike : ∀ s t, R s t → s.Alike V t
  sound : ∀ s t, R s t → s.Sound
  apply : ∀ s t (e : Effect), R s t → e.Places → e.Stays V → e.Lawful s →
    R (e.apply s) (e.apply t)

/-- A path of one of the file systems of `V`. -/
def Belongs (s : Server) (V : Nat → Prop) (p : Nat) : Prop :=
  p < s.nodes.size ∧ V (s.node p).system

theorem Belongs.goes {P : Effect → Prop} (belongs : s.Belongs V p) (goes : Goes P s t) :
    t.Belongs V p := by
  refine ⟨Nat.lt_of_lt_of_le belongs.1 goes.size_nodes, ?_⟩
  rw [(goes.became belongs.1).system]
  exact belongs.2

/-- The paths in a folder belong to its file system. -/
theorem Belongs.children (belongs : s.Belongs V p) (sound : s.Sound) (folders : Bool) :
    ∀ q ∈ (s.children p folders).1, (s.children p folders).2.Belongs V q := by
  intro q mem
  have goes := children_goes s p folders
  have same := (sound.goes goes).listed p _ q (listing_node belongs.1) (List.mem_filter.mp mem).1
  refine ⟨same.1, ?_⟩
  rw [same.2]
  exact (belongs.goes goes).2

/-- What is pending when the folders of a folder are added belongs to the same file systems. -/
theorem Belongs.pending {pending : List Nat} (belongs : ∀ q ∈ p :: pending, s.Belongs V q)
    (sound : s.Sound) (keep : Nat → Bool) :
    ∀ q ∈ ((s.children p true).1.filter keep).reverse ++ pending,
      (s.children p true).2.Belongs V q := by
  intro q mem
  rcases List.mem_append.mp mem with new | old
  · exact (belongs p List.mem_cons_self).children sound true q
      (List.mem_filter.mp (List.mem_reverse.mp new)).1
  · exact (belongs q (List.mem_cons_of_mem _ old)).goes (children_goes s p true)

namespace Lockstep

variable {R : Server → Server → Prop} (lock : Lockstep V R)

include lock

theorem intern (r : R s t) (asked : V v) (known : v < s.systems.size)
    (shape : ∃ raw, key = Key.normalize raw isFolder) :
    Match R (s.intern v key isFolder) (t.intern v key isFolder) := by
  have alike := lock.alike s t r
  simp only [Server.intern, alike.lookup]
  split
  · exact ⟨rfl, r⟩
  · rename_i free
    have made := alike.makeNode asked known shape
    have registered :=
      lock.apply s t (.register v key isFolder) r trivial asked ⟨known, free, shape⟩
    have noted := lock.apply _ _ (.note (.registered key isFolder
      (s.makeNode v key isFolder).present)) registered rfl trivial trivial
    refine ⟨by simp only [alike.nodes], ?_⟩
    simpa only [Effect.apply, made] using noted

theorem root (r : R s t) (asked : V v) (known : v < s.systems.size) :
    Match R (s.root v) (t.root v) :=
  lock.intern r asked known ⟨"", (Key.normalize_empty true).symm⟩

theorem classify (r : R s t) (asked : V v) (known : v < s.systems.size) (raw : String) :
    t.classify v (Key.normalize raw false) = s.classify v (Key.normalize raw false) := by
  have alike := lock.alike s t r
  simp only [Server.classify, alike.root, (alike.atKey asked known raw false).stat]

theorem resolve (r : R s t) (asked : V v) (known : v < s.systems.size) (parent : Nat)
    (raw : String) : Match R (s.resolve v parent raw) (t.resolve v parent raw) := by
  have alike := lock.alike s t r
  have classified := lock.classify r asked known
  simp only [Server.resolve, alike.node, alike.lookup, classified]
  split
  · exact lock.intern r asked known ⟨_, rfl⟩
  · split
    · exact lock.root r asked known
    · split
      · exact ⟨rfl, r⟩
      · split
        · exact ⟨rfl, r⟩
        · split <;> exact lock.intern r asked known ⟨_, rfl⟩

theorem get (r : R s t) (asked : V v) (known : v < s.systems.size) (raw : String) :
    Match R (s.get v raw) (t.get v raw) := by
  obtain ⟨same, r'⟩ := lock.root r asked known
  have known' := Nat.lt_of_lt_of_le known (root_goes known).size_systems
  simp only [Server.get, same]
  exact lock.resolve r' asked known' _ raw

/-! ### Listing -/

/-- What a folder holds is within the root of its file system. -/
theorem atEntry (r : R s t) {n : PathNode} (asked : V n.system) (made : s.Made n)
    (folder : n.isFolder = true) {names : List Name}
    (listed : s.disk.list (Utf8.ofText n.diskPath) = .ok names) {name : Name}
    (mem : name ∈ names) :
    s.disk.Agree t.disk (Disk.entryPath (Utf8.ofText n.diskPath) name) := by
  obtain ⟨raw, shape⟩ := made.key
  have place : n.diskPath = Key.below (s.system n.system).root (Key.normalize raw true) := by
    rw [made.diskPath, shape, folder]
  rw [place] at listed ⊢
  exact (lock.alike s t r).disk n.system asked made.system _ (.entry listed mem)

theorem enlistEntry (r : R s t) {n : PathNode} (asked : V n.system) (made : s.Made n)
    (folder : n.isFolder = true) {names : List Name}
    (listed : s.disk.list (Utf8.ofText n.diskPath) = .ok names) {name : Name}
    (mem : name ∈ names) (l : List (String × Nat)) :
    Match R (Server.enlistEntry n (l, s) name) (Server.enlistEntry n (l, t) name) := by
  have sees := lock.atEntry r asked made folder listed mem
  have isFolder : t.disk.isFolder (Disk.entryPath (Utf8.ofText n.diskPath) name) =
      s.disk.isFolder (Disk.entryPath (Utf8.ofText n.diskPath) name) := by
    simp only [Disk.isFolder, sees.stat]
  simp only [Server.enlistEntry, isFolder]
  obtain ⟨same, r'⟩ := lock.intern r asked made.system ⟨_, rfl⟩
  rw [same]
  exact ⟨by rw [(lock.alike _ _ r').node], r'⟩

theorem enlistEntries (r : R s t) {n : PathNode} (asked : V n.system) (made : s.Made n)
    (folder : n.isFolder = true) {names : List Name}
    (listed : s.disk.list (Utf8.ofText n.diskPath) = .ok names)
    {some' : List Name} (mem : ∀ name ∈ some', name ∈ names) (l : List (String × Nat)) :
    Match R (some'.foldl (Server.enlistEntry n) (l, s))
      (some'.foldl (Server.enlistEntry n) (l, t)) := by
  induction some' generalizing s t l with
  | nil => exact ⟨rfl, r⟩
  | cons name rest ih =>
    have here := mem name List.mem_cons_self
    obtain ⟨same, r'⟩ := lock.enlistEntry r asked made folder listed here l
    have goes : Goes Effect.Resolves s (Server.enlistEntry n (l, s) name).2 :=
      intern_goes made.system ⟨_, rfl⟩
    have disk := (goes.mono Effect.Resolves.looks).disk_kept
    have made' := made.goes goes
    have rest' := ih r' made' (by rw [disk]; exact listed)
      (fun name mem' => mem name (List.mem_cons_of_mem _ mem')) (Server.enlistEntry n (l, s) name).1
    rw [List.foldl_cons, List.foldl_cons]
    rw [show Server.enlistEntry n (l, t) name =
      ((Server.enlistEntry n (l, s) name).1, (Server.enlistEntry n (l, t) name).2) from
        Prod.ext same rfl]
    exact rest'

theorem makeListing (r : R s t) {p : Nat} (asked : V (s.node p).system) :
    Match R (s.makeListing (s.node p)) (t.makeListing (s.node p)) := by
  have alike := lock.alike s t r
  have sound := lock.sound s t r
  simp only [Server.makeListing, alike.owners]
  split
  · exact ⟨rfl, r⟩
  · rename_i listable
    have folder : (s.node p).isFolder = true := by
      simp only [Bool.or_eq_true, Bool.not_eq_true', not_or, Bool.not_eq_false] at listable
      exact listable.1.1
    have known : p < s.nodes.size := s.known_of_isFolder folder
    have list := (alike.atNode sound asked known).list
    simp only [list]
    split
    · rename_i e failed
      exact ⟨rfl, lock.apply s t (.note (.listingFailed (s.node p).key e)) r rfl trivial trivial⟩
    · rename_i names listed
      obtain ⟨same, r'⟩ :=
        lock.enlistEntries r asked (sound.made p known) folder listed (fun _ mem => mem) []
      rw [same]
      exact ⟨rfl, lock.apply _ _ (.note (.listed _ _)) r' rfl trivial trivial⟩

theorem listing (r : R s t) {p : Nat} (asked : V (s.node p).system) :
    Match R (s.listing p) (t.listing p) := by
  have alike := lock.alike s t r
  simp only [Server.listing, alike.node]
  split
  · exact ⟨rfl, r⟩
  · rename_i new
    obtain ⟨same, r'⟩ := lock.makeListing r asked
    obtain ⟨_, all⟩ := makeListing_goes s (s.node p)
    have stays := node_makeListing s p
    have kept := lock.apply _ _ (.keep p (s.makeListing (s.node p)).1) r' trivial trivial
      ⟨by rw [stays]; exact new, by rw [stays]; exact all⟩
    refine ⟨same, ?_⟩
    simpa only [Effect.apply, same, (lock.alike _ _ r').node, stays, alike.node] using kept

theorem children (r : R s t) {p : Nat} (asked : V (s.node p).system) (folders : Bool) :
    Match R (s.children p folders) (t.children p folders) := by
  obtain ⟨same, r'⟩ := lock.listing r asked
  refine ⟨?_, r'⟩
  simp only [Server.children, same, (lock.alike _ _ r').node]

theorem resolveWith (r : R s t) (asked : V v) (known : v < s.systems.size) {parent : Nat}
    (asked' : V (s.node parent).system) (name : String) (exts : ExtensionSet) :
    Match R (s.resolveWith v parent name exts) (t.resolveWith v parent name exts) := by
  obtain ⟨same, r'⟩ := lock.children r asked' true
  have known' := Nat.lt_of_lt_of_le known (children_goes s parent true).size_systems
  have find : (t.children parent true).2.findChild = (s.children parent true).2.findChild := by
    funext l name ext
    simp only [findChild, (lock.alike _ _ r').node]
  simp only [Server.resolveWith, same, find]
  split
  · exact ⟨rfl, r'⟩
  · split <;> exact lock.resolve r' asked known' parent _

theorem collect (r : R s t) (bound : Nat) {pending : List Nat}
    (belong : ∀ p ∈ pending, s.Belongs V p) (files : List Nat) :
    Option.Rel (Match R) (Server.collect bound s pending files)
      (Server.collect bound t pending files) := by
  fun_induction Server.collect bound s pending files generalizing t with
  | case1 s => simpa only [Server.collect] using .some ⟨rfl, r⟩
  | case2 => exact .none
  | case3 _ s folder _ _ _ _ listed =>
    rename_i ih
    obtain ⟨same, r'⟩ := lock.children r (belong folder List.mem_cons_self).2 true
    have belong' := Belongs.pending belong (lock.sound s t r)
    rw [listed] at same r' belong'
    have node := (lock.alike _ _ r').node
    simp only [Server.collect, same, node]
    exact ih r' (belong' _)

/-- Children are told apart alike, if content caches are asked alike. -/
theorem matching (r : R s t)
    (cached : ∀ p s t, R s t → Match R (s.isCached p) (t.isCached p)) {p : Nat}
    (asked : V (s.node p).system) (questions : List Question) :
    Match R (s.childrenPassing p (questions.map Question.test))
      (t.childrenPassing p (questions.map Question.test)) := by
  obtain ⟨same, r'⟩ := lock.listing r asked
  simp only [Server.childrenPassing, same]
  refine sift_match r' ?_ _
  intro test mem p s t r
  obtain ⟨q, _, rfl⟩ := List.mem_map.mp mem
  cases q with
  | of f => exact ⟨by simp only [Question.test, (lock.alike s t r).node], r⟩
  | cached => exact cached p s t r

/-! ### Whole calls -/

theorem invalidate (r : R s t) (v p : Nat) : Match R (s.invalidate v p) (t.invalidate v p) := by
  have alike := lock.alike s t r
  simp only [Server.invalidate, alike.node, alike.lookup]
  split
  · exact ⟨rfl, lock.apply s t (.forget v (s.node p).key) r trivial trivial trivial⟩
  · exact ⟨rfl, r⟩

end Lockstep

end Server

/-- The calls that resolve, list and forget paths. -/
def Call.places : Call → Bool
  | root _ | get .. | resolve .. | resolveWith .. | children .. | invalidate .. => true
  | _ => false

/-- The file systems whose root directory a call may look into. -/
def Call.Asks (s : Server) : Call → Nat → Prop
  | root w, v | get w _, v | resolve w _ _, v => v = w
  | resolveWith w p _ _, v => v = w ∨ v = (s.node p).system
  | children p _, v | matching p _, v | length p, v | readBytes p, v | readText p, v
  | respond p _, v | warm _ p, v => v = (s.node p).system
  | _, _ => False

namespace Server

variable {V : Nat → Prop} {R : Server → Server → Prop} {s t : Server}

/-- Calls that resolve, list and forget paths are answered alike. -/
theorem Lockstep.perform [MediaTypes] (lock : Lockstep V R) (r : R s t) {c : Call}
    (kind : c.places = true)
    (asks : ∀ v, c.Asks s v → V v) : Option.Rel (Match R) (s.perform c) (t.perform c) := by
  have alike := lock.alike s t r
  have knows : t.knows c = s.knows c := by
    cases c with
    | root | get | resolve | resolveWith | children | invalidate =>
      simp only [Server.knows, alike.nodes, alike.size]
    | _ => cases kind
  simp only [Server.perform, knows]
  split
  · rename_i known
    cases c with
    | root v =>
      obtain ⟨same, r'⟩ := lock.root r (asks v rfl) (by simpa [Server.knows] using known)
      exact .some ⟨congrArg Answer.path same, r'⟩
    | get v raw =>
      obtain ⟨same, r'⟩ := lock.get r (asks v rfl) (by simpa [Server.knows] using known) raw
      exact .some ⟨congrArg Answer.path same, r'⟩
    | resolve v parent raw =>
      simp only [Server.knows, Bool.and_eq_true, decide_eq_true_eq] at known
      obtain ⟨same, r'⟩ := lock.resolve r (asks v rfl) known.1 parent raw
      exact .some ⟨congrArg Answer.path same, r'⟩
    | resolveWith v p name exts =>
      simp only [Server.knows, Bool.and_eq_true, decide_eq_true_eq] at known
      obtain ⟨same, r'⟩ := lock.resolveWith r (asks v (.inl rfl)) known.1
        (asks _ (.inr rfl)) name exts
      exact .some ⟨congrArg Answer.path same, r'⟩
    | children p folders =>
      obtain ⟨same, r'⟩ := lock.children r (asks _ rfl) folders
      exact .some ⟨congrArg Answer.paths same, r'⟩
    | invalidate v p =>
      obtain ⟨same, r'⟩ := lock.invalidate r v p
      exact .some ⟨congrArg Answer.flag same, r'⟩
    | _ => cases kind
  · exact .none

end Server

end Docroot
