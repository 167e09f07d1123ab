import Docroot.Proofs.Names
import Docroot.Proofs.Resolution

/-!
Warm-ups end.

A walk over the folders below a path keeps no list of those it has seen. It ends because every
folder in a listing lies deeper than the folder that is listed, and what lies deeper than the
longest path that the system takes holds nothing. This needs the names on disk to lead down: a
folder whose name is read as a way back up is found below itself again, and the walk goes on
forever.
-/

namespace Docroot

/-- Below a root directory, whatever is in a folder has a key of its own: that of a folder lies
deeper than the key of the folder around, and that of anything else is not the key of the root. -/
structure Disk.Descends (d : Disk) (root : String) : Prop where
  folder : ∀ raw names name,
    d.list (Utf8.ofText (Key.below root (Key.normalize raw true))) = .ok names → name ∈ names →
    d.isFolder (entryPath (Utf8.ofText (Key.below root (Key.normalize raw true))) name) = true →
    Key.depth (Key.normalize raw true) < Key.depth (Key.normalize
      (Key.join (Key.normalize raw true) (String.ofList (Utf8.repair name))) true)
  other : ∀ raw names name,
    d.list (Utf8.ofText (Key.below root (Key.normalize raw true))) = .ok names → name ∈ names →
    d.isFolder (entryPath (Utf8.ofText (Key.below root (Key.normalize raw true))) name) = false →
    Key.normalize (Key.join (Key.normalize raw true) (String.ofList (Utf8.repair name))) false ≠ ""

namespace Disk

/-- The paths that can be listed are of limited length. -/
theorem length_of_list {d : Disk} {path : Utf8.Bytes} {names : List Name}
    (listed : d.list path = .ok names) : path.length < pathMax := by
  obtain ⟨place, found, _⟩ := find_of_list listed
  obtain ⟨_, vetted, _⟩ := bind_ok found
  exact (vet_iff.mp vetted).2.1

/-- A name on a disk with one entry more is the name of this entry, or was there before. -/
theorem names_put {d : Disk} {e : Entry} {name n : Name} {around l : Location}
    (mem : n ∈ (d.put e (some (name :: around))).namesIn l) : n = name ∨ n ∈ d.namesIn l := by
  obtain ⟨at', there, found⟩ := List.mem_filterMap.mp mem
  rcases Table.mem_keys_store.mp there with rfl | old
  · simp only [Option.ite_none_right_eq_some, Option.some.injEq] at found
    exact .inl found.2.symm
  · exact .inr (List.mem_filterMap.mpr ⟨at', old, found⟩)

/-- Plain names lead down, one segment at a time. -/
theorem descends_of_plain {d : Disk} (plain : ∀ l n, n ∈ d.namesIn l → Plain n) (root : String) :
    d.Descends root := by
  have longer (raw : String) (isFolder : Bool) {names : List Name} {name : Name}
      {path : Utf8.Bytes} (listed : d.list path = .ok names) (mem : name ∈ names) :
      Key.segments (Key.normalize (Key.join (Key.normalize raw true)
        (String.ofList (Utf8.repair name))) isFolder).toList =
      Key.segments raw.toList ++ [Utf8.repair name] := by
    obtain ⟨l, there⟩ := mem_of_list listed mem
    rw [Key.segments_normalize, Key.segments_join raw (plain l name there).clean]
  constructor
  · intro raw names name listed mem _
    rw [Key.depth, Key.depth, longer raw true listed mem, Key.segments_normalize,
      List.length_append]
    exact Nat.lt_succ_self _
  · intro raw names name listed mem _ root
    have none := longer raw false listed mem
    rw [root, Key.segments_empty] at none
    exact List.append_ne_nil_of_right_ne_nil _ (List.cons_ne_nil _ _) none.symm

end Disk

namespace Server

variable {s t : Server} {v limit p q : Nat}

/-! ## Listings lead down -/

/-- A path is not too deep, and another is deeper if it is a folder. -/
structure Deeper (s : Server) (limit p q : Nat) : Prop where
  shallow : Key.depth (s.node p).key < limit
  deeper : (s.node q).isFolder = true → Key.depth (s.node p).key < Key.depth (s.node q).key

/-- Every folder in a listing of the file system `v` lies deeper than the folder that was listed. -/
def Sinks (s : Server) (v limit : Nat) : Prop :=
  ∀ p l q, (s.node p).system = v → (s.node p).listing = some l → q ∈ l → s.Deeper limit p q

/-- What is too deep cannot be listed. -/
theorem Made.shallow {n : PathNode} (made : s.Made n) {names : List Name}
    (listed : s.disk.list (Utf8.ofText n.diskPath) = .ok names) :
    Key.depth n.key < Disk.pathMax := by
  rw [made.diskPath] at listed
  calc Key.depth n.key
    _ ≤ n.key.toList.length := Key.depth_le_length _
    _ ≤ (Key.below (s.system n.system).root n.key).toList.length := Key.length_le_below _ _
    _ ≤ (Utf8.ofText (Key.below (s.system n.system).root n.key)).length := Utf8.length_le_ofText _
    _ < Disk.pathMax := Disk.length_of_list listed

/-- A folder that stands for an entry of a folder lies deeper. -/
theorem Sound.lists_deeper (sound : s.Sound) (known : p < s.nodes.size)
    (descends : s.disk.Descends (s.system (s.node p).system).root)
    (lists : Effect.Lists s (s.node p) q) : s.Deeper Disk.pathMax p q := by
  obtain ⟨folder, names, listed, name, mem, there⟩ := lists
  have made := sound.made p known
  obtain ⟨known', _, key⟩ := sound.registered _ _ _ there
  obtain ⟨raw, shape⟩ := made.key
  refine ⟨made.shallow listed, ?_⟩
  intro isFolder
  rw [folder] at shape
  rw [made.diskPath, shape] at listed
  cases onDisk : s.disk.isFolder (Disk.entryPath (Utf8.ofText (s.node p).diskPath) name) with
  | true =>
    have down := descends.folder raw names name listed mem
    rw [← shape, ← made.diskPath] at down
    rw [key, onDisk]
    exact down onDisk
  | false =>
    have apart := descends.other raw names name listed mem
    rw [← shape, ← made.diskPath] at apart
    -- A folder that stands for anything else would have the key of a file, as the root alone has.
    rw [onDisk] at key
    obtain ⟨raw', shape'⟩ := (sound.made q known').key
    rw [isFolder, key] at shape'
    exact absurd shape'.symm (Key.normalize_ne (shape' ▸ apart onDisk))

theorem Deeper.apply (down : s.Deeper limit p q) {e : Effect} (lawful : e.Lawful s)
    (known : p < s.nodes.size) (known' : q < s.nodes.size) : (e.apply s).Deeper limit p q := by
  have became := Effect.node_became lawful known
  have became' := Effect.node_became lawful known'
  constructor
  · rw [became.key]
    exact down.shallow
  · rw [became.key, became'.key, became'.isFolder]
    exact down.deeper

theorem Sinks.apply (sinks : s.Sinks v Disk.pathMax) (sound : s.Sound) {e : Effect}
    (lawful : e.Lawful s)
    (descends : ∀ p l, e = .keep p l → (s.node p).system = v → p < s.nodes.size →
      s.disk.Descends (s.system v).root) : (e.apply s).Sinks v Disk.pathMax := by
  intro p l q system listed mem
  have old (before : (s.node p).listing = some l) : (e.apply s).Deeper Disk.pathMax p q := by
    have known := s.known_of_listing before
    rw [(Effect.node_became lawful known).system] at system
    exact (sinks p l q system before mem).apply lawful known (sound.listed p l q before mem).1
  by_cases kind : ∀ p l, e ≠ .keep p l
  · exact old (listed_before kind listed).2
  · obtain ⟨r, l', rfl⟩ : ∃ r l', e = .keep r l' := by
      simpa using kind
    rcases node_keep (s := s) r l' p with ⟨rfl, known, now⟩ | same
    · rw [now] at system listed
      cases system
      cases listed
      obtain ⟨_, _, _, _, _, there⟩ := lawful.2 q mem
      exact (sound.lists_deeper known (descends r l rfl rfl known) (lawful.2 q mem)).apply lawful
        known (sound.registered _ _ _ there).1
    · rw [same] at listed
      exact old listed

/-- Listings are kept by calls that only look. -/
theorem may_keep {c : Call} {l : List Nat} (kind : c.may (.keep p l)) (e : Effect)
    (kind' : c.may e) : e.Looks := by
  cases c <;> first | exact kind' | simp [Call.may, Effect.Creates] at kind

theorem Sinks.goes {P : Effect → Prop} (sinks : s.Sinks v Disk.pathMax) (sound : s.Sound)
    (h : Goes P s t)
    (looks : ∀ p l, P (.keep p l) → ∀ e, P e → e.Looks)
    (descends : v < s.systems.size → s.disk.Descends (s.system v).root) :
    t.Sinks v Disk.pathMax := by
  induction h with
  | stay => exact sinks
  | @step u e before kind lawful ih =>
    have soundThen := sound.goes before
    refine ih.apply soundThen lawful ?_
    rintro p l rfl system known
    have before := before.mono (looks p l kind)
    have there : v < s.systems.size := by
      rw [← before.systems_looks, ← system]
      exact (soundThen.made p known).system
    rw [before.disk_kept, (before.system_kept there).1]
    exact descends there

theorem Sinks.start (d : Tree) (v : Nat) : (start d).Sinks v limit := by
  intro p l q _ listed
  rw [node_beyond _ (Nat.zero_le p)] at listed
  cases listed

theorem Sinks.run [MediaTypes] {calls : List Call} (sinks : s.Sinks v Disk.pathMax)
    (sound : s.Sound) (ran : s.run calls = some t)
    (descends : ∀ before after u, calls = before ++ after → s.run before = some u →
      v < u.systems.size → u.disk.Descends (t.system v).root) :
    t.Sinks v Disk.pathMax := by
  induction calls generalizing s with
  | nil =>
    cases ran
    exact sinks
  | cons c rest ih =>
    obtain ⟨a, u, first, ran⟩ := run_cons ran
    have goes := perform_goes first
    have root (there : v < s.systems.size) : (t.system v).root = (s.system v).root :=
      ((goes.mono fun _ _ => trivial).trans (run_goes_any ran)).system_kept there |>.1
    have sinksThen : u.Sinks v Disk.pathMax := by
      refine sinks.goes sound goes (fun p l kind => may_keep kind) ?_
      intro there
      rw [← root there]
      exact descends [] (c :: rest) s rfl rfl there
    refine ih sinksThen (sound.goes goes) ran ?_
    intro before after w split led there
    have led : s.run (c :: before) = some w := (run_cons_of first).trans led
    exact descends (c :: before) after w (by rw [split]; rfl) led there

/-! ## Walks end -/

/-- Walking through some folders ends: the walk goes on with what is pending behind them. -/
def Finishes (s : Server) (ps : List Nat) : Prop :=
  ∃ (steps : Nat) (s' : Server) (found : List Nat), Goes Effect.Looks s s' ∧
    ∀ bound pending files,
      collect (steps + bound) s (ps ++ pending) files = collect bound s' pending (files ++ found)

theorem Finishes.nil (s : Server) : s.Finishes [] :=
  ⟨0, s, [], .stay, fun bound pending files => by
    rw [Nat.zero_add, List.nil_append, List.append_nil]⟩

theorem Finishes.cons {ps : List Nat} (first : s.Finishes [p])
    (rest : ∀ t, Goes Effect.Looks s t → t.Finishes ps) : s.Finishes (p :: ps) := by
  obtain ⟨steps, t, found, goes, walked⟩ := first
  obtain ⟨steps', t', found', goes', walked'⟩ := rest t goes
  refine ⟨steps + steps', t', found ++ found', goes.trans goes', ?_⟩
  intro bound pending files
  calc collect (steps + steps' + bound) s (p :: ps ++ pending) files
    _ = collect (steps + (steps' + bound)) s ([p] ++ (ps ++ pending)) files := by
      rw [Nat.add_assoc]
      rfl
    _ = collect (steps' + bound) t (ps ++ pending) (files ++ found) := walked _ _ _
    _ = collect bound t' pending (files ++ found ++ found') := walked' _ _ _
    _ = collect bound t' pending (files ++ (found ++ found')) := by rw [List.append_assoc]

/-- The folders of a folder are walked through in its place. -/
theorem Finishes.folder
    (inside : (s.listing p).2.Finishes
      ((s.children p true).1.filter fun c => ((s.listing p).2.node c).isFolder).reverse) :
    s.Finishes [p] := by
  obtain ⟨steps, t, found, goes, walked⟩ := inside
  have first := listing_goes s p
  let others := (s.children p true).1.filter fun c => !((s.listing p).2.node c).isFolder
  refine ⟨steps + 1, t, others ++ found, first.trans goes, ?_⟩
  intro bound pending files
  calc collect (steps + 1 + bound) s ([p] ++ pending) files
    _ = collect (steps + bound + 1) s (p :: pending) files := by
      rw [Nat.add_right_comm]
      rfl
    _ = collect bound t pending (files ++ others ++ found) := walked _ _ _
    _ = collect bound t pending (files ++ (others ++ found)) := by rw [List.append_assoc]

/-- What is needed for a walk through the paths of a file system. -/
structure Walkable (s : Server) (v : Nat) : Prop where
  sound : s.Sound
  sinks : s.Sinks v Disk.pathMax
  descends : s.disk.Descends (s.system v).root

theorem Walkable.goes (walkable : s.Walkable v) (there : v < s.systems.size)
    (h : Goes Effect.Looks s t) : t.Walkable v where
  sound := walkable.sound.goes h
  sinks := walkable.sinks.goes walkable.sound h (fun _ _ _ _ => id) fun _ => walkable.descends
  descends := by
    rw [h.disk_kept, (h.system_kept there).1]
    exact walkable.descends

/-- Folders are walked through if each that lies as deep is. -/
theorem finishes_all {room : Nat} (each : ∀ (t : Server) (q : Nat), t.Walkable v →
      q < t.nodes.size → (t.node q).system = v → Disk.pathMax - Key.depth (t.node q).key < room →
      t.Finishes [q]) {ps : List Nat} (walkable : s.Walkable v)
    (below : ∀ q ∈ ps, q < s.nodes.size ∧ (s.node q).system = v ∧
      Disk.pathMax - Key.depth (s.node q).key < room) : s.Finishes ps := by
  induction ps generalizing s with
  | nil => exact .nil s
  | cons p ps ih =>
    obtain ⟨known, system, deep⟩ := below p List.mem_cons_self
    have there : v < s.systems.size := system ▸ (walkable.sound.made p known).system
    refine .cons (each s p walkable known system deep) ?_
    intro t goes
    refine ih (walkable.goes there goes) ?_
    intro q mem
    obtain ⟨known, system, deep⟩ := below q (List.mem_cons_of_mem _ mem)
    have became := goes.became known
    rw [became.system, became.key]
    exact ⟨Nat.lt_of_lt_of_le known goes.size_nodes, system, deep⟩

/-- The walk through a folder ends, since all folders in it lie deeper. -/
theorem finishes_folder {room : Nat} (walkable : s.Walkable v) (known : p < s.nodes.size)
    (system : (s.node p).system = v) (deep : Disk.pathMax - Key.depth (s.node p).key < room) :
    s.Finishes [p] := by
  induction room generalizing s p with
  | zero => exact absurd deep (Nat.not_lt_zero _)
  | succ room ih =>
    have goes := listing_goes s p
    have there : v < s.systems.size := system ▸ (walkable.sound.made p known).system
    have walkableThen := walkable.goes there goes
    have became := goes.became known
    refine .folder (finishes_all (fun t q walkable known system => ih walkable known system)
      walkableThen ?_)
    intro q mem
    simp only [children, List.mem_reverse, List.mem_filter, Bool.true_or] at mem
    obtain ⟨⟨mem, _⟩, folder⟩ := mem
    have listed := listing_node known
    obtain ⟨known', same⟩ := walkableThen.sound.listed p _ q listed mem
    obtain ⟨shallow, deeper⟩ :=
      walkableThen.sinks p _ q (became.system.trans system) listed mem
    have deeper := deeper folder
    rw [became.key] at shallow deeper
    exact ⟨known', same.trans (became.system.trans system), by omega⟩

/-- **Warm-ups end.** Take any run of calls over disks on which, below the root directory of a file
system, listings lead down whenever the file system is there. Then a warm-up of any path of the file
system ends: from some bound on its answer is the same, whatever the bound. -/
theorem warm_ends [MediaTypes] {d : Tree} {calls : List Call} (ran : (start d).run calls = some s)
    {dir : Nat} (known : dir < s.nodes.size)
    (descends : ∀ before after t, calls = before ++ after → (start d).run before = some t →
      (s.node dir).system < t.systems.size →
      t.disk.Descends (s.system (s.node dir).system).root) :
    ∃ bound n s', ∀ more, s.perform (.warm (bound + more) dir) = some (.count n, s') := by
  have sound : s.Sound := (start_sound d).goes (run_goes_any ran)
  have there := (sound.made dir known).system
  have walkable : s.Walkable (s.node dir).system :=
    ⟨sound, (Sinks.start d _).run (start_sound d) ran descends,
      descends calls [] s (by simp) ran there⟩
  obtain ⟨steps, t, found, _, walked⟩ :=
    finishes_folder walkable known rfl (Nat.lt_succ_self _)
  have collected (more : Nat) : collect (steps + more) s [dir] [] = some (found, t) := by
    have ended := walked more [] []
    rw [List.append_nil, List.nil_append] at ended
    rw [ended, collect]
  refine ⟨steps, (t.load found).1, (t.load found).2.report (.warmed
    ((t.load found).2.node dir).key found.length (t.load found).1), ?_⟩
  intro more
  simp only [perform, knows, known, decide_true, if_true, carryOut, warm, collected]
  rfl

theorem names_single {e : Entry} {name n : Name} {l : Location}
    (mem : n ∈ (Tree.bare.1.put e (some [name])).namesIn l) : n = name := by
  rcases Disk.names_put mem with same | none
  · exact same
  · cases none

attribute [local instance] MediaTypes.familiar

/-- A folder named `a` is walked through. -/
theorem warm_hollow : ∃ s bound n s',
    (start (.hollow [97])).run [.mount "/" none {}, .root 0] = some s ∧ 0 < s.nodes.size ∧
    (∀ before after t, [.mount "/" none {}, .root 0] = before ++ after →
      (start (.hollow [97])).run before = some t → (s.node 0).system < t.systems.size →
      t.disk.Descends (s.system (s.node 0).system).root) ∧
    ∀ more, s.perform (.warm (bound + more) 0) = some (.count n, s') := by
  obtain ⟨s, ran, known⟩ : ∃ s,
      (start (.hollow [97])).run [.mount "/" none {}, .root 0] = some s ∧ 0 < s.nodes.size :=
    ⟨_, rfl, Nat.zero_lt_one⟩
  have descends (before after : List Call) (t : Server)
      (split : [.mount "/" none {}, .root 0] = before ++ after)
      (led : (start (.hollow [97])).run before = some t)
      (_ : (s.node 0).system < t.systems.size) :
      t.disk.Descends (s.system (s.node 0).system).root := by
    have leaves : ∀ c ∈ before, ∀ e, c.may e → e.LeavesDisk := by
      intro c mem e kind
      have mem : c ∈ [.mount "/" none {}, .root 0] := split ▸ List.mem_append_left _ mem
      refine Call.leavesDisk_may ?_ kind
      simp only [List.mem_cons, List.not_mem_nil, or_false] at mem
      rcases mem with rfl | rfl <;> rfl
    rw [(run_goes led leaves).disk_still]
    refine Disk.descends_of_plain ?_ _
    intro l n mem
    rw [names_single mem]
    exact ⟨⟨by decide, by decide, by decide, by decide⟩, by decide⟩
  obtain ⟨bound, n, s', ends⟩ := warm_ends ran known descends
  exact ⟨s, bound, n, s', ran, known, descends, ends⟩

/-! ## Walks in circles -/

/-- A walk that comes to a folder in its own listing never ends. -/
theorem collect_circle {bound : Nat} {pending files l : List Nat} (known : p < s.nodes.size)
    (folder : (s.node p).isFolder = true) (listed : (s.node p).listing = some l) (self : p ∈ l)
    (mem : p ∈ pending) : collect bound s pending files = none := by
  fun_induction collect bound s pending files with
  | case1 => cases mem
  | case2 => rfl
  | case3 bound s q pending files children t here folders others ih =>
    have goes := children_goes s q true
    rw [here] at goes
    have became := goes.became known
    refine ih (Nat.lt_of_lt_of_le known goes.size_nodes) (became.isFolder.trans folder)
      (became.listing l listed) (List.mem_append.mpr ?_)
    rcases List.mem_cons.mp mem with rfl | later
    · left
      have kept : s.listing p = (l, s) := by
        simp only [listing, listed]
      rw [Server.children, kept] at here
      cases here
      simp [folders, self, folder]
    · exact .inr later

/-- A warm-up of a folder that is found in itself has no end. -/
theorem warm_circle [MediaTypes] (known : p < s.nodes.size) (folder : (s.node p).isFolder = true)
    (self : p ∈ (s.listing p).1) (bound : Nat) : s.perform (.warm bound p) = none := by
  have goes := listing_goes s p
  have stays := (goes.became known).isFolder.trans folder
  have circles : collect bound s [p] [] = none := by
    cases bound with
    | zero => rfl
    | succ bound =>
      refine collect_circle (s := (s.listing p).2)
        (Nat.lt_of_lt_of_le known goes.size_nodes) stays (listing_node known) self
        (List.mem_append_left _ ?_)
      simp only [List.mem_reverse, List.mem_filter, Bool.true_or, and_true]
      exact ⟨self, stays⟩
  simp only [perform, knows, known, decide_true, if_true, carryOut, warm, circles]
  rfl

/-- A folder named `\` is found below the root as the root itself, and a warm-up of the root goes on
forever. -/
theorem backslash_circle : ∃ s,
    (start (.hollow [92])).run [.mount "/" none {}, .root 0] = some s ∧ 0 < s.nodes.size ∧
    (s.node 0).isFolder = true ∧ ∀ bound, s.perform (.warm bound 0) = none := by
  obtain ⟨s, ran, known, disk, owners, there, node⟩ : ∃ s,
      (start (.hollow [92])).run [.mount "/" none {}, .root 0] = some s ∧ 0 < s.nodes.size ∧
      s.disk = (Tree.hollow [92]).1 ∧ (s.system 0).owners = 1 ∧ s.lookup 0 "" = some 0 ∧
      s.node 0 = ⟨0, "", true, "/", true, none⟩ := by
    refine ⟨_, rfl, Nat.zero_lt_one, rfl, rfl, rfl, ?_⟩
    cbv
  have names : s.disk.list (Utf8.ofText "/") = .ok [[92]] := by
    rw [disk]
    cbv
  have folder : s.disk.isFolder (Disk.entryPath (Utf8.ofText "/") [92]) = true := by
    rw [disk]
    cbv
  have up : Key.normalize (Key.join "" (String.ofList (Utf8.repair [92]))) true = "" := by
    cbv
  have self : (s.listing 0).1 = [0] := by
    have entry : enlistEntry ⟨0, "", true, "/", true, none⟩ ([], s) [92] = ([("", 0)], s) := by
      simp only [enlistEntry, folder, up, intern_remembered there, node]
      rfl
    simp only [listing, node, makeListing, owners, names, List.foldl_cons, List.foldl_nil, entry]
    rfl
  exact ⟨s, ran, known, by rw [node], warm_circle known (by rw [node])
    (by rw [self]; exact List.mem_singleton_self 0)⟩

end Server

end Docroot
