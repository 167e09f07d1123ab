import Docroot.Proofs.WarmUp

/-!
What a key says about a path.

Below the root a key ends with `/` exactly if its path is a folder. The root is the one path whose
key does not say what it is: its key is empty, as a folder and as anything else. It is a folder
whenever it is asked for. But a listing takes the kind of an entry from the disk and the key from
its name, and a name that leads back up to the root gives the root's key to what may be a file. It
is registered there unless the root is registered already. `shape_tells_kind` says that nothing
else breaks the rule.
-/

namespace Docroot

/-- Somewhere below a root directory, what is in a folder and is none itself has the key of the
root. -/
def Disk.Strays (d : Disk) (root : String) : Prop :=
  ∃ raw names name,
    d.list (Utf8.ofText (Key.below root (Key.normalize raw true))) = .ok names ∧ name ∈ names ∧
    d.isFolder (entryPath (Utf8.ofText (Key.below root (Key.normalize raw true))) name) = false ∧
    Key.normalize (Key.join (Key.normalize raw true) (String.ofList (Utf8.repair name))) false = ""

namespace Key

/-- Below the root, the key of a path tells its kind. -/
theorem normalize_last {raw : String} {isFolder : Bool} (below : normalize raw isFolder ≠ "") :
    isFolder = true ↔ (normalize raw isFolder).toList.getLast? = some '/' := by
  cases isFolder with
  | true => simp [normalize_folder_last below]
  | false => simp [normalize_file_last raw]

end Key

/-- No path is registered under the key of the root of `v`, unless it is a folder. -/
def Effect.Roots (v : Nat) : Effect → Prop
  | register w key isFolder => w = v → key = "" → isFolder = true
  | _ => True

theorem Effect.Reads.roots {v : Nat} (e : Effect) (h : e.Reads) : e.Roots v := by
  cases e with
  | register => cases h
  | _ => exact trivial

/-- The calls that may list a folder. -/
def Call.lists : Call → Bool
  | resolveWith .. | children .. | matching .. | warm .. => true
  | _ => false

namespace Server

variable {s t : Server} {v w p : Nat}

/-- The root of a file system, if it is registered, is a folder. -/
def Rooted (s : Server) (v : Nat) : Prop :=
  ∀ p, s.lookup v "" = some p → (s.node p).isFolder = true

theorem Rooted.apply (rooted : s.Rooted v) (sound : s.Sound) {e : Effect} (kind : e.Roots v)
    (lawful : e.Lawful s) : (e.apply s).Rooted v := by
  intro p there
  have old (there : s.lookup v "" = some p) : ((e.apply s).node p).isFolder = true := by
    obtain ⟨known, _⟩ := sound.registered v "" p there
    rw [(Effect.node_became lawful known).isFolder]
    exact rooted p there
  rw [Effect.lookup_apply lawful] at there
  cases e with
  | register w key isFolder =>
    by_cases new : w = v ∧ key = ""
    · simp only [new, and_self, if_true, Option.some.injEq] at there
      subst there
      rw [Effect.node_register, if_pos rfl]
      exact kind new.1 new.2
    · exact old (by simpa [new] using there)
  | forget w key =>
    by_cases gone : w = v ∧ key = ""
    · simp [gone] at there
    · exact old (by simpa [gone] using there)
  | _ => exact old there

theorem Rooted.goes (rooted : s.Rooted v) (sound : s.Sound) (h : Goes (Effect.Roots v) s t) :
    t.Rooted v := by
  have both : t.Sound ∧ t.Rooted v := by
    refine h.keeps (I := fun t => t.Sound ∧ t.Rooted v) ?_ ⟨sound, rooted⟩
    rintro t e kind lawful ⟨sound, rooted⟩
    exact ⟨sound.apply lawful, rooted.apply sound kind lawful⟩
  exact both.2

/-! ## Resolving -/

theorem intern_roots (known : w < s.systems.size) {key : String} {isFolder : Bool}
    (shape : ∃ raw, key = Key.normalize raw isFolder)
    (straight : w = v → key = "" → isFolder = true) :
    Goes (Effect.Roots v) s (s.intern w key isFolder).2 := by
  simp only [intern]
  split
  · exact .stay
  · rename_i free
    exact .step (.note _) (.one (.register w key isFolder) straight ⟨known, free, shape⟩)
      trivial trivial

theorem root_roots (known : w < s.systems.size) : Goes (Effect.Roots v) s (s.root w).2 :=
  intern_roots known ⟨"", (Key.normalize_empty true).symm⟩ fun _ _ => rfl

theorem resolve_roots (known : w < s.systems.size) (parent : Nat) (raw : String) :
    Goes (Effect.Roots v) s (s.resolve w parent raw).2 := by
  rw [resolve_eq]
  split
  · exact intern_roots known ⟨_, rfl⟩ fun _ _ => rfl
  · split
    · exact root_roots known
    · rename_i below
      split
      · exact .stay
      · split
        · exact .stay
        · split
          · exact intern_roots known ⟨_, rfl⟩ fun _ _ => rfl
          · refine intern_roots known ⟨_, rfl⟩ ?_
            intro _ root
            exact absurd (String.isEmpty_iff.mpr root) below

theorem get_roots (known : w < s.systems.size) (raw : String) :
    Goes (Effect.Roots v) s (s.get w raw).2 := by
  have first : Goes (Effect.Roots v) s (s.root w).2 := root_roots known
  exact first.trans (resolve_roots (Nat.lt_of_lt_of_le known first.size_systems) _ raw)

/-! ## Listing -/

/-- Nothing strays below the root of a file system. -/
def Straight (s : Server) (v : Nat) : Prop :=
  v < s.systems.size → ¬ s.disk.Strays (s.system v).root

theorem Straight.goes (straight : s.Straight v) (h : Goes Effect.Looks s t) : t.Straight v := by
  intro known
  have known : v < s.systems.size := by
    rw [← h.systems_looks]
    exact known
  rw [h.disk_kept, (h.system_kept known).1]
  exact straight known

/-- An entry with the key of the root is a folder. -/
theorem Straight.entry (straight : s.Straight v) {n : PathNode} (made : s.Made n)
    (folder : n.isFolder = true) (same : n.system = v) {names : List Name}
    (listed : s.disk.list (Utf8.ofText n.diskPath) = .ok names) {name : Name} (mem : name ∈ names)
    (up : Key.normalize (Key.join n.key (String.ofList (Utf8.repair name)))
      (s.disk.isFolder (Disk.entryPath (Utf8.ofText n.diskPath) name)) = "") :
    s.disk.isFolder (Disk.entryPath (Utf8.ofText n.diskPath) name) = true := by
  by_contra file
  rw [Bool.not_eq_true] at file
  obtain ⟨raw, shape⟩ := made.key
  have place := made.diskPath
  rw [folder] at shape
  rw [shape] at place
  rw [file, shape] at up
  rw [place] at listed file
  have known := made.system
  rw [same] at known listed file
  exact straight known ⟨raw, names, name, listed, mem, file, up⟩

theorem enlistEntry_roots (straight : s.Straight v) {n : PathNode} (made : s.Made n)
    (folder : n.isFolder = true) {names : List Name}
    (listed : s.disk.list (Utf8.ofText n.diskPath) = .ok names) {name : Name} (mem : name ∈ names)
    (l : List (String × Nat)) : Goes (Effect.Roots v) s (enlistEntry n (l, s) name).2 :=
  intern_roots made.system ⟨_, rfl⟩ fun same up => straight.entry made folder same listed mem up

theorem enlistEntries_roots (straight : s.Straight v) {n : PathNode} (made : s.Made n)
    (folder : n.isFolder = true) {names some' : List Name}
    (listed : s.disk.list (Utf8.ofText n.diskPath) = .ok names) (sub : ∀ m ∈ some', m ∈ names)
    (l : List (String × Nat)) :
    Goes (Effect.Roots v) s (some'.foldl (enlistEntry n) (l, s)).2 := by
  induction some' generalizing s l with
  | nil => exact .stay
  | cons name rest ih =>
    have first := enlistEntry_roots straight made folder listed (sub name List.mem_cons_self) l
    have looks : Goes Effect.Looks s (enlistEntry n (l, s) name).2 :=
      (intern_goes made.system ⟨_, rfl⟩).mono Effect.Resolves.looks
    refine first.trans (ih (straight.goes looks) (made.goes looks) ?_ ?_ _)
    · rw [looks.disk_kept]
      exact listed
    · intro m later
      exact sub m (List.mem_cons_of_mem _ later)

theorem makeListing_roots (straight : s.Straight v) {n : PathNode}
    (made : n.isFolder = true → s.Made n) : Goes (Effect.Roots v) s (s.makeListing n).2 := by
  rcases makeListing_cases s n with none | ⟨e, failed⟩ | ⟨names, folder, present, alive, _, listed⟩
  · rw [none]
    exact .stay
  · rw [failed]
    exact .one (.note _) trivial trivial
  · rw [makeListing_eq folder present alive listed]
    exact .step (.note _)
      (enlistEntries_roots straight (made folder) folder listed (fun _ => id) []) trivial trivial

theorem listing_roots (straight : s.Straight v) (sound : s.Sound) (p : Nat) :
    Goes (Effect.Roots v) s (s.listing p).2 := by
  simp only [listing]
  split
  · exact .stay
  · rename_i new
    have made (folder : (s.node p).isFolder = true) : s.Made (s.node p) :=
      sound.made p (s.known_of_isFolder folder)
    have same := node_makeListing s p
    obtain ⟨_, all⟩ := makeListing_goes s (s.node p)
    exact .step (.keep p _) (makeListing_roots straight made) trivial
      ⟨by rw [same]; exact new, by rw [same]; exact all⟩

theorem resolveWith_roots (straight : s.Straight v) (sound : s.Sound) (known : w < s.systems.size)
    (parent : Nat) (name : String) (exts : ExtensionSet) :
    Goes (Effect.Roots v) s (s.resolveWith w parent name exts).2 := by
  have first : Goes (Effect.Roots v) s (s.children parent true).2 :=
    listing_roots straight sound parent
  have resolved (raw : String) :=
    resolve_roots (v := v) (Nat.lt_of_lt_of_le known first.size_systems) parent raw
  simp only [resolveWith]
  split
  · exact first
  · split <;> exact first.trans (resolved _)

theorem matching_roots (straight : s.Straight v) (sound : s.Sound) (p : Nat)
    (questions : List Question) :
    Goes (Effect.Roots v) s (s.childrenPassing p (questions.map Question.test)).2 :=
  (listing_roots straight sound p).trans ((questions_goes questions _ _).mono Effect.Reads.roots)

theorem collect_roots {bound : Nat} {pending files files' : List Nat} {s' : Server}
    (straight : s.Straight v) (sound : s.Sound)
    (done : collect bound s pending files = some (files', s')) : Goes (Effect.Roots v) s s' := by
  fun_induction collect bound s pending files with
  | case1 =>
    cases done
    exact .stay
  | case2 => cases done
  | case3 _ s folder _ _ _ t listed _ _ ih =>
    have first : Goes (Effect.Roots v) s (s.children folder true).2 :=
      listing_roots straight sound folder
    have looks := children_goes s folder true
    rw [listed] at first looks
    exact first.trans (ih (straight.goes looks) (sound.goes looks) done)

section

variable [MediaTypes]

theorem warm_roots {bound dir n : Nat} {s' : Server} (straight : s.Straight v) (sound : s.Sound)
    (done : warm bound s dir = some (n, s')) : Goes (Effect.Roots v) s s' := by
  simp only [warm] at done
  split at done
  · cases done
  · rename_i files t collected
    simp only [Option.some.injEq, Prod.mk.injEq] at done
    obtain ⟨_, rfl⟩ := done
    exact .step (.note _) ((collect_roots straight sound collected).trans
      ((load_goes files t).mono Effect.Reads.roots)) trivial trivial

/-! ## Runs -/

/-- A call that lists no folder registers nothing but folders under the key of a root, and neither
does one that lists folders where nothing strays. -/
theorem perform_roots (sound : s.Sound) {c : Call} {a : Answer} (h : s.perform c = some (a, t))
    (straight : c.lists = true → s.Straight v) : Goes (Effect.Roots v) s t := by
  obtain ⟨known, done⟩ := perform_eq h
  cases c with
  | root w =>
    cases done
    exact root_roots (by simpa [knows] using known)
  | get w raw =>
    cases done
    exact get_roots (by simpa [knows] using known) raw
  | resolve w parent raw =>
    cases done
    simp only [knows, Bool.and_eq_true, decide_eq_true_eq] at known
    exact resolve_roots known.1 parent raw
  | resolveWith w parent name exts =>
    cases done
    simp only [knows, Bool.and_eq_true, decide_eq_true_eq] at known
    exact resolveWith_roots (straight rfl) sound known.1 parent name exts
  | children p folders =>
    cases done
    exact listing_roots (straight rfl) sound p
  | matching p questions =>
    cases done
    exact matching_roots (straight rfl) sound p questions
  | warm bound p =>
    obtain ⟨⟨n, u⟩, warmed, same⟩ := Option.map_eq_some_iff.mp done
    cases same
    exact warm_roots (straight rfl) sound warmed
  | length p =>
    cases done
    exact (length_goes s p).mono Effect.Reads.roots
  | readBytes p =>
    cases done
    exact (readBytes_goes s p).mono Effect.Reads.roots
  | readText p =>
    cases done
    exact (readText_goes s p).mono Effect.Reads.roots
  | isCached p =>
    cases done
    exact (isCached_goes s p).mono Effect.Reads.roots
  | respond p header =>
    cases done
    exact (respond_goes s p header).mono Effect.Reads.roots
  | askText cache key =>
    cases done
    exact .one (.ask cache key) trivial trivial
  | newCache | mount | retain | release | invalidate | create | writeText | removeText
  | clearTexts | change =>
    refine (perform_goes h).mono ?_
    intro e kind
    cases e with
    | register => simp [Call.may, Effect.Creates] at kind
    | _ => exact trivial

theorem Rooted.perform (rooted : s.Rooted v) (sound : s.Sound) {c : Call} {a : Answer}
    (h : s.perform c = some (a, t))
    (straight : c.lists = true → s.lookup v "" = none → s.Straight v) : t.Rooted v := by
  cases there : s.lookup v "" with
  | none => exact rooted.goes sound (perform_roots sound h fun lists => straight lists there)
  | some q =>
    intro p there'
    -- The root stays registered, so that nothing else gets its key, or it is forgotten.
    rcases perform_lookup h there with still | ⟨r, rfl, rfl, same⟩
    · obtain rfl : q = p := Option.some.inj (still.symm.trans there')
      obtain ⟨known, _⟩ := sound.registered v "" q there
      rw [((perform_goes h).became known).isFolder]
      exact rooted q there
    · rw [← same, lookup_invalidated h] at there'
      cases there'

theorem Rooted.run {calls : List Call} (rooted : s.Rooted v) (sound : s.Sound)
    (ran : s.run calls = some t)
    (straight : ∀ before c after u, calls = before ++ c :: after → s.run before = some u →
      c.lists = true → u.lookup v "" = none → u.Straight v) : t.Rooted v := by
  induction calls generalizing s with
  | nil =>
    cases ran
    exact rooted
  | cons c rest ih =>
    obtain ⟨a, u, first, ran⟩ := run_cons ran
    have rootedThen := rooted.perform sound first (straight [] c rest s rfl rfl)
    refine ih rootedThen (sound.goes (perform_goes first)) ran ?_
    intro before c' after w split led
    exact straight (c :: before) c' after w (by rw [split]; rfl) ((run_cons_of first).trans led)

end

theorem Rooted.start (d : Tree) (v : Nat) : (start d).Rooted v := by
  intro p there
  rw [lookup_beyond _ (Nat.zero_le v)] at there
  cases there

/-- Below the root, the key of a path tells its kind. -/
theorem Made.last {n : PathNode} (made : s.Made n) (below : n.key ≠ "") :
    n.isFolder = true ↔ n.key.toList.getLast? = some '/' := by
  obtain ⟨raw, shape⟩ := made.key
  rw [shape] at below ⊢
  exact Key.normalize_last below

/-- The root, when it is asked for, is what is registered under its key, or a folder. -/
theorem Rooted.root [MediaTypes] (rooted : s.Rooted v) {p : Nat}
    (h : s.perform (.root v) = some (.path p, t)) : (t.node p).isFolder = true := by
  obtain ⟨_, done⟩ := perform_eq h
  simp only [carryOut, Option.some.injEq, Prod.mk.injEq, Answer.path.injEq] at done
  obtain ⟨rfl, rfl⟩ := done
  cases there : s.lookup v "" with
  | some q =>
    rw [Server.root, intern_remembered there]
    exact rooted q there
  | none =>
    rw [Server.root, intern_anew there]
    rfl

/-- **The key of a path tells its kind.** Every path that a run hands out and whose key is not that
of the root is a folder exactly if its key ends with `/`. The same holds of all paths that are
registered in a file system, the root being a folder, and of the root whenever it is asked for, if
the run lists folders only where the root is registered or nothing strays below it. -/
theorem shape_tells_kind [MediaTypes] {d : Tree} {calls : List Call}
    (ran : (start d).run calls = some s) :
    (∀ p, p < s.nodes.size → (s.node p).key ≠ "" →
      ((s.node p).isFolder = true ↔ (s.node p).key.toList.getLast? = some '/')) ∧
    ∀ v, (∀ before c after t, calls = before ++ c :: after → (start d).run before = some t →
        c.lists = true → t.lookup v "" = none → v < t.systems.size →
        ¬ t.disk.Strays (t.system v).root) →
      (∀ key p, s.lookup v key = some p →
        ((s.node p).isFolder = true ↔ key = "" ∨ key.toList.getLast? = some '/')) ∧
      ∀ p t, s.perform (.root v) = some (.path p, t) → (t.node p).isFolder = true := by
  have sound : s.Sound := (start_sound d).goes (run_goes_any ran)
  refine ⟨fun p known => (sound.made p known).last, ?_⟩
  intro v straight
  have rooted : s.Rooted v := (Rooted.start d v).run (start_sound d) ran straight
  refine ⟨?_, fun p t asked => rooted.root asked⟩
  intro key p there
  obtain ⟨known, _, same⟩ := sound.registered v key p there
  by_cases root : key = ""
  · subst root
    simp [rooted p there]
  · rw [(sound.made p known).last (by rw [same]; exact root), same]
    simp [root]

attribute [local instance] MediaTypes.familiar

/-- Where the root is registered, a listing gives its key to nothing else, whatever strays. -/
theorem root_stays_folder : ∃ s p t,
    (start (.lone [92] [])).run [.mount "/" none {}, .root 0, .children 0 true] = some s ∧
    (∀ before c after u, [.mount "/" none {}, .root 0, .children 0 true] = before ++ c :: after →
      (start (.lone [92] [])).run before = some u → c.lists = true → u.lookup 0 "" = none →
      0 < u.systems.size → ¬ u.disk.Strays (u.system 0).root) ∧
    s.perform (.root 0) = some (.path p, t) ∧ (t.node p).isFolder = true := by
  obtain ⟨r, led, known, there⟩ : ∃ r,
      (start (.lone [92] [])).run [.mount "/" none {}, .root 0] = some r ∧ 0 < r.nodes.size ∧
      0 < r.systems.size :=
    ⟨_, rfl, Nat.zero_lt_one, Nat.zero_lt_one⟩
  have listed : r.perform (.children 0 true) =
      some (.paths (r.children 0 true).1, (r.children 0 true).2) := by
    simp [perform, knows, known, carryOut]
  have ran : (start (.lone [92] [])).run [.mount "/" none {}, .root 0, .children 0 true] =
      some (r.children 0 true).2 :=
    run_snoc_of led listed
  have there := Nat.lt_of_lt_of_le there (children_goes r 0 true).size_systems
  have asked : (r.children 0 true).2.perform (.root 0) =
      some (.path ((r.children 0 true).2.root 0).1, ((r.children 0 true).2.root 0).2) := by
    simp [perform, knows, there, carryOut]
  have straight (before : List Call) (c : Call) (after : List Call) (u : Server)
      (split : [.mount "/" none {}, .root 0, .children 0 true] = before ++ c :: after)
      (led : (start (.lone [92] [])).run before = some u) (lists : c.lists = true)
      (free : u.lookup 0 "" = none) (_ : 0 < u.systems.size) :
      ¬ u.disk.Strays (u.system 0).root := by
    rcases before with _ | ⟨first, _ | ⟨second, _ | ⟨third, rest⟩⟩⟩
    · cases split
      cases lists
    · cases split
      cases lists
    · cases split
      cases led
      cases free
    · simp at split
  exact ⟨_, _, _, ran, straight, asked, ((shape_tells_kind ran).2 0 straight).2 _ _ asked⟩

/-! ## A file in place of the root -/

/-- Something that is no folder is registered as the root. -/
def Displaced (s : Server) (v : Nat) : Prop :=
  ∃ q, s.lookup v "" = some q ∧ (s.node q).isFolder = false

theorem Displaced.goes (displaced : s.Displaced v) (sound : s.Sound)
    (h : Goes Effect.Resolves s t) : t.Displaced v := by
  obtain ⟨q, there, file⟩ := displaced
  obtain ⟨known, _⟩ := sound.registered _ _ _ there
  refine ⟨q, h.lookup_kept id there, ?_⟩
  rw [h.node_kept known]
  exact file

/-- What is no folder takes the place of the root if nothing has it. -/
theorem intern_displaced (known : v < s.systems.size) (free : s.lookup v "" = none) :
    (s.intern v "" false).2.Displaced v := by
  refine ⟨_, lookup_intern known "" false, ?_⟩
  rw [intern_anew free]
  rfl

/-- Once a listing comes to an entry that is no folder and has the key of the root, this entry is
what the root is from then on, if nothing was before. -/
theorem enlistEntries_displaced {n : PathNode} {names : List Name} {l : List (String × Nat)}
    (sound : s.Sound) (known : n.system < s.systems.size)
    (free : s.lookup n.system "" = none ∨ s.Displaced n.system)
    (files : ∀ name ∈ names, s.entryKey n name = "" → s.entryIsFolder n name = false)
    (up : s.Displaced n.system ∨ ∃ name ∈ names, s.entryKey n name = "") :
    (names.foldl (enlistEntry n) (l, s)).2.Displaced n.system := by
  induction names generalizing s l with
  | nil =>
    rcases up with displaced | ⟨name, mem, _⟩
    · exact displaced
    · cases mem
  | cons name rest ih =>
    have goes : Goes Effect.Resolves s (enlistEntry n (l, s) name).2 :=
      intern_goes known ⟨_, rfl⟩
    have disk := (goes.mono Effect.Resolves.looks).disk_kept
    have here (root : s.entryKey n name = "") :
        (enlistEntry n (l, s) name).2.Displaced n.system := by
      rcases free with free | displaced
      · rw [enlistEntry_eq, root, files name List.mem_cons_self root]
        exact intern_displaced known free
      · exact displaced.goes sound goes
    have other (below : s.entryKey n name ≠ "") (free : s.lookup n.system "" = none) :
        (enlistEntry n (l, s) name).2.lookup n.system "" = none := by
      rw [enlistEntry_eq, lookup_intern_other _ below known]
      exact free
    rw [List.foldl_cons]
    generalize enlistEntry n (l, s) name = made at goes disk here other ⊢
    obtain ⟨l', s'⟩ := made
    replace disk : s'.disk = s.disk := disk
    refine ih (sound.goes goes) (Nat.lt_of_lt_of_le known goes.size_systems) ?_ ?_ ?_
    · by_cases root : s.entryKey n name = ""
      · exact .inr (here root)
      · exact free.imp (other root) (fun displaced => displaced.goes sound goes)
    · intro m mem
      simp only [entryKey, entryIsFolder, disk]
      exact files m (List.mem_cons_of_mem _ mem)
    · rcases up with displaced | ⟨m, mem, root⟩
      · exact .inl (displaced.goes sound goes)
      · rcases List.mem_cons.mp mem with rfl | later
        · exact .inl (here root)
        · right
          refine ⟨m, later, ?_⟩
          simp only [entryKey, entryIsFolder, disk]
          exact root

/-- A first listing in which files but no folders lead to the root, which is not registered, leaves
something in its place that is no folder. -/
theorem listing_displaced {p : Nat} {names : List Name} (sound : s.Sound)
    (known : p < s.nodes.size) (new : (s.node p).listing = none)
    (folder : (s.node p).isFolder = true) (present : (s.node p).present = true)
    (alive : (s.system (s.node p).system).owners ≠ 0)
    (listed : s.disk.list (Utf8.ofText (s.node p).diskPath) = .ok names)
    (free : s.lookup (s.node p).system "" = none)
    (files : ∀ name ∈ names, s.entryKey (s.node p) name = "" →
      s.entryIsFolder (s.node p) name = false)
    (up : ∃ name ∈ names, s.entryKey (s.node p) name = "") :
    (s.listing p).2.Displaced (s.node p).system := by
  have there := (sound.made p known).system
  obtain ⟨q, root, file⟩ :=
    enlistEntries_displaced (l := []) sound there (.inl free) files (.inr up)
  simp only [listing, new, makeListing_eq folder present alive listed]
  generalize names.foldl (enlistEntry (s.node p)) ([], s) = made at root file ⊢
  refine ⟨q, root, ?_⟩
  rw [node_setNode]
  split
  · rename_i same
    rw [same.1]
    exact file
  · exact file

/-- A file named `\` is found below the root as the root itself, if the root is not registered. -/
theorem file_for_root : ∃ s p t,
    (start (.lone [92] [])).run [.mount "/" none {}, .root 0, .invalidate 0 0, .children 0 true] =
      some s ∧
    s.perform (.root 0) = some (.path p, t) ∧ (t.node p).isFolder = false := by
  obtain ⟨r, led, known, there, disk, free, alive, node⟩ : ∃ r,
      (start (.lone [92] [])).run [.mount "/" none {}, .root 0, .invalidate 0 0] = some r ∧
      0 < r.nodes.size ∧ 0 < r.systems.size ∧
      r.disk = (Tree.lone [92] []).1 ∧ r.lookup 0 "" = none ∧ (r.system 0).owners = 1 ∧
      r.node 0 = ⟨0, "", true, "/", true, none⟩ := by
    refine ⟨_, rfl, Nat.zero_lt_one, Nat.zero_lt_one, rfl, rfl, rfl, ?_⟩
    cbv
  have reach : Reachable r := ⟨_, _, led⟩
  have names : r.disk.list (Utf8.ofText "/") = .ok [[92]] := by
    rw [disk]
    cbv
  have file : r.entryIsFolder ⟨0, "", true, "/", true, none⟩ [92] = false := by
    rw [entryIsFolder, disk]
    cbv
  have up : r.entryKey ⟨0, "", true, "/", true, none⟩ [92] = "" := by
    rw [entryKey, file]
    cbv
  obtain ⟨q, root, other⟩ : (r.listing 0).2.Displaced 0 := by
    have displaced : (r.listing 0).2.Displaced (r.node 0).system := by
      refine listing_displaced reach.sound known (by rw [node]) (by rw [node]) (by rw [node])
        (by rw [node, alive]; decide) (by rw [node]; exact names) (by rw [node]; exact free) ?_ ?_
      · intro name mem _
        rw [List.mem_singleton.mp mem, node]
        exact file
      · exact ⟨[92], List.mem_singleton_self _, by rw [node]; exact up⟩
    rw [node] at displaced
    exact displaced
  have listed : r.perform (.children 0 true) =
      some (.paths (r.children 0 true).1, (r.listing 0).2) := by
    simp [perform, knows, known, carryOut, children]
  have there := Nat.lt_of_lt_of_le there (listing_goes r 0).size_systems
  refine ⟨(r.listing 0).2, q, (r.listing 0).2, ?_, ?_, other⟩
  · exact run_snoc_of led listed
  · simp [perform, knows, there, carryOut, Server.root, intern_remembered root]

end Server

end Docroot
