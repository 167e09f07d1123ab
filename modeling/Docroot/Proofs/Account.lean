import Docroot.Proofs.Effect
import Docroot.Proofs.Growth

/-!
Every call is accounted for by effects.

One lemma for each function of the server says which effects it consists of. `perform_goes` puts
them together: a call goes by lawful effects, of the kind that `Call.may` allows it.
-/

namespace Docroot

namespace Key

theorem normalize_empty (isFolder : Bool) : normalize "" isFolder = "" := by
  cases isFolder <;> rfl

end Key

namespace Server

variable {s : Server} {v p : Nat}

theorem intern_goes (known : v < s.systems.size) {key : String} {isFolder : Bool}
    (shape : ∃ raw, key = Key.normalize raw isFolder) :
    Goes Effect.Resolves s (s.intern v key isFolder).2 := by
  simp only [intern]
  split
  · exact .stay
  · rename_i free
    exact .step (.note _) (.one (.register v key isFolder) trivial ⟨known, free, shape⟩)
      trivial trivial

theorem lookup_intern (known : v < s.systems.size) (key : String) (isFolder : Bool) :
    (s.intern v key isFolder).2.lookup v key = some (s.intern v key isFolder).1 := by
  simp only [intern]
  split
  · assumption
  · have known' : v < ({ s with nodes := s.nodes.push (s.makeNode v key isFolder) } :
      Server).systems.size := known
    simp [lookup, system_setSystem, known']

theorem root_goes (known : v < s.systems.size) : Goes Effect.Resolves s (s.root v).2 :=
  intern_goes known ⟨"", (Key.normalize_empty true).symm⟩

theorem resolve_goes (known : v < s.systems.size) (parent : Nat) (raw : String) :
    Goes Effect.Resolves s (s.resolve v parent raw).2 := by
  simp only [resolve]
  split
  · exact intern_goes known ⟨_, rfl⟩
  · split
    · exact root_goes known
    · split
      · exact .stay
      · split
        · exact .stay
        · split <;> exact intern_goes known ⟨_, rfl⟩

theorem get_goes (known : v < s.systems.size) (raw : String) :
    Goes Effect.Resolves s (s.get v raw).2 := by
  have first := root_goes known
  exact first.trans (resolve_goes (Nat.lt_of_lt_of_le known first.size_systems) _ raw)

/-! ## Listings -/

/-- All paths of a list are registered in a file system. -/
def Registered (s : Server) (v : Nat) (l : List Nat) : Prop :=
  ∀ q ∈ l, ∃ key, s.lookup v key = some q

/-- While paths are resolved, a path goes on to stand for its entry. -/
theorem lists_goes {t : Server} {n : PathNode} {q : Nat} (lists : Effect.Lists s n q)
    (h : Goes Effect.Resolves s t) : Effect.Lists t n q := by
  obtain ⟨folder, names, listed, name, mem, there⟩ := lists
  refine ⟨folder, names, ?_, name, mem, ?_⟩
  · rw [(h.mono Effect.Resolves.looks).disk_kept]
    exact listed
  · rw [(h.mono Effect.Resolves.looks).disk_kept]
    exact h.lookup_kept id there

theorem mem_enlist {key : String} {l : List (String × Nat)} {x : String × Nat}
    (mem : x ∈ enlist key p l) : x = (key, p) ∨ x ∈ l := by
  induction l with
  | nil => exact .inl (List.mem_singleton.mp mem)
  | cons y rest ih =>
    obtain ⟨k, q⟩ := y
    simp only [enlist] at mem
    split at mem
    · exact List.mem_cons.mp mem
    · split at mem
      · rcases List.mem_cons.mp mem with first | later
        · exact .inl first
        · exact .inr (List.mem_cons_of_mem _ later)
      · rcases List.mem_cons.mp mem with first | later
        · exact .inr (first ▸ List.mem_cons_self)
        · rcases ih later with new | old
          · exact .inl new
          · exact .inr (List.mem_cons_of_mem _ old)

/-- The kind that a listing of `n` gives an entry. -/
def entryIsFolder (s : Server) (n : PathNode) (name : Name) : Bool :=
  s.disk.isFolder (Disk.entryPath (Utf8.ofText n.diskPath) name)

/-- The key that a listing of `n` gives an entry. -/
def entryKey (s : Server) (n : PathNode) (name : Name) : String :=
  Key.normalize (Key.join n.key (String.ofList (Utf8.repair name))) (s.entryIsFolder n name)

theorem enlistEntry_eq (s : Server) (n : PathNode) (l : List (String × Nat)) (name : Name) :
    (enlistEntry n (l, s) name).2 =
      (s.intern n.system (s.entryKey n name) (s.entryIsFolder n name)).2 :=
  rfl

theorem enlistEntry_goes {n : PathNode} (known : n.system < s.systems.size)
    (folder : n.isFolder = true) {names : List Name}
    (listed : s.disk.list (Utf8.ofText n.diskPath) = .ok names) {name : Name} (mem : name ∈ names)
    {l : List (String × Nat)} (all : ∀ x ∈ l, Effect.Lists s n x.2) :
    Goes Effect.Resolves s (enlistEntry n (l, s) name).2 ∧
    ∀ x ∈ (enlistEntry n (l, s) name).1, Effect.Lists (enlistEntry n (l, s) name).2 n x.2 := by
  have goes : Goes Effect.Resolves s (enlistEntry n (l, s) name).2 := intern_goes known ⟨_, rfl⟩
  have disk := (goes.mono Effect.Resolves.looks).disk_kept
  refine ⟨goes, fun x mem' => ?_⟩
  rcases mem_enlist mem' with rfl | old
  · refine ⟨folder, names, by rw [disk]; exact listed, name, mem, ?_⟩
    rw [disk]
    exact lookup_intern known _ _
  · exact lists_goes (all x old) goes

theorem enlistEntries_goes {n : PathNode} (known : n.system < s.systems.size)
    (folder : n.isFolder = true) {names some' : List Name}
    (listed : s.disk.list (Utf8.ofText n.diskPath) = .ok names) (sub : ∀ m ∈ some', m ∈ names)
    {l : List (String × Nat)} (all : ∀ x ∈ l, Effect.Lists s n x.2) :
    Goes Effect.Resolves s (some'.foldl (enlistEntry n) (l, s)).2 ∧
    ∀ x ∈ (some'.foldl (enlistEntry n) (l, s)).1,
      Effect.Lists (some'.foldl (enlistEntry n) (l, s)).2 n x.2 := by
  induction some' generalizing s l with
  | nil => exact ⟨.stay, all⟩
  | cons name rest ih =>
    obtain ⟨goes, all'⟩ := enlistEntry_goes known folder listed (sub name List.mem_cons_self) all
    have disk := (goes.mono Effect.Resolves.looks).disk_kept
    obtain ⟨goes', all''⟩ := ih (Nat.lt_of_lt_of_le known goes.size_systems)
      (by rw [disk]; exact listed) (fun m mem => sub m (List.mem_cons_of_mem _ mem)) all'
    exact ⟨goes.trans goes', all''⟩

/-- What the listing of a folder that is there consists of. -/
theorem makeListing_eq {n : PathNode} {names : List Name} (folder : n.isFolder = true)
    (present : n.present = true) (alive : (s.system n.system).owners ≠ 0)
    (listed : s.disk.list (Utf8.ofText n.diskPath) = .ok names) :
    s.makeListing n = ((names.foldl (enlistEntry n) ([], s)).1.map Prod.snd,
      (names.foldl (enlistEntry n) ([], s)).2.report
        (.listed n.key (names.foldl (enlistEntry n) ([], s)).1.length)) := by
  have listable : (!n.isFolder || !n.present || (s.system n.system).owners == 0) = false := by
    simp [folder, present, alive]
  simp only [makeListing, listable, listed]
  rfl

/-- Nothing is listed but folders that are there, while their file system has an owner. -/
theorem makeListing_cases (s : Server) (n : PathNode) :
    s.makeListing n = ([], s) ∨ (∃ e, s.makeListing n = ([], s.report e)) ∨
    ∃ names, n.isFolder = true ∧ n.present = true ∧ (s.system n.system).owners ≠ 0 ∧
      n.system < s.systems.size ∧ s.disk.list (Utf8.ofText n.diskPath) = .ok names := by
  by_cases listable : (!n.isFolder || !n.present || (s.system n.system).owners == 0) = true
  · exact .inl (by rw [makeListing, if_pos listable])
  · cases listed : s.disk.list (Utf8.ofText n.diskPath) with
    | error e => exact .inr (.inl ⟨_, by rw [makeListing, if_neg listable, listed]⟩)
    | ok names =>
      obtain ⟨⟨folder, present⟩, alive⟩ : (n.isFolder = true ∧ n.present = true) ∧
          (s.system n.system).owners ≠ 0 := by
        simpa [not_or] using listable
      -- A file system that is not there has no owners.
      have known : n.system < s.systems.size := by
        rcases Nat.lt_or_ge n.system s.systems.size with known | beyond
        · exact known
        · exact absurd (by rw [s.system_beyond beyond]; rfl) alive
      exact .inr (.inr ⟨names, folder, present, alive, known, rfl⟩)

theorem makeListing_goes (s : Server) (n : PathNode) :
    Goes Effect.Resolves s (s.makeListing n).2 ∧
    ∀ q ∈ (s.makeListing n).1, Effect.Lists (s.makeListing n).2 n q := by
  have nothing {t : Server} : ∀ q ∈ ([] : List Nat), Effect.Lists t n q :=
    fun q mem => absurd mem List.not_mem_nil
  rcases makeListing_cases s n with
    none | ⟨e, failed⟩ | ⟨names, folder, present, alive, known, listed⟩
  · rw [none]
    exact ⟨.stay, nothing⟩
  · rw [failed]
    exact ⟨.one (.note _) trivial trivial, nothing⟩
  · rw [makeListing_eq folder present alive listed]
    obtain ⟨goes, all⟩ := enlistEntries_goes (l := []) known folder listed (fun _ => id)
      (fun x mem => absurd mem List.not_mem_nil)
    refine ⟨.step (.note _) goes trivial trivial, fun q mem => ?_⟩
    obtain ⟨x, listed, rfl⟩ := List.mem_map.mp mem
    exact all x listed

/-- Making a listing leaves the path as it is that is listed. -/
theorem node_makeListing (s : Server) (p : Nat) :
    (s.makeListing (s.node p)).2.node p = s.node p := by
  rcases Nat.lt_or_ge p s.nodes.size with known | beyond
  · exact (makeListing_goes s _).1.node_kept known
  · simp [makeListing, s.node_beyond beyond, show (default : PathNode).isFolder = false from rfl]

theorem listing_goes (s : Server) (p : Nat) : Goes Effect.Looks s (s.listing p).2 := by
  simp only [listing]
  split
  · exact .stay
  · rename_i new
    obtain ⟨goes, all⟩ := makeListing_goes s (s.node p)
    have same := node_makeListing s p
    exact .step (.keep p _) (goes.mono Effect.Resolves.looks) trivial
      ⟨by rw [same]; exact new, by rw [same]; exact all⟩

/-- The listing that is made of a path is kept. -/
theorem listing_node (known : p < s.nodes.size) :
    ((s.listing p).2.node p).listing = some (s.listing p).1 := by
  simp only [listing]
  split
  · assumption
  · have known' : p < (s.makeListing (s.node p)).2.nodes.size :=
      Nat.lt_of_lt_of_le known (makeListing_goes s _).1.size_nodes
    simp only [node_setNode, known', and_self, if_true]

theorem children_goes (s : Server) (p : Nat) (folders : Bool) :
    Goes Effect.Looks s (s.children p folders).2 :=
  listing_goes s p

theorem resolveWith_goes (known : v < s.systems.size) (parent : Nat) (name : String)
    (exts : ExtensionSet) : Goes Effect.Looks s (s.resolveWith v parent name exts).2 := by
  have first := children_goes s parent true
  have resolved (raw : String) := (resolve_goes (Nat.lt_of_lt_of_le known first.size_systems)
    parent raw).mono Effect.Resolves.looks
  simp only [resolveWith]
  split
  · exact first
  · split <;> exact first.trans (resolved _)

/-! ## Reading -/

theorem settle_goes {α : Type} (s : Server) (v : Verdict α) :
    Goes (fun e => ∃ ev, e = .note ev) s (s.settle v).2 := by
  simp only [settle]
  split
  · exact .one (.note _) ⟨_, rfl⟩ trivial
  · exact .stay

theorem settle_reads {α : Type} (s : Server) (v : Verdict α) :
    Goes Effect.Reads s (s.settle v).2 :=
  (settle_goes s v).mono (by rintro _ ⟨ev, rfl⟩; trivial)

theorem length_goes (s : Server) (p : Nat) : Goes Effect.Reads s (s.length p).2 := by
  simp only [length]
  split
  · exact .stay
  · exact settle_reads _ _

theorem readBytes_goes (s : Server) (p : Nat) : Goes Effect.Reads s (s.readBytes p).2 := by
  simp only [readBytes]
  split
  · exact .stay
  · split <;> exact settle_reads _ _

theorem askCache_goes (s : Server) (n : PathNode) : Goes Effect.Reads s (s.askCache n).2 :=
  .one (.ask _ _) trivial trivial

theorem isCached_goes (s : Server) (p : Nat) : Goes Effect.Reads s (s.isCached p).2 :=
  askCache_goes s _

theorem readText_goes (s : Server) (p : Nat) : Goes Effect.Reads s (s.readText p).2 := by
  have asked := askCache_goes s (s.node p)
  simp only [readText]
  split
  · exact .step (.note _) asked trivial trivial
  · rename_i missed
    have noted : Goes Effect.Reads s ((s.askCache (s.node p)).2.report (.contentMiss _)) :=
      .step (.note (.contentMiss (s.node p).key)) asked trivial trivial
    split
    · exact noted
    · rename_i present
      split
      · exact noted.trans (settle_reads _ _)
      · rename_i isFile
        split
        · rename_i text read
          have missed : (s.cache (s.system (s.node p).system).cache).peek (s.node p).key = none :=
            missed
          exact .step (.fill p text) noted trivial
            ⟨by simpa using present, by simpa using isFile, by simpa using missed, read⟩
        · exact noted.trans (settle_reads _ _)

/-- A file is served as what was read of it, under the type of its name. -/
theorem respond_eq [MediaTypes] (s : Server) (p : Nat) (h : Header) : s.respond p h =
    if !(s.node p).present || (s.node p).isFolder then (.ok (.missing h), s)
    else
      let type := MediaType.contentType (s.node p).extension
      if type.2 then
        ((s.readText p).1.map fun t => .ofContent h type.1 type.2 (Utf8.ofText t), (s.readText p).2)
      else ((s.readBytes p).1.map (.ofContent h type.1 type.2), (s.readBytes p).2) := by
  simp only [respond]
  split
  · rfl
  · split
    · rename_i isText
      rw [isText]
      split <;> rename_i read <;> rw [read] <;> rfl
    · rename_i notText
      rw [Bool.not_eq_true] at notText
      rw [notText]
      split <;> rename_i read <;> rw [read] <;> rfl

theorem respond_goes [MediaTypes] (s : Server) (p : Nat) (h : Header) :
    Goes Effect.Reads s (s.respond p h).2 := by
  rw [respond_eq]
  split
  · exact .stay
  · dsimp only
    split
    · exact readText_goes s p
    · exact readBytes_goes s p

/-! ## Walks over many paths -/

theorem passes_goes {P : Effect → Prop} {tests : List Test}
    (each : ∀ t ∈ tests, ∀ p s, Goes P s (t p s).2) (p : Nat) (s : Server) :
    Goes P s (passes tests p s).2 := by
  induction tests generalizing s with
  | nil => exact .stay
  | cons t tests ih =>
    have first := each t List.mem_cons_self p s
    simp only [passes]
    split <;> rename_i answer <;> rw [answer] at first
    · exact first.trans (ih (fun t mem => each t (List.mem_cons_of_mem _ mem)) _)
    · exact first

theorem sift_goes {P : Effect → Prop} {tests : List Test}
    (each : ∀ t ∈ tests, ∀ p s, Goes P s (t p s).2) (l : List Nat) (s : Server) :
    Goes P s (sift tests l s).2 := by
  induction l generalizing s with
  | nil => exact .stay
  | cons p l ih => exact (passes_goes each p s).trans (ih _)

theorem question_goes (q : Question) (p : Nat) (s : Server) :
    Goes Effect.Reads s (q.test p s).2 := by
  cases q with
  | of t => exact .stay
  | cached => exact isCached_goes s p

theorem questions_goes (questions : List Question) (l : List Nat) (s : Server) :
    Goes Effect.Reads s (sift (questions.map Question.test) l s).2 := by
  refine sift_goes ?_ l s
  intro t mem
  obtain ⟨q, _, rfl⟩ := List.mem_map.mp mem
  exact question_goes q

theorem matching_goes (s : Server) (p : Nat) (questions : List Question) :
    Goes Effect.Looks s (s.childrenPassing p (questions.map Question.test)).2 :=
  (listing_goes s p).trans ((questions_goes questions _ _).mono Effect.Reads.looks)

theorem collect_goes {bound : Nat} {pending files files' : List Nat} {s' : Server}
    (done : collect bound s pending files = some (files', s')) : Goes Effect.Looks s s' := by
  fun_induction collect bound s pending files with
  | case1 =>
    cases done
    exact .stay
  | case2 => cases done
  | case3 _ s folder _ _ _ t listed _ _ ih =>
    have first := children_goes s folder true
    rw [listed] at first
    exact first.trans (ih done)

section

variable [MediaTypes]

theorem loadFile_goes (s : Server) (p : Nat) : Goes Effect.Reads s (s.loadFile p).2 := by
  have read := readText_goes s p
  simp only [loadFile]
  split
  · split <;> rename_i answer <;> rw [answer] at read
    · exact read.trans (isCached_goes _ p)
    · exact read
  · exact .stay

theorem load_goes (files : List Nat) (s : Server) : Goes Effect.Reads s (s.load files).2 := by
  induction files generalizing s with
  | nil => exact .stay
  | cons p files ih =>
    simp only [load]
    exact (loadFile_goes s p).trans (ih _)

theorem warm_goes {bound dir n : Nat} {s' : Server} (done : warm bound s dir = some (n, s')) :
    Goes Effect.Looks s s' := by
  simp only [warm] at done
  split at done
  · cases done
  · rename_i files t collected
    simp only [Option.some.injEq, Prod.mk.injEq] at done
    obtain ⟨_, rfl⟩ := done
    exact .step (.note _)
      ((collect_goes collected).trans ((load_goes files t).mono Effect.Reads.looks)) trivial trivial

end

/-! ## Changes -/

/-- A path that was settled on another disk and is there now. -/
theorem confirm_goes {t : Server} (h : Goes (Effect.Creates p) s t) (same : t.node p = s.node p)
    (free : (s.node p).present = false) :
    Goes (Effect.Creates p) s (t.setNode p { s.node p with present := true }) := by
  have confirmed := h.step (.confirm p) rfl (by simpa [Effect.Lawful, same] using free)
  simpa only [Effect.apply, same] using confirmed

theorem create_goes (s : Server) (p : Nat) : Goes (Effect.Creates p) s (s.create p).2 := by
  have settled {α : Type} (disk : Disk) (tree : s.disk.IsTree → disk.IsTree) (v : Verdict α) :
      Goes (Effect.Creates p) s (({ s with disk } : Server).settle v).2 :=
    (Goes.one (.alter disk) trivial tree).trans
      ((settle_goes _ v).mono (by rintro _ ⟨ev, rfl⟩; trivial))
  simp only [create]
  split
  · exact .stay
  · rename_i absent
    have free : (s.node p).present = false := by simpa using absent
    have tree := (s.disk.make_builds (s.node p).isFolder (Utf8.ofText (s.node p).diskPath)).isTree
    split
    · exact confirm_goes (settled _ tree _) (node_settle _ _ _) free
    · exact settled _ tree _

/-- The content cache that a new file system uses: the given one, one of its own, or one that holds
nothing. -/
def cacheFor (s : Server) (cache : Option Nat) (enabled : Bool) : Nat × Server :=
  if enabled then
    match cache with
    | some c => (c, s)
    | none => s.addCache .memory
  else s.addCache .disabled

/-- A file system is mounted over the cache that it uses. -/
theorem mount_over (s : Server) (root : String) (cache : Option Nat) (config : Config) :
    s.mount root cache config =
      let (c, s) := s.cacheFor cache config.cacheEnabled
      (s.systems.size, { s with
        systems := s.systems.push ⟨absoluteRoot s.disk root, c, config, .empty, 1⟩ }) :=
  rfl

theorem cacheFor_goes (s : Server) (root : String) (cache : Option Nat) (config : Config)
    (known : ∀ c, cache = some c → c < s.caches.size) :
    Goes (Call.mount root cache config).may s (s.cacheFor cache config.cacheEnabled).2 ∧
    (s.cacheFor cache config.cacheEnabled).1 <
      (s.cacheFor cache config.cacheEnabled).2.caches.size := by
  have added (t : ContentCache) (new : t.entries = .empty ∧ t.writes = 0) :
      Goes (Call.mount root cache config).may s (s.addCache t).2 ∧
      (s.addCache t).1 < (s.addCache t).2.caches.size :=
    ⟨.one (.addCache t) (.inl ⟨t, rfl⟩) new, by simp [addCache]⟩
  simp only [cacheFor]
  split
  · cases cache with
    | none => exact added .memory ⟨rfl, rfl⟩
    | some c => exact ⟨.stay, known c rfl⟩
  · exact added .disabled ⟨rfl, rfl⟩

theorem mount_goes (s : Server) (root : String) (cache : Option Nat) (config : Config)
    (known : ∀ c, cache = some c → c < s.caches.size) :
    Goes (Call.mount root cache config).may s (s.mount root cache config).2 := by
  obtain ⟨goes, there⟩ := cacheFor_goes s root cache config known
  rw [mount_over]
  exact goes.step (.mount _) (.inr ⟨_, rfl⟩) ⟨rfl, there⟩

theorem invalidate_goes (s : Server) (v p : Nat) :
    Goes (Call.invalidate v p).may s (s.invalidate v p).2 := by
  simp only [invalidate]
  split
  · exact .one (.forget v _) ⟨_, rfl⟩ trivial
  · exact .stay

/-- A call goes by effects that it may have. -/
theorem perform_goes [MediaTypes] {c : Call} {a : Answer} {s' : Server}
    (h : s.perform c = some (a, s')) : Goes c.may s s' := by
  simp only [perform] at h
  split at h
  · rename_i known
    cases c with
    | warm bound p =>
      obtain ⟨⟨n, t⟩, done, same⟩ := Option.map_eq_some_iff.mp h
      cases same
      exact warm_goes done
    | newCache => cases h; exact .one (.addCache _) ⟨_, rfl⟩ ⟨rfl, rfl⟩
    | mount root cache config =>
      cases h
      refine mount_goes s root cache config fun c some' => ?_
      simpa [knows, some'] using known
    | retain v | release v => cases h; exact .one (.share v _) ⟨_, rfl⟩ trivial
    | invalidate v p => cases h; exact invalidate_goes s v p
    | create p => cases h; exact create_goes s p
    | writeText c key text => cases h; exact .one (.overwrite c key text) rfl trivial
    | removeText c key => cases h; exact .one (.drop c key) rfl trivial
    | clearTexts c => cases h; exact .one (.wipe c) rfl trivial
    | change d => cases h; exact .one (.alter d.1) rfl fun _ => d.2
    | askText c key => cases h; exact .one (.ask c key) trivial trivial
    | root v =>
      cases h
      exact (root_goes (by simpa [knows] using known)).mono Effect.Resolves.looks
    | get v raw =>
      cases h
      exact (get_goes (by simpa [knows] using known) raw).mono Effect.Resolves.looks
    | resolve v p raw =>
      cases h
      simp only [knows, Bool.and_eq_true, decide_eq_true_eq] at known
      exact (resolve_goes known.1 p raw).mono Effect.Resolves.looks
    | resolveWith v p name exts =>
      cases h
      simp only [knows, Bool.and_eq_true, decide_eq_true_eq] at known
      exact resolveWith_goes known.1 p name exts
    | children p folders => cases h; exact children_goes s p folders
    | matching p questions => cases h; exact matching_goes s p questions
    | length p => cases h; exact (length_goes s p).mono Effect.Reads.looks
    | readBytes p => cases h; exact (readBytes_goes s p).mono Effect.Reads.looks
    | readText p => cases h; exact (readText_goes s p).mono Effect.Reads.looks
    | isCached p => cases h; exact (isCached_goes s p).mono Effect.Reads.looks
    | respond p header => cases h; exact (respond_goes s p header).mono Effect.Reads.looks
  · cases h

/-- A run goes by effects that its calls may have. -/
theorem run_goes [MediaTypes] {P : Effect → Prop} {calls : List Call} {s' : Server}
    (ran : s.run calls = some s') (kind : ∀ c ∈ calls, ∀ e, c.may e → P e) : Goes P s s' := by
  induction calls generalizing s with
  | nil =>
    cases ran
    exact .stay
  | cons c rest ih =>
    obtain ⟨⟨a, t⟩, first, ran⟩ := Option.bind_eq_some_iff.mp ran
    exact ((perform_goes first).mono (kind c List.mem_cons_self)).trans
      (ih ran fun c mem => kind c (List.mem_cons_of_mem _ mem))

end Server

end Docroot
