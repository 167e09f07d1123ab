import Docroot.Proofs.Documents
import Docroot.Proofs.Policies
import Docroot.Proofs.Texts
import Docroot.Proofs.Walks

/-!
What a warm-up leaves in the content cache.

Each file offers a text for one place in one cache, and reading it puts the text there if the place
is empty (`peek_loadFile`). So a cache holds in the end, at each place, what it held before or else
the first text that some file offered (`peek_load`). Since a walk finds each file once, no two files
offer a text for the same place, and their order does not matter.
-/

namespace Docroot

/-- The effects of questions to content caches. -/
def Effect.Asks : Effect → Prop
  | note _ | ask .. => True
  | _ => False

theorem Effect.Asks.reads (e : Effect) (kind : e.Asks) : e.Reads := by
  cases e <;> first | exact trivial | exact kind

namespace Disk

/-- What reading a path on disk as a text gives, said by its bytes. -/
theorem textOnDisk_eq_ok_iff {d : Disk} {path : Utf8.Bytes} {text : String} :
    Server.textOnDisk d path = .ok text ↔ ∃ chars, d.read path = .ok (Utf8.encode chars) ∧
      text.toList = Lines.document chars := by
  rw [Server.textOnDisk]
  cases read : d.read path with
  | error e => simp
  | ok content =>
    dsimp only
    constructor
    · intro told
      cases decoded : Lines.read? content with
      | none => simp [decoded] at told
      | some t =>
        obtain ⟨chars, rfl⟩ := Lines.encoded_of_read? decoded
        rw [Lines.read?_encode] at decoded told
        cases told
        exact ⟨chars, rfl, String.toList_ofList⟩
    · rintro ⟨chars, same, document⟩
      cases same
      rw [Lines.read?_encode, ← document, String.ofList_toList]

theorem exists_of_textOnDisk {d : Disk} {path : Utf8.Bytes} {text : String}
    (read : Server.textOnDisk d path = .ok text) : d.exists? path = true := by
  obtain ⟨chars, read, _⟩ := textOnDisk_eq_ok_iff.mp read
  obtain ⟨place, found⟩ := find_of_read read
  rw [exists?, stat, found]

/-- What a warm-up of a folder loads under a key: the document in the bytes of a file below the
folder whose name is that of a text. -/
structure TextBelow [MediaTypes] (d : Disk) (root folder key text : String) : Prop where
  below : d.FileBelow root folder key
  type : (MediaType.contentType (Key.extension key)).2 = true
  document : ∃ chars, d.read (Utf8.ofText (Key.below root key)) = .ok (Utf8.encode chars) ∧
    text.toList = Lines.document chars

end Disk

namespace Server

variable {s t u w : Server} {d : Disk} {v c p q dir : Nat} {pending files : List Nat}
  {k text : String}

/-! ## One file -/

section

variable [MediaTypes]

/-- Whether the name of a path is that of a text. -/
def isText (s : Server) (p : Nat) : Bool := (MediaType.contentType (s.node p).extension).2

/-- What a text file offers for the place of a key in a cache. -/
def offers (s : Server) (c : Nat) (k : String) (p : Nat) : Option String :=
  if s.cacheOf p = c ∧ (s.node p).key = k ∧ s.isText p = true then s.textAt p else none

theorem loadFile_eq (s : Server) (p : Nat) : s.loadFile p =
    if s.isText p then
      match s.readText p with
      | (.ok _, s) => s.isCached p
      | (.error _, s) => (false, s)
    else (false, s) :=
  rfl

/-- A text file is read, and counts if the cache has its text then. -/
theorem loadFile_text (isText : s.isText p = true) :
    (s.loadFile p).1 =
      (((s.readText p).2.cache (s.cacheOf p)).peek (s.node p).key).isSome ∧
    ∀ c k, ((s.loadFile p).2.cache c).peek k = ((s.readText p).2.cache c).peek k := by
  obtain ⟨nodes, systems⟩ := (readText_goes s p).reads_kept
  rw [loadFile_eq, if_pos isText]
  cases answer : s.readText p with
  | mk result u =>
    rw [answer] at nodes systems
    cases result with
    | ok text =>
      have same : u.node p = s.node p := by rw [node, nodes, ← node]
      have ofSystem (v : Nat) : u.system v = s.system v := by rw [system, systems, ← system]
      constructor
      · change ((u.cache (u.system (u.node p).system).cache).peek (u.node p).key).isSome = _
        rw [same, ofSystem, cacheOf]
      · exact fun c k => u.peek_askCache (u.node p) c k
    | error e =>
      have failed := peek_of_readText_error (s := s) (p := p) (congrArg Prod.fst answer)
      rw [answer] at failed
      refine ⟨?_, fun c k => rfl⟩
      rw [cacheOf, failed]
      rfl

/-- Loading a file puts the text that it offers into an empty place. -/
theorem peek_loadFile (keeps : s.Keeps (s.cacheOf p)) (c : Nat) (k : String) :
    ((s.loadFile p).2.cache c).peek k = ((s.cache c).peek k).or (s.offers c k p) := by
  cases isText : s.isText p with
  | true =>
    rw [(loadFile_text isText).2, peek_readText keeps, offers, isText]
    simp only [and_true]
  | false =>
    rw [loadFile_eq, offers, isText]
    simp

/-- A file counts if it is a text file and the cache has its text then. -/
theorem loadFile_counts (s : Server) (p : Nat) : (s.loadFile p).1 =
    (s.isText p && (((s.loadFile p).2.cache (s.cacheOf p)).peek (s.node p).key).isSome) := by
  cases isText : s.isText p with
  | true => rw [(loadFile_text isText).1, (loadFile_text isText).2, Bool.true_and]
  | false =>
    rw [loadFile_eq, isText]
    rfl

/-! ## Many files -/

/-- Reading changes nothing that an offer depends on. -/
theorem reads_same (h : Goes Effect.Reads s t) (q : Nat) :
    t.node q = s.node q ∧ t.cacheOf q = s.cacheOf q ∧ t.isText q = s.isText q ∧
    ∀ c k, t.offers c k q = s.offers c k q := by
  obtain ⟨nodes, systems⟩ := h.reads_kept
  have same : t.node q = s.node q := by rw [node, nodes, ← node]
  have cache : t.cacheOf q = s.cacheOf q := by
    rw [cacheOf, same, system, systems, ← system, cacheOf]
  have type : t.isText q = s.isText q := by rw [isText, same, isText]
  have disk := (h.mono Effect.Reads.looks).disk_kept
  have text : t.textAt q = s.textAt q := by rw [textAt, same, disk, textAt]
  refine ⟨same, cache, type, ?_⟩
  intro c k
  rw [offers, cache, same, type, text, offers]

theorem load_cons (s : Server) (p : Nat) (files : List Nat) : s.load (p :: files) =
    (((s.loadFile p).2.load files).1 + (if (s.loadFile p).1 then 1 else 0),
      ((s.loadFile p).2.load files).2) := by
  rw [load]

/-- A place holds what it held before, or else the first text that a file offered for it. -/
theorem peek_load (keeps : ∀ q ∈ files, s.Keeps (s.cacheOf q)) (c : Nat) (k : String) :
    ((s.load files).2.cache c).peek k =
      ((s.cache c).peek k).or (files.findSome? (s.offers c k)) := by
  induction files generalizing s with
  | nil => simp [load]
  | cons p files ih =>
    have reads := loadFile_goes s p
    have later : files.findSome? ((s.loadFile p).2.offers c k) =
        files.findSome? (s.offers c k) :=
      congrArg (List.findSome? · files) (funext fun q => (reads_same reads q).2.2.2 c k)
    have keepsThen (q : Nat) (mem : q ∈ files) :
        (s.loadFile p).2.Keeps ((s.loadFile p).2.cacheOf q) := by
      rw [(reads_same reads q).2.1]
      exact (keeps q (List.mem_cons_of_mem p mem)).goes reads
    calc ((s.load (p :: files)).2.cache c).peek k
      _ = (((s.loadFile p).2.load files).2.cache c).peek k := by rw [load_cons]
      _ = (((s.cache c).peek k).or (s.offers c k p)).or (files.findSome? (s.offers c k)) := by
        rw [ih keepsThen, later, peek_loadFile (keeps p List.mem_cons_self)]
      _ = ((s.cache c).peek k).or ((p :: files).findSome? (s.offers c k)) := by
        rw [Option.or_assoc, List.findSome?_cons]
        cases s.offers c k p <;> rfl

/-- No file offers a text for the place of another. -/
theorem offers_other (once : ((p :: files).map fun q => (s.node q).key).Nodup) (c : Nat) :
    files.findSome? (s.offers c (s.node p).key) = none := by
  rw [List.findSome?_eq_none_iff]
  intro q mem
  rw [offers, if_neg]
  rintro ⟨_, same, _⟩
  rw [List.map_cons, List.nodup_cons] at once
  exact once.1 (List.mem_map.mpr ⟨q, mem, same⟩)

/-- The answer is the number of text files whose texts are in the cache in the end. -/
theorem load_counts (keeps : ∀ q ∈ files, s.Keeps (s.cacheOf q))
    (once : (files.map fun q => (s.node q).key).Nodup) :
    (s.load files).1 = files.countP fun q =>
      s.isText q && (((s.load files).2.cache (s.cacheOf q)).peek (s.node q).key).isSome := by
  induction files generalizing s with
  | nil => rfl
  | cons p files ih =>
    have reads := loadFile_goes s p
    have same (q : Nat) := reads_same reads q
    have keepsThen (q : Nat) (mem : q ∈ files) :
        (s.loadFile p).2.Keeps ((s.loadFile p).2.cacheOf q) := by
      rw [(same q).2.1]
      exact (keeps q (List.mem_cons_of_mem p mem)).goes reads
    have onceThen : (files.map fun q => ((s.loadFile p).2.node q).key).Nodup := by
      simp only [same]
      exact (List.nodup_cons.mp once).2
    have counted := ih keepsThen onceThen
    simp only [same] at counted
    -- No other file comes to the place of this one, so it holds a text at once or never.
    have stays : (((s.load (p :: files)).2.cache (s.cacheOf p)).peek (s.node p).key) =
        (((s.loadFile p).2.cache (s.cacheOf p)).peek (s.node p).key) := by
      rw [peek_load keeps, peek_loadFile (keeps p List.mem_cons_self), List.findSome?_cons,
        offers_other once]
      cases s.offers (s.cacheOf p) (s.node p).key p <;> rfl
    rw [List.countP_cons, stays, ← loadFile_counts, load_cons, counted]

end

/-! ## Once more -/

/-- Questions change no path, no file system and no text. -/
theorem asks_kept (h : Goes Effect.Asks s t) :
    t = { s with caches := t.caches, log := t.log } ∧
    ∀ c, (t.cache c).entries = (s.cache c).entries ∧ (t.cache c).writes = (s.cache c).writes := by
  refine h.keeps (I := fun t => t = { s with caches := t.caches, log := t.log } ∧
    ∀ c, (t.cache c).entries = (s.cache c).entries ∧ (t.cache c).writes = (s.cache c).writes)
    ?_ ⟨rfl, fun c => ⟨rfl, rfl⟩⟩
  rintro u e kind _ ⟨same, texts⟩
  cases e with
  | note ev =>
    refine ⟨?_, texts⟩
    rw [same]
    rfl
  | ask c key =>
    constructor
    · rw [same]
      rfl
    · intro c'
      simp only [Effect.apply, cache_setCache]
      split
      · rename_i here
        rw [← here.1]
        exact texts c
      · exact texts c'
  | _ => cases kind

/-- Nothing is read that is in the cache, or that is no text. -/
theorem readText_asks (settled : ((s.cache (s.cacheOf p)).peek (s.node p).key).isSome = true ∨
    s.textAt p = none) : Goes Effect.Asks s (s.readText p).2 := by
  have asked : Goes Effect.Asks s (s.askCache (s.node p)).2 := .one (.ask _ _) trivial trivial
  have settles {α : Type} (u : Server) (verdict : Verdict α) :
      Goes Effect.Asks u (u.settle verdict).2 :=
    (settle_goes u verdict).mono (by rintro _ ⟨ev, rfl⟩; trivial)
  cases entry : (s.cache (s.cacheOf p)).peek (s.node p).key with
  | some text =>
    rw [readText_hit entry]
    exact .step (.note _) asked trivial trivial
  | none =>
    have missed : Goes Effect.Asks s ((s.askCache (s.node p)).2.report (.contentMiss _)) :=
      .step (.note (.contentMiss (s.node p).key)) asked trivial trivial
    have unread : s.textAt p = none := by simpa [entry] using settled
    rw [readText_missed entry]
    dsimp only
    split
    · exact missed
    · rename_i present
      split
      · exact missed.trans (settles _ _)
      · rename_i file
        split
        · rename_i text read
          rw [textAt_eq_some_iff.mpr ⟨by simpa using present, by simpa using file, read⟩] at unread
          cases unread
        · exact missed.trans (settles _ _)

section

variable [MediaTypes]

/-- A file is settled when the cache has its text, or when it offers none. -/
def Settled (s : Server) (p : Nat) : Prop :=
  ((s.cache (s.cacheOf p)).peek (s.node p).key).isSome = true ∨
    s.offers (s.cacheOf p) (s.node p).key p = none

theorem Settled.asks (settled : s.Settled p) (h : Goes Effect.Asks s t) : t.Settled p := by
  obtain ⟨node, cache, _, offers⟩ := reads_same (h.mono Effect.Asks.reads) p
  rw [Settled, node, cache, offers, ContentCache.peek, ((asks_kept h).2 _).1]
  exact settled

theorem loadFile_asks (settled : s.Settled p) : Goes Effect.Asks s (s.loadFile p).2 := by
  rw [loadFile_eq]
  split
  · rename_i isText
    simp only [Settled, offers, isText, and_self, if_true] at settled
    have asks := readText_asks settled
    split <;> rename_i answer <;> rw [answer] at asks
    · exact asks.trans (.one (.ask _ _) trivial trivial)
    · exact asks
  · exact .stay

theorem load_asks (settled : ∀ q ∈ files, s.Settled q) : Goes Effect.Asks s (s.load files).2 := by
  induction files generalizing s with
  | nil => exact .stay
  | cons p files ih =>
    have first := loadFile_asks (settled p List.mem_cons_self)
    rw [load_cons]
    exact first.trans (ih fun q mem => (settled q (List.mem_cons_of_mem p mem)).asks first)

/-- Files are settled once they were loaded. -/
theorem load_settles (keeps : ∀ q ∈ files, s.Keeps (s.cacheOf q)) (mem : p ∈ files) :
    (s.load files).2.Settled p := by
  obtain ⟨node, cache, _, offers⟩ := reads_same (load_goes files s) p
  rw [Settled, node, cache, offers, peek_load keeps]
  cases offer : s.offers (s.cacheOf p) (s.node p).key p with
  | none => exact .inr rfl
  | some text =>
    left
    rw [Option.isSome_or, Bool.or_eq_true]
    right
    rw [List.findSome?_isSome_iff]
    exact ⟨p, mem, by rw [offer]; rfl⟩

/-- Files that were loaded count the same when they are loaded again, and nothing is read. -/
theorem load_again (keeps : ∀ q ∈ files, s.Keeps (s.cacheOf q))
    (once : (files.map fun q => (s.node q).key).Nodup) (h : Goes Effect.Asks (s.load files).2 w) :
    (w.load files).1 = (s.load files).1 ∧ Goes Effect.Asks w (w.load files).2 := by
  have asks : Goes Effect.Asks w (w.load files).2 :=
    load_asks fun q mem => (load_settles keeps mem).asks h
  refine ⟨?_, asks⟩
  have reads := (load_goes files s).trans (h.mono Effect.Asks.reads)
  have same (q : Nat) := reads_same reads q
  have texts (c : Nat) (k : String) :
      ((w.load files).2.cache c).peek k = ((s.load files).2.cache c).peek k := by
    rw [ContentCache.peek, ((asks_kept (h.trans asks)).2 c).1, ContentCache.peek]
  have keepsThen (q : Nat) (mem : q ∈ files) : w.Keeps (w.cacheOf q) := by
    rw [(same q).2.1]
    exact (keeps q mem).goes reads
  have onceThen : (files.map fun q => (w.node q).key).Nodup := by
    simp only [same]
    exact once
  rw [load_counts keepsThen onceThen, load_counts keeps once]
  simp only [same, texts]

end

/-- A walk that was made goes the same way again, and changes nothing. -/
theorem collect_again {P : Effect → Prop} {bound : Nat} {files' : List Nat} (sound : s.Sound)
    (known : ∀ p ∈ pending, p < s.nodes.size)
    (done : collect bound s pending files = some (files', t)) (h : Goes P t w) :
    collect bound w pending files = some (files', w) := by
  fun_induction collect bound s pending files with
  | case1 bound s files =>
    cases done
    rw [collect]
  | case2 => cases done
  | case3 bound s p pending files l u here folders others ih =>
    rw [children_all] at here
    have looks := listing_goes s p
    have listed := listing_node (known p List.mem_cons_self)
    rw [here] at looks listed
    have soundThen := sound.goes looks
    have later := (collect_goes done).mono fun _ _ => trivial
    have goes := later.trans (h.mono fun _ _ => trivial)
    have listed' := (goes.became (u.known_of_listing listed)).listing l listed
    obtain ⟨kinds, kinds'⟩ := kinds_kept (fun q mem => (soundThen.listed p l q listed mem).1) goes
    simp only [collect, children_all, listing_kept listed', ← kinds, ← kinds']
    refine ih soundThen ?_ done
    intro q mem
    rcases List.mem_append.mp mem with sub | other
    · have mem := List.mem_of_mem_filter (List.mem_reverse.mp sub)
      exact (soundThen.listed p l q listed mem).1
    · exact Nat.lt_of_lt_of_le (known q (List.mem_cons_of_mem p other)) looks.size_nodes

/-! ## The files of a walk -/

/-- A file offers the text that it has on disk. -/
theorem Handed.offers_iff [MediaTypes] (handed : t.Handed v false q) (faithful : t.Faithful d v) :
    t.offers c k q = some text ↔ c = (t.system v).cache ∧ (t.node q).key = k ∧
      (MediaType.contentType (Key.extension k)).2 = true ∧
      textOnDisk d (Utf8.ofText (Key.below (t.system v).root k)) = .ok text := by
  have place := (faithful.sound.made q handed.known).diskPath
  rw [handed.system] at place
  have ofSystem : t.cacheOf q = (t.system v).cache := by rw [cacheOf, handed.system]
  have type : t.isText q = (MediaType.contentType (Key.extension (t.node q).key)).2 := by
    simp [isText, PathNode.extension, handed.kind]
  constructor
  · intro offer
    rw [offers] at offer
    split at offer
    · rename_i here
      obtain ⟨rfl, rfl, isText⟩ := here
      obtain ⟨_, _, read⟩ := textAt_eq_some_iff.mp offer
      rw [faithful.disk, place] at read
      exact ⟨ofSystem, rfl, type.symm.trans isText, read⟩
    · cases offer
  · rintro ⟨rfl, rfl, isText, read⟩
    have present : (t.node q).present = true := by
      by_contra missing
      rw [Bool.not_eq_true] at missing
      have gone := faithful.missing q handed.known handed.system missing
      rw [place, Disk.exists_of_textOnDisk read] at gone
      cases gone
    rw [offers, if_pos ⟨ofSystem, rfl, type.trans isText⟩, textAt_eq_some_iff]
    rw [faithful.disk, place]
    exact ⟨present, handed.kind, read⟩

theorem Found.perm {files' : List Nat} (found : t.Found d v pending files)
    (perm : files'.Perm files) : t.Found d v pending files' where
  each q mem := found.each q (perm.mem_iff.mp mem)
  once := (perm.map _).nodup_iff.mpr found.once
  exact key := by
    rw [← found.exact key]
    simp only [perm.mem_iff]

/-- What the files offer together is what is below the folder. -/
theorem Found.offer_iff [MediaTypes] (found : t.Found d v [dir] files) (faithful : t.Faithful d v) :
    files.findSome? (t.offers c k) = some text ↔
      c = (t.system v).cache ∧ d.TextBelow (t.system v).root (t.node dir).key k text := by
  have exact := found.exact k
  simp only [List.mem_singleton, exists_eq_left] at exact
  constructor
  · intro first
    obtain ⟨q, mem, offer⟩ := List.exists_of_findSome?_eq_some first
    obtain ⟨cache, key, type, read⟩ := ((found.each q mem).offers_iff faithful).mp offer
    exact ⟨cache, exact.mp ⟨q, mem, key⟩, type, Disk.textOnDisk_eq_ok_iff.mp read⟩
  · rintro ⟨cache, below, type, document⟩
    obtain ⟨q, mem, key⟩ := exact.mpr below
    have read := Disk.textOnDisk_eq_ok_iff.mpr document
    have offer := ((found.each q mem).offers_iff faithful).mpr ⟨cache, key, type, read⟩
    -- Whatever file comes first, its text is read at the same place.
    cases first : files.findSome? (t.offers c k) with
    | none =>
      rw [List.findSome?_eq_none_iff.mp first q mem] at offer
      cases offer
    | some text' =>
      obtain ⟨r, mem', offer'⟩ := List.exists_of_findSome?_eq_some first
      obtain ⟨_, _, _, read'⟩ := ((found.each r mem').offers_iff faithful).mp offer'
      rw [read'] at read
      cases read
      rfl

/-- Files that were found can be counted by their keys. -/
theorem Found.count (found : t.Found d v [dir] files) (test : String → Bool) :
    (files.countP fun q => test (t.node q).key) =
      {key | d.FileBelow (t.system v).root (t.node dir).key key ∧ test key = true}.ncard := by
  have keys : {key | d.FileBelow (t.system v).root (t.node dir).key key ∧ test key = true} =
      (((files.filter fun q => test (t.node q).key).map fun q => (t.node q).key).toFinset :
        Set String) := by
    ext key
    have exact := found.exact key
    simp only [List.mem_singleton, exists_eq_left] at exact
    simp only [Set.mem_ofPred_eq, ← exact, List.coe_toFinset, List.mem_map, List.mem_filter]
    constructor
    · rintro ⟨⟨q, mem, rfl⟩, passes⟩
      exact ⟨q, ⟨mem, passes⟩, rfl⟩
    · rintro ⟨q, ⟨mem, passes⟩, rfl⟩
      exact ⟨⟨q, mem, rfl⟩, passes⟩
  have once := found.once.sublist (List.filter_sublist (p := fun q => test (t.node q).key).map _)
  rw [keys, Set.ncard_coe_finset, List.toFinset_card_of_nodup once, List.length_map,
    List.countP_eq_length_filter]

/-! ## Warm-ups -/

/-- Walking leaves the content caches alone. -/
theorem listing_caches (s : Server) (p : Nat) : (s.listing p).2.caches = s.caches := by
  simp only [listing]
  split
  · rfl
  · refine (makeListing_goes s (s.node p)).1.keeps (I := fun t => t.caches = s.caches) ?_ rfl
    intro u e kind _ same
    cases e with
    | note | register => exact same
    | _ => cases kind

theorem collect_caches {bound : Nat} {files' : List Nat}
    (done : collect bound s pending files = some (files', t)) : t.caches = s.caches := by
  fun_induction collect bound s pending files with
  | case1 =>
    cases done
    rfl
  | case2 => cases done
  | case3 bound s p pending files l u here folders others ih =>
    rw [children_all] at here
    have first := listing_caches s p
    rw [here] at first
    exact (ih done).trans first

section

variable [MediaTypes]

/-- Over a disk that stays as it is, on which all names are plain, a walk comes to an end. -/
theorem walk_ends {s₀ s₁ : Server} {root : String} {cache : Option Nat} {config : Config}
    {calls : List Call} (reach : Reachable s₀)
    (mounted : s₀.perform (.mount root cache config) = some (.system v, s₁))
    (still : s₁.Undisturbed v calls) (legible : s₁.disk.AllLegible)
    (ran : s₁.run calls = some s) (handed : s.Handed v true dir) :
    ∃ bound files t, ∀ more, collect (bound + more) s [dir] [] = some (files, t) := by
  have reachThen := reach.perform mounted
  have descends (root : String) : s₁.disk.Descends root := by
    refine Disk.descends_of_plain ?_ root
    intro l n mem
    obtain ⟨text, _, plain⟩ := legible l n mem
    exact plain
  have unlisted : s₁.Sinks v Disk.pathMax := by
    intro p l q system listed
    have unused := mount_unused reach.sound mounted (s₁.known_of_listing listed)
    exact absurd system unused
  have sinks : s.Sinks v Disk.pathMax := by
    refine unlisted.run reachThen.sound ran ?_
    intro before after u split led _
    rw [(still before after u split led).1]
    exact descends _
  have disk : s.disk = s₁.disk := (still calls [] s (by rw [List.append_nil]) ran).1
  have sound := reachThen.sound.goes (run_goes_any ran)
  have walkable : s.Walkable v := ⟨sound, sinks, by rw [disk]; exact descends _⟩
  obtain ⟨steps, t, found, _, walked⟩ :=
    finishes_folder walkable handed.known handed.system (Nat.lt_succ_self _)
  refine ⟨steps, found, t, ?_⟩
  intro more
  have ended := walked more [] []
  rw [List.append_nil, List.nil_append] at ended
  rw [ended, collect]

/-- A warm-up loads what a walk found. -/
theorem perform_warm {bound : Nat} (known : dir < s.nodes.size)
    (walked : collect bound s [dir] [] = some (files, t)) :
    s.perform (.warm bound dir) = some (.count (t.load files).1, (t.load files).2.report
      (.warmed ((t.load files).2.node dir).key files.length (t.load files).1)) := by
  simp only [perform, knows, known, decide_true, if_true, carryOut, warm, walked]
  rfl

/-- Whatever order they are read in, the files below a folder bring the texts below it. -/
theorem Found.load (found : t.Found d v [dir] files) (faithful : t.Faithful d v)
    (keeps : t.Keeps (t.system v).cache) :
    (∀ c key text, ((t.load files).2.cache c).peek key = some text ↔
      (t.cache c).peek key = some text ∨ (t.cache c).peek key = none ∧
        c = (t.system v).cache ∧ d.TextBelow (t.system v).root (t.node dir).key key text) ∧
    (t.load files).1 = {key | d.FileBelow (t.system v).root (t.node dir).key key ∧
      ((MediaType.contentType (Key.extension key)).2 &&
        (((t.load files).2.cache (t.system v).cache).peek key).isSome) = true}.ncard := by
  have ofSystem (q : Nat) (mem : q ∈ files) : t.cacheOf q = (t.system v).cache := by
    rw [cacheOf, (found.each q mem).system]
  have keepsAll (q : Nat) (mem : q ∈ files) : t.Keeps (t.cacheOf q) := by
    rw [ofSystem q mem]
    exact keeps
  constructor
  · intro c key text
    rw [peek_load keepsAll, Option.or_eq_some_iff, found.offer_iff faithful]
  · rw [load_counts keepsAll found.once, ← found.count]
    refine List.countP_congr ?_
    intro q mem
    rw [ofSystem q mem, isText, PathNode.extension, (found.each q mem).kind]
    rfl

/-- Their order does not matter. -/
theorem Found.load_perm {files' : List Nat} (found : t.Found d v [dir] files)
    (faithful : t.Faithful d v) (keeps : t.Keeps (t.system v).cache) (perm : files'.Perm files) :
    (t.load files').1 = (t.load files).1 ∧
    ∀ c key, ((t.load files').2.cache c).peek key = ((t.load files).2.cache c).peek key := by
  obtain ⟨texts, count⟩ := found.load faithful keeps
  obtain ⟨texts', count'⟩ := (found.perm perm).load faithful keeps
  have same (c : Nat) (key : String) :
      ((t.load files').2.cache c).peek key = ((t.load files).2.cache c).peek key :=
    Option.ext fun text => (texts' c key text).trans (texts c key text).symm
  refine ⟨?_, same⟩
  rw [count', count]
  simp only [same]

/-- A second warm-up gives the same answer, and only asks. -/
theorem warm_again {bound : Nat} (sound : s.Sound) (known : dir < s.nodes.size)
    (walked : ∀ more, collect (bound + more) s [dir] [] = some (files, t))
    (keeps : ∀ q ∈ files, t.Keeps (t.cacheOf q))
    (once : (files.map fun q => (t.node q).key).Nodup) (h : Goes Effect.Asks (t.load files).2 w) :
    ∃ w', (∀ more, w.perform (.warm (bound + more) dir) = some (.count (t.load files).1, w')) ∧
      Goes Effect.Asks w w' := by
  obtain ⟨again, asks⟩ := load_again keeps once h
  have reads := (load_goes files t).trans (h.mono Effect.Asks.reads)
  have looks := (collect_goes (walked 0)).trans (reads.mono Effect.Reads.looks)
  refine ⟨(w.load files).2.report (.warmed ((w.load files).2.node dir).key files.length
    (t.load files).1), ?_, asks.step (.note _) trivial trivial⟩
  intro more
  have walkedAgain : collect (bound + more) w [dir] [] = some (files, w) :=
    collect_again sound (by simpa using known) (walked more) reads
  rw [perform_warm (Nat.lt_of_lt_of_le known looks.size_nodes) walkedAgain, again]

/-- **A warm-up loads the texts below a folder, each of them once.** Take a file system over a
content cache that keeps what it gets, and a disk on which all names are plain and which stays as it
is from when the file system is mounted, and any folder of the file system. Then a warm-up of the
folder ends.

* It goes through the files below the folder, and each of them once.
* The cache then holds what it held before. Where it held nothing, it holds the documents in those
  files below the folder whose names are those of texts and whose bytes are UTF-8. Other caches hold
  what they held.
* The answer is how many files there are below the folder with the name of a text, and with a text
  in the cache then.
* If the files are read in another order, the answer and the caches are the same.
* A second warm-up gives the same answer. It changes nothing but the numbers of questions to the
  cache, and the log. -/
theorem warm_loads_texts {s₀ s₁ : Server} {root : String} {cache : Option Nat} {config : Config}
    {calls : List Call} (reach : Reachable s₀)
    (mounted : s₀.perform (.mount root cache config) = some (.system v, s₁))
    (still : s₁.Undisturbed v calls) (legible : s₁.disk.AllLegible)
    (ran : s₁.run calls = some s) (handed : s.Handed v true dir)
    (memory : (s.cache (s.system v).cache).keeps = true) :
    ∃ bound files t n w,
      (∀ more, collect (bound + more) s [dir] [] = some (files, t) ∧
        s.perform (.warm (bound + more) dir) = some (.count n, w)) ∧
      (files.map fun q => (t.node q).key).Nodup ∧
      (∀ key, key ∈ files.map (fun q => (t.node q).key) ↔
        s.disk.FileBelow (s.system v).root (s.node dir).key key) ∧
      (∀ c key text, (w.cache c).peek key = some text ↔
        (s.cache c).peek key = some text ∨ (s.cache c).peek key = none ∧
          c = (s.system v).cache ∧
          s.disk.TextBelow (s.system v).root (s.node dir).key key text) ∧
      n = {key | s.disk.FileBelow (s.system v).root (s.node dir).key key ∧
        ((MediaType.contentType (Key.extension key)).2 &&
          ((w.cache (s.system v).cache).peek key).isSome) = true}.ncard ∧
      (∀ files', files'.Perm files → (t.load files').1 = n ∧
        ∀ c key, ((t.load files').2.cache c).peek key = (w.cache c).peek key) ∧
      ∃ w', (∀ more, w.perform (.warm (bound + more) dir) = some (.count n, w')) ∧
        w' = { w with caches := w'.caches, log := w'.log } ∧
        ∀ c, (w'.cache c).entries = (w.cache c).entries ∧
          (w'.cache c).writes = (w.cache c).writes := by
  have faithful := (Faithful.mounted reach mounted).run legible still ran
  have sound := faithful.sound
  have there : v < s.systems.size := handed.system ▸ (sound.made dir handed.known).system
  obtain ⟨bound, files, t, walked⟩ := walk_ends reach mounted still legible ran handed
  have looks := collect_goes (walked 0)
  have caches (c : Nat) : t.cache c = s.cache c := by
    rw [Server.cache, collect_caches (walked 0), ← Server.cache]
  obtain ⟨_, same, faithfulThen, found⟩ :=
    collect_finds legible faithful (.one handed) (walked 0)
  rw [List.nil_append] at same
  subst same
  obtain ⟨root, cache, _⟩ := looks.system_kept there
  have key := (looks.became handed.known).key
  have keeps : t.Keeps (t.system v).cache := by
    rw [cache]
    exact Keeps.goes ⟨sound.cache v there, memory⟩ looks
  have keepsAll (q : Nat) (mem : q ∈ files) : t.Keeps (t.cacheOf q) := by
    rw [cacheOf, (found.each q mem).system]
    exact keeps
  obtain ⟨texts, count⟩ := found.load faithfulThen keeps
  have exact := found.exact
  simp only [List.mem_singleton, exists_eq_left] at exact
  rw [root, key] at exact
  refine ⟨bound, files, t, (t.load files).1, _,
    fun more => ⟨walked more, perform_warm handed.known (walked more)⟩, found.once, ?_, ?_, ?_,
    fun files' => found.load_perm faithfulThen keeps, ?_⟩
  · intro k
    rw [faithful.disk, ← exact k, List.mem_map]
  · intro c k text
    have loaded := texts c k text
    rw [caches, root, cache, key] at loaded
    rw [faithful.disk]
    exact loaded
  · rw [root, cache, key] at count
    rw [faithful.disk]
    exact count
  · obtain ⟨w', again, asks⟩ := warm_again sound handed.known walked keepsAll found.once
      (.one (.note _) trivial trivial)
    exact ⟨w', again, asks_kept asks⟩

end

theorem legible_siteDisk : siteDisk.1.AllLegible := by
  have bare : Tree.bare.1.AllLegible := fun _ _ none => nomatch none
  have inRoot (text : String) (mem : text ∈ ["x.txt", "docs", "x.html", "X.txt"]) :
      Disk.Legible (Utf8.ofText text) := ⟨text, rfl, plain_siteDisk.1 text mem⟩
  have inDocs (text : String) (mem : text ∈ ["y.txt", "z.bin"]) :
      Disk.Legible (Utf8.ofText text) := ⟨text, rfl, plain_siteDisk.2 text mem⟩
  exact bare.put (inRoot "x.txt" (by decide)) _ _ |>.put (inRoot "docs" (by decide)) _ _
    |>.put (inDocs "y.txt" (by decide)) _ _ |>.put (inDocs "z.bin" (by decide)) _ _
    |>.put (inRoot "x.html" (by decide)) _ _ |>.put (inRoot "X.txt" (by decide)) _ _

/-- The files below the root of the site. -/
theorem fileBelow_siteDisk {key : String} : siteDisk.1.FileBelow "/" "" key ↔
    key ∈ ["x.txt", "docs/y.txt", "docs/z.bin", "x.html", "X.txt"] := by
  have root : Key.below "/" "" = "/" := by decide
  have docs : Key.below "/" "docs/" = "/docs/" := by decide
  have inner : siteDisk.1.FileBelow "/" "docs/" key ↔ key = "docs/y.txt" ∨ key = "docs/z.bin" := by
    rw [Disk.fileBelow_iff (by rw [docs]; exact names_siteDisk.2), docs, entries_siteDisk.2]
    simp
  rw [Disk.fileBelow_iff (by rw [root]; exact names_siteDisk.1), root, entries_siteDisk.1]
  simp [inner, or_assoc]

theorem read_siteDisk :
    siteDisk.1.read (Utf8.ofText "/x.txt") = .ok (Utf8.encode ['h', 'i']) ∧
    siteDisk.1.read (Utf8.ofText "/docs/y.txt") = .ok (Utf8.encode ['y', 'o']) ∧
    siteDisk.1.read (Utf8.ofText "/x.html") = .ok (Utf8.encode ['<', 'p', '>']) ∧
    siteDisk.1.read (Utf8.ofText "/X.txt") = .ok (Utf8.encode ['H', 'I']) :=
  ⟨by cbv, by cbv, by cbv, by cbv⟩

attribute [local instance] MediaTypes.familiar

/-- The texts below the root of the site. The file `docs/z.bin` is none. -/
theorem textBelow_siteDisk :
    siteDisk.1.TextBelow "/" "" "x.txt" "hi\n" ∧
    siteDisk.1.TextBelow "/" "" "docs/y.txt" "yo\n" ∧
    siteDisk.1.TextBelow "/" "" "x.html" "<p>\n" ∧
    siteDisk.1.TextBelow "/" "" "X.txt" "HI\n" := by
  have x : Key.below "/" "x.txt" = "/x.txt" := by decide
  have y : Key.below "/" "docs/y.txt" = "/docs/y.txt" := by decide
  have page : Key.below "/" "x.html" = "/x.html" := by decide
  have capital : Key.below "/" "X.txt" = "/X.txt" := by decide
  obtain ⟨r₁, r₂, r₃, r₄⟩ := read_siteDisk
  refine ⟨⟨fileBelow_siteDisk.mpr (by decide), by decide, _, x ▸ r₁, by decide⟩,
    ⟨fileBelow_siteDisk.mpr (by decide), by decide, _, y ▸ r₂, by decide⟩,
    ⟨fileBelow_siteDisk.mpr (by decide), by decide, _, page ▸ r₃, by decide⟩,
    ⟨fileBelow_siteDisk.mpr (by decide), by decide, _, capital ▸ r₄, by decide⟩⟩

/-- A warm-up of the root of the site loads the texts there and in the folder, and counts them; the
octets are not loaded. -/
theorem site_loaded : ∃ s bound w,
    (start siteDisk).run [.mount "/" none {}, .root 0] = some s ∧
    s.perform (.warm bound 0) = some (.count 4, w) ∧
    (w.cache 0).peek "x.txt" = some "hi\n" ∧ (w.cache 0).peek "docs/y.txt" = some "yo\n" ∧
    (w.cache 0).peek "x.html" = some "<p>\n" ∧ (w.cache 0).peek "X.txt" = some "HI\n" ∧
    (w.cache 0).peek "docs/z.bin" = none := by
  obtain ⟨s, ran, disk, _, nodes, caches, root, ofCache, _, _, node⟩ :=
    start_mounted absoluteRoot_siteDisk
  obtain ⟨s₁, mounted⟩ : ∃ s₁, (start siteDisk).perform (.mount "/" none {}) =
      some (.system 0, s₁) := ⟨_, rfl⟩
  have ran' : s₁.run [.root 0] = some s := (run_cons_of mounted).symm.trans ran
  have still : s₁.Undisturbed 0 [.root 0] := by
    refine undisturbed_of_looks ?_ (by rw [owners_mount mounted]; exact Nat.one_ne_zero)
    intro c mem e kind
    rw [List.mem_singleton.mp mem] at kind
    exact kind
  have legible : s₁.disk.AllLegible := by
    rw [(perform_mount mounted).2.2.1]
    exact legible_siteDisk
  have handed : s.Handed 0 true 0 := ⟨by omega, by rw [node], by rw [node]⟩
  have memory : s.cache 0 = .memory := by
    rw [Server.cache, caches]
    rfl
  obtain ⟨bound, files, t, n, w, ended, _, _, texts, count, _⟩ :=
    warm_loads_texts ⟨siteDisk, [], rfl⟩ mounted still legible ran' handed
      (by rw [ofCache, memory]; rfl)
  rw [ofCache, root, node, disk] at texts count
  have loaded (key text : String) :
      (w.cache 0).peek key = some text ↔ siteDisk.1.TextBelow "/" "" key text := by
    have none : (s.cache 0).peek key = none := by
      rw [memory]
      rfl
    rw [texts, none]
    simp
  obtain ⟨x, y, page, capital⟩ := textBelow_siteDisk
  rw [← loaded] at x y page capital
  have octets : (MediaType.contentType (Key.extension "docs/z.bin")).2 = false := by decide
  have unread : (w.cache 0).peek "docs/z.bin" = none := by
    rw [Option.eq_none_iff_forall_ne_some]
    intro text there
    have type := ((loaded _ _).mp there).type
    rw [octets] at type
    cases type
  have counted : {key | siteDisk.1.FileBelow "/" "" key ∧
      ((MediaType.contentType (Key.extension key)).2 && ((w.cache 0).peek key).isSome) = true} =
      ({"x.txt", "docs/y.txt", "x.html", "X.txt"} : Finset String) := by
    ext key
    simp only [fileBelow_siteDisk, Set.mem_ofPred_eq, Finset.coe_insert, Finset.coe_singleton,
      Set.mem_insert_iff, Set.mem_singleton_iff, List.mem_cons, List.not_mem_nil, or_false]
    constructor
    · rintro ⟨rfl | rfl | rfl | rfl | rfl, read⟩
      · exact .inl rfl
      · exact .inr (.inl rfl)
      · rw [octets] at read
        cases read
      · exact .inr (.inr (.inl rfl))
      · exact .inr (.inr (.inr rfl))
    · rintro (rfl | rfl | rfl | rfl)
      · exact ⟨by simp, by rw [x]; decide⟩
      · exact ⟨by simp, by rw [y]; decide⟩
      · exact ⟨by simp, by rw [page]; decide⟩
      · exact ⟨by simp, by rw [capital]; decide⟩
  rw [counted, Set.ncard_coe_finset] at count
  have four : n = 4 := count.trans (by decide)
  rw [four] at ended
  exact ⟨s, bound, w, ran, (ended 0).2, x, y, page, capital, unread⟩

end Server

end Docroot
