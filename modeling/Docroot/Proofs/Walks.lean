import Docroot.Proofs.FolderContents
import Docroot.Proofs.WarmUp

/-!
What a walk finds.

`Disk.FileBelow` says what is below a folder, by the keys and by nothing but the disk. A walk goes
through listings, some of which were made long before. As long as the disk stays as it is, every
listing reflects it (`Server.Faithful`), so a walk finds the files below its folders. It finds each
of them once: of the folders that are pending, none is below another, and a file in a folder is in
none of the folders there.
-/

namespace Docroot

namespace Key

/-- Neither of two keys begins with the other. -/
def Apart (a b : String) : Prop := ¬ a.toList <+: b.toList ∧ ¬ b.toList <+: a.toList

/-- What begins with a key is apart from all that the key is apart from. -/
theorem Apart.longer {a b key : String} (apart : Apart a b) (begins : a.toList <+: key.toList) :
    Apart key b := by
  constructor
  · intro before
    exact apart.1 (begins.trans before)
  · intro before
    rcases List.prefix_or_prefix_of_prefix begins before with first | second
    · exact apart.1 first
    · exact apart.2 second

/-- A text without slashes does not begin with one that is shut by a slash. -/
theorem not_prefix_of_slash {x y : List Char} (plain : '/' ∉ x) : ¬ y ++ ['/'] <+: x := by
  intro begins
  exact plain (begins.subset (by simp))

/-- Nor does it if it is shut by a slash itself, unless it is the same. -/
theorem eq_of_prefix_slash {x y : List Char} (plain : '/' ∉ x)
    (begins : y ++ ['/'] <+: x ++ ['/']) : y = x := by
  rcases List.prefix_concat_iff.mp begins with same | shorter
  · exact List.append_cancel_right same
  · exact absurd shorter (not_prefix_of_slash plain)

end Key

namespace Disk

variable {d : Disk} {root place folder key : String} {isFolder : Bool}

/-- A file below a folder, by their keys: it is an entry of the folder and no folder, or it is below
a folder that is one. What is a folder is looked up by its path, as in `entryOf`, so that links are
followed and an entry whose path is too long to be looked up is a file. A folder that cannot be
listed has no entries. -/
inductive FileBelow (d : Disk) (root : String) : String → String → Prop
  | file {folder key : String} :
      d.HasEntry (Key.below root folder) folder key false → FileBelow d root folder key
  | folder {folder inner key : String} :
      d.HasEntry (Key.below root folder) folder inner true → FileBelow d root inner key →
      FileBelow d root folder key

/-- The files below a folder are those among its entries, and those below its folders. -/
theorem fileBelow_iff {texts : List String}
    (listed : d.list (Utf8.ofText (Key.below root folder)) = .ok (texts.map Utf8.ofText)) :
    d.FileBelow root folder key ↔ ∃ e ∈ texts.map (d.entryOf (Key.below root folder) folder),
      e.2 = false ∧ key = e.1 ∨ e.2 = true ∧ d.FileBelow root e.1 key := by
  constructor
  · intro below
    cases below with
    | file entry => exact ⟨_, (hasEntry_iff listed).mp entry, .inl ⟨rfl, rfl⟩⟩
    | folder entry inside => exact ⟨_, (hasEntry_iff listed).mp entry, .inr ⟨rfl, inside⟩⟩
  · rintro ⟨⟨inner, isFolder⟩, mem, ⟨rfl, rfl⟩ | ⟨rfl, inside⟩⟩
    · exact .file ((hasEntry_iff listed).mpr mem)
    · exact .folder ((hasEntry_iff listed).mpr mem) inside

/-- Every name on the disk is a plain text. -/
def AllLegible (d : Disk) : Prop := ∀ l n, n ∈ d.namesIn l → Legible n

theorem AllLegible.put (legible : d.AllLegible) {name : Name} (new : Legible name) (e : Entry)
    (around : Location) : (d.put e (some (name :: around))).AllLegible := by
  intro l n mem
  rcases names_put mem with rfl | old
  · exact new
  · exact legible l n old

theorem AllLegible.readable (legible : d.AllLegible) (place : String) : d.Readable place := by
  intro names listed name mem
  obtain ⟨l, there⟩ := mem_of_list listed mem
  exact legible l name there

/-- The key of an entry is that of the folder with the name behind it, and a slash if it is one. -/
theorem HasEntry.key_eq (legible : d.AllLegible) (entry : d.HasEntry place folder key isFolder) :
    ∃ text : List Char, '/' ∉ text ∧
      key.toList = folder.toList ++ text ++ if isFolder then ['/'] else [] := by
  obtain ⟨names, text, listed, mem, same⟩ := entry
  obtain ⟨text', name, plain⟩ := legible.readable place names listed _ mem
  obtain rfl := Utf8.ofText_injective name
  refine ⟨text.toList, ?_, ?_⟩
  · intro slash
    have separator := plain.clean_text.separators '/' slash
    cases separator
  · obtain ⟨rfl, rfl⟩ := Prod.mk.inj same
    rw [String.toList_append, String.toList_append]
    split <;> rfl

theorem HasEntry.begins (legible : d.AllLegible) (entry : d.HasEntry place folder key isFolder) :
    folder.toList <+: key.toList := by
  obtain ⟨text, _, same⟩ := entry.key_eq legible
  rw [same, List.append_assoc]
  exact List.prefix_append _ _

theorem FileBelow.begins (legible : d.AllLegible) (below : d.FileBelow root folder key) :
    folder.toList <+: key.toList := by
  induction below with
  | file entry => exact entry.begins legible
  | folder entry _ ih => exact (entry.begins legible).trans ih

/-- Two folders in a folder are apart. -/
theorem HasEntry.apart {key' : String} (legible : d.AllLegible)
    (entry : d.HasEntry place folder key true) (entry' : d.HasEntry place folder key' true)
    (other : key ≠ key') : Key.Apart key key' := by
  obtain ⟨x, plain, same⟩ := entry.key_eq legible
  obtain ⟨y, plain', same'⟩ := entry'.key_eq legible
  rw [ne_eq, ← String.toList_inj] at other
  rw [Key.Apart, same, same', if_pos rfl, List.append_assoc, List.append_assoc,
    List.prefix_append_right_inj, List.prefix_append_right_inj]
  constructor
  · intro begins
    rw [same, same', Key.eq_of_prefix_slash plain' begins] at other
    exact other rfl
  · intro begins
    rw [same, same', Key.eq_of_prefix_slash plain begins] at other
    exact other rfl

/-- A file in a folder is in no folder there. -/
theorem HasEntry.not_inside {inner : String} (legible : d.AllLegible)
    (entry : d.HasEntry place folder key false) (entry' : d.HasEntry place folder inner true) :
    ¬ inner.toList <+: key.toList := by
  obtain ⟨x, plain, same⟩ := entry.key_eq legible
  obtain ⟨y, _, same'⟩ := entry'.key_eq legible
  rw [same, same', if_pos rfl, if_neg Bool.false_ne_true, List.append_nil, List.append_assoc,
    List.prefix_append_right_inj]
  exact Key.not_prefix_of_slash plain

end Disk

namespace Server

variable {s t u : Server} {d : Disk} {v p q : Nat} {l pending found : List Nat} {root : String}

/-! ## Listings on a disk that stays as it is -/

/-- What a file system knows of its disk is true of the disk `d`: its paths are missing only where
nothing is there, and every folder that was listed shows what is in it. -/
structure Faithful (s : Server) (d : Disk) (v : Nat) : Prop where
  sound : s.Sound
  ranked : s.Ranked
  disk : s.disk = d
  alive : (s.system v).owners ≠ 0
  missing : ∀ q, q < s.nodes.size → (s.node q).system = v → (s.node q).present = false →
    d.exists? (Utf8.ofText (s.node q).diskPath) = false
  listed : ∀ q l, (s.node q).system = v → (s.node q).isFolder = true →
    (s.node q).listing = some l → s.Reflects l d (s.node q).diskPath (s.node q).key

section

variable [MediaTypes]

theorem Faithful.perform {c : Call} {a : Answer} (faithful : s.Faithful d v)
    (legible : d.AllLegible) (h : s.perform c = some (a, t)) (disk : t.disk = d)
    (alive : (t.system v).owners ≠ 0) : t.Faithful d v := by
  have goes := perform_goes h
  have missing (q : Nat) (known : q < t.nodes.size) (system : (t.node q).system = v)
      (absent : (t.node q).present = false) :
      d.exists? (Utf8.ofText (t.node q).diskPath) = false := by
    rcases Nat.lt_or_ge q s.nodes.size with old | new
    · have became := goes.became old
      rw [became.diskPath]
      refine faithful.missing q old (became.system.symm.trans system) ?_
      rw [Bool.eq_false_iff]
      intro present
      rw [became.present present] at absent
      cases absent
    · rw [← faithful.disk, ← perform_present h new known, absent]
  have ranked := (faithful.ranked.scans faithful.sound (perform_scans h)).2
  refine ⟨faithful.sound.goes goes, ranked, disk, alive, missing, ?_⟩
  intro q l system folder listed
  cases before : (s.node q).listing with
  | some l' =>
    have known := s.known_of_listing before
    have became := goes.became known
    obtain rfl : l' = l := Option.some.inj ((became.listing l' before).symm.trans listed)
    have reflects := faithful.listed q l' (became.system.symm.trans system)
      (became.isFolder.symm.trans folder) before
    rw [became.key, became.diskPath]
    exact reflects.goes (fun r mem => (faithful.sound.listed q l' r before mem).1) goes
  | none =>
    have known := t.known_of_listing listed
    have reflects := perform_reflects faithful.sound h before listed folder
      (by rw [system]; exact faithful.alive)
      (by rw [faithful.disk]; exact missing q known system)
      (by rw [faithful.disk]; exact legible.readable _)
    rw [faithful.disk] at reflects
    exact reflects

theorem Faithful.listing (faithful : s.Faithful d v) (legible : d.AllLegible)
    (known : p < s.nodes.size) : (s.listing p).2.Faithful d v := by
  have looks := listing_goes s p
  refine faithful.perform legible (perform_children_all known) ?_ ?_
  · rw [looks.disk_kept, faithful.disk]
  · rw [looks.owners_kept]
    exact faithful.alive

/-- No path is one of a file system that was just mounted. -/
theorem mount_unused {cache : Option Nat} {config : Config} (sound : s.Sound)
    (h : s.perform (.mount root cache config) = some (.system v, t)) (known : q < t.nodes.size) :
    (t.node q).system ≠ v := by
  obtain ⟨rfl, _, _, nodes, _⟩ := perform_mount h
  rw [nodes] at known
  rw [node, nodes, ← node]
  exact Nat.ne_of_lt (sound.made q known).system

/-- A file system without paths knows nothing that is not true. -/
theorem Faithful.mounted {cache : Option Nat} {config : Config} (reach : Reachable s)
    (h : s.perform (.mount root cache config) = some (.system v, t)) : t.Faithful t.disk v := by
  have unused (q : Nat) (known : q < t.nodes.size) := mount_unused reach.sound h known
  have reachThen := reach.perform h
  refine ⟨reachThen.sound, reachThen.ranked, rfl, ?_, ?_, ?_⟩
  · obtain ⟨rfl, _⟩ := perform_mount h
    rw [owners_mount h]
    exact Nat.one_ne_zero
  · intro q known system
    exact absurd system (unused q known)
  · intro q l system _ listed
    exact absurd system (unused q (t.known_of_listing listed))

/-- Along some calls the disk stays as it is, and the file system has a handle. -/
def Undisturbed (s : Server) (v : Nat) (calls : List Call) : Prop :=
  ∀ before after u, calls = before ++ after → s.run before = some u →
    u.disk = s.disk ∧ (u.system v).owners ≠ 0

theorem undisturbed_of_looks {calls : List Call} (looks : ∀ c ∈ calls, ∀ e, c.may e → e.Looks)
    (alive : (s.system v).owners ≠ 0) : s.Undisturbed v calls := by
  intro before after u split led
  have goes : Goes Effect.Looks s u := by
    refine run_goes led ?_
    intro c mem e kind
    exact looks c (split ▸ List.mem_append_left after mem) e kind
  refine ⟨goes.disk_kept, ?_⟩
  rw [goes.owners_kept]
  exact alive

theorem Undisturbed.rest {c : Call} {a : Answer} {rest : List Call}
    (still : s.Undisturbed v (c :: rest)) (h : s.perform c = some (a, t)) :
    t.disk = s.disk ∧ (t.system v).owners ≠ 0 ∧ t.Undisturbed v rest := by
  obtain ⟨disk, alive⟩ := still [c] rest t rfl (run_cons_of h)
  refine ⟨disk, alive, ?_⟩
  intro before after u split led
  rw [disk]
  exact still (c :: before) after u (by rw [split]; rfl) ((run_cons_of h).trans led)

/-- What is known stays true. -/
theorem Faithful.run {calls : List Call} (faithful : s.Faithful d v) (legible : d.AllLegible)
    (still : s.Undisturbed v calls) (ran : s.run calls = some t) : t.Faithful d v := by
  induction calls generalizing s with
  | nil =>
    cases ran
    exact faithful
  | cons c rest ih =>
    obtain ⟨a, u, first, ran⟩ := run_cons ran
    obtain ⟨disk, alive, still⟩ := still.rest first
    exact ih (faithful.perform legible first (disk.trans faithful.disk) alive) still ran

end

/-! ## What a walk finds -/

/-- A path that a file system handed out, of a folder or of a file. -/
structure Handed (s : Server) (v : Nat) (isFolder : Bool) (p : Nat) : Prop where
  known : p < s.nodes.size
  system : (s.node p).system = v
  kind : (s.node p).isFolder = isFolder

theorem Handed.goes {P : Effect → Prop} {isFolder : Bool} (handed : s.Handed v isFolder p)
    (h : Goes P s t) : t.Handed v isFolder p where
  known := Nat.lt_of_lt_of_le handed.known h.size_nodes
  system := (h.became handed.known).system.trans handed.system
  kind := (h.became handed.known).isFolder.trans handed.kind

section Listed

variable (faithful : s.Faithful d v) (handed : s.Handed v true p)
  (listed : (s.node p).listing = some l)

include faithful handed listed

theorem Handed.member (mem : q ∈ l) : s.Handed v (s.node q).isFolder q := by
  obtain ⟨known, system⟩ := faithful.sound.listed p l q listed mem
  exact ⟨known, system.trans handed.system, rfl⟩

theorem Handed.reflects :
    s.Reflects l d (Key.below (s.system v).root (s.node p).key) (s.node p).key := by
  have reflects := faithful.listed p l handed.system handed.kind listed
  rw [(faithful.sound.made p handed.known).diskPath, handed.system] at reflects
  exact reflects

/-- A path in the listing of a folder stands for one of the folder's entries. -/
theorem Handed.entry {isFolder : Bool} (mem : q ∈ l) (kind : (s.node q).isFolder = isFolder) :
    d.HasEntry (Key.below (s.system v).root (s.node p).key) (s.node p).key (s.node q).key
      isFolder :=
  (handed.reflects faithful listed _ _).mp ⟨q, mem, rfl, kind⟩

end Listed

/-- What a walk still has to go through: folders of a file system, none of them below another. -/
structure Pending (s : Server) (v : Nat) (pending : List Nat) : Prop where
  each : ∀ p ∈ pending, s.Handed v true p
  apart : pending.Pairwise fun p q => Key.Apart (s.node p).key (s.node q).key

theorem Pending.one (handed : s.Handed v true p) : s.Pending v [p] where
  each _ mem := List.mem_singleton.mp mem ▸ handed
  apart := List.pairwise_singleton _ _

/-- It stays so, since paths keep their keys. -/
theorem Pending.goes {P : Effect → Prop} (still : s.Pending v pending)
    (h : Goes P s t) : t.Pending v pending where
  each p mem := (still.each p mem).goes h
  apart := by
    refine still.apart.imp_of_mem ?_
    intro p q memP memQ apart
    rw [(h.became (still.each p memP).known).key, (h.became (still.each q memQ).known).key]
    exact apart

/-- The folders in a folder are gone through in its place. They are apart, and apart from all that
the folder around is apart from. -/
theorem Pending.next (legible : d.AllLegible) (faithful : s.Faithful d v)
    (still : s.Pending v (p :: pending)) (listed : (s.node p).listing = some l) :
    s.Pending v ((l.filter fun q => (s.node q).isFolder).reverse ++ pending) := by
  have handed := still.each p List.mem_cons_self
  obtain ⟨apart, rest⟩ := List.pairwise_cons.mp still.apart
  constructor
  · intro q mem
    rcases List.mem_append.mp mem with sub | later
    · obtain ⟨mem, isFolder⟩ := List.mem_filter.mp (List.mem_reverse.mp sub)
      have found := handed.member faithful listed mem
      rw [isFolder] at found
      exact found
    · exact still.each q (List.mem_cons_of_mem _ later)
  · rw [List.pairwise_append, List.pairwise_reverse]
    refine ⟨?_, rest, ?_⟩
    · have distinct := List.pairwise_map.mp (faithful.ranked p l listed).distinct
      refine (distinct.filter _).imp_of_mem ?_
      intro q r memQ memR other
      obtain ⟨memQ, isFolder⟩ := List.mem_filter.mp memQ
      obtain ⟨memR, isFolder'⟩ := List.mem_filter.mp memR
      exact (handed.entry faithful listed memR isFolder').apart legible
        (handed.entry faithful listed memQ isFolder) (Ne.symm other)
    · intro q memQ r memR
      obtain ⟨memQ, isFolder⟩ := List.mem_filter.mp (List.mem_reverse.mp memQ)
      exact (apart r memR).longer ((handed.entry faithful listed memQ isFolder).begins legible)

/-- Paths that stand for the files below some folders of a file system, one path for each. -/
structure Found (t : Server) (d : Disk) (v : Nat) (pending found : List Nat) : Prop where
  each : ∀ q ∈ found, t.Handed v false q
  once : (found.map fun q => (t.node q).key).Nodup
  exact : ∀ key, (∃ q ∈ found, (t.node q).key = key) ↔
    ∃ p ∈ pending, d.FileBelow (t.system v).root (t.node p).key key

theorem Found.nothing (t : Server) (d : Disk) (v : Nat) : t.Found d v [] [] where
  each _ mem := absurd mem List.not_mem_nil
  once := .nil
  exact key := by simp

/-- To find what is below a folder, it takes its files and what is below the folders in it. -/
theorem Found.step (legible : d.AllLegible) (faithful : t.Faithful d v)
    (still : t.Pending v (p :: pending)) (listed : (t.node p).listing = some l)
    (rest : t.Found d v ((l.filter fun q => (t.node q).isFolder).reverse ++ pending) found) :
    t.Found d v (p :: pending) (l.filter (fun q => !(t.node q).isFolder) ++ found) := by
  have handed := still.each p List.mem_cons_self
  have file (q : Nat) (mem : q ∈ l.filter fun q => !(t.node q).isFolder) :
      q ∈ l ∧ (t.node q).isFolder = false := by
    simpa using mem
  have folder (q : Nat) (mem : q ∈ (l.filter fun q => (t.node q).isFolder).reverse) :
      d.HasEntry (Key.below (t.system v).root (t.node p).key) (t.node p).key (t.node q).key
        true := by
    obtain ⟨mem, isFolder⟩ := List.mem_filter.mp (List.mem_reverse.mp mem)
    exact handed.entry faithful listed mem isFolder
  refine ⟨?_, ?_, ?_⟩
  · intro q mem
    rcases List.mem_append.mp mem with here | later
    · obtain ⟨mem, isFile⟩ := file q here
      have found := handed.member faithful listed mem
      rw [isFile] at found
      exact found
    · exact rest.each q later
  · rw [List.map_append, List.nodup_append]
    refine ⟨?_, rest.once, ?_⟩
    · exact (faithful.ranked p l listed).distinct.sublist (List.filter_sublist.map _)
    -- A file in this folder is below none of the folders in it, and below none that is apart.
    · rintro key here _ later rfl
      obtain ⟨q, mem, rfl⟩ := List.mem_map.mp here
      obtain ⟨mem, isFile⟩ := file q mem
      have entry := handed.entry faithful listed mem isFile
      obtain ⟨r, mem', below⟩ := (rest.exact _).mp (List.mem_map.mp later)
      have begins := below.begins legible
      rcases List.mem_append.mp mem' with sub | other
      · exact entry.not_inside legible (folder r sub) begins
      · have apart := (List.pairwise_cons.mp still.apart).1 r other
        exact (apart.longer (entry.begins legible)).2 begins
  · intro key
    constructor
    · rintro ⟨q, mem, rfl⟩
      rcases List.mem_append.mp mem with here | later
      · obtain ⟨mem, isFile⟩ := file q here
        exact ⟨p, List.mem_cons_self, .file (handed.entry faithful listed mem isFile)⟩
      · obtain ⟨r, mem, below⟩ := (rest.exact _).mp ⟨q, later, rfl⟩
        rcases List.mem_append.mp mem with sub | other
        · exact ⟨p, List.mem_cons_self, .folder (folder r sub) below⟩
        · exact ⟨r, List.mem_cons_of_mem _ other, below⟩
    · rintro ⟨r, mem, below⟩
      have later (r : Nat) (mem : r ∈ (l.filter fun q => (t.node q).isFolder).reverse ++ pending)
          (below : d.FileBelow (t.system v).root (t.node r).key key) :
          ∃ q ∈ l.filter (fun q => !(t.node q).isFolder) ++ found, (t.node q).key = key := by
        obtain ⟨q, mem, same⟩ := (rest.exact key).mpr ⟨r, mem, below⟩
        exact ⟨q, List.mem_append_right _ mem, same⟩
      have reflects := handed.reflects faithful listed
      rcases List.mem_cons.mp mem with rfl | other
      · cases below with
        | file entry =>
          obtain ⟨q, mem, same, isFile⟩ := (reflects _ _).mpr entry
          exact ⟨q, List.mem_append_left _ (List.mem_filter.mpr ⟨mem, by simpa using isFile⟩), same⟩
        | folder entry below =>
          obtain ⟨q, mem, rfl, isFolder⟩ := (reflects _ _).mpr entry
          refine later q (List.mem_append_left _ ?_) below
          exact List.mem_reverse.mpr (List.mem_filter.mpr ⟨mem, isFolder⟩)
      · exact later r (List.mem_append_right _ other) below

/-- Paths keep their kinds, so the folders and the files in a list stay the same. -/
theorem kinds_kept {P : Effect → Prop} (known : ∀ q ∈ l, q < s.nodes.size) (h : Goes P s t) :
    (l.filter fun q => (s.node q).isFolder) = l.filter (fun q => (t.node q).isFolder) ∧
    (l.filter fun q => !(s.node q).isFolder) = l.filter fun q => !(t.node q).isFolder := by
  have kind (q : Nat) (mem : q ∈ l) : (s.node q).isFolder = (t.node q).isFolder :=
    (h.became (known q mem)).isFolder.symm
  constructor
  · exact List.filter_congr kind
  · exact List.filter_congr fun q mem => by rw [kind q mem]

/-- **A walk finds the files below its folders, each of them once.** -/
theorem collect_finds [MediaTypes] {bound : Nat} {files files' : List Nat} (legible : d.AllLegible)
    (faithful : s.Faithful d v) (still : s.Pending v pending)
    (done : collect bound s pending files = some (files', t)) :
    ∃ found, files' = files ++ found ∧ t.Faithful d v ∧ t.Found d v pending found := by
  fun_induction collect bound s pending files with
  | case1 bound s files =>
    cases done
    exact ⟨[], by rw [List.append_nil], faithful, .nothing _ _ _⟩
  | case2 => cases done
  | case3 bound s p pending files l u here folders others ih =>
    rw [children_all] at here
    have known := (still.each p List.mem_cons_self).known
    have looks := listing_goes s p
    have faithfulThen := faithful.listing legible known
    have listed := listing_node known
    rw [here] at looks faithfulThen listed
    have stillThen := still.goes looks
    obtain ⟨found, rfl, faithfulEnd, rest⟩ :=
      ih faithfulThen (stillThen.next legible faithfulThen listed) done
    refine ⟨others ++ found, by rw [List.append_assoc], faithfulEnd, ?_⟩
    -- Later listings change neither this one nor the kinds of the paths in it.
    have later := collect_goes done
    have listed' := (later.became (u.known_of_listing listed)).listing l listed
    obtain ⟨kinds, kinds'⟩ :=
      kinds_kept (fun q mem => (faithfulThen.sound.listed p l q listed mem).1) later
    rw [show folders = _ from kinds] at rest
    rw [show others = _ from kinds']
    exact .step legible faithfulEnd (stillThen.goes later) listed' rest

end Server

end Docroot
