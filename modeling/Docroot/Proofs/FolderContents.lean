import Docroot.Proofs.Lifetime
import Docroot.Proofs.Listings

/-!
What a listing holds.

Where the names in a folder are plain texts, the key of an entry is the key of the folder with the
name behind it, and a slash if the entry is a folder. Two entries never share a key, and no key is
that of anything else in the folder. So a listing of the folder is its entries: one path for each,
and nothing more.
-/

namespace Docroot

namespace Utf8

theorem ofText_injective : Function.Injective ofText := by
  intro a b same
  exact String.toList_inj.mp (encode_injective same)

end Utf8

namespace Key

/-- The key of a folder in a folder is that of a file of this name, with a slash behind it. -/
theorem normalize_join_folder (raw : String) {s : Segment} (clean : Clean s) :
    normalize (join (normalize raw true) (String.ofList s)) true =
      normalize raw true ++ String.ofList s ++ "/" := by
  rw [normalize, segments_join raw clean, normalize, render_folder, render_folder,
    List.flatMap_append, String.ofList_append, String.append_assoc]
  simp [String.ofList_append]

end Key

namespace Disk

variable {d : Disk} {path : Utf8.Bytes} {names : List Name}

/-- A plain name that is a text. -/
def Legible (n : Name) : Prop := ∃ text, n = Utf8.ofText text ∧ Plain n

/-- The names in the folder at a place are plain texts. -/
def Readable (d : Disk) (place : String) : Prop :=
  ∀ names, d.list (Utf8.ofText place) = .ok names → ∀ name ∈ names, Legible name

/-- The key and the kind of an entry of the folder at a place, by its name. The kind is what a
look-up of the path of the entry finds: links are followed, and an entry whose path cannot be looked
up, because a link leads nowhere or because the path is not shorter than `pathMax`, counts as no
folder. `isFolder_entryPath_iff` compares this with what is at the location of the entry. -/
def entryOf (d : Disk) (place folder text : String) : String × Bool :=
  let isFolder := d.isFolder (entryPath (Utf8.ofText place) (Utf8.ofText text))
  (folder ++ text ++ if isFolder then "/" else "", isFolder)

/-- The folder at a place has an entry with this key and of this kind, where the kind is that of
`entryOf`, found by the path of the entry. -/
def HasEntry (d : Disk) (place folder key : String) (isFolder : Bool) : Prop :=
  ∃ names text, d.list (Utf8.ofText place) = .ok names ∧ Utf8.ofText text ∈ names ∧
    d.entryOf place folder text = (key, isFolder)

theorem entryPath_split (path : Utf8.Bytes) (n : Name) :
    entryPath path n = path ++ n ∨ entryPath path n = path ++ [slash] ++ n := by
  rw [entryPath]
  split
  · exact .inl rfl
  · exact .inr (List.append_cons _ _ _)

theorem endsOpen_entryPath {n : Name} (onward : Onward n) :
    endsOpen (entryPath path n) = false := by
  have last : n.getLast? ≠ some slash := fun same => onward.slash (List.mem_of_getLast? same)
  rcases entryPath_split path n with split | split <;>
    rw [split, endsOpen, List.getLast?_append_of_ne_nil _ onward.ne_nil] <;> simpa using last

/-- The name of an entry is followed from its folder, whatever path leads there. -/
theorem lead_entryPath (tree : d.IsTree) {at' : Location} {n : Name}
    (found : d.find path = .ok (some at', .folder)) (onward : Onward n)
    (short : n.length ≤ nameMax) (noLink : ∀ target, d.at? (n :: at') ≠ some (.link target)) :
    d.lead true (isAbsolute (entryPath path n)) (namesToEntry (entryPath path n)) =
      .ok (some (n :: at')) := by
  obtain ⟨led, there⟩ := find_ok found
  obtain ⟨links, gone, further⟩ := lead_append (lead_namesOf tree led there) there
  have last : d.walk true links at' [n] = .ok (n :: at') := by
    rw [walk, if_neg onward.ne_dot, if_neg onward.ne_dotDot, if_neg (Nat.not_lt.mpr short)]
    split
    · exact if_pos rfl
    · rw [walk]
    · exact if_pos rfl
    · exact absurd ‹_› (noLink _)
  have names : namesToEntry (entryPath path n) = namesOf path ++ [n] := by
    rw [namesToEntry, endsOpen_entryPath onward, namesOf_entryPath onward]
    exact List.append_nil _
  rw [isAbsolute_entryPath onward, names, further, Option.elim_some, last]
  rfl

/-- The kind of an entry that is no link is told by its location, as long as its path is short
enough to be looked up. -/
theorem isFolder_entryPath_iff (tree : d.IsTree) {at' : Location} {n : Name}
    (found : d.find path = .ok (some at', .folder)) (onward : Onward n) (nul : 0 ∉ n)
    (short : n.length ≤ nameMax) (noLink : ∀ target, d.at? (n :: at') ≠ some (.link target)) :
    d.isFolder (entryPath path n) = true ↔
      d.at? (n :: at') = some .folder ∧ (entryPath path n).length < pathMax := by
  have led := lead_entryPath tree found onward short noLink
  have clean : 0 ∉ entryPath path n ∧ entryPath path n ≠ [] := by
    obtain ⟨_, vetted, _⟩ := bind_ok found
    have before := (vet_iff.mp vetted).1
    rcases entryPath_split path n with split | split <;>
      simp [split, before, nul, onward.ne_nil, slash]
  rw [isFolder, stat]
  by_cases fits : (entryPath path n).length < pathMax
  · have vetted := vet_iff.mpr ⟨clean.1, fits, clean.2⟩
    cases here : d.at? (n :: at') with
    | none => simp [find, vetted, led, atPlace?, here, bind, Except.bind]
    | some e =>
      rw [find_of vetted led here]
      cases e <;> simp [fits]
  · have long : vet (entryPath path n) = .error (.os Errno.nameTooLong) := by
      rw [vet, if_neg clean.1, if_pos (Nat.not_lt.mp fits)]
    simp [find, long, fits, bind, Except.bind]

theorem Plain.clean_text {text : String} (plain : Plain (Utf8.ofText text)) :
    Key.Clean text.toList := by
  have clean := plain.clean
  rw [Server.repair_ofText] at clean
  exact clean

/-- No name is in a folder twice. -/
theorem nodup_namesIn (d : Disk) (l : Location) : (d.namesIn l).Nodup := by
  refine d.entries.nodup.filterMap ?_
  intro at₁ at₂ n mem₁ mem₂
  cases at₁ with
  | nil => cases mem₁
  | cons n₁ around₁ =>
    cases at₂ with
    | nil => cases mem₂
    | cons n₂ around₂ =>
      simp only [Option.mem_def, Option.ite_none_right_eq_some, Option.some.injEq] at mem₁ mem₂
      rw [mem₁.1, mem₁.2, mem₂.1, mem₂.2]

theorem nodup_of_list (listed : d.list path = .ok names) : names.Nodup := by
  obtain ⟨place, _, rfl⟩ := find_of_list listed
  cases place with
  | none => exact .nil
  | some l => exact d.nodup_namesIn l

theorem hasEntry_iff {place folder key : String} {isFolder : Bool} {texts : List String}
    (listed : d.list (Utf8.ofText place) = .ok (texts.map Utf8.ofText)) :
    d.HasEntry place folder key isFolder ↔
      (key, isFolder) ∈ texts.map (d.entryOf place folder) := by
  constructor
  · rintro ⟨names, text, listed', mem, entry⟩
    rw [listed] at listed'
    cases listed'
    exact List.mem_map.mpr
      ⟨text, (List.mem_map_of_injective Utf8.ofText_injective).mp mem, entry⟩
  · intro mem
    obtain ⟨text, mem, entry⟩ := List.mem_map.mp mem
    exact ⟨_, text, listed, List.mem_map_of_mem mem, entry⟩

/-- The entries of a folder by their names, once it is known which of them are folders. -/
theorem map_entryOf {place folder : String} {texts : List String} {kinds : List Bool}
    (known : (texts.map fun text =>
      d.isFolder (entryPath (Utf8.ofText place) (Utf8.ofText text))) = kinds) :
    texts.map (d.entryOf place folder) = List.zipWith (fun text (isFolder : Bool) =>
      (folder ++ text ++ if isFolder then "/" else "", isFolder)) texts kinds := by
  rw [← known, List.zipWith_map_right]
  simp [entryOf, List.zipWith_self]

/-- What is listed is there. -/
theorem exists_of_list (listed : d.list path = .ok names) : d.exists? path = true := by
  obtain ⟨place, found, _⟩ := find_of_list listed
  simp only [exists?, stat, found]

end Disk

namespace Server

variable {s t m u : Server} {c : Call} {a : Answer} {p q : Nat} {l : List Nat}

/-- A list of paths stands for what is in the folder at a place. -/
def Reflects (s : Server) (l : List Nat) (d : Disk) (place folder : String) : Prop :=
  ∀ key isFolder, (∃ q ∈ l, (s.node q).key = key ∧ (s.node q).isFolder = isFolder) ↔
    d.HasEntry place folder key isFolder

/-- It goes on to do so, since paths keep their keys and their kinds. -/
theorem Reflects.goes {P : Effect → Prop} {d : Disk} {place folder : String}
    (reflects : s.Reflects l d place folder) (known : ∀ q ∈ l, q < s.nodes.size)
    (h : Goes P s t) : t.Reflects l d place folder := by
  intro key isFolder
  rw [← reflects key isFolder]
  constructor
  · rintro ⟨q, mem, rfl, rfl⟩
    have became := h.became (known q mem)
    exact ⟨q, mem, became.key.symm, became.isFolder.symm⟩
  · rintro ⟨q, mem, rfl, rfl⟩
    have became := h.became (known q mem)
    exact ⟨q, mem, became.key, became.isFolder⟩

theorem entryKey_plain {n : PathNode} {raw text : String} (key : n.key = Key.normalize raw true)
    (plain : Disk.Plain (Utf8.ofText text)) :
    (s.entryKey n (Utf8.ofText text), s.entryIsFolder n (Utf8.ofText text)) =
      s.disk.entryOf n.diskPath n.key text := by
  have clean := plain.clean_text
  rw [Disk.entryOf, entryKey, repair_ofText, entryIsFolder, key]
  cases s.disk.isFolder (Disk.entryPath (Utf8.ofText n.diskPath) (Utf8.ofText text)) with
  | true => rw [Key.normalize_join_folder raw clean, String.ofList_toList, if_pos rfl]
  | false =>
    rw [Key.normalize_join raw clean, String.ofList_toList, if_neg Bool.false_ne_true,
      String.append_empty]

/-- What is registered for an entry has its key and is of its kind. -/
theorem entry_of_lookup (sound : t.Sound) {n : PathNode} {raw text : String} {v : Nat}
    (key : n.key = Key.normalize raw true) (plain : Disk.Plain (Utf8.ofText text))
    (there : t.lookup v (s.entryKey n (Utf8.ofText text)) = some q) :
    s.disk.entryOf n.diskPath n.key text = ((t.node q).key, (t.node q).isFolder) := by
  obtain ⟨known, _, same⟩ := sound.registered _ _ _ there
  have below := (Key.normalize_join_ne raw plain.clean_text
    (s.entryIsFolder n (Utf8.ofText text))).1
  have kind : (t.node q).isFolder = s.entryIsFolder n (Utf8.ofText text) := by
    rw [entryKey, repair_ofText, key] at same
    exact (sound.made q known).isFolder_eq same (by rw [same]; exact below)
  rw [← entryKey_plain key plain, same, kind]

/-- A path in a listing that is made is registered then. -/
theorem listing_lists (new : (s.node p).listing = none) :
    ∀ q ∈ (s.listing p).1, Effect.Lists (s.listing p).2 (s.node p) q := by
  have all := (makeListing_goes s (s.node p)).2
  simp only [listing, new]
  exact all

/-- A listing that is made holds the entries of the folder. -/
theorem listing_reflects (sound : s.Sound) (new : (s.node p).listing = none)
    (folder : (s.node p).isFolder = true) (alive : (s.system (s.node p).system).owners ≠ 0)
    (missing : (s.node p).present = false →
      s.disk.exists? (Utf8.ofText (s.node p).diskPath) = false)
    (readable : s.disk.Readable (s.node p).diskPath) :
    (s.listing p).2.Reflects (s.listing p).1 s.disk (s.node p).diskPath (s.node p).key := by
  intro key isFolder
  have known := s.known_of_isFolder folder
  have soundThen := sound.goes (listing_goes s p)
  have disk := (listing_goes s p).disk_kept
  obtain ⟨raw, shape⟩ := (sound.made p known).key
  rw [folder] at shape
  constructor
  · rintro ⟨q, mem, rfl, rfl⟩
    obtain ⟨_, names, listed, name, mem, there⟩ := listing_lists new q mem
    rw [disk] at listed there
    obtain ⟨text, rfl, plain⟩ := readable names listed name mem
    exact ⟨names, text, listed, mem, entry_of_lookup soundThen shape plain there⟩
  · rintro ⟨names, text, listed, mem, entry⟩
    obtain ⟨text', same, plain⟩ := readable names listed _ mem
    have present : (s.node p).present = true := by
      by_contra absent
      have gone := missing (Bool.eq_false_iff.mpr absent)
      rw [Disk.exists_of_list listed] at gone
      cases gone
    obtain ⟨q, mem, there⟩ := listing_complete sound known new folder present alive listed mem
    rw [entry_of_lookup soundThen shape (same ▸ plain) there, Prod.mk.injEq] at entry
    exact ⟨q, mem, entry⟩

/-- A call that lists a folder keeps its entries. -/
theorem perform_reflects [MediaTypes] (sound : s.Sound) (h : s.perform c = some (a, t))
    (new : (s.node p).listing = none) (listed : (t.node p).listing = some l)
    (folder : (t.node p).isFolder = true) (alive : (s.system (t.node p).system).owners ≠ 0)
    (missing : (t.node p).present = false →
      s.disk.exists? (Utf8.ofText (t.node p).diskPath) = false)
    (readable : s.disk.Readable (t.node p).diskPath) :
    t.Reflects l s.disk (t.node p).diskPath (t.node p).key := by
  obtain ⟨m, before, known, unlisted, rfl, after⟩ := perform_lists h new listed
  have became := ((listing_goes m p).trans after.goes).became known
  have kept := ((listing_goes m p).trans after.goes).present_kept known id
  have soundThen := sound.goes before.goes
  have soundMade := soundThen.goes (listing_goes m p)
  have reflects := listing_reflects soundThen unlisted
    (by rw [← became.isFolder]; exact folder)
    (by rw [← became.system, before.goes.owners_kept]; exact alive)
    (by rw [← kept, ← became.diskPath, before.goes.disk_kept]; exact missing)
    (by rw [← became.diskPath, before.goes.disk_kept]; exact readable)
  rw [← became.key, ← became.diskPath, before.goes.disk_kept] at reflects
  exact reflects.goes (fun q mem => (soundMade.listed p _ q (listing_node known) mem).1) after.goes

/-- In order, no two paths have the same key. -/
theorem Ascending.distinct (ascending : t.Ascending l) : (l.map fun q => (t.node q).key).Nodup := by
  refine List.pairwise_map.mpr (ascending.imp ?_)
  intro q r less same
  rw [same, Utf8.ofText_lt_iff] at less
  exact lt_irrefl _ less

/-- In order, and with the entries of a folder for contents, a list has each of them once. -/
theorem perm_entries {d : Disk} {place folder : String} {texts : List String}
    (ascending : t.Ascending l) (reflects : t.Reflects l d place folder)
    (listed : d.list (Utf8.ofText place) = .ok (texts.map Utf8.ofText)) :
    (l.map fun q => ((t.node q).key, (t.node q).isFolder)).Perm
      (texts.map (d.entryOf place folder)) := by
  have distinct : (l.map fun q => ((t.node q).key, (t.node q).isFolder)).Nodup := by
    refine List.Nodup.of_map Prod.fst ?_
    rw [List.map_map]
    exact ascending.distinct
  have once : (texts.map (d.entryOf place folder)).Nodup := by
    refine (Disk.nodup_of_list listed).of_map _ |>.map ?_
    intro x y same
    obtain ⟨keys, kinds⟩ := Prod.mk.inj same
    rw [kinds, String.append_left_inj, String.append_right_inj] at keys
    exact keys
  rw [List.perm_ext_iff_of_nodup distinct once]
  rintro ⟨key, isFolder⟩
  rw [← Disk.hasEntry_iff listed, ← reflects key isFolder, List.mem_map]
  simp only [Prod.mk.injEq]

/-- In order, the entries of a folder are listed in the one order that there is. -/
theorem Ascending.entries_eq (ascending : t.Ascending l) {entries : List (String × Bool)}
    (perm : (l.map fun q => ((t.node q).key, (t.node q).isFolder)).Perm entries)
    (ordered : entries.Pairwise fun x y => Utf8.ofText x.1 < Utf8.ofText y.1) :
    (l.map fun q => ((t.node q).key, (t.node q).isFolder)) = entries := by
  have sorted : (l.map fun q => ((t.node q).key, (t.node q).isFolder)).Pairwise
      fun x y => Utf8.ofText x.1 < Utf8.ofText y.1 := List.pairwise_map.mpr ascending
  refine perm.eq_of_pairwise ?_ sorted ordered
  intro x y _ _ less greater
  exact absurd greater (List.lt_asymm less)

section

variable [MediaTypes]

/-- A call that lists a folder does nothing but look, and registers what is in the folder. -/
theorem perform_lists_looks (h : s.perform c = some (a, t)) (new : (s.node p).listing = none)
    (listed : (t.node p).listing = some l) : Goes Effect.Looks s t := by
  obtain ⟨m, before, _, _, _, after⟩ := perform_lists h new listed
  exact before.goes.trans ((listing_goes m p).trans after.goes)

theorem perform_lists_registered (sound : s.Sound) (h : s.perform c = some (a, t))
    (new : (s.node p).listing = none) (listed : (t.node p).listing = some l) (mem : q ∈ l) :
    t.lookup (t.node p).system (t.node q).key = some q := by
  have soundThen := sound.goes (perform_goes h)
  have there := HandsOut.registered sound h (.listed c a new listed mem)
  rw [(soundThen.listed p l q listed mem).2] at there
  exact there

/-! ## Listings, exactly -/

/-- **A listing is what is in the folder.** Take a folder that was there when it was resolved, that
was not listed yet, that can be read now, and the names in which are plain texts, while its file
system has a handle. Then a request for what is in it lists it. Whatever call lists it, there is one
path for each entry, and no other; the keys are the key of the folder and the name, with a slash
behind it if the entry is a folder, and they are in strictly increasing order of their bytes. Each
path is the one that is registered under its key then, and was before if there was one. From then
on, whatever happens, a request for the files gives those of the paths that are no folders, and a
request with tests those that pass all of them, in the same order. -/
theorem folder_listed_exactly (reach : Reachable s) (new : (s.node p).listing = none)
    (folder : (s.node p).isFolder = true) (present : (s.node p).present = true)
    (alive : (s.system (s.node p).system).owners ≠ 0) {texts : List String}
    (names : s.disk.list (Utf8.ofText (s.node p).diskPath) = .ok (texts.map Utf8.ofText))
    (plain : ∀ text ∈ texts, Disk.Plain (Utf8.ofText text)) :
    (∃ l t, s.perform (.children p true) = some (.paths l, t) ∧ (t.node p).listing = some l ∧
      s.children p false = t.children p false ∧
      ∀ tests, s.childrenPassing p tests = t.childrenPassing p tests) ∧
    ∀ c a t l, s.perform c = some (a, t) → (t.node p).listing = some l →
      (l.map fun q => ((t.node q).key, (t.node q).isFolder)).Perm
        (texts.map (s.disk.entryOf (s.node p).diskPath (s.node p).key)) ∧
      t.Ascending l ∧
      (∀ q ∈ l, t.lookup (s.node p).system (t.node q).key = some q ∧
        ∀ r, s.lookup (s.node p).system (t.node q).key = some r → r = q) ∧
      ∀ calls u, t.run calls = some u →
        u.children p true = (l, u) ∧
        u.children p false = (l.filter (fun q => !(t.node q).isFolder), u) ∧
        ∀ tests, u.Steady tests →
          (u.childrenPassing p tests).1 = l.filter fun q => tests.all fun test => (test q u).1 := by
  have known := s.known_of_isFolder folder
  have sound := reach.sound
  constructor
  · have listed := listing_node known
    refine ⟨_, _, perform_children_all known, listed, ?_, ?_⟩
    · simp only [children, listing_kept listed]
    · intro tests
      simp only [childrenPassing, listing_kept listed]
  · intro c a t l h listed
    have looks := perform_lists_looks h new listed
    have became := looks.became known
    have soundThen := sound.goes looks
    have ranked := (reach.perform h).ranked
    have readable : s.disk.Readable (t.node p).diskPath := by
      rw [became.diskPath]
      intro names' listed' name mem
      rw [names] at listed'
      cases listed'
      obtain ⟨text, there, rfl⟩ := List.mem_map.mp mem
      exact ⟨text, rfl, plain text there⟩
    have reflects := perform_reflects sound h new listed (became.isFolder.trans folder)
      (by rw [became.system]; exact alive)
      (by rw [became.present present]; intro absent; cases absent) readable
    rw [became.key, became.diskPath] at reflects
    refine ⟨perm_entries (ranked p l listed) reflects names, ranked p l listed, ?_, ?_⟩
    · intro q mem
      have there := perform_lists_registered sound h new listed mem
      rw [became.system] at there
      refine ⟨there, ?_⟩
      intro r before
      have still := looks.lookup_kept id before
      rw [there, Option.some.injEq] at still
      exact still.symm
    · intro calls u ran
      have later := run_goes_any ran
      have kept := (later.became (t.known_of_listing listed)).listing l listed
      have kinds (q : Nat) (mem : q ∈ l) : (u.node q).isFolder = (t.node q).isFolder :=
        (later.became (soundThen.listed p l q listed mem).1).isFolder
      refine ⟨?_, ?_, ?_⟩
      · rw [children_all, listing_kept kept]
      · simp only [children, listing_kept kept, Bool.false_or]
        rw [List.filter_congr fun q mem => by rw [kinds q mem]]
      · intro tests steady
        obtain ⟨I, now, steady⟩ := steady
        simp only [childrenPassing, listing_kept kept]
        exact sift_steady steady now l

end

/-! ## A site -/

theorem names_siteDisk :
    siteDisk.1.list (Utf8.ofText "/") =
      .ok (["x.txt", "docs", "x.html", "X.txt"].map Utf8.ofText) ∧
    siteDisk.1.list (Utf8.ofText "/docs/") = .ok (["y.txt", "z.bin"].map Utf8.ofText) :=
  ⟨by cbv, by cbv⟩

theorem plain_siteDisk :
    (∀ text ∈ ["x.txt", "docs", "x.html", "X.txt"], Disk.Plain (Utf8.ofText text)) ∧
    ∀ text ∈ ["y.txt", "z.bin"], Disk.Plain (Utf8.ofText text) := by
  constructor <;> intro text mem <;> refine ⟨⟨?_, ?_, ?_, ?_⟩, ?_⟩ <;> revert text <;>
    decide +kernel

theorem folders_siteDisk :
    (["x.txt", "docs", "x.html", "X.txt"].map fun text =>
      siteDisk.1.isFolder (Disk.entryPath (Utf8.ofText "/") (Utf8.ofText text))) =
      [false, true, false, false] ∧
    (["y.txt", "z.bin"].map fun text =>
      siteDisk.1.isFolder (Disk.entryPath (Utf8.ofText "/docs/") (Utf8.ofText text))) =
      [false, false] :=
  ⟨by cbv, by cbv⟩

theorem entries_siteDisk :
    ["x.txt", "docs", "x.html", "X.txt"].map (siteDisk.1.entryOf "/" "") =
      [("x.txt", false), ("docs/", true), ("x.html", false), ("X.txt", false)] ∧
    ["y.txt", "z.bin"].map (siteDisk.1.entryOf "/docs/" "docs/") =
      [("docs/y.txt", false), ("docs/z.bin", false)] := by
  rw [Disk.map_entryOf folders_siteDisk.1, Disk.map_entryOf folders_siteDisk.2]
  decide

/-- The entries of the root of the site, in order. -/
def siteEntries : List (String × Bool) :=
  [("X.txt", false), ("docs/", true), ("x.html", false), ("x.txt", false)]

theorem siteEntries_ordered :
    siteEntries.Pairwise fun x y => Utf8.ofText x.1 < Utf8.ofText y.1 := by
  decide

/-- A listing of the root of the site. -/
theorem listed_siteDisk [MediaTypes] : ∃ s l,
    (start siteDisk).run [.mount "/" none {}, .root 0, .children 0 true] = some s ∧
    0 < s.systems.size ∧ (s.node 0).listing = some l ∧ (s.node 0).isFolder = true ∧
    (l.map fun q => ((s.node q).key, (s.node q).isFolder)) = siteEntries := by
  obtain ⟨s, ran, disk, systems, nodes, _, _, _, owners, _, node⟩ :=
    start_mounted absoluteRoot_siteDisk
  have there : siteDisk.1.exists? (Utf8.ofText "/") = true := by cbv
  have known : 0 < s.nodes.size := by omega
  have reach : Reachable s := ⟨_, _, ran⟩
  have readable : s.disk.Readable (s.node 0).diskPath := by
    intro names listed name mem
    rw [node, disk, names_siteDisk.1] at listed
    cases listed
    obtain ⟨text, there, rfl⟩ := List.mem_map.mp mem
    exact ⟨text, rfl, plain_siteDisk.1 text there⟩
  have present : (s.node 0).present = true := by rw [node, there]
  have reflects := listing_reflects reach.sound (by rw [node]) (by rw [node])
    (by rw [node, owners]; exact Nat.one_ne_zero)
    (fun missing => absurd present (Bool.eq_false_iff.mp missing)) readable
  rw [node, disk] at reflects
  have ascending := listing_ascending reach known
  have perm := perm_entries ascending reflects names_siteDisk.1
  rw [entries_siteDisk.1] at perm
  have goes := listing_goes s 0
  refine ⟨_, _, run_snoc_of ran (perform_children_all known),
    Nat.lt_of_lt_of_le (by omega) goes.size_systems, listing_node known, ?_,
    ascending.entries_eq (perm.trans (by decide)) siteEntries_ordered⟩
  rw [(goes.became known).isFolder, node]

attribute [local instance] MediaTypes.familiar

/-- The root of the site is listed in order, with the path of a file that was asked for before. -/
theorem site_listed : ∃ s p l t,
    (start siteDisk).run [.mount "/" none {}, .root 0, .resolve 0 0 "x.txt"] = some s ∧
    s.lookup 0 "x.txt" = some p ∧ s.perform (.children 0 true) = some (.paths l, t) ∧
    (l.map fun q => ((t.node q).key, (t.node q).isFolder)) = siteEntries ∧
    l.getLast? = some p := by
  obtain ⟨u, ran, disk, systems, nodes, _, root, _, owners, free, node⟩ :=
    start_mounted absoluteRoot_siteDisk
  have there : siteDisk.1.exists? (Utf8.ofText "/") = true := by cbv
  have atRoot : u.AtRoot siteDisk.1 := ⟨disk, systems, by omega, root, by rw [node]⟩
  -- The file is asked for
  have file := resolve_xtxt atRoot.key (free _ (by decide)) (free _ (by decide))
    (classify_siteDisk atRoot).2
  have known := lookup_intern atRoot.mounted "x.txt" false
  rw [← file] at known
  have goes := resolve_goes atRoot.mounted 0 "x.txt"
  have led := run_snoc_of ran (perform_resolve atRoot.mounted atRoot.known "x.txt")
  have node₁ := (goes.node_kept atRoot.known).trans node
  have owners₁ := (goes.mono Effect.Resolves.looks).owners_kept
  have disk₁ := (atRoot.goes goes).disk
  generalize u.resolve 0 0 "x.txt" = asked at known led node₁ owners₁ disk₁
  obtain ⟨p, s⟩ := asked
  -- The root is listed
  have names : s.disk.list (Utf8.ofText (s.node 0).diskPath) =
      .ok (["x.txt", "docs", "x.html", "X.txt"].map Utf8.ofText) := by
    rw [node₁, disk₁]
    exact names_siteDisk.1
  have alive : (s.system (s.node 0).system).owners ≠ 0 := by
    rw [node₁, owners₁, owners]
    exact Nat.one_ne_zero
  obtain ⟨⟨l, t, answer, listed, _⟩, exact⟩ := folder_listed_exactly ⟨siteDisk, _, led⟩
    (by rw [node₁]) (by rw [node₁]) (by rw [node₁]; exact there) alive names plain_siteDisk.1
  obtain ⟨entries, ascending, registered, _⟩ := exact _ _ _ _ answer listed
  rw [node₁, disk₁, entries_siteDisk.1] at entries
  have all := ascending.entries_eq (entries.trans (by decide)) siteEntries_ordered
  refine ⟨s, p, l, t, led, known, answer, all, ?_⟩
  obtain ⟨front, last, rfl, _, final⟩ := List.map_eq_append_iff.mp
    (all.trans (show siteEntries = siteEntries.dropLast ++ [("x.txt", false)] from rfl))
  obtain ⟨q, rfl, last⟩ := List.map_eq_singleton_iff.mp final
  have key : (t.node q).key = "x.txt" := congrArg Prod.fst last
  have same := (registered q (List.mem_append_right _ (List.mem_singleton_self q))).2
  rw [node₁, key] at same
  rw [List.getLast?_concat, same p known]

end Server

end Docroot
