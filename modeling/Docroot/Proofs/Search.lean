import Docroot.Proofs.FolderContents

/-!
Names without extensions.

A name is looked up with one extension of a set after the other, and each time the first path of the
listing is taken that has them both. Since listings are in order, `resolveWith_takes_least` says
that this is the least match, by the place of the extension and then by the key. What a path has is
the part of its name in front of the first dot and the part behind the last one, up to the case of
letters. So a file that is named exactly as was asked for may stand behind another match, or be none
itself: `resolveWith_exact_iff` says when it is the answer.
-/

namespace Docroot

theorem sameName_refl (a : String) : sameName a a = true := by
  simp [sameName]

theorem sameName_symm {a b : String} (same : sameName a b = true) : sameName b a = true := by
  rw [sameName_iff] at same ⊢
  exact same.symm

theorem sameName_trans {a b c : String} (first : sameName a b = true)
    (second : sameName b c = true) : sameName a c = true := by
  rw [sameName_iff] at first second ⊢
  exact first.trans second

/-- No letter becomes a dot in lower case. -/
theorem toLower_eq_dot {c : Char} (lower : c.toLower = '.') : c = '.' := by
  unfold Char.toLower at lower
  split at lower
  · rename_i capital
    have least : 65 ≤ c.val.toNat := capital.1
    have greatest : c.val.toNat ≤ 90 := capital.2
    have moved : (c.val + 32).toNat = 46 := congrArg (fun c => c.val.toNat) lower
    rw [UInt32.toNat_add, show (32 : UInt32).toNat = 32 from rfl] at moved
    omega
  · exact lower

/-- Names that are the same up to case have dots alike. -/
theorem dot_of_sameName {a b : String} (same : sameName a b = true) (dot : '.' ∈ b.toList) :
    '.' ∈ a.toList := by
  have mapped : a.toList.map Char.toLower = b.toList.map Char.toLower := by
    simpa [sameName] using same
  have mem : '.' ∈ b.toList.map Char.toLower := List.mem_map.mpr ⟨'.', dot, rfl⟩
  rw [← mapped] at mem
  obtain ⟨c, mem, lower⟩ := List.mem_map.mp mem
  exact toLower_eq_dot lower ▸ mem

namespace Key

variable {key name e : String}

theorem dot_not_mem_entityName (key : String) : '.' ∉ (entityName key).toList := by
  rw [entityName, String.toList_ofList]
  intro mem
  have kept := List.mem_takeWhile_imp mem
  simp at kept

theorem fileName_clean {raw : String} (below : normalize raw false ≠ "") :
    Clean (fileName (normalize raw false)) := by
  rcases List.eq_nil_or_concat (segments raw.toList) with none | ⟨front, last, led⟩
  · exact absurd ((normalize_eq_empty raw false).mpr none) below
  · rw [List.concat_eq_append] at led
    rw [fileName_normalize led]
    exact segments_clean raw.toList last (by simp [led])

/-- The entity name of `name.e` is the name, if there is no dot in it. -/
theorem entityName_of_fileName (named : fileName key = (name ++ "." ++ e).toList)
    (plain : '.' ∉ name.toList) : entityName key = name := by
  have all : ∀ c ∈ name.toList, (decide (c ≠ '.')) = true := by
    intro c mem
    rw [decide_eq_true_eq]
    rintro rfl
    exact plain mem
  have split : (name ++ "." ++ e).toList = name.toList ++ '.' :: e.toList := by
    simp
  rw [entityName, named, split, List.takeWhile_append_of_pos all]
  simp

/-- The extension of `name.e` is the extension, if there is no dot in it. -/
theorem extension_of_fileName (named : fileName key = (name ++ "." ++ e).toList)
    (plain : '.' ∉ e.toList) : extension key = e := by
  have all : ∀ c ∈ e.toList.reverse, (decide (c ≠ '.')) = true := by
    intro c mem
    rw [decide_eq_true_eq]
    rintro rfl
    exact plain (List.mem_reverse.mp mem)
  have split : (name ++ "." ++ e).toList = name.toList ++ '.' :: e.toList := by
    simp
  have backwards : (name.toList ++ '.' :: e.toList).reverse =
      e.toList.reverse ++ '.' :: name.toList.reverse := by
    simp
  have dot : '.' ∈ fileName key := by
    rw [named, split]
    simp
  simp only [extension]
  rw [if_pos dot, named, split, backwards, List.takeWhile_append_of_pos all]
  simp

end Key

/-- The name that is tried when nothing in the folder matches. -/
def ExtensionSet.preferred (exts : ExtensionSet) (name : String) : String :=
  match exts.primary with
  | some e => name ++ "." ++ e
  | none => name

namespace Server

variable {s t : Server} {v p parent : Nat} {l : List Nat} {name : String} {exts : List String}

/-! ## The least match -/

/-- A path of a listing has the name, and the extension at a place of the set, up to the case of
letters. -/
structure Matches (s : Server) (l : List Nat) (name : String) (exts : List String) (i c : Nat) :
    Prop where
  mem : c ∈ l
  entity : sameName (s.node c).entity name = true
  extension : ∃ e, exts[i]? = some e ∧ sameName (s.node c).extension e = true

/-- The match that comes before all others, by the place of the extension and then by the bytes of
the key. -/
structure Least (s : Server) (l : List Nat) (name : String) (exts : List String) (i c : Nat) :
    Prop where
  here : s.Matches l name exts i c
  first : ∀ j d, s.Matches l name exts j d →
    i < j ∨ i = j ∧ (c = d ∨ Utf8.ofText (s.node c).key < Utf8.ofText (s.node d).key)

theorem Least.unique {i j c d : Nat} (least : s.Least l name exts i c)
    (other : s.Least l name exts j d) : i = j ∧ c = d := by
  rcases least.first j d other.here with before | ⟨rfl, same | less⟩
  · rcases other.first i c least.here with after | ⟨rfl, _⟩
    · exact absurd before (Nat.lt_asymm after)
    · exact absurd before (Nat.lt_irrefl _)
  · exact ⟨rfl, same⟩
  · rcases other.first i c least.here with after | ⟨_, same | greater⟩
    · exact absurd after (Nat.lt_irrefl _)
    · exact ⟨rfl, same.symm⟩
    · exact absurd greater (List.lt_asymm less)

theorem findChild_eq_none {e : String} (missing : s.findChild l name e = none) {c : Nat}
    (mem : c ∈ l) (entity : sameName (s.node c).entity name = true) :
    sameName (s.node c).extension e = false := by
  have denied := List.find?_eq_none.mp missing c mem
  simpa [entity] using denied

/-- What is found in a listing that is in order is the match with the least key. -/
theorem findChild_least (ascending : s.Ascending l) {e : String} {c : Nat}
    (found : s.findChild l name e = some c) :
    c ∈ l ∧ sameName (s.node c).entity name = true ∧ sameName (s.node c).extension e = true ∧
    ∀ d ∈ l, sameName (s.node d).entity name = true → sameName (s.node d).extension e = true →
      c = d ∨ Utf8.ofText (s.node c).key < Utf8.ofText (s.node d).key := by
  obtain ⟨both, before, after, rfl, denied⟩ := List.find?_eq_some_iff_append.mp found
  simp only [Bool.and_eq_true] at both
  refine ⟨by simp, both.1, both.2, fun d mem entity extension => ?_⟩
  rcases List.mem_append.mp mem with early | late
  · have denied := denied d early
    simp [entity, extension] at denied
  · rcases List.mem_cons.mp late with same | behind
    · exact .inl same.symm
    · exact .inr ((List.pairwise_cons.mp (List.pairwise_append.mp ascending).2.1).1 d behind)

/-- The search through the extensions finds the least match. -/
theorem findSome?_least (ascending : s.Ascending l) {c : Nat}
    (found : exts.findSome? (s.findChild l name) = some c) :
    ∃ i, s.Least l name exts i c := by
  obtain ⟨before, e, after, rfl, here, missing⟩ := List.findSome?_eq_some_iff.mp found
  obtain ⟨mem, entity, extension, least⟩ := findChild_least ascending here
  have place : (before ++ e :: after)[before.length]? = some e := by simp
  refine ⟨before.length, ⟨mem, entity, e, place, extension⟩, fun j d other => ?_⟩
  obtain ⟨e', there, extension'⟩ := other.extension
  rcases Nat.lt_trichotomy before.length j with later | rfl | earlier
  · exact .inl later
  · rw [place, Option.some.injEq] at there
    subst there
    exact .inr ⟨rfl, least d other.mem other.entity extension'⟩
  · rw [List.getElem?_append_left earlier] at there
    have nowhere := missing e' (List.mem_of_getElem? there)
    have denied := findChild_eq_none nowhere other.mem other.entity
    rw [denied] at extension'
    cases extension'

theorem findSome?_eq_none_iff :
    exts.findSome? (s.findChild l name) = none ↔ ∀ i c, ¬ s.Matches l name exts i c := by
  rw [List.findSome?_eq_none_iff]
  constructor
  · intro missing i c here
    obtain ⟨e, there, extension⟩ := here.extension
    have nowhere := missing e (List.mem_of_getElem? there)
    have denied := findChild_eq_none nowhere here.mem here.entity
    rw [denied] at extension
    cases extension
  · intro none e mem
    obtain ⟨i, there⟩ := List.mem_iff_getElem?.mp mem
    refine List.find?_eq_none.mpr fun c mem both => ?_
    rw [Bool.and_eq_true] at both
    exact none i c ⟨mem, both.1, e, there, both.2⟩

/-- What was listed once is not listed again. -/
theorem perform_children_again [MediaTypes] (listed : (s.node p).listing = some l) :
    s.perform (.children p true) = some (.paths l, s) := by
  rw [perform_children_all (s.known_of_listing listed), listing_kept listed]

theorem resolveWith_eq (s : Server) (v parent : Nat) (name : String) (exts : ExtensionSet) :
    s.resolveWith v parent name exts =
      match exts.extensions.findSome?
          ((s.listing parent).2.findChild (s.listing parent).1 name) with
      | some c => (c, (s.listing parent).2)
      | none => (s.listing parent).2.resolve v parent (exts.preferred name) := by
  simp only [resolveWith, children_all, ExtensionSet.preferred]
  cases exts.extensions.findSome?
      ((s.listing parent).2.findChild (s.listing parent).1 name) with
  | some c => rfl
  | none => cases exts.primary <;> rfl

section

variable [MediaTypes]

/-- What both calls come to: the listing, and the search in it. -/
theorem perform_resolveWith (known : v < s.systems.size) (there : parent < s.nodes.size)
    (name : String) (exts : ExtensionSet) :
    s.perform (.children parent true) = some (.paths (s.listing parent).1, (s.listing parent).2) ∧
    s.perform (.resolveWith v parent name exts) =
      some (.path (s.resolveWith v parent name exts).1, (s.resolveWith v parent name exts).2) := by
  constructor
  · simp [perform, knows, there, carryOut, children_all]
  · simp [perform, knows, known, there, carryOut]

/-- Either the least match is found, or there is none and the preferred name is resolved. -/
theorem resolveWith_cases (reach : Reachable s) (there : parent < s.nodes.size) (v : Nat)
    (name : String) (exts : ExtensionSet) :
    (∃ i c, (s.listing parent).2.Least (s.listing parent).1 name exts.extensions i c ∧
      s.resolveWith v parent name exts = (c, (s.listing parent).2)) ∨
    (∀ i c, ¬ (s.listing parent).2.Matches (s.listing parent).1 name exts.extensions i c) ∧
      s.resolveWith v parent name exts =
        (s.listing parent).2.resolve v parent (exts.preferred name) := by
  rw [resolveWith_eq]
  cases found : exts.extensions.findSome?
      ((s.listing parent).2.findChild (s.listing parent).1 name) with
  | some c =>
    obtain ⟨i, least⟩ := findSome?_least (listing_ascending reach there) found
    exact .inl ⟨i, c, least, rfl⟩
  | none => exact .inr ⟨findSome?_eq_none_iff.mp found, rfl⟩

/-- **A name without extension is resolved to the least match.** If the children of a folder have a
match, the answer is the least of them, and nothing happens beyond what listing the folder does. If
they have none, the answer and all that happens are those of resolving the name with the preferred
extension, or the name itself if there is no extension. -/
theorem resolveWith_takes_least (reach : Reachable s) (known : v < s.systems.size)
    (there : parent < s.nodes.size) (name : String) (exts : ExtensionSet) : ∃ l u r t,
    s.perform (.children parent true) = some (.paths l, u) ∧
    s.perform (.resolveWith v parent name exts) = some (.path r, t) ∧
    ((∃ i c, u.Matches l name exts.extensions i c) →
      (∃ i, u.Least l name exts.extensions i r) ∧ t = u) ∧
    ((∀ i c, ¬ u.Matches l name exts.extensions i c) →
      u.perform (.resolve v parent (exts.preferred name)) = some (.path r, t)) := by
  obtain ⟨listed, answered⟩ := perform_resolveWith known there name exts
  have goes := listing_goes s parent
  refine ⟨_, _, _, _, listed, answered, ?_⟩
  rcases resolveWith_cases reach there v name exts with ⟨i, c, least, found⟩ | ⟨none, resolved⟩
  · rw [found]
    exact ⟨fun _ => ⟨⟨i, least⟩, rfl⟩, fun none => absurd least.here (none i c)⟩
  · rw [resolved]
    refine ⟨fun ⟨i, c, here⟩ => absurd here (none i c), fun _ => ?_⟩
    exact perform_resolve (Nat.lt_of_lt_of_le known goes.size_systems)
      (Nat.lt_of_lt_of_le there goes.size_nodes) _

end

/-- A listing of the root of the site, with what a look-up by name goes by. -/
theorem named_siteDisk [MediaTypes] : ∃ s a b c d,
    (start siteDisk).run [.mount "/" none {}, .root 0, .children 0 true] = some s ∧
    0 < s.systems.size ∧ (s.node 0).listing = some [a, b, c, d] ∧ (s.node 0).isFolder = true ∧
    s.Ascending [a, b, c, d] ∧ (s.node a).key = "X.txt" ∧ (s.node a).isFolder = false ∧
    ([a, b, c, d].map fun q => ((s.node q).entity, (s.node q).extension)) =
      [("X", "txt"), ("docs", ""), ("x", "html"), ("x", "txt")] := by
  obtain ⟨s, l, ran, systems, listed, folder, entries⟩ := listed_siteDisk
  have ascending := listing_ascending ⟨_, _, ran⟩ (s.known_of_listing listed)
  rw [listing_kept listed] at ascending
  have named : (l.map fun q => ((s.node q).entity, (s.node q).extension)) =
      siteEntries.map fun e => (Key.entityName e.1, if e.2 then "" else Key.extension e.1) := by
    rw [← entries, List.map_map]
    rfl
  obtain ⟨a, l, rfl, first, entries⟩ := List.map_eq_cons_iff.mp entries
  obtain ⟨b, l, rfl, _, entries⟩ := List.map_eq_cons_iff.mp entries
  obtain ⟨c, l, rfl, _, entries⟩ := List.map_eq_cons_iff.mp entries
  obtain ⟨d, rfl, _⟩ := List.map_eq_singleton_iff.mp entries
  obtain ⟨key, file⟩ := Prod.mk.inj first
  exact ⟨s, a, b, c, d, ran, systems, listed, folder, ascending, key, file,
    named.trans (by decide)⟩

attribute [local instance] MediaTypes.familiar

/-- A name is asked for with three extensions. Of the three children that match, the answer has the
first extension that is there, and of those that have it the lesser key. -/
theorem least_spelling_found : ∃ s a b c d t,
    (start siteDisk).run [.mount "/" none {}, .root 0, .children 0 true] = some s ∧
    s.perform (.children 0 true) = some (.paths [a, b, c, d], s) ∧
    ([a, b, c, d].map fun q => ((s.node q).entity, (s.node q).extension)) =
      [("X", "txt"), ("docs", ""), ("x", "html"), ("x", "txt")] ∧
    s.perform (.resolveWith 0 0 "x" ⟨["css", "TXT", "html"]⟩) = some (.path a, t) := by
  obtain ⟨s, a, b, c, d, ran, systems, listed, _, ascending, _, _, named⟩ := named_siteDisk
  have again := perform_children_again listed
  obtain ⟨l, u, r, t, children, answered, found, _⟩ := resolveWith_takes_least ⟨_, _, ran⟩ systems
    (s.known_of_listing listed) "x" ⟨["css", "TXT", "html"]⟩
  rw [again] at children
  cases children
  have first : ["css", "TXT", "html"].findSome? (s.findChild [a, b, c, d] "x") = some a := by
    simp only [List.map_cons, List.map_nil, List.cons.injEq, Prod.mk.injEq] at named
    simp only [List.findSome?_cons, findChild, List.find?_cons, named]
    rfl
  obtain ⟨i, least⟩ := findSome?_least ascending first
  obtain ⟨⟨j, other⟩, _⟩ := found ⟨i, a, least.here⟩
  obtain ⟨_, rfl⟩ := least.unique other
  exact ⟨s, a, b, c, d, t, ran, again, named, answered⟩

/-! ## Files named exactly -/

/-- A file of a listing is named `name.e`. -/
structure NamedExactly (s : Server) (l : List Nat) (name e : String) (x : Nat) : Prop where
  mem : x ∈ l
  file : (s.node x).isFolder = false
  fileName : Key.fileName (s.node x).key = (name ++ "." ++ e).toList

/-- A path that comes before the file `x`, which is named `name.e`: it has the name as well, and an
extension that stands before `e` in the set, or `e` itself and a lesser key. -/
def Shadows (s : Server) (name e : String) (exts : List String) (x c : Nat) : Prop :=
  sameName (s.node c).entity name = true ∧
  ((∃ e' ∈ exts.takeWhile (fun e' => !sameName e' e),
      sameName (s.node c).extension e' = true) ∨
    sameName (s.node c).extension e = true ∧
      Utf8.ofText (s.node c).key < Utf8.ofText (s.node x).key)

/-- A place of the set has the first extension that is `e` up to case. -/
structure FirstSpelling (exts : List String) (e : String) (i : Nat) : Prop where
  here : ∃ e', exts[i]? = some e' ∧ sameName e' e = true
  before : ∀ d, d ∈ exts.takeWhile (fun d => !sameName d e) ↔ ∃ j < i, exts[j]? = some d

theorem firstSpelling_of_mem {e : String} (mem : e ∈ exts) : ∃ i, FirstSpelling exts e i := by
  cases found : exts.find? (sameName · e) with
  | none =>
    have denied := List.find?_eq_none.mp found e mem
    exact absurd (sameName_refl e) denied
  | some e' =>
    obtain ⟨same, front, back, rfl, others⟩ := List.find?_eq_some_iff_append.mp found
    have split : (front ++ e' :: back).takeWhile (fun d => !sameName d e) = front := by
      rw [List.takeWhile_append_of_pos others]
      simp [same]
    refine ⟨front.length, ⟨e', by simp, same⟩, fun d => ?_⟩
    rw [split]
    constructor
    · intro mem
      obtain ⟨j, lower, there⟩ := List.mem_iff_getElem.mp mem
      refine ⟨j, lower, ?_⟩
      rw [List.getElem?_append_left lower, List.getElem?_eq_getElem lower, there]
    · rintro ⟨j, lower, there⟩
      rw [List.getElem?_append_left lower] at there
      exact List.mem_of_getElem? there

theorem FirstSpelling.sameName_before {e d : String} {i j : Nat} (first : FirstSpelling exts e i)
    (lower : j < i) (there : exts[j]? = some d) : sameName d e = false := by
  have kept := List.mem_takeWhile_imp ((first.before d).mpr ⟨j, lower, there⟩)
  simpa using kept

theorem Ascending.total (ascending : s.Ascending l) {c d : Nat} (mem : c ∈ l) (mem' : d ∈ l) :
    c = d ∨ Utf8.ofText (s.node c).key < Utf8.ofText (s.node d).key ∨
      Utf8.ofText (s.node d).key < Utf8.ofText (s.node c).key := by
  have ordered := List.pairwise_iff_getElem.mp ascending
  obtain ⟨i, inside, rfl⟩ := List.mem_iff_getElem.mp mem
  obtain ⟨j, inside', rfl⟩ := List.mem_iff_getElem.mp mem'
  rcases Nat.lt_trichotomy i j with less | rfl | greater
  · exact .inr (.inl (ordered i j inside inside' less))
  · exact .inl rfl
  · exact .inr (.inr (ordered j i inside' inside greater))

theorem NamedExactly.extension {e : String} {x : Nat} (named : s.NamedExactly l name e x)
    (plain : '.' ∉ e.toList) : (s.node x).extension = e := by
  rw [PathNode.extension, named.file]
  exact Key.extension_of_fileName named.fileName plain

/-- A file whose name has but one dot matches every spelling of its extension. -/
theorem NamedExactly.matches_at {e e' : String} {x i : Nat} (named : s.NamedExactly l name e x)
    (plain : '.' ∉ name.toList) (extension : (s.node x).extension = e)
    (place : exts[i]? = some e') (same : sameName e' e = true) : s.Matches l name exts i x := by
  have entity : (s.node x).entity = name := Key.entityName_of_fileName named.fileName plain
  refine ⟨named.mem, ?_, e', place, ?_⟩
  · rw [entity]
    exact sameName_refl name
  · rw [extension]
    exact sameName_symm same

/-- A match with the extension `e` has its first spelling, if it is the least. -/
theorem Least.firstSpelling {e : String} {x i k : Nat} (least : s.Least l name exts i x)
    (extension : (s.node x).extension = e) (first : FirstSpelling exts e k)
    (here : s.Matches l name exts k x) : i = k := by
  rcases least.first k x here with lower | ⟨at', _⟩
  · obtain ⟨d, there, same⟩ := least.here.extension
    have other := first.sameName_before lower there
    rw [← extension, sameName_symm same] at other
    cases other
  · exact at'

/-- Nothing comes before the least match. -/
theorem Least.unshadowed {e : String} {x k : Nat} (first : FirstSpelling exts e k)
    (least : s.Least l name exts k x) : ∀ c ∈ l, ¬ s.Shadows name e exts x c := by
  rintro c mem ⟨entity, ⟨d, earlier, same⟩ | ⟨same, less⟩⟩
  · obtain ⟨j, lower, there⟩ := (first.before d).mp earlier
    rcases least.first j c ⟨mem, entity, d, there, same⟩ with later | ⟨rfl, _⟩
    · exact Nat.lt_asymm lower later
    · exact Nat.lt_irrefl _ lower
  · obtain ⟨e', place, same'⟩ := first.here
    have here : s.Matches l name exts k c :=
      ⟨mem, entity, e', place, sameName_trans same (sameName_symm same')⟩
    rcases least.first k c here with later | ⟨_, rfl | greater⟩
    · exact Nat.lt_irrefl _ later
    · exact List.lt_irrefl _ less
    · exact List.lt_asymm less greater

/-- A match that nothing comes before is the least. -/
theorem Matches.least (ascending : s.Ascending l) {e : String} {x k : Nat}
    (here : s.Matches l name exts k x) (first : FirstSpelling exts e k)
    (unshadowed : ∀ c ∈ l, ¬ s.Shadows name e exts x c) : s.Least l name exts k x := by
  refine ⟨here, fun j d other => ?_⟩
  obtain ⟨e'', there, same⟩ := other.extension
  obtain ⟨e', place, same'⟩ := first.here
  rcases Nat.lt_trichotomy k j with later | rfl | lower
  · exact .inl later
  · rw [place, Option.some.injEq] at there
    subst there
    rcases ascending.total here.mem other.mem with equal | less | greater
    · exact .inr ⟨rfl, .inl equal⟩
    · exact .inr ⟨rfl, .inr less⟩
    · have shadows : s.Shadows name e exts x d :=
        ⟨other.entity, .inr ⟨sameName_trans same same', greater⟩⟩
      exact absurd shadows (unshadowed d other.mem)
  · have shadows : s.Shadows name e exts x d :=
      ⟨other.entity, .inl ⟨e'', (first.before e'').mpr ⟨j, lower, there⟩, same⟩⟩
    exact absurd shadows (unshadowed d other.mem)

/-- A file whose name has but one dot is the least match unless another path comes before it. -/
theorem least_iff_unshadowed (ascending : s.Ascending l) {e : String} {x : Nat}
    (named : s.NamedExactly l name e x) (plain : '.' ∉ name.toList) (plain' : '.' ∉ e.toList)
    (mem : e ∈ exts) :
    (∃ i, s.Least l name exts i x) ↔ ∀ c ∈ l, ¬ s.Shadows name e exts x c := by
  have extension := named.extension plain'
  obtain ⟨k, first⟩ := firstSpelling_of_mem mem
  obtain ⟨e', place, same⟩ := first.here
  have here := named.matches_at plain extension place same
  constructor
  · rintro ⟨i, least⟩
    obtain rfl := least.firstSpelling extension first here
    exact least.unshadowed first
  · intro unshadowed
    exact ⟨k, here.least ascending first unshadowed⟩

/-! ## Names with dots -/

/-- What is known before a request is the answer exactly if the registry remembers it. -/
theorem resolve_eq_iff {raw : String} {x : Nat} (known : x < s.nodes.size) :
    (s.resolve v parent raw).1 = x ↔ s.remembered v parent raw = some x := by
  cases found : s.remembered v parent raw with
  | some q => simp [resolve_remembered found]
  | none => simp [(resolve_new found).1, Nat.ne_of_gt known]

/-- A file is remembered for the texts that lead to its key. -/
theorem remembered_file_iff (sound : s.Sound) {raw : String} {x : Nat}
    (file : (s.node x).isFolder = false) (below : (s.node x).key ≠ "") :
    s.remembered v parent raw = some x ↔ s.lookup v (s.node x).key = some x ∧
      s.asksForFolder parent raw = false ∧ s.keyBelow parent raw false = (s.node x).key := by
  have noFolder : s.lookup v (s.keyBelow parent raw true) ≠ some x := by
    intro there
    have key := (sound.registered _ _ _ there).2.2
    rw [sound.isFolder_of_folder there (key ▸ below)] at file
    cases file
  rw [remembered]
  constructor
  · intro there
    split at there
    · exact absurd there noFolder
    · rename_i notAsks
      rcases Option.or_eq_some_iff.mp there with found | ⟨_, folder⟩
      · have key := (sound.registered _ _ _ found).2.2
        exact ⟨by rw [key]; exact found, Bool.eq_false_iff.mpr notAsks, key.symm⟩
      · exact absurd folder noFolder
  · rintro ⟨there, notAsks, key⟩
    rw [notAsks, key, there, if_neg Bool.false_ne_true, Option.some_or]

theorem NamedExactly.below {e : String} {x : Nat} (named : s.NamedExactly l name e x) :
    (s.node x).key ≠ "" := by
  intro root
  have empty : Key.fileName "" = (name ++ "." ++ e).toList := root ▸ named.fileName
  simp [Key.fileName, Key.afterLastSlash] at empty

/-- The name of a file in a folder leads to the file. -/
theorem NamedExactly.leads {e : String} {x : Nat} (named : s.NamedExactly l name e x)
    (sound : s.Sound) (knownParent : parent < s.nodes.size) (known : x < s.nodes.size)
    (folder : (s.node parent).isFolder = true)
    (inside : (s.node x).key = (s.node parent).key ++ (name ++ "." ++ e)) :
    s.asksForFolder parent (name ++ "." ++ e) = false ∧
    s.keyBelow parent (name ++ "." ++ e) false = (s.node x).key := by
  obtain ⟨raw, shape⟩ := (sound.made x known).key
  obtain ⟨raw', shape'⟩ := (sound.made parent knownParent).key
  have below := named.below
  rw [named.file] at shape
  rw [folder] at shape'
  rw [shape] at below
  have clean := Key.fileName_clean below
  rw [← shape, named.fileName] at clean
  constructor
  · have some' : (name ++ "." ++ e).isEmpty = false := by
      rw [← Bool.not_eq_true, String.isEmpty_iff, ← String.toList_inj]
      exact clean.ne_nil
    rw [asksForFolder, Key.asksForFolder_of_clean clean, some', Bool.false_and, Bool.or_false]
  · have key := Key.normalize_join raw' clean
    rw [String.ofList_toList, ← shape'] at key
    rw [keyBelow, shape', Key.folderPrefix_normalize, ← shape', key, inside]

/-- Where a name has a dot, no path has it as its entity name. -/
theorem no_match_of_dot (dot : '.' ∈ name.toList) (i c : Nat) : ¬ s.Matches l name exts i c :=
  fun here => Key.dot_not_mem_entityName _ (dot_of_sameName here.entity dot)

/-- **When a file is found that is named exactly.** For every extension `e` of the set and every
child `x` of the folder named `name.e`:

* If neither the name nor `e` has a dot, `x` is the answer unless another child comes before it.
* If the name has a dot, no child matches it.
* If some child matches, `x` is the answer if it is the least match, and only then.
* If none matches, `x` is the answer if it is registered under its key and the name with the
  preferred extension leads to this key, and only then. If `e` is the preferred extension and `x`
  lies in the folder itself, this name leads there; and if the folder is listed during the call, `x`
  is registered. -/
theorem resolveWith_exact_iff [MediaTypes] (reach : Reachable s) (known : v < s.systems.size)
    (there : parent < s.nodes.size) (folder : (s.node parent).isFolder = true) (name : String)
    (exts : ExtensionSet) : ∃ l u r t,
    s.perform (.children parent true) = some (.paths l, u) ∧
    s.perform (.resolveWith v parent name exts) = some (.path r, t) ∧
    ∀ e x, e ∈ exts.extensions → u.NamedExactly l name e x →
      ('.' ∉ name.toList → '.' ∉ e.toList →
        (r = x ↔ ∀ c ∈ l, ¬ u.Shadows name e exts.extensions x c)) ∧
      ('.' ∈ name.toList → ∀ i c, ¬ u.Matches l name exts.extensions i c) ∧
      ((∃ i c, u.Matches l name exts.extensions i c) →
        (r = x ↔ ∃ i, u.Least l name exts.extensions i x)) ∧
      ((∀ i c, ¬ u.Matches l name exts.extensions i c) →
        (r = x ↔ u.lookup v (u.node x).key = some x ∧
          u.asksForFolder parent (exts.preferred name) = false ∧
          u.keyBelow parent (exts.preferred name) false = (u.node x).key)) ∧
      (exts.primary = some e → (u.node x).key = (u.node parent).key ++ (name ++ "." ++ e) →
        u.asksForFolder parent (exts.preferred name) = false ∧
        u.keyBelow parent (exts.preferred name) false = (u.node x).key) ∧
      ((s.node parent).listing = none → (s.node parent).system = v →
        u.lookup v (u.node x).key = some x) := by
  obtain ⟨listed, answered⟩ := perform_resolveWith known there name exts
  have goes := listing_goes s parent
  have sound := reach.sound.goes goes
  have made := listing_node there
  have ascending := listing_ascending reach there
  have either := resolveWith_cases reach there v name exts
  refine ⟨_, _, _, _, listed, answered, ?_⟩
  intro e x mem named
  have knownX := (sound.listed parent _ x made named.mem).1
  have folderThen := (goes.became there).isFolder.trans folder
  have knownThen := Nat.lt_of_lt_of_le there goes.size_nodes
  have decided (some' : ∃ i c, (s.listing parent).2.Matches (s.listing parent).1 name
      exts.extensions i c) : (s.resolveWith v parent name exts).1 = x ↔
        ∃ i, (s.listing parent).2.Least (s.listing parent).1 name exts.extensions i x := by
    rcases either with ⟨i, c, least, found⟩ | ⟨none, _⟩
    · rw [found]
      constructor
      · rintro rfl
        exact ⟨i, least⟩
      · rintro ⟨j, other⟩
        exact (least.unique other).2
    · obtain ⟨i, c, here⟩ := some'
      exact absurd here (none i c)
  refine ⟨?_, no_match_of_dot, decided, ?_, ?_, ?_⟩
  · intro plain plain'
    obtain ⟨i, place⟩ := List.mem_iff_getElem?.mp mem
    have here := named.matches_at plain (named.extension plain') place (sameName_refl e)
    exact (decided ⟨i, x, here⟩).trans (least_iff_unshadowed ascending named plain plain' mem)
  · intro none
    rcases either with ⟨i, c, least, _⟩ | ⟨_, resolved⟩
    · exact absurd least.here (none i c)
    · rw [resolved, resolve_eq_iff knownX, remembered_file_iff sound named.file named.below]
  · intro primary inside
    have preferred : exts.preferred name = name ++ "." ++ e := by
      rw [ExtensionSet.preferred, primary]
    rw [preferred]
    exact named.leads sound knownThen knownX folderThen inside
  · intro new system
    have registered := goes.listed (fun _ _ => id) new made
    obtain ⟨key, there'⟩ := registered x named.mem
    obtain ⟨_, _, same⟩ := sound.registered _ _ _ there'
    rw [same, ← system, ← (goes.became there).system]
    exact there'

/-- The file `X.txt` is found under its name, beside a page of this name and a text whose name
differs in its case. -/
theorem exact_spelling_found : ∃ s a b c d t,
    (start siteDisk).run [.mount "/" none {}, .root 0, .children 0 true] = some s ∧
    s.perform (.children 0 true) = some (.paths [a, b, c, d], s) ∧
    s.NamedExactly [a, b, c, d] "X" "txt" a ∧
    ([a, b, c, d].map fun q => ((s.node q).entity, (s.node q).extension)) =
      [("X", "txt"), ("docs", ""), ("x", "html"), ("x", "txt")] ∧
    s.perform (.resolveWith 0 0 "X" ⟨["css", "txt", "html"]⟩) = some (.path a, t) := by
  obtain ⟨s, a, b, c, d, ran, systems, listed, folder, ascending, key, file, names⟩ :=
    named_siteDisk
  have again := perform_children_again listed
  obtain ⟨l, u, r, t, children, answered, decided⟩ := resolveWith_exact_iff ⟨_, _, ran⟩ systems
    (s.known_of_listing listed) folder "X" ⟨["css", "txt", "html"]⟩
  rw [again] at children
  cases children
  have first : ["css", "txt", "html"].findSome? (s.findChild [a, b, c, d] "X") = some a := by
    have names := names
    simp only [List.map_cons, List.map_nil, List.cons.injEq, Prod.mk.injEq] at names
    simp only [List.findSome?_cons, findChild, List.find?_cons, names]
    rfl
  have named : s.NamedExactly [a, b, c, d] "X" "txt" a := by
    refine ⟨List.mem_cons_self, file, ?_⟩
    rw [key]
    decide
  have unshadowed := (least_iff_unshadowed ascending named (by decide) (by decide)
    (by decide)).mp (findSome?_least ascending first)
  obtain rfl := ((decided "txt" a (by decide) named).1 (by decide) (by decide)).mpr unshadowed
  exact ⟨s, _, b, c, d, t, ran, again, named, names, answered⟩

/-- The disk with a file whose name has two dots. -/
def dottedDisk : Tree := .lone (Utf8.ofText "a.b.txt") []

/-- A name with a dot is no entity name, so that its file is missed for another extension. -/
theorem dotted_file_missed : ∃ s r t,
    (start dottedDisk).run [.mount "/" none {}, .root 0, .children 0 true] = some s ∧
    s.perform (.children 0 true) = some (.paths [1], s) ∧
    s.NamedExactly [1] "a.b" "txt" 1 ∧
    s.perform (.resolveWith 0 0 "a.b" ⟨["html", "txt"]⟩) = some (.path r, t) ∧ r ≠ 1 := by
  obtain ⟨s, ran, systems, nodes, _, listed, _, root, key, file⟩ :=
    listed_alone dottedDisk "a.b.txt" (by cbv) (by cbv) (by cbv) (by cbv) (by cbv) (by decide)
  have reach : Reachable s := ⟨_, _, ran⟩
  have known := Nat.lt_of_succ_lt nodes
  have named : s.NamedExactly [1] "a.b" "txt" 1 := by
    refine ⟨List.mem_singleton_self 1, file, ?_⟩
    rw [key]
    decide
  have again := perform_children_again listed
  obtain ⟨_, answered⟩ := perform_resolveWith systems known "a.b" ⟨["html", "txt"]⟩
  have same : s.listing 0 = ([1], s) := by
    simp only [listing, listed]
  refine ⟨s, _, _, ran, again, named, answered, ?_⟩
  rcases resolveWith_cases reach known 0 "a.b" ⟨["html", "txt"]⟩ with
    ⟨i, c, least, _⟩ | ⟨_, resolved⟩
  · exact absurd least.here (no_match_of_dot (by decide) i c)
  · rw [resolved, same]
    intro found
    have remembered := (resolve_eq_iff nodes).mp found
    obtain ⟨_, _, leads⟩ := (remembered_file_iff reach.sound file named.below).mp remembered
    rw [keyBelow_root root, key] at leads
    revert leads
    decide +kernel

end Server

end Docroot
