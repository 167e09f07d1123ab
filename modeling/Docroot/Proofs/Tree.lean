import Docroot.Disk.Change

/-!
Disks that are trees.

On a real disk every entry lies in a folder. Such a disk stays a tree when an entry is put into a
folder, and a path that ends with a separator leads to nothing but folders there.
-/

namespace Docroot

namespace Disk

open Utf8 (Bytes)

/-- Every entry lies in a folder, and the current directory is one unless it was removed. -/
structure IsTree (d : Disk) : Prop where
  around : ∀ n at', d.at? (n :: at') ≠ none → d.at? at' = some .folder
  here : d.adrift = false → d.at? d.here = some .folder

variable {d : Disk}

@[simp] theorem at?_root : d.at? [] = some .folder := rfl

theorem IsTree.tail (tree : d.IsTree) {at' : Location} (folder : d.at? at' = some .folder) :
    d.at? at'.tail = some .folder := by
  cases at' with
  | nil => exact folder
  | cons n around => exact tree.around n around (by simp [folder])

/-- A place where something is or can be made: a folder, or any name in one. -/
def Grounded (d : Disk) (l : Location) : Prop :=
  d.at? l = some .folder ∨ ∃ n around, l = n :: around ∧ d.at? around = some .folder

theorem walk_grounded (tree : d.IsTree) {through : Bool} {links : Nat} {at' l : Location}
    {names : List Name} (folder : d.at? at' = some .folder)
    (found : d.walk through links at' names = .ok l) : d.Grounded l := by
  fun_induction walk d through links at' names with
  | case1 => cases found; exact .inl folder
  | case2 _ _ _ ih => exact ih folder found
  | case3 _ _ _ _ ih => exact ih (tree.tail folder) found
  | case4 | case6 | case9 | case11 => cases found
  | case5 | case8 | case10 => cases found; exact .inr ⟨_, _, rfl, folder⟩
  | case7 _ _ _ _ _ _ _ here ih => exact ih here found
  | case12 _ _ _ _ _ _ _ _ _ _ ih =>
    refine ih ?_ found
    split
    · rfl
    · exact folder

/-- Names that end with a dot lead to a folder. -/
theorem walk_dot (tree : d.IsTree) {through : Bool} {links : Nat} {at' l : Location}
    {names : List Name} (folder : d.at? at' = some .folder) (ends : names.getLast? = some dot)
    (found : d.walk through links at' names = .ok l) : d.at? l = some .folder := by
  fun_induction walk d through links at' names with
  | case1 => cases ends
  | case2 _ at' rest ih =>
    cases rest with
    | nil => simp only [walk, Except.ok.injEq] at found; exact found ▸ folder
    | cons => exact ih folder (by simpa using ends) found
  | case3 _ _ rest _ ih =>
    cases rest with
    | nil => cases ends
    | cons => exact ih (tree.tail folder) (by simpa using ends) found
  | case4 | case6 | case9 | case11 => cases found
  | case5 _ _ n notDot | case8 _ _ n notDot => exact absurd (by simpa using ends) notDot
  | case7 _ _ _ rest notDot _ _ here ih =>
    cases rest with
    | nil => exact absurd (by simpa using ends) notDot
    | cons => exact ih here (by simpa using ends) found
  | case10 _ _ _ _ notDot _ _ _ _ last =>
    obtain ⟨rfl, _⟩ := last
    exact absurd (by simpa using ends) notDot
  | case12 _ _ rest notDot _ _ _ _ _ _ ih =>
    refine ih ?_ ?_ found
    · split
      · rfl
      · exact folder
    · cases rest with
      | nil => exact absurd (by simpa using ends) notDot
      | cons => simpa [List.getLast?_append] using ends

theorem bind_ok {ε α β : Type} {x : Except ε α} {f : α → Except ε β} {b : β}
    (h : x >>= f = .ok b) : ∃ a, x = .ok a ∧ f a = .ok b := by
  cases x with
  | error e => cases h
  | ok a => exact ⟨a, rfl, h⟩

theorem map_some_ok {ε α : Type} {x : Except ε α} {found : Option α}
    (h : x.map some = .ok found) : ∃ a, x = .ok a ∧ found = some a := by
  cases x with
  | error e => cases h
  | ok a =>
    cases h
    exact ⟨a, rfl, rfl⟩

theorem walk_some {through : Bool} {links : Nat} {at' l : Location} {names : List Name}
    (found : (d.walk through links at' names).map some = .ok (some l)) :
    d.walk through links at' names = .ok l := by
  obtain ⟨_, walked, same⟩ := map_some_ok found
  cases same
  exact walked

/-- Names are followed from one folder, or drift from a current directory that was removed. -/
theorem lead_cases (d : Disk) (fromRoot : Bool) :
    (∃ at', (d.IsTree → d.at? at' = some .folder) ∧ ∀ through names,
      d.lead through fromRoot names = (d.walk through linkMax at' names).map some) ∨
    ∀ through names, d.lead through fromRoot names = d.drift through d.here names := by
  by_cases absolute : fromRoot = true
  · exact .inl ⟨[], fun _ => rfl, fun _ _ => if_pos absolute⟩
  · by_cases adrift : d.adrift = true
    · exact .inr fun _ _ => (if_neg absolute).trans (if_pos adrift)
    · exact .inl ⟨d.here, fun tree => tree.here (by simpa using adrift),
        fun _ _ => (if_neg absolute).trans (if_neg adrift)⟩

theorem drift_grounded (tree : d.IsTree) {through : Bool} {names : List Name} {at' l : Location}
    (found : d.drift through at' names = .ok (some l)) : d.Grounded l := by
  fun_induction drift d through at' names with
  | case1 | case5 => cases found
  | case2 _ _ ih => exact ih found
  | case3 _ _ folder => exact walk_grounded tree folder (walk_some found)
  | case4 _ _ _ _ ih => exact ih found

/-- Whatever a path leads to is a folder or lies in one. -/
theorem lead_grounded (tree : d.IsTree) {through fromRoot : Bool} {names : List Name}
    {l : Location} (found : d.lead through fromRoot names = .ok (some l)) : d.Grounded l := by
  rcases d.lead_cases fromRoot with ⟨at', folder, same⟩ | same <;> rw [same] at found
  · exact walk_grounded tree (folder tree) (walk_some found)
  · exact drift_grounded tree found

theorem drift_dot (tree : d.IsTree) {through : Bool} {names : List Name} {at' : Location}
    {found : Option Location} (ends : names.getLast? = some dot)
    (led : d.drift through at' names = .ok found) : d.atPlace? found = some .folder := by
  fun_induction drift d through at' names with
  | case1 => cases ends
  | case2 _ rest ih =>
    cases rest with
    | nil => simp only [drift, Except.ok.injEq] at led; exact led ▸ rfl
    | cons => exact ih (by simpa using ends) led
  | case3 _ rest folder =>
    cases found with
    | none => rfl
    | some l =>
      cases rest with
      | nil => cases ends
      | cons => exact walk_dot tree folder (by simpa using ends) (walk_some led)
  | case4 _ rest _ _ ih =>
    cases rest with
    | nil => cases ends
    | cons => exact ih (by simpa using ends) led
  | case5 => cases led

theorem lead_dot (tree : d.IsTree) {through fromRoot : Bool} {names : List Name}
    {found : Option Location} (ends : names.getLast? = some dot)
    (led : d.lead through fromRoot names = .ok found) : d.atPlace? found = some .folder := by
  rcases d.lead_cases fromRoot with ⟨at', folder, same⟩ | same <;> rw [same] at led
  · obtain ⟨l, walked, rfl⟩ := map_some_ok led
    exact walk_dot tree (folder tree) ends walked
  · exact drift_dot tree ends led

theorem vet_iff {path : Bytes} :
    vet path = .ok () ↔ 0 ∉ path ∧ path.length < pathMax ∧ path ≠ [] := by
  rw [vet]
  split
  · simp [*]
  · split
    · rename_i long
      simp [Nat.not_lt.mpr long]
    · rename_i nul short
      split <;> simp [*, Nat.not_le.mp short]

theorem find_ok {path : Bytes} {found : Option Location} {e : Entry}
    (h : d.find path = .ok (found, e)) :
    d.lead true (isAbsolute path) (namesToEntry path) = .ok found ∧ d.atPlace? found = some e := by
  obtain ⟨_, _, h⟩ := bind_ok h
  obtain ⟨found', led, h⟩ := bind_ok h
  split at h
  · cases h
    exact ⟨led, ‹_›⟩
  · cases h

/-- What can be read is a file. -/
theorem find_of_read {path content : Bytes} (read : d.read path = .ok content) :
    ∃ place, d.find path = .ok (place, .file content) := by
  simp only [Disk.read] at read
  split at read
  · cases read
  · cases read
    exact ⟨_, ‹_›⟩
  · cases read
  · cases read

/-- What can be listed is a folder, and its names are those at its location. A current directory
that was removed has none. -/
theorem find_of_list {path : Bytes} {names : List Name} (listed : d.list path = .ok names) :
    ∃ place, d.find path = .ok (place, .folder) ∧ names = place.elim [] d.namesIn := by
  simp only [list] at listed
  split at listed
  · cases listed
  · cases listed
    exact ⟨_, ‹_›, rfl⟩
  · cases listed
    exact ⟨_, ‹_›, rfl⟩
  · cases listed

/-- A path that ends with a separator leads to no file. -/
theorem read_of_endsOpen (tree : d.IsTree) {path : Bytes} (ends : endsOpen path = true)
    (content : Bytes) : d.read path ≠ .ok content := by
  intro read
  obtain ⟨place, found⟩ := find_of_read read
  obtain ⟨led, there⟩ := find_ok found
  rw [lead_dot tree (by simp [namesToEntry, ends]) led] at there
  cases there

theorem endsOpen_ofText {s : String} (last : s.toList.getLast? = some '/') :
    endsOpen (Utf8.ofText s) = true := by
  obtain ⟨init, split⟩ := List.getLast?_eq_some_iff.mp last
  rw [Utf8.ofText, split, Utf8.encode, List.flatMap_append, endsOpen, List.getLast?_append]
  rfl

/-! ## Putting entries -/

theorem IsTree.put (tree : d.IsTree) (e : Entry) {l : Location} (grounded : d.Grounded l)
    (free : d.at? l = none) : (d.put e (some l)).IsTree := by
  obtain folder | ⟨n, around, rfl, folder⟩ := grounded
  · simp [folder] at free
  · have kept : ∀ at', d.at? at' = some .folder →
        (d.put e (some (n :: around))).at? at' = some .folder := by
      intro at' isFolder
      rw [at?_put d e at' (List.cons_ne_nil n around)]
      split
      · rename_i same
        rw [same, isFolder] at free
        cases free
      · exact isFolder
    refine ⟨fun m at' there => ?_, fun notAdrift => kept _ (tree.here notAdrift)⟩
    rw [at?_put d e _ (List.cons_ne_nil n around)] at there
    split at there
    · rename_i same
      cases same
      exact kept _ folder
    · exact kept _ (tree.around m at' there)

end Disk

/-- The disks that there can be. -/
abbrev Tree := { d : Disk // d.IsTree }

/-- The disk with nothing on it but the root folder, which is the current directory. -/
def Tree.bare : Tree :=
  ⟨{ entries := .empty, here := [], adrift := false, folderSize := fun _ => 0 },
    fun _ _ there => absurd rfl there, fun _ => rfl⟩

/-- The disk with one file in the root folder. -/
def Tree.lone (name : Name) (content : Utf8.Bytes) : Tree :=
  ⟨Tree.bare.1.put (.file content) (some [name]),
    Tree.bare.2.put _ (.inr ⟨name, [], rfl, rfl⟩) rfl⟩

/-- The disk with one folder in the root folder, with nothing in it. -/
def Tree.hollow (name : Name) : Tree :=
  ⟨Tree.bare.1.put .folder (some [name]), Tree.bare.2.put _ (.inr ⟨name, [], rfl, rfl⟩) rfl⟩

/-- The disk with one link in the root folder. -/
def Tree.linked (name target : Name) : Tree :=
  ⟨Tree.bare.1.put (.link target) (some [name]),
    Tree.bare.2.put _ (.inr ⟨name, [], rfl, rfl⟩) rfl⟩

/-- The disk with one entry more, in a folder that has none of this name. -/
def Tree.add (d : Tree) (e : Entry) (name : Name) (around : Location)
    (folder : d.1.at? around = some .folder) (free : d.1.at? (name :: around) = none) : Tree :=
  ⟨d.1.put e (some (name :: around)), d.2.put e (.inr ⟨name, around, rfl, folder⟩) free⟩

end Docroot
