import Docroot.Proofs.Containment

/-!
What is there when a path was created.

* `makeFolders_ok_iff`: the folders of a path are made exactly if the path leads to a folder then,
  whether it was there before or not.
* `makeFileAndFolders_ok_iff`: a file is made exactly if the path leads to an empty file then, at a
  place that was free before.
* `create_truthful_iff`: so creating a path tells the truth, but for folders that were missing when
  they were resolved and are on disk by now.
-/

namespace Docroot

namespace Disk

open Utf8 (Bytes)

variable {d d' : Disk} {fromRoot : Bool}

/-! ## Links at the end -/

/-- Where names lead to anything but a link, it does not matter whether a link would be followed. -/
theorem walk_follows {through : Bool} {links : Nat} {at' l : Location} {names : List Name}
    (found : d.walk through links at' names = .ok l)
    (solid : ∀ target, d.at? l ≠ some (.link target)) : d.walk true links at' names = .ok l := by
  fun_induction walk d through links at' names with
  | case1 =>
    rw [walk]
    exact found
  | case2 links at' rest ih =>
    rw [walk, if_pos rfl]
    exact ih found
  | case3 links at' rest notDot ih =>
    rw [walk, if_neg notDot, if_pos rfl]
    exact ih found
  | case4 | case6 | case9 | case11 => cases found
  | case5 links at' n notDot notDots short free =>
    rw [walk, if_neg notDot, if_neg notDots, if_neg short, free]
    exact found
  | case7 links at' n rest notDot notDots short folder ih =>
    rw [walk, if_neg notDot, if_neg notDots, if_neg short, folder]
    exact ih found
  | case8 links at' n notDot notDots short content file =>
    rw [walk, if_neg notDot, if_neg notDots, if_neg short, file]
    exact found
  | case10 links at' n rest notDot notDots short target link last =>
    cases found
    exact absurd link (solid target)
  | case12 at' n rest notDot notDots short target link notLast links ih =>
    rw [walk, if_neg notDot, if_neg notDots, if_neg short, link]
    simp only [Bool.not_true, Bool.false_eq_true, and_false, if_false]
    exact ih found

theorem drift_follows {through : Bool} {at' l : Location} {names : List Name}
    (found : d.drift through at' names = .ok (some l))
    (solid : ∀ target, d.at? l ≠ some (.link target)) :
    d.drift true at' names = .ok (some l) := by
  fun_induction drift d through at' names with
  | case1 | case5 => cases found
  | case2 at' rest ih =>
    rw [drift, if_pos rfl]
    exact ih found
  | case3 at' rest folder notDot =>
    rw [drift, if_neg notDot, if_pos rfl, if_pos folder, walk_follows (walk_some found) solid]
    rfl
  | case4 at' rest free notDot ih =>
    rw [drift, if_neg notDot, if_pos rfl, if_neg free]
    exact ih found

theorem lead_follows {through : Bool} {names : List Name} {l : Location}
    (found : d.lead through fromRoot names = .ok (some l))
    (solid : ∀ target, d.at? l ≠ some (.link target)) :
    d.lead true fromRoot names = .ok (some l) := by
  rcases d.lead_cases fromRoot with ⟨at', _, same⟩ | same <;> rw [same] at found ⊢
  · rw [walk_follows (walk_some found) solid]
    rfl
  · exact drift_follows found solid

/-- What was put at a free place is found there, unless it is a link. -/
theorem lead_put {names : List Name} {l : Location} {e : Entry}
    (led : d.lead false fromRoot names = .ok (some l)) (free : d.at? l = none)
    (solid : ∀ target, e ≠ .link target) :
    (d.put e (some l)).lead true fromRoot names = .ok (some l) ∧
    (d.put e (some l)).at? l = some e := by
  have below : l ≠ [] := by
    rintro rfl
    cases free
  have there : (d.put e (some l)).at? l = some e := by
    rw [at?_put d e l below, if_pos rfl]
  refine ⟨lead_follows (lead_grows (grows_put e free) led (by simp)) fun target link => ?_, there⟩
  rw [there, Option.some.injEq] at link
  exact solid target link

/-! ## Folders on the way to folders -/

/-- Names that lead to a folder lead to one with each leading part of them. -/
theorem lead_folder_part (tree : d.IsTree) {found : Option Location} {xs ys : List Name}
    (led : d.lead true fromRoot (xs ++ ys) = .ok found)
    (there : d.atPlace? found = some .folder) :
    ∃ found', d.lead true fromRoot xs = .ok found' ∧ d.atPlace? found' = some .folder := by
  cases ys with
  | nil =>
    rw [List.append_nil] at led
    exact ⟨found, led, there⟩
  | cons y ys => exact lead_front tree (List.cons_ne_nil y ys) led

/-- Names behind those that lead to a folder are followed from there. -/
theorem walk_append {links : Nat} {at' l : Location} {names : List Name}
    (found : d.walk true links at' names = .ok l) (there : d.at? l = some .folder) :
    ∃ links', ∀ rest, d.walk true links at' (names ++ rest) = d.walk true links' l rest := by
  fun_induction walk d true links at' names with
  | case1 links =>
    cases found
    exact ⟨links, fun _ => rfl⟩
  | case2 links at' names ih =>
    obtain ⟨links', further⟩ := ih found
    refine ⟨links', fun rest => ?_⟩
    rw [List.cons_append, walk, if_pos rfl, further]
  | case3 links at' names notDot ih =>
    obtain ⟨links', further⟩ := ih found
    refine ⟨links', fun rest => ?_⟩
    rw [List.cons_append, walk, if_neg notDot, if_pos rfl, further]
  | case4 | case6 | case9 | case11 => cases found
  | case5 links at' n notDot notDots short free =>
    cases found
    rw [free] at there
    cases there
  | case7 links at' n names notDot notDots short folder ih =>
    obtain ⟨links', further⟩ := ih found
    refine ⟨links', fun rest => ?_⟩
    rw [List.cons_append, walk, if_neg notDot, if_neg notDots, if_neg short, folder]
    exact further rest
  | case8 links at' n notDot notDots short content file =>
    cases found
    rw [file] at there
    cases there
  | case10 links at' n names notDot notDots short target link last => cases last.2
  | case12 at' n names notDot notDots short target link notLast links ih =>
    obtain ⟨links', further⟩ := ih found
    refine ⟨links', fun rest => ?_⟩
    have whole := further rest
    rw [List.append_assoc] at whole
    rw [List.cons_append, walk, if_neg notDot, if_neg notDots, if_neg short, link]
    simpa using whole

theorem drift_append {at' : Location} {names : List Name} {found : Option Location}
    (led : d.drift true at' names = .ok found) (there : d.atPlace? found = some .folder) :
    ∃ links gone, ∀ rest, d.drift true at' (names ++ rest) =
      found.elim (d.drift true gone rest) fun l => (d.walk true links l rest).map some := by
  fun_induction drift d true at' names with
  | case1 at' =>
    cases led
    exact ⟨0, at', fun _ => rfl⟩
  | case2 at' names ih =>
    obtain ⟨links, gone, further⟩ := ih led
    refine ⟨links, gone, fun rest => ?_⟩
    rw [List.cons_append, drift, if_pos rfl, further]
  | case3 at' names folder notDot =>
    obtain ⟨l, walked, rfl⟩ := map_some_ok led
    obtain ⟨links, further⟩ := walk_append walked there
    refine ⟨links, at', fun rest => ?_⟩
    rw [List.cons_append, drift, if_neg notDot, if_pos rfl, if_pos folder, further]
    rfl
  | case4 at' names free notDot ih =>
    obtain ⟨links, gone, further⟩ := ih led
    refine ⟨links, gone, fun rest => ?_⟩
    rw [List.cons_append, drift, if_neg notDot, if_pos rfl, if_neg free, further]
  | case5 => cases led

theorem lead_append {names : List Name} {found : Option Location}
    (led : d.lead true fromRoot names = .ok found) (there : d.atPlace? found = some .folder) :
    ∃ links gone, ∀ rest, d.lead true fromRoot (names ++ rest) =
      found.elim (d.drift true gone rest) fun l => (d.walk true links l rest).map some := by
  rcases d.lead_cases fromRoot with ⟨at', _, same⟩ | same
  · rw [same] at led
    obtain ⟨l, walked, rfl⟩ := map_some_ok led
    obtain ⟨links, further⟩ := walk_append walked there
    exact ⟨links, at', fun rest => by rw [same, further]; rfl⟩
  · rw [same] at led
    obtain ⟨links, gone, further⟩ := drift_append led there
    exact ⟨links, gone, fun rest => by rw [same, further]⟩

/-- A folder is a folder after a dot, too. -/
theorem lead_then_dot {names : List Name} {found : Option Location}
    (led : d.lead true fromRoot names = .ok found) (there : d.atPlace? found = some .folder) :
    d.lead true fromRoot (names ++ [dot]) = .ok found := by
  obtain ⟨links, gone, further⟩ := lead_append led there
  rw [further]
  cases found with
  | none => rw [Option.elim_none, drift, if_pos rfl, drift]
  | some l => rw [Option.elim_some, walk, if_pos rfl, walk]; rfl

/-- A path that asks for a folder leads where its names do, if there is one. -/
theorem lead_namesOf (tree : d.IsTree) {path : Bytes} {found : Option Location}
    (led : d.lead true fromRoot (namesToEntry path) = .ok found)
    (there : d.atPlace? found = some .folder) :
    d.lead true fromRoot (namesOf path) = .ok found := by
  obtain ⟨found', led', there'⟩ := lead_folder_part tree led there
  rw [namesToEntry] at led
  split at led
  · rw [lead_then_dot led' there'] at led
    cases led
    exact led'
  · rw [List.append_nil] at led
    exact led

/-! ## Making folders -/

theorem isFolderAt_iff {inward : List Name} : d.isFolderAt fromRoot inward = true ↔
    ∃ found, d.lead true fromRoot inward.reverse = .ok found ∧
      d.atPlace? found = some .folder := by
  rw [isFolderAt]
  cases d.lead true fromRoot inward.reverse <;> simp

/-- A path leads to a folder exactly if its names do. -/
theorem find_folder_iff (tree : d.IsTree) {path : Bytes} (vetted : vet path = .ok ()) :
    (∃ found, d.find path = .ok (found, .folder)) ↔
      d.isFolderAt (isAbsolute path) (namesOf path).reverse = true := by
  rw [isFolderAt_iff, List.reverse_reverse]
  constructor
  · rintro ⟨found, h⟩
    obtain ⟨led, there⟩ := find_ok h
    exact ⟨found, lead_namesOf tree led there, there⟩
  · rintro ⟨found, led, there⟩
    refine ⟨found, find_of vetted ?_ there⟩
    rw [namesToEntry]
    split
    · exact lead_then_dot led there
    · rw [List.append_nil]
      exact led

theorem makeFolderAt_isFolderAt {inward : List Name}
    (made : d.makeFolderAt fromRoot inward = .ok d') : d'.isFolderAt fromRoot inward = true := by
  obtain ⟨found, led, made⟩ := bind_ok made
  split at made
  · cases made
  · rename_i free
    cases made
    cases found with
    | none => cases free
    | some l =>
      obtain ⟨led', there⟩ := lead_put led free (e := .folder) (by simp)
      exact isFolderAt_iff.mpr ⟨some l, led', there⟩

/-- A folder is made, or there already, exactly if it is there then; provided that it is not there
where those around it cannot be made. -/
theorem makeFolderIn_ok_iff {inward : List Name} {around : Disk → Except IoError Unit × Disk}
    (fails : (around d).1 ≠ .ok () → (around d).2.isFolderAt fromRoot inward = false) :
    (d.makeFolderIn fromRoot inward around).1 = .ok () ↔
      (d.makeFolderIn fromRoot inward around).2.isFolderAt fromRoot inward = true := by
  simp only [Disk.makeFolderIn]
  split
  · simp [makeFolderAt_isFolderAt ‹_›]
  · split
    · split
      · rename_i made
        rw [made] at fails
        simp [fails (by simp)]
      · split
        · simp [makeFolderAt_isFolderAt ‹_›]
        · split <;> simp [*]
    · split <;> simp [*]

theorem isFolderAt_part (tree : d.IsTree) {inward more : List Name}
    (there : d.isFolderAt fromRoot (more ++ inward) = true) :
    d.isFolderAt fromRoot inward = true := by
  rw [isFolderAt_iff] at there ⊢
  obtain ⟨found, led, folder⟩ := there
  rw [List.reverse_append] at led
  exact lead_folder_part tree led folder

/-- Where folders cannot be made, there is none at the end. -/
theorem makeFoldersAt_fails (tree : d.IsTree) {inward : List Name}
    (failed : (d.makeFoldersAt fromRoot inward).1 ≠ .ok ()) :
    (d.makeFoldersAt fromRoot inward).2.isFolderAt fromRoot inward = false := by
  induction inward with
  | nil => exact absurd rfl failed
  | cons n outer ih =>
    have treeThen := (@makeFoldersAt_builds d fromRoot _ outer List.prefix_rfl).isTree tree
    rw [← Bool.not_eq_true]
    intro there
    refine failed ((makeFolderIn_ok_iff fun failed => ?_).mpr there)
    rw [← Bool.not_eq_true]
    intro further
    exact Bool.false_ne_true ((ih failed).symm.trans
      (@isFolderAt_part _ _ treeThen _ [n] further))

/-- The folders of a path are made, as far as they are missing, exactly if the path leads to a
folder then. -/
theorem makeFolders_ok_iff (tree : d.IsTree) {path : Bytes} (some' : path ≠ []) :
    (d.makeFolders path).1 = .ok () ↔
      ∃ found, (d.makeFolders path).2.find path = .ok (found, .folder) := by
  have treeThen : (d.makeFolders path).2.IsTree := (makeFolders_builds d path).isTree tree
  cases vetted : vet path with
  | error e =>
    have nowhere {d : Disk} : ¬ ∃ found, d.find path = .ok (found, .folder) := by
      rintro ⟨found, h⟩
      simp [find, vetted, bind, Except.bind] at h
    simp [nowhere, Disk.makeFolders, some', vetted]
  | ok _ =>
    rw [find_folder_iff treeThen vetted]
    simp only [Disk.makeFolders, if_neg some', vetted]
    refine makeFolderIn_ok_iff fun failed => ?_
    have treeAround := (@makeFoldersAt_builds d (isAbsolute path) _
      (namesOf (around path)).reverse List.prefix_rfl).isTree tree
    obtain ⟨rest, whole⟩ := namesOf_around path
    rw [← Bool.not_eq_true, ← whole, List.reverse_append]
    intro there
    exact Bool.false_ne_true ((makeFoldersAt_fails tree failed).symm.trans
      (isFolderAt_part treeAround there))

/-- A folder on a grown disk is at a place that was free before, or was there. -/
theorem Grows.folder_cases (grows : d.Grows d') {place : Option Location}
    (there : d'.atPlace? place = some .folder) :
    (∃ l, place = some l ∧ d.at? l = none) ∨ d.atPlace? place = some .folder := by
  cases place with
  | none => exact .inr rfl
  | some l =>
    cases old : d.at? l with
    | none => exact .inl ⟨l, rfl, old⟩
    | some e =>
      have stays := grows.entries l e old
      exact .inr (old.trans (stays.symm.trans there))

/-! ## Making files -/

section Keeps

variable {I : Disk → Prop} (step : ∀ d l, d.at? l = none → I d → I (d.put .folder (some l)))
include step

theorem makeFolderAt_keeps {inward : List Name} (made : d.makeFolderAt fromRoot inward = .ok d')
    (start : I d) : I d' := by
  obtain ⟨found, led, made⟩ := bind_ok made
  split at made
  · cases made
  · rename_i free
    cases made
    cases found with
    | none => cases free
    | some l => exact step d l free start

theorem makeFolderIn_keeps {inward : List Name} {around : Disk → Except IoError Unit × Disk}
    (outer : I (around d).2) (start : I d) : I (d.makeFolderIn fromRoot inward around).2 := by
  simp only [Disk.makeFolderIn]
  split
  · exact makeFolderAt_keeps step ‹_› start
  · split
    · split <;> rename_i made <;> rw [made] at outer
      · exact outer
      · split
        · exact makeFolderAt_keeps step ‹_› outer
        · split <;> exact outer
    · split <;> exact start

theorem makeFoldersAt_keeps (inward : List Name) (start : I d) :
    I (d.makeFoldersAt fromRoot inward).2 := by
  induction inward with
  | nil => exact start
  | cons n outer ih => exact makeFolderIn_keeps step ih start

/-- Making folders keeps what putting one folder at a free place keeps. -/
theorem makeFolders_keeps (path : Bytes) (start : I d) : I (d.makeFolders path).2 := by
  simp only [Disk.makeFolders]
  split
  · exact start
  · split
    · exact start
    · exact makeFolderIn_keeps step (makeFoldersAt_keeps step _ start) start

end Keeps

/-- Making folders makes no files. -/
theorem file_of_makeFolders {path content : Bytes} {l : Location}
    (file : (d.makeFolders path).2.at? l = some (.file content)) :
    d.at? l = some (.file content) := by
  refine makeFolders_keeps (I := fun d' => d'.at? l = some (.file content) →
    d.at? l = some (.file content)) ?_ path id file
  intro d' place free ih file
  refine ih ?_
  have below : place ≠ [] := by
    rintro rfl
    cases free
  rw [at?_put d' .folder l below] at file
  split at file
  · cases file
  · exact file

/-- A file that is made is empty, and at a place that was free before. -/
theorem makeFile_found {path : Bytes} (made : d.makeFile path = .ok d') :
    ∃ l, d'.find path = .ok (some l, .file []) ∧ d.at? l = none := by
  obtain ⟨_, vetted, made⟩ := bind_ok made
  obtain ⟨found, led, made⟩ := bind_ok made
  split at made
  · split at made <;> cases made
  · rename_i free
    split at made
    · cases made
    · rename_i shut
      cases made
      cases found with
      | none => cases free
      | some l =>
        obtain ⟨led', there⟩ := lead_put led free (e := .file []) (by simp)
        have names : namesToEntry path = namesOf path := by
          rw [namesToEntry, if_neg shut, List.append_nil]
        exact ⟨l, find_of vetted (by rw [names]; exact led') there, free⟩

/-- A file is made, and the folders around it, exactly if the path leads to an empty file then, at
a place that was free before. -/
theorem makeFileAndFolders_ok_iff (d : Disk) (path : Bytes) :
    (d.makeFileAndFolders path).1 = .ok () ↔
      ∃ l, (d.makeFileAndFolders path).2.find path = .ok (some l, .file []) ∧ d.at? l = none := by
  have unmade : ¬ ∃ l, (d.makeFolders (around path)).2.find path = .ok (some l, .file []) ∧
      d.at? l = none := by
    rintro ⟨l, h, free⟩
    rw [file_of_makeFolders (find_ok h).2] at free
    cases free
  have grows := (makeFolders_builds d (around path)).grows
  simp only [Disk.makeFileAndFolders]
  split
  · rename_i made
    rw [made] at unmade
    simpa using unmade
  · rename_i d' made
    rw [made] at unmade grows
    split
    · rename_i d'' file
      obtain ⟨l, h, free⟩ := makeFile_found file
      have free : d.at? l = none := by
        cases old : d.at? l with
        | none => rfl
        | some e =>
          rw [grows.entries l e old] at free
          cases free
      simpa using ⟨l, h, free⟩
    · simpa using unmade

end Disk

/-- What is made of a path: a folder or an empty file. -/
def PathNode.kind (n : PathNode) : Entry := if n.isFolder then .folder else .file []

namespace Server

variable {s t : Server} {p : Nat}

/-! ## What creating a path tells -/

/-- Between two states the file or the folder of a path came to be on disk. -/
def NewlyMade (s t : Server) (p : Nat) : Prop :=
  ∃ l, t.disk.find (Utf8.ofText (s.node p).diskPath) = .ok (some l, (s.node p).kind) ∧
    s.disk.at? l = none

/-- A path was resolved to a folder that was missing, and leads to a folder now that was on disk
before. The empty path, which asks for nothing, is such a one as well. -/
def Overtaken (s t : Server) (p : Nat) : Prop :=
  (s.node p).isFolder = true ∧ (s.node p).present = false ∧
  ((s.node p).diskPath = "" ∨ ∃ place,
    t.disk.find (Utf8.ofText (s.node p).diskPath) = .ok (place, .folder) ∧
      s.disk.atPlace? place = some .folder)

/-- What is made on disk, and the answer of which tells whether it is there. -/
def makeOnDisk (s : Server) (p : Nat) : Except IoError Unit × Disk :=
  if (s.node p).isFolder then s.disk.makeFolders (Utf8.ofText (s.node p).diskPath)
  else s.disk.makeFileAndFolders (Utf8.ofText (s.node p).diskPath)

theorem create_present (present : (s.node p).present = true) : s.create p = (.ok false, s) := by
  simp [create, present]

/-- What becomes of this under the policy of the path. -/
def attempt (s : Server) (p : Nat) : Except FileError Bool × Server :=
  ({ s with disk := (s.makeOnDisk p).2 } : Server).settle
    ((s.configOf (s.node p)).ioPolicy.judge (s.node p).diskPath
      ((s.makeOnDisk p).1.map fun _ => true) false)

theorem create_missing (missing : (s.node p).present = false) : s.create p =
    match (s.attempt p).1 with
    | .ok true => (.ok true, (s.attempt p).2.setNode p { s.node p with present := true })
    | other => (other, (s.attempt p).2) := by
  rw [create, if_neg (by simp [missing])]
  rfl

/-- Where making it succeeds, the path is there from then on. -/
theorem create_made (missing : (s.node p).present = false)
    (made : (s.makeOnDisk p).1 = .ok ()) :
    (s.create p).1 = .ok true ∧ (s.create p).2.disk = (s.makeOnDisk p).2 ∧
    (s.create p).2.nodes = s.nodes.setIfInBounds p { s.node p with present := true } := by
  have settled : s.attempt p = (.ok true, { s with disk := (s.makeOnDisk p).2 }) := by
    rw [attempt, made]
    rfl
  rw [create_missing missing, settled]
  exact ⟨rfl, rfl, rfl⟩

/-- Where it fails, nothing changes but the disk, whatever the policy makes of the failure. -/
theorem create_unmade (missing : (s.node p).present = false)
    (unmade : (s.makeOnDisk p).1 ≠ .ok ()) :
    (s.create p).1 ≠ .ok true ∧ (s.create p).2.disk = (s.makeOnDisk p).2 ∧
    (s.create p).2.nodes = s.nodes := by
  obtain ⟨answer, t, settled, other, disk, nodes⟩ : ∃ answer t, s.attempt p = (answer, t) ∧
      answer ≠ .ok true ∧ t.disk = (s.makeOnDisk p).2 ∧ t.nodes = s.nodes := by
    cases failed : (s.makeOnDisk p).1 with
    | ok _ => exact absurd failed unmade
    | error e =>
      rw [attempt, failed]
      cases (s.configOf (s.node p)).ioPolicy with
      | degrade => exact ⟨.ok false, _, rfl, by simp, rfl, rfl⟩
      | strict => exact ⟨.error (.ofIo e _), _, rfl, by simp, rfl, rfl⟩
  rw [create_missing missing, settled]
  split
  · rename_i same
    exact absurd same other
  · exact ⟨other, disk, nodes⟩

theorem makeOnDisk_grows (s : Server) (p : Nat) : s.disk.Grows (s.makeOnDisk p).2 :=
  (s.disk.make_builds (s.node p).isFolder (Utf8.ofText (s.node p).diskPath)).grows

theorem not_newlyMade_overtaken (newly : s.NewlyMade t p) : ¬ s.Overtaken t p := by
  obtain ⟨l, found, free⟩ := newly
  rintro ⟨folder, _, empty | ⟨place, found', there⟩⟩
  · rw [empty] at found
    cases found
  · simp only [found, Except.ok.injEq, Prod.mk.injEq] at found'
    obtain ⟨rfl, _⟩ := found'
    rw [Disk.atPlace?, free] at there
    cases there

/-- What is made on disk is there then, and was not before, unless it is a folder that was. -/
theorem makeOnDisk_ok_iff (sound : s.Sound) (missing : (s.node p).present = false)
    (disk : t.disk = (s.makeOnDisk p).2) :
    (s.makeOnDisk p).1 = .ok () ↔ s.NewlyMade t p ∨ s.Overtaken t p := by
  have grows := s.makeOnDisk_grows p
  rw [NewlyMade, Overtaken, disk]
  cases folder : (s.node p).isFolder with
  | false =>
    simp only [makeOnDisk, PathNode.kind, folder, Bool.false_eq_true, if_false, false_and, or_false]
    exact s.disk.makeFileAndFolders_ok_iff _
  | true =>
    simp only [makeOnDisk, PathNode.kind, folder, if_true] at grows ⊢
    by_cases empty : (s.node p).diskPath = ""
    · have made : (s.disk.makeFolders (Utf8.ofText "")).1 = .ok () := rfl
      simp [empty, made, missing]
    · have some' : Utf8.ofText (s.node p).diskPath ≠ [] :=
        fun none => empty (String.toList_inj.mp (Utf8.encode_eq_nil.mp none))
      rw [Disk.makeFolders_ok_iff sound.tree some']
      constructor
      · rintro ⟨place, found⟩
        rcases grows.folder_cases (Disk.find_ok found).2 with ⟨l, rfl, free⟩ | old
        · exact .inl ⟨l, found, free⟩
        · exact .inr ⟨trivial, missing, .inr ⟨place, found, old⟩⟩
      · rintro (⟨l, found, _⟩ | ⟨_, _, none | ⟨place, found, _⟩⟩)
        · exact ⟨_, found⟩
        · exact absurd none empty
        · exact ⟨_, found⟩

/-- **Creating a path tells the truth, but for folders that were there.** The answer is true exactly
if the call made the file or the folder, unless a folder that was missing when it was resolved is on
disk by now, which is reported as made; and then the answer is wrong. The path is taken to be there
from then on if the answer is true; otherwise nothing is noted of it, and no other path is
touched. -/
theorem create_truthful_iff [MediaTypes] (reach : Reachable s) (known : p < s.nodes.size) : ∃ r t,
    s.perform (.create p) = some (.created r, t) ∧
    ((r = .ok true ↔ s.NewlyMade t p) ↔ ¬ s.Overtaken t p) ∧
    (r = .ok true → (s.node p).present = false ∧
      t.node p = { s.node p with present := true } ∧ ∀ q, q ≠ p → t.node q = s.node q) ∧
    (r ≠ .ok true → t.nodes = s.nodes) := by
  have performed : s.perform (.create p) = some (.created (s.create p).1, (s.create p).2) := by
    simp [perform, knows, known, carryOut]
  refine ⟨_, _, performed, ?_⟩
  cases present : (s.node p).present with
  | true =>
    rw [create_present present]
    have old : ¬ s.NewlyMade s p := by
      rintro ⟨l, found, free⟩
      have there := (Disk.find_ok found).2
      rw [Disk.atPlace?, free] at there
      cases there
    simp [old, Overtaken, present]
  | false =>
    by_cases made : (s.makeOnDisk p).1 = .ok ()
    · obtain ⟨answer, disk, nodes⟩ := create_made present made
      have either := (makeOnDisk_ok_iff reach.sound present disk).mp made
      have same (q : Nat) : (s.create p).2.node q =
          (s.setNode p { s.node p with present := true }).node q :=
        congrArg (fun l : Array PathNode => l.getD q default) nodes
      refine ⟨?_, fun _ => ⟨rfl, ?_, fun q other => ?_⟩, fun wrong => absurd answer wrong⟩
      · simp only [answer, true_iff]
        exact ⟨not_newlyMade_overtaken, either.resolve_right⟩
      · rw [same, node_setNode, if_pos ⟨rfl, known⟩]
      · rw [same, node_setNode, if_neg fun here => other here.1.symm]
    · obtain ⟨answer, disk, nodes⟩ := create_unmade present made
      have neither := mt (makeOnDisk_ok_iff reach.sound present disk).mpr made
      rw [not_or] at neither
      exact ⟨by simp [answer, neither], fun right => absurd right answer, fun _ => nodes⟩

/-! ## On a bare disk -/

theorem absoluteRoot_bare : absoluteRoot Tree.bare.1 "/" = "/" := by
  cbv

/-- A first request on a bare disk gives a path that is missing. -/
theorem first_on_bare [MediaTypes] (raw : String)
    (below : Key.normalize (Key.join "" raw) false ≠ "") :
    ∃ s u : Server,
      (start .bare).run [.mount "/" none {}, .root 0, .resolve 0 0 raw] = some u ∧
      s.disk = Tree.bare.1 ∧ (s.system 0).root = "/" ∧ (s.node 0).key = "" ∧
      1 < u.nodes.size ∧ u.disk = Tree.bare.1 ∧ u.node 1 = s.anew 0 0 raw := by
  obtain ⟨s, ran, disk, systems, nodes, _, root, _, _, free, node⟩ :=
    start_mounted absoluteRoot_bare
  have key : (s.node 0).key = "" := by rw [node]
  have known : 0 < s.systems.size := by omega
  have there : 0 < s.nodes.size := by omega
  have asFile : s.keyBelow 0 raw false ≠ "" := by
    rw [keyBelow_root key]
    exact below
  have new : s.remembered 0 0 raw = none := by
    rw [remembered, free _ asFile, free _ (mt keyBelow_empty.mp asFile)]
    simp
  obtain ⟨number, size⟩ := resolve_new new
  have made := resolve_anew new
  rw [nodes] at number size
  rw [number] at made
  have goes := (resolve_goes known 0 raw).mono Effect.Resolves.looks
  exact ⟨s, _, run_snoc_of ran (perform_resolve known there raw), disk, root, key, size,
    goes.disk_kept.trans disk, made⟩

attribute [local instance] MediaTypes.familiar

/-- A file that is not there is made, and the answer says so. -/
theorem file_truly_made : ∃ s t,
    (start .bare).run [.mount "/" none {}, .root 0, .resolve 0 0 "x.txt"] = some s ∧
    s.perform (.create 1) = some (.created (.ok true), t) ∧ s.NewlyMade t 1 := by
  obtain ⟨r, s, ran, disk, root, key, known, disk', node⟩ :=
    first_on_bare "x.txt" (by decide +kernel)
  obtain ⟨notAsks, file, _⟩ := keys_textDisk key
  have place : Key.below "/" "x.txt" = "/x.txt" := by decide
  have missing : Tree.bare.1.stat (Utf8.ofText "/x.txt") = .error (.os Errno.noEntry) := by cbv
  have isFile : r.folderAnew 0 0 "x.txt" = false := by
    rw [folderAnew, notAsks, file, classify, disk, root, place, missing]
    decide
  have path : s.node 1 = ⟨0, "x.txt", false, "/x.txt", false, none⟩ := by
    rw [node, anew, isFile, file, makeNode, root, disk, place, Disk.exists?, missing]
  have made : (s.makeOnDisk 1).1 = .ok () := by
    rw [makeOnDisk, path, disk']
    cbv
  have performed : s.perform (.create 1) = some (.created (s.create 1).1, (s.create 1).2) := by
    simp [perform, knows, known, carryOut]
  rw [(create_made (by rw [path]) made).1] at performed
  obtain ⟨answer, t, performed', truthful, _, _⟩ := create_truthful_iff ⟨_, _, ran⟩ known
  rw [performed] at performed'
  cases performed'
  have file : ¬ s.Overtaken (s.create 1).2 1 := by
    rintro ⟨folder, _⟩
    rw [path] at folder
    cases folder
  exact ⟨s, _, ran, performed, (truthful.mpr file).mp rfl⟩

/-- A folder that was resolved before it came to be on disk is reported as made. -/
theorem folder_overtaken : ∃ s t,
    (start .bare).run [.mount "/" none {}, .root 0, .resolve 0 0 "data/",
      .change (.hollow (Utf8.ofText "data"))] = some s ∧
    s.disk.find (Utf8.ofText (s.node 1).diskPath) = .ok (some [Utf8.ofText "data"], .folder) ∧
    s.perform (.create 1) = some (.created (.ok true), t) ∧ ¬ s.NewlyMade t 1 := by
  obtain ⟨r, u, ran, disk, root, key, known, disk', node⟩ :=
    first_on_bare "data/" (by decide +kernel)
  have asks : r.asksForFolder 0 "data/" = true := by
    rw [asksForFolder, show Key.asksForFolder "data/" = true by decide, Bool.true_or]
  have missing : Tree.bare.1.exists? (Utf8.ofText "/data/") = false := by cbv
  have path : u.node 1 = ⟨0, "data/", true, "/data/", false, none⟩ := by
    rw [node, anew, folderAnew, asks, Bool.true_or, Bool.true_or, keyBelow_root key,
      show Key.normalize (Key.join "" "data/") true = "data/" by decide +kernel, makeNode, root,
      disk, show Key.below "/" "data/" = "/data/" by decide, missing]
  obtain ⟨s, ran', path', known', now⟩ : ∃ s : Server,
      (start .bare).run [.mount "/" none {}, .root 0, .resolve 0 0 "data/",
        .change (.hollow (Utf8.ofText "data"))] = some s ∧
      s.node 1 = ⟨0, "data/", true, "/data/", false, none⟩ ∧ 1 < s.nodes.size ∧
      s.disk = (Tree.hollow (Utf8.ofText "data")).1 :=
    ⟨_, run_snoc_of ran rfl, path, known, rfl⟩
  have there : s.disk.find (Utf8.ofText (s.node 1).diskPath) =
      .ok (some [Utf8.ofText "data"], .folder) := by
    rw [path', now]
    cbv
  have made : s.makeOnDisk 1 = (.ok (), s.disk) := by
    rw [makeOnDisk, path', now]
    cbv
  have performed : s.perform (.create 1) = some (.created (s.create 1).1, (s.create 1).2) := by
    simp [perform, knows, known', carryOut]
  obtain ⟨answer, disk'', _⟩ := create_made (by rw [path']) (congrArg Prod.fst made)
  rw [answer] at performed
  refine ⟨s, _, ran', there, performed, ?_⟩
  rintro ⟨l, found, free⟩
  rw [disk'', made, there] at found
  simp only [Except.ok.injEq, Prod.mk.injEq, Option.some.injEq] at found
  obtain ⟨rfl, _⟩ := found
  have taken := (Disk.find_ok there).2
  rw [Disk.atPlace?, free] at taken
  cases taken

end Server

end Docroot
