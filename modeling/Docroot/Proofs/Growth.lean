import Docroot.Proofs.Tree

/-!
Disks that grow.

Making files and folders adds entries at free places and changes nothing else. What a path led to
before it leads to afterwards, and every place that was free and is not any more is one that a
leading part of the path's names leads to.
-/

namespace Docroot.Disk

open Utf8 (Bytes)

/-- Everything on the first disk is on the second as well. -/
structure Grows (d d' : Disk) : Prop where
  here : d'.here = d.here
  adrift : d'.adrift = d.adrift
  entries : ∀ l e, d.at? l = some e → d'.at? l = some e

variable {d d' : Disk}

theorem Grows.refl (d : Disk) : d.Grows d := ⟨rfl, rfl, fun _ _ => id⟩

theorem Grows.trans {d'' : Disk} (h : d.Grows d') (h' : d'.Grows d'') : d.Grows d'' :=
  ⟨h'.here.trans h.here, h'.adrift.trans h.adrift,
    fun l e there => h'.entries l e (h.entries l e there)⟩

theorem grows_put (e : Entry) {l : Location} (free : d.at? l = none) :
    d.Grows (d.put e (some l)) := by
  have below : l ≠ [] := by
    rintro rfl
    cases free
  refine ⟨rfl, rfl, ?_⟩
  intro l' e' there
  rw [at?_put d e l' below, if_neg]
  · exact there
  · rintro rfl
    rw [free] at there
    cases there

/-! ## Where paths lead on a grown disk -/

/-- Names lead to the same place on a grown disk, if the place is not followed further or is taken
already. -/
theorem walk_grows (grows : d.Grows d') {through : Bool} {links : Nat} {at' l : Location}
    {names : List Name} (found : d.walk through links at' names = .ok l)
    (there : through = true → d.at? l ≠ none) : d'.walk through links at' names = .ok l := by
  fun_induction walk d through links at' names with
  | case1 =>
    rw [walk]
    exact found
  | case2 links at' rest ih =>
    rw [walk, if_pos rfl]
    exact ih found
  | case3 links at' rest notDot ih =>
    rw [walk, if_neg notDot, if_pos rfl]
    exact ih found
  | case4 | case6 | case9 | case11 => cases found
  | case5 links at' n notDot notDots short free =>
    cases found
    rw [walk, if_neg notDot, if_neg notDots, if_neg short]
    have stays : through = false := by
      rw [← Bool.not_eq_true]
      exact fun follows => there follows free
    split
    · rfl
    · rw [walk]
    · rfl
    · simp [stays]
  | case7 links at' n rest notDot notDots short folder ih =>
    rw [walk, if_neg notDot, if_neg notDots, if_neg short, grows.entries _ _ folder]
    exact ih found
  | case8 links at' n notDot notDots short content file =>
    rw [walk, if_neg notDot, if_neg notDots, if_neg short, grows.entries _ _ file]
    exact found
  | case10 links at' n rest notDot notDots short target link last =>
    rw [walk, if_neg notDot, if_neg notDots, if_neg short, grows.entries _ _ link]
    dsimp only
    rw [if_pos last]
    exact found
  | case12 at' n rest notDot notDots short target link notLast links ih =>
    rw [walk, if_neg notDot, if_neg notDots, if_neg short, grows.entries _ _ link]
    dsimp only
    rw [if_neg notLast]
    exact ih found

/-- A removed folder may turn up again where names lead through it, but the names that led out of
it lead to the same place from there. -/
theorem walk_of_drift (grows : d.Grows d') {through : Bool} {at' l : Location} {names : List Name}
    (found : d.drift through at' names = .ok (some l)) (there : through = true → d.at? l ≠ none) :
    d'.walk through linkMax at' names = .ok l := by
  fun_induction drift d through at' names with
  | case1 | case5 => cases found
  | case2 at' rest ih =>
    rw [walk, if_pos rfl]
    exact ih found
  | case3 at' rest folder notDot =>
    rw [walk, if_neg notDot, if_pos rfl]
    exact walk_grows grows (walk_some found) there
  | case4 at' rest free notDot ih =>
    rw [walk, if_neg notDot, if_pos rfl]
    exact ih found

theorem drift_grows (grows : d.Grows d') {through : Bool} {at' l : Location} {names : List Name}
    (found : d.drift through at' names = .ok (some l)) (there : through = true → d.at? l ≠ none) :
    d'.drift through at' names = .ok (some l) := by
  fun_induction drift d through at' names with
  | case1 | case5 => cases found
  | case2 at' rest ih =>
    rw [drift, if_pos rfl]
    exact ih found
  | case3 at' rest folder notDot =>
    rw [drift, if_neg notDot, if_pos rfl, if_pos (grows.entries _ _ folder),
      walk_grows grows (walk_some found) there]
    rfl
  | case4 at' rest free notDot ih =>
    rw [drift, if_neg notDot, if_pos rfl]
    split
    · rw [walk_of_drift grows found there]
      rfl
    · exact ih found

theorem lead_grows (grows : d.Grows d') {through fromRoot : Bool} {names : List Name}
    {l : Location} (found : d.lead through fromRoot names = .ok (some l))
    (there : through = true → d.at? l ≠ none) : d'.lead through fromRoot names = .ok (some l) := by
  simp only [lead, grows.here, grows.adrift] at found ⊢
  split at found
  · rename_i absolute
    rw [if_pos absolute, walk_grows grows (walk_some found) there]
    rfl
  · rename_i relative
    rw [if_neg relative]
    split at found
    · rename_i adrift
      rw [if_pos adrift]
      exact drift_grows grows found there
    · rename_i inside
      rw [if_neg inside, walk_grows grows (walk_some found) there]
      rfl

theorem find_of {path : Bytes} {found : Option Location} {e : Entry} (vetted : vet path = .ok ())
    (led : d.lead true (isAbsolute path) (namesToEntry path) = .ok found)
    (there : d.atPlace? found = some e) : d.find path = .ok (found, e) := by
  simp only [find, vetted, led, there, bind, Except.bind, pure, Except.pure]

/-- A file that can be read stays as it is. -/
theorem read_grows (grows : d.Grows d') {path content : Bytes} (read : d.read path = .ok content) :
    d'.read path = .ok content := by
  obtain ⟨place, found⟩ := find_of_read read
  obtain ⟨_, vetted, _⟩ := bind_ok found
  obtain ⟨led, there⟩ := find_ok found
  cases place with
  | none => cases there
  | some l =>
    have led' := lead_grows grows led fun _ free => by
      rw [atPlace?, free] at there
      cases there
    simp only [Disk.read, find_of vetted led' (grows.entries l _ there)]

/-! ## Folders stay folders -/

/-- Names that lead nowhere but up. -/
def Up (names : List Name) : Prop := ∀ n ∈ names, n = dot ∨ n = dotDot

theorem walk_up (tree : d.IsTree) (through : Bool) (links : Nat) {at' : Location}
    {names : List Name} (up : Up names) (folder : d.at? at' = some .folder) :
    ∃ l, d.walk through links at' names = .ok l ∧ d.at? l = some .folder := by
  induction names generalizing at' with
  | nil => exact ⟨at', by rw [walk], folder⟩
  | cons n rest ih =>
    have up' : Up rest := fun m mem => up m (List.mem_cons_of_mem _ mem)
    rcases up n List.mem_cons_self with rfl | rfl
    · rw [walk, if_pos rfl]
      exact ih up' folder
    · rw [walk, if_neg (by decide), if_pos rfl]
      exact ih up' (tree.tail folder)

theorem drift_up (tree : d.IsTree) (through : Bool) (at' : Location) {names : List Name}
    (up : Up names) :
    ∃ found, d.drift through at' names = .ok found ∧ d.atPlace? found = some .folder := by
  induction names generalizing at' with
  | nil => exact ⟨none, by rw [drift], rfl⟩
  | cons n rest ih =>
    have up' : Up rest := fun m mem => up m (List.mem_cons_of_mem _ mem)
    rcases up n List.mem_cons_self with rfl | rfl
    · rw [drift, if_pos rfl]
      exact ih _ up'
    · rw [drift, if_neg (by decide), if_pos rfl]
      split
      · rename_i folder
        obtain ⟨l, walked, folder'⟩ := walk_up tree through linkMax up' folder
        exact ⟨some l, by rw [walked]; rfl, folder'⟩
      · exact ih _ up'

theorem up_of_drift {through : Bool} {at' : Location} {names : List Name}
    (found : d.drift through at' names = .ok none) : Up names := by
  fun_induction drift d through at' names with
  | case1 => exact fun _ mem => absurd mem List.not_mem_nil
  | case2 at' rest ih =>
    intro m mem
    rcases List.mem_cons.mp mem with rfl | later
    · exact .inl rfl
    · exact ih found m later
  | case3 at' rest =>
    obtain ⟨_, _, same⟩ := map_some_ok found
    cases same
  | case4 at' rest _ _ ih =>
    intro m mem
    rcases List.mem_cons.mp mem with rfl | later
    · exact .inr rfl
    · exact ih found m later
  | case5 => cases found

/-- Names that lead to something lead to something on a grown disk. -/
theorem lead_there_grows (grows : d.Grows d') (tree : d'.IsTree) {through fromRoot : Bool}
    {names : List Name} {found : Option Location} (led : d.lead through fromRoot names = .ok found)
    (there : d.atPlace? found ≠ none) :
    ∃ found', d'.lead through fromRoot names = .ok found' ∧ d'.atPlace? found' ≠ none := by
  cases found with
  | some l =>
    obtain ⟨e, entry⟩ := Option.ne_none_iff_exists'.mp there
    have entry' : d'.atPlace? (some l) = some e := grows.entries l e entry
    exact ⟨some l, lead_grows grows led fun _ => there, by simp [entry']⟩
  | none =>
    simp only [lead] at led
    split at led
    · obtain ⟨_, _, same⟩ := map_some_ok led
      cases same
    · rename_i relative
      split at led
      · rename_i adrift
        obtain ⟨found', led', folder⟩ := drift_up tree through d'.here (up_of_drift led)
        refine ⟨found', ?_, by simp [folder]⟩
        rw [lead, if_neg relative, if_pos (by rw [grows.adrift]; exact adrift), led']
      · obtain ⟨_, _, same⟩ := map_some_ok led
        cases same

/-! ## Leading parts -/

section

variable {fromRoot : Bool}

/-- Names with more behind them lead to a folder. -/
theorem walk_front (tree : d.IsTree) {links : Nat} {at' l : Location} {xs ys : List Name}
    (more : ys ≠ []) (folder : d.at? at' = some .folder)
    (found : d.walk true links at' (xs ++ ys) = .ok l) :
    ∃ l', d.walk true links at' xs = .ok l' ∧ d.at? l' = some .folder := by
  have here {links : Nat} {at' : Location} (folder : d.at? at' = some .folder) :
      ∃ l', d.walk true links at' [] = .ok l' ∧ d.at? l' = some .folder :=
    ⟨at', by rw [walk], folder⟩
  generalize split' : xs ++ ys = names at found
  fun_induction walk d true links at' names generalizing xs with
  | case1 => exact absurd (List.append_eq_nil_iff.mp split').2 more
  | case2 links at' rest ih =>
    cases xs with
    | nil => exact here folder
    | cons n xs =>
      obtain ⟨rfl, rfl⟩ := List.cons.inj split'
      rw [walk, if_pos rfl]
      exact ih folder rfl found
  | case3 links at' rest notDot ih =>
    cases xs with
    | nil => exact here folder
    | cons n xs =>
      obtain ⟨rfl, rfl⟩ := List.cons.inj split'
      rw [walk, if_neg notDot, if_pos rfl]
      exact ih (tree.tail folder) rfl found
  | case4 | case6 | case9 | case11 => cases found
  | case5 links at' n notDot notDots short free | case8 links at' n notDot notDots short _ file =>
    cases xs with
    | nil => exact here folder
    | cons m xs => exact absurd (List.append_eq_nil_iff.mp (List.cons.inj split').2).2 more
  | case7 links at' n rest notDot notDots short folder' ih =>
    cases xs with
    | nil => exact here folder
    | cons m xs =>
      obtain ⟨rfl, rfl⟩ := List.cons.inj split'
      rw [walk, if_neg notDot, if_neg notDots, if_neg short, folder']
      exact ih folder' rfl found
  | case10 links at' n rest notDot notDots short target link last => cases last.2
  | case12 at' n rest notDot notDots short target link notLast links ih =>
    cases xs with
    | nil => exact here folder
    | cons m xs =>
      obtain ⟨rfl, rfl⟩ := List.cons.inj split'
      rw [walk, if_neg notDot, if_neg notDots, if_neg short, link]
      simp only [Bool.not_true, Bool.false_eq_true, and_false, if_false]
      refine ih ?_ (List.append_assoc _ _ _) found
      split
      · rfl
      · exact folder

theorem drift_front (tree : d.IsTree) {at' : Location} {found : Option Location}
    {xs ys : List Name} (more : ys ≠ []) (led : d.drift true at' (xs ++ ys) = .ok found) :
    ∃ found', d.drift true at' xs = .ok found' ∧ d.atPlace? found' = some .folder := by
  induction xs generalizing at' with
  | nil => exact ⟨none, by rw [drift], rfl⟩
  | cons n xs ih =>
    rw [List.cons_append, drift] at led
    rw [drift]
    split at led
    · rename_i same
      rw [if_pos same]
      exact ih led
    · rename_i notDot
      rw [if_neg notDot]
      split at led
      · rename_i same
        rw [if_pos same]
        split at led
        · rename_i folder
          rw [if_pos folder]
          obtain ⟨l, walked, rfl⟩ := map_some_ok led
          obtain ⟨l', walked', there'⟩ := walk_front tree more folder walked
          exact ⟨some l', by rw [walked']; rfl, there'⟩
        · rename_i free
          rw [if_neg free]
          exact ih led
      · cases led

theorem lead_front (tree : d.IsTree) {found : Option Location} {xs ys : List Name} (more : ys ≠ [])
    (led : d.lead true fromRoot (xs ++ ys) = .ok found) :
    ∃ found', d.lead true fromRoot xs = .ok found' ∧ d.atPlace? found' = some .folder := by
  rcases d.lead_cases fromRoot with ⟨at', folder, same⟩ | same <;> rw [same] at led ⊢
  · obtain ⟨l, walked, rfl⟩ := map_some_ok led
    obtain ⟨l', walked', there'⟩ := walk_front tree more (folder tree) walked
    exact ⟨some l', by rw [walked']; rfl, there'⟩
  · exact drift_front tree more led

/-- Where names lead to something, they do so if a link at the very end is not followed. -/
theorem walk_unfollowed {links : Nat} {at' l : Location} {names : List Name}
    (found : d.walk true links at' names = .ok l) (there : d.at? l ≠ none) :
    ∃ l', d.walk false links at' names = .ok l' ∧ d.at? l' ≠ none := by
  fun_induction walk d true links at' names with
  | case1 =>
    cases found
    exact ⟨l, by rw [walk], there⟩
  | case2 links at' rest ih =>
    rw [walk, if_pos rfl]
    exact ih found
  | case3 links at' rest notDot ih =>
    rw [walk, if_neg notDot, if_pos rfl]
    exact ih found
  | case4 | case6 | case9 | case11 => cases found
  | case5 links at' n notDot notDots short free =>
    cases found
    exact absurd free there
  | case7 links at' n rest notDot notDots short folder ih =>
    rw [walk, if_neg notDot, if_neg notDots, if_neg short, folder]
    exact ih found
  | case8 links at' n notDot notDots short content file =>
    cases found
    refine ⟨n :: at', ?_, there⟩
    rw [walk, if_neg notDot, if_neg notDots, if_neg short, file]
    rfl
  | case10 links at' n rest notDot notDots short target link last => cases last.2
  | case12 at' n rest notDot notDots short target link notLast links ih =>
    rw [walk, if_neg notDot, if_neg notDots, if_neg short, link]
    by_cases last : rest = []
    · exact ⟨n :: at', by simp [last], by simp [link]⟩
    · simp only [last, false_and, if_false]
      exact ih found

theorem drift_unfollowed {at' : Location} {found : Option Location} {names : List Name}
    (led : d.drift true at' names = .ok found) (there : d.atPlace? found ≠ none) :
    ∃ found', d.drift false at' names = .ok found' ∧ d.atPlace? found' ≠ none := by
  fun_induction drift d true at' names with
  | case1 at' => exact ⟨none, by rw [drift], by simp [atPlace?]⟩
  | case2 at' rest ih =>
    rw [drift, if_pos rfl]
    exact ih led
  | case3 at' rest folder notDot =>
    obtain ⟨l, walked, rfl⟩ := map_some_ok led
    obtain ⟨l', walked', there'⟩ := walk_unfollowed walked there
    rw [drift, if_neg notDot, if_pos rfl, if_pos folder, walked']
    exact ⟨some l', rfl, there'⟩
  | case4 at' rest free notDot ih =>
    rw [drift, if_neg notDot, if_pos rfl, if_neg free]
    exact ih led
  | case5 => cases led

theorem lead_unfollowed {found : Option Location} {names : List Name}
    (led : d.lead true fromRoot names = .ok found) (there : d.atPlace? found ≠ none) :
    ∃ found', d.lead false fromRoot names = .ok found' ∧ d.atPlace? found' ≠ none := by
  rcases d.lead_cases fromRoot with ⟨at', _, same⟩ | same <;> rw [same] at led ⊢
  · obtain ⟨l, walked, rfl⟩ := map_some_ok led
    obtain ⟨l', walked', there'⟩ := walk_unfollowed walked there
    exact ⟨some l', by rw [walked']; rfl, there'⟩
  · exact drift_unfollowed led there

/-- Names that lead somewhere pass something with each leading part of them. -/
theorem lead_part (tree : d.IsTree) {found : Option Location} {xs ys : List Name}
    (led : d.lead true fromRoot (xs ++ ys) = .ok found) (there : d.atPlace? found ≠ none) :
    ∃ found', d.lead false fromRoot xs = .ok found' ∧ d.atPlace? found' ≠ none := by
  cases ys with
  | nil =>
    rw [List.append_nil] at led
    exact lead_unfollowed led there
  | cons y ys =>
    obtain ⟨found', led', folder⟩ := lead_front tree (List.cons_ne_nil y ys) led
    exact lead_unfollowed led' (by simp [folder])

end

/-! ## What making files and folders does -/

/-- Made from a disk by putting new entries, each at a free place that a leading part of some names
leads to. -/
inductive Builds (d : Disk) (fromRoot : Bool) (names : List Name) : Disk → Prop
  | stay : Builds d fromRoot names d
  | put {d' : Disk} {part : List Name} {l : Location} (e : Entry) : Builds d fromRoot names d' →
      part <+: names → d'.lead false fromRoot part = .ok (some l) → d'.at? l = none →
      Builds d fromRoot names (d'.put e (some l))

namespace Builds

variable {fromRoot : Bool} {names : List Name}

theorem trans {d'' : Disk} (h : d.Builds fromRoot names d') (h' : d'.Builds fromRoot names d'') :
    d.Builds fromRoot names d'' := by
  induction h' with
  | stay => exact h
  | put e _ part led free ih => exact .put e ih part led free

theorem mono {more : List Name} (sub : names <+: more) (h : d.Builds fromRoot names d') :
    d.Builds fromRoot more d' := by
  induction h with
  | stay => exact .stay
  | put e _ part led free ih => exact .put e ih (part.trans sub) led free

theorem grows (h : d.Builds fromRoot names d') : d.Grows d' := by
  induction h with
  | stay => exact .refl d
  | put e _ _ _ free ih => exact ih.trans (grows_put e free)

theorem isTree (h : d.Builds fromRoot names d') (tree : d.IsTree) : d'.IsTree := by
  induction h with
  | stay => exact tree
  | put e _ _ led free ih => exact ih.put e (lead_grounded ih led) free

/-- Whatever is new is at a place that was free and that a leading part of the names leads to, one
that led nowhere before. -/
theorem new (h : d.Builds fromRoot names d') (tree : d.IsTree) {l : Location}
    (changed : d'.at? l ≠ d.at? l) : d.at? l = none ∧ ∃ part, part <+: names ∧
      d'.lead false fromRoot part = .ok (some l) ∧
      ¬ ∃ found, d.lead false fromRoot part = .ok found ∧ d.atPlace? found ≠ none := by
  induction h with
  | stay => exact absurd rfl changed
  | @put d' part place e before sub led free ih =>
    have grows := grows_put e free
    have below : place ≠ [] := by
      rintro rfl
      cases free
    by_cases here : place = l
    · subst here
      refine ⟨?_, part, sub, lead_grows grows led (by simp), ?_⟩
      · cases old : d.at? place with
        | none => rfl
        | some e' =>
          rw [before.grows.entries place e' old] at free
          cases free
      · rintro ⟨found, led', there⟩
        obtain ⟨found', led'', there'⟩ :=
          lead_there_grows before.grows (before.isTree tree) led' there
        rw [led] at led''
        cases led''
        exact there' free
    · rw [at?_put d' e l below, if_neg here] at changed
      obtain ⟨free', part', sub', led', nowhere⟩ := ih changed
      exact ⟨free', part', sub', lead_grows grows led' (by simp), nowhere⟩

end Builds

variable {fromRoot : Bool} {names : List Name}

theorem makeFolderAt_builds {inward : List Name} (part : inward.reverse <+: names)
    (made : d.makeFolderAt fromRoot inward = .ok d') : d.Builds fromRoot names d' := by
  obtain ⟨found, led, made⟩ := bind_ok made
  split at made
  · cases made
  · rename_i free
    cases made
    cases found with
    | none => exact .stay
    | some l => exact .put _ .stay part led free

theorem makeFolderIn_builds {inward : List Name} (part : inward.reverse <+: names)
    {around : Disk → Except IoError Unit × Disk}
    (builds : ∀ d : Disk, d.Builds fromRoot names (around d).2) :
    d.Builds fromRoot names (d.makeFolderIn fromRoot inward around).2 := by
  have outer := builds d
  simp only [Disk.makeFolderIn]
  split
  · exact makeFolderAt_builds part ‹_›
  · split
    · split
      · rename_i made
        rw [made] at outer
        exact outer
      · rename_i d' made
        rw [made] at outer
        split
        · exact outer.trans (makeFolderAt_builds part ‹_›)
        · split <;> exact outer
    · split <;> exact .stay

theorem makeFoldersAt_builds {inward : List Name} (part : inward.reverse <+: names) :
    d.Builds fromRoot names (d.makeFoldersAt fromRoot inward).2 := by
  induction inward generalizing d with
  | nil => exact .stay
  | cons n outer ih =>
    have part' : outer.reverse <+: names :=
      List.IsPrefix.trans (by simp) part
    exact makeFolderIn_builds part fun _ => ih part'

/-! ### The path around -/

/-- What `shut` drops ends with a separator. -/
theorem shut_cut (path : Bytes) :
    shut path = path ∨ ∃ dropped, path = dropped ++ slash :: shut path := by
  fun_induction shut path with
  | case1 | case3 | case6 => exact .inl rfl
  | case2 => exact .inr ⟨[], rfl⟩
  | case4 c rest ih =>
    right
    rcases ih with same | ⟨dropped, cut⟩
    · exact ⟨[], by rw [same]; rfl⟩
    · exact ⟨slash :: dropped, by rw [List.cons_append, ← cut]⟩
  | case5 b c rest _ dots ih =>
    right
    obtain ⟨dotted, rfl⟩ := dots
    rcases ih with same | ⟨dropped, cut⟩
    · exact ⟨[b], by rw [same]; rfl⟩
    · exact ⟨b :: slash :: dropped, by rw [List.cons_append, List.cons_append, ← cut]⟩

theorem dropWhile_cut (path : Bytes) : path.dropWhile (· != slash) = [] ∨
    ∃ dropped rest, path.dropWhile (· != slash) = slash :: rest ∧
      path = dropped ++ slash :: rest := by
  induction path with
  | nil => exact .inl rfl
  | cons b path ih =>
    by_cases here : b = slash
    · exact .inr ⟨[], path, by simp [here], by simp [here]⟩
    · have skip : (b :: path).dropWhile (· != slash) = path.dropWhile (· != slash) := by
        simp [here]
      rw [skip]
      rcases ih with none | ⟨dropped, rest, left, cut⟩
      · exact .inl none
      · exact .inr ⟨b :: dropped, rest, left, by rw [cut]; rfl⟩

theorem shut_slash (path : Bytes) : shut (slash :: path) = shut path := by
  cases path <;> simp [shut]

/-- The path around is cut off at a separator, unless nothing is left of it but the root folder. -/
theorem around_cut (path : Bytes) :
    around path = [] ∨ (around path = [slash] ∧ isAbsolute path = true) ∨
      ∃ last, path = around path ++ slash :: last := by
  have backwards : shut ((shut path.reverse).dropWhile (· != slash)) = [] ∨
      ∃ dropped, path.reverse =
        dropped ++ slash :: shut ((shut path.reverse).dropWhile (· != slash)) := by
    rcases dropWhile_cut (shut path.reverse) with none | ⟨name, rest, left, named⟩
    · exact .inl (by rw [none]; rfl)
    · right
      rw [left, shut_slash]
      have cut : ∃ dropped, shut path.reverse = dropped ++ slash :: shut rest := by
        rcases shut_cut rest with same | ⟨dropped, cut⟩
        · exact ⟨name, by rw [same]; exact named⟩
        · exact ⟨name ++ slash :: dropped, by
            rw [List.append_assoc, List.cons_append, ← cut]; exact named⟩
      obtain ⟨dropped, cut⟩ := cut
      rcases shut_cut path.reverse with same | ⟨end', ends⟩
      · exact ⟨dropped, same ▸ cut⟩
      · refine ⟨end' ++ slash :: dropped, ?_⟩
        rw [List.append_assoc, List.cons_append, ← cut]
        exact ends
  simp only [around]
  split
  · rename_i root
    exact .inr (.inl ⟨rfl, root.2⟩)
  · rcases backwards with none | ⟨dropped, cut⟩
    · exact .inl (by rw [none]; rfl)
    · refine .inr (.inr ⟨dropped.reverse, ?_⟩)
      have forwards := congrArg List.reverse cut
      simpa using forwards

theorem namesOf_append (front last : Bytes) :
    namesOf (front ++ slash :: last) = namesOf front ++ namesOf last := by
  simp only [namesOf, List.splitOn_eq_splitOnP]
  rw [List.splitOnP_append_cons _ _ (by simp), List.filter_append]

theorem namesOf_around (path : Bytes) : namesOf (around path) <+: namesOf path := by
  rcases around_cut path with none | ⟨root, _⟩ | ⟨last, cut⟩
  · rw [none]
    exact List.nil_prefix
  · rw [root]
    exact List.nil_prefix
  · refine ⟨namesOf last, ?_⟩
    rw [← namesOf_append, ← cut]

theorem isAbsolute_around {path : Bytes} (some' : around path ≠ []) :
    isAbsolute (around path) = isAbsolute path := by
  rcases around_cut path with none | ⟨root, absolute⟩ | ⟨last, cut⟩
  · exact absurd none some'
  · rw [root, absolute]
    rfl
  · obtain ⟨b, rest, front⟩ := List.exists_cons_of_ne_nil some'
    rw [front] at cut ⊢
    rw [cut]
    rfl

/-! ### Whole paths -/

theorem makeFolders_builds (d : Disk) (path : Bytes) :
    d.Builds (isAbsolute path) (namesOf path) (d.makeFolders path).2 := by
  simp only [Disk.makeFolders]
  split
  · exact .stay
  · split
    · exact .stay
    · refine makeFolderIn_builds (by simp) ?_
      intro d
      exact makeFoldersAt_builds (by rw [List.reverse_reverse]; exact namesOf_around path)

theorem makeFile_builds {path : Bytes} (made : d.makeFile path = .ok d') :
    d.Builds (isAbsolute path) (namesOf path) d' := by
  obtain ⟨_, _, made⟩ := bind_ok made
  obtain ⟨found, led, made⟩ := bind_ok made
  split at made
  · split at made <;> cases made
  · rename_i free
    split at made
    · cases made
    · cases made
      cases found with
      | none => exact .stay
      | some l => exact .put _ .stay List.prefix_rfl led free

theorem makeFileAndFolders_builds (d : Disk) (path : Bytes) :
    d.Builds (isAbsolute path) (namesOf path) (d.makeFileAndFolders path).2 := by
  have outer : d.Builds (isAbsolute path) (namesOf path) (d.makeFolders (around path)).2 := by
    by_cases none : around path = []
    · rw [none]
      exact .stay
    · rw [← isAbsolute_around none]
      exact (makeFolders_builds d (around path)).mono (namesOf_around path)
  simp only [Disk.makeFileAndFolders]
  split
  · rename_i made
    rw [made] at outer
    exact outer
  · rename_i d' made
    rw [made] at outer
    split
    · exact outer.trans (makeFile_builds ‹_›)
    · exact outer

/-- The file or the folder at a path is made, with the folders around it. -/
theorem make_builds (d : Disk) (isFolder : Bool) (path : Bytes) :
    d.Builds (isAbsolute path) (namesOf path)
      (if isFolder then d.makeFolders path else d.makeFileAndFolders path).2 := by
  split
  · exact makeFolders_builds d path
  · exact makeFileAndFolders_builds d path

end Docroot.Disk
