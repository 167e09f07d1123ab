import Docroot.Proofs.Resolution

/-!
Requests in two steps.

A text leads from a folder one segment after the other, and what it leads to depends on nothing but
the segments of the folder. So a text with a separator in it leads where its two parts lead in turn,
whatever they hold: further separators, dots, or ways back up. A request for the whole text is then
a request for the key under which the second of two requests for its parts was answered, and finds
the same path in the registry.
-/

namespace Docroot

namespace Key

/-- Where a text leads from a folder with the given segments. -/
def follow (segs : List Segment) (text : List Char) : List Segment :=
  ((text.splitOnP isSeparator).foldl push segs.reverse).reverse

theorem push_nil (stack : List Segment) : push stack [] = stack := by
  simp [push]

theorem follow_nil (segs : List Segment) : follow segs [] = segs := by
  simp [follow, push_nil]

theorem follow_append (segs : List Segment) (a b : List Char) :
    follow segs (a ++ '/' :: b) = follow (follow segs a) b := by
  rw [follow, List.splitOnP_append_cons _ _ rfl, List.foldl_append, follow, follow,
    List.reverse_reverse]

/-- Separators in front lead nowhere. -/
theorem follow_dropWhile (segs : List Segment) (text : List Char) :
    follow segs (text.dropWhile isSeparator) = follow segs text := by
  induction text with
  | nil => rfl
  | cons c text ih =>
    cases separator : isSeparator c with
    | false => rw [List.dropWhile_cons_of_neg (by simp [separator])]
    | true =>
      rw [List.dropWhile_cons_of_pos separator, ih, follow, follow,
        List.splitOnP_cons_eq_if_modifyHead, if_pos separator, List.foldl_cons, push_nil]

/-- A text behind a text that ends with a separator leads on from where that one leads. -/
theorem segments_append {front : List Char} (shut : front = [] ∨ front.getLast? = some '/')
    (text : List Char) : segments (front ++ text) = follow (segments front) text := by
  rcases shut with rfl | last
  · rfl
  · obtain ⟨start, rfl⟩ := List.getLast?_eq_some_iff.mp last
    have led (text : List Char) :
        segments (start ++ '/' :: text) = follow (segments start) text :=
      follow_append [] start text
    rw [List.append_assoc, List.singleton_append, led, led, follow_nil]

theorem folderPrefix_shut (key : String) :
    (folderPrefix key).toList = [] ∨ (folderPrefix key).toList.getLast? = some '/' := by
  rw [folderPrefix]
  split
  · assumption
  · exact .inr (by simp)

theorem segments_folderPrefix (key : String) :
    segments (folderPrefix key).toList = segments key.toList := by
  rw [folderPrefix]
  split
  · rfl
  · have led : segments (key.toList ++ '/' :: []) = follow (segments key.toList) [] :=
      follow_append [] key.toList []
    rw [String.toList_append]
    exact led.trans (follow_nil _)

/-- A text below a path leads on from the path. -/
theorem segments_below (key raw : String) :
    segments (join (folderPrefix key) raw).toList = follow (segments key.toList) raw.toList := by
  rw [join, String.toList_append, String.toList_ofList, segments_append (folderPrefix_shut key),
    segments_folderPrefix, follow_dropWhile]

/-- A text with something behind it asks for a folder if that does. -/
theorem asksForFolder_append (a : String) {b : String} (some' : b ≠ "") :
    asksForFolder (a ++ b) = asksForFolder b := by
  have some' : b.toList ≠ [] := fun none => some' (String.toList_inj.mp none)
  rw [asksForFolder, String.toList_append, List.getLast?_append, Option.or_of_isSome, asksForFolder]
  simpa using some'

end Key

namespace Server

variable {s t : Server} {v p f : Nat} {a b raw : String}

/-! ## What a request finds after another -/

/-- What a request was answered with is remembered. -/
theorem remembered_resolve (known : v < s.systems.size) (there : p < s.nodes.size) (raw : String) :
    (s.resolve v p raw).2.remembered v p raw = some (s.resolve v p raw).1 := by
  cases found : s.remembered v p raw with
  | some q =>
    rw [resolve_remembered found]
    exact found
  | none =>
    obtain ⟨made, free⟩ := resolve_interns found
    rw [made]
    have goes : Goes Effect.Resolves s (s.intern v
        (s.keyBelow p raw (s.folderAnew v p raw)) (s.folderAnew v p raw)).2 :=
      intern_goes known ⟨_, rfl⟩
    have new := lookup_intern known (s.keyBelow p raw (s.folderAnew v p raw))
      (s.folderAnew v p raw)
    have others (key : String) (other : s.keyBelow p raw (s.folderAnew v p raw) ≠ key) :=
      lookup_intern_other (s.folderAnew v p raw) other known
    have kept := goes.node_kept there
    generalize s.intern v (s.keyBelow p raw (s.folderAnew v p raw)) (s.folderAnew v p raw) = made'
      at new others kept
    rw [remembered, asksForFolder, keyBelow, keyBelow, kept, ← asksForFolder, ← keyBelow,
      ← keyBelow]
    rw [remembered] at found
    cases asks : s.asksForFolder p raw with
    | true =>
      rw [folderAnew, asks, Bool.true_or, Bool.true_or] at new
      rw [if_pos rfl]
      exact new
    | false =>
      rw [asks, if_neg Bool.false_ne_true, Option.or_eq_none_iff] at found
      rw [if_neg Bool.false_ne_true]
      cases kind : s.folderAnew v p raw with
      | false =>
        rw [kind] at new
        rw [new, Option.some_or]
      | true =>
        rw [kind] at new others
        -- The key of the file is another one, or that of the root in both cases.
        by_cases root : s.keyBelow p raw true = ""
        · rw [keyBelow_empty.mp root, ← root, new, Option.some_or]
        · have other := others (s.keyBelow p raw false) (Key.normalize_ne root)
          rw [other, found.1, Option.none_or, new]

/-- What is remembered for a request depends on nothing but the registry, the keys that it leads to,
and whether it asks for a folder. -/
theorem remembered_congr {q : Nat} {raw' : String}
    (asks : s.asksForFolder q raw' = s.asksForFolder p raw)
    (keys : ∀ isFolder, s.keyBelow q raw' isFolder = s.keyBelow p raw isFolder) :
    s.remembered v q raw' = s.remembered v p raw := by
  rw [remembered, asks, keys, keys, remembered]

/-- A request that ends with a separator registers the folder that the text leads to. -/
theorem resolve_folder (s : Server) (v p : Nat) (a : String) :
    s.resolve v p (a ++ "/") = s.intern v (s.keyBelow p (a ++ "/") true) true := by
  have asks : s.asksForFolder p (a ++ "/") = true := by
    simp [asksForFolder, Key.asksForFolder, Key.isSeparator]
  rw [resolve_eq, if_pos asks]

theorem segments_keyBelow (s : Server) (p : Nat) (raw : String) (isFolder : Bool) :
    Key.segments (s.keyBelow p raw isFolder).toList =
      Key.follow (Key.segments (s.node p).key.toList) raw.toList := by
  rw [keyBelow, Key.segments_normalize, Key.segments_below]

/-- Where the second part of a text leads from the folder that the first part leads to, the whole
leads to from the start. -/
theorem keyBelow_append (folder : (s.node f).key = s.keyBelow p (a ++ "/") true) (b : String)
    (isFolder : Bool) : s.keyBelow f b isFolder = s.keyBelow p (a ++ "/" ++ b) isFolder := by
  refine Key.normalize_congr ?_ isFolder
  have first : (a ++ "/").toList = a.toList ++ '/' :: [] := String.toList_append
  have whole : (a ++ "/" ++ b).toList = a.toList ++ '/' :: b.toList := by
    simp
  rw [Key.segments_below, Key.segments_below, folder, segments_keyBelow, first, whole,
    Key.follow_append, Key.follow_append, Key.follow_nil]

/-- A request for the folder itself finds it. -/
theorem remembered_self (sound : s.Sound) (there : s.lookup v (s.node f).key = some f)
    (key : (s.node f).key = s.keyBelow f "" true) : s.remembered v f "" = some f := by
  obtain ⟨known, _⟩ := sound.registered _ _ _ there
  have asks : s.asksForFolder f "" = (s.node f).isFolder := rfl
  rw [remembered, asks, ← key]
  cases folder : (s.node f).isFolder with
  | true => exact there
  | false =>
    -- Nothing but the root can have the key of a folder and be none.
    have root : (s.node f).key = "" := by
      by_contra below
      rw [key] at there below
      rw [sound.isFolder_of_folder there below] at folder
      cases folder
    have file : s.keyBelow f "" false = "" := keyBelow_empty.mp (key.symm.trans root)
    rw [if_neg Bool.false_ne_true, file, ← root, there, Option.some_or]

/-- After the request for the second part, the request for the whole is answered already. -/
theorem remembered_append (sound : s.Sound) (known : v < s.systems.size)
    (there : p < s.nodes.size) (folder : s.lookup v (s.keyBelow p (a ++ "/") true) = some f)
    (b : String) :
    (s.resolve v f b).2.remembered v p (a ++ "/" ++ b) = some (s.resolve v f b).1 := by
  obtain ⟨knownF, _, key⟩ := sound.registered _ _ _ folder
  have goes := resolve_goes known f b
  have keptP := goes.node_kept there
  have keptF := goes.node_kept knownF
  have found := remembered_resolve known knownF b
  by_cases empty : b = ""
  · subst empty
    have same : s.keyBelow f "" true = (s.node f).key := by
      rw [keyBelow_append key, String.append_empty, key]
    rw [resolve_remembered (remembered_self sound (key ▸ folder) same.symm)]
    have asks : s.asksForFolder p (a ++ "/" ++ "") = true := by
      simp [asksForFolder, Key.asksForFolder, Key.isSeparator]
    rw [remembered, if_pos asks, String.append_empty]
    exact folder
  · generalize s.resolve v f b = made at keptP keptF found ⊢
    rw [← found]
    have behind : (a ++ "/" ++ b).isEmpty = b.isEmpty := by
      rw [Bool.eq_iff_iff, String.isEmpty_iff, String.isEmpty_iff]
      simp [empty]
    refine remembered_congr ?_ fun isFolder => ?_
    · have some' : b.isEmpty = false := by
        rw [Bool.eq_false_iff, ne_eq, String.isEmpty_iff]
        exact empty
      rw [asksForFolder, asksForFolder, Key.asksForFolder_append _ empty, behind, some',
        Bool.false_and, Bool.false_and]
    · refine (keyBelow_append ?_ b isFolder).symm
      rw [keptF, keyBelow, keptP, ← keyBelow]
      exact key

/-- The path that a request was answered with lies where its text leads. -/
theorem segments_resolve (sound : s.Sound) (known : v < s.systems.size)
    (there : p < s.nodes.size) (raw : String) :
    Key.segments ((s.resolve v p raw).2.node (s.resolve v p raw).1).key.toList =
      Key.follow (Key.segments (s.node p).key.toList) raw.toList := by
  have goes := resolve_goes known p raw
  have key := (remembered_isFolder (sound.goes goes) (remembered_resolve known there raw)).1
  rw [key, segments_keyBelow, goes.node_kept there]

/-! ## The two steps and the one -/

/-- **A request in two steps finds what the whole finds.** Below any path, the folder that a text
leads to is asked for with a separator behind the text, and another text is resolved below it. Then
a request for both texts at once, with the separator between them, is answered with the same path
and changes nothing. That holds for all texts, and whatever the registry and the disk hold; and the
path lies where the first text leads, and the second from there on. -/
theorem resolve_composes [MediaTypes] (reach : Reachable s) (known : v < s.systems.size)
    (there : p < s.nodes.size) (a b : String) :
    ∃ f s₁ x s₂, s.perform (.resolve v p (a ++ "/")) = some (.path f, s₁) ∧
      s₁.perform (.resolve v f b) = some (.path x, s₂) ∧
      s₂.perform (.resolve v p (a ++ "/" ++ b)) = some (.path x, s₂) ∧
      Key.segments (s₂.node x).key.toList =
        Key.follow (Key.follow (Key.segments (s.node p).key.toList) a.toList) b.toList := by
  have goes := resolve_goes known p (a ++ "/")
  have asked := perform_resolve known there (a ++ "/")
  have lies := segments_resolve reach.sound known there (a ++ "/")
  have folder : (s.resolve v p (a ++ "/")).2.lookup v (s.keyBelow p (a ++ "/") true) =
      some (s.resolve v p (a ++ "/")).1 := by
    rw [resolve_folder]
    exact lookup_intern known _ true
  have below (isFolder : Bool) : (s.resolve v p (a ++ "/")).2.keyBelow p (a ++ "/") isFolder =
      s.keyBelow p (a ++ "/") isFolder := by
    rw [keyBelow, goes.node_kept there, keyBelow]
  rw [← below] at folder
  generalize s.resolve v p (a ++ "/") = made at goes asked lies folder
  obtain ⟨f, s₁⟩ := made
  have sound := reach.sound.goes goes
  have known₁ := Nat.lt_of_lt_of_le known goes.size_systems
  have there₁ := Nat.lt_of_lt_of_le there goes.size_nodes
  have knownFolder : f < s₁.nodes.size := (sound.registered _ _ _ folder).1
  have goes₂ := resolve_goes known₁ f b
  have found := remembered_append sound known₁ there₁ folder b
  have led := segments_resolve sound known₁ knownFolder b
  refine ⟨f, s₁, _, _, asked, perform_resolve known₁ knownFolder b, ?_, ?_⟩
  · rw [perform_resolve (Nat.lt_of_lt_of_le known₁ goes₂.size_systems)
      (Nat.lt_of_lt_of_le there₁ goes₂.size_nodes), resolve_remembered found]
  · have first : (a ++ "/").toList = a.toList ++ '/' :: [] := String.toList_append
    rw [led, lies, first, Key.follow_append, Key.follow_nil]

attribute [local instance] MediaTypes.familiar

/-- Two texts that climb, with separators of either kind: from the root by `docs\\..`, and from
there beyond the root to `x.txt`. -/
theorem climb_in_two_steps : ∃ s f s₁ x s₂,
    (start textDisk).run [.mount "/" none {}, .root 0] = some s ∧
    s.perform (.resolve 0 0 ("docs\\.." ++ "/")) = some (.path f, s₁) ∧
    s₁.perform (.resolve 0 f ".//../x.txt") = some (.path x, s₂) ∧
    s₂.perform (.resolve 0 0 ("docs\\.." ++ "/" ++ ".//../x.txt")) = some (.path x, s₂) ∧
    Key.segments (s₂.node x).key.toList = ["x.txt".toList] := by
  obtain ⟨s, ran, _, systems, nodes, _, _, _, _, root⟩ := start_textDisk
  have known : 0 < s.systems.size := by omega
  have there : 0 < s.nodes.size := by omega
  obtain ⟨f, s₁, x, s₂, first, second, whole, lies⟩ :=
    resolve_composes ⟨textDisk, _, ran⟩ known there "docs\\.." ".//../x.txt"
  refine ⟨s, f, s₁, x, s₂, ran, first, second, whole, ?_⟩
  rw [lies, root]
  decide +kernel

end Server

end Docroot
