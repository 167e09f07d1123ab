import Mathlib
import Docroot.Key

/-!
The shape of keys.

The segments of a key are clean: none is empty, a dot or two dots, and no separator is in any. So
the key of a file never ends with `/`, the key of a folder does unless it is empty, and a text has
an empty key as a file exactly if it has one as a folder.
-/

namespace Docroot.Key

structure Clean (s : Segment) : Prop where
  ne_nil : s ≠ []
  ne_dot : s ≠ ['.']
  ne_dots : s ≠ ['.', '.']
  separators : ∀ c ∈ s, isSeparator c = false

theorem not_mem_of_mem_splitOnP {α : Type} {p : α → Bool} {cs s : List α}
    (mem : s ∈ cs.splitOnP p) : ∀ c ∈ s, p c = false := by
  induction cs generalizing s with
  | nil =>
    obtain rfl : s = [] := by simpa using mem
    exact fun c mem => absurd mem List.not_mem_nil
  | cons c cs ih =>
    rw [List.splitOnP_cons_eq_if_modifyHead] at mem
    split at mem
    · rcases List.mem_cons.mp mem with rfl | later
      · exact fun c mem => absurd mem List.not_mem_nil
      · exact ih later
    · rename_i plain
      cases rest : cs.splitOnP p with
      | nil => exact absurd rest (List.splitOnP_ne_nil _ _)
      | cons first others =>
        rw [rest, List.modifyHead_cons] at mem
        rcases List.mem_cons.mp mem with rfl | later
        · intro d mem
          rcases List.mem_cons.mp mem with rfl | mem
          · simpa using plain
          · exact ih (rest ▸ List.mem_cons_self) d mem
        · exact ih (rest ▸ List.mem_cons_of_mem _ later)

theorem push_clean {stack : List Segment} {s : Segment} (clean : ∀ t ∈ stack, Clean t)
    (separators : ∀ c ∈ s, isSeparator c = false) : ∀ t ∈ push stack s, Clean t := by
  simp only [push]
  split
  · exact clean
  · rename_i kept
    split
    · exact fun t mem => clean t (List.mem_of_mem_tail mem)
    · rename_i ne_dots
      intro t mem
      rcases List.mem_cons.mp mem with rfl | mem
      · exact ⟨fun h => kept (.inl h), fun h => kept (.inr h), ne_dots, separators⟩
      · exact clean t mem

theorem foldl_push_clean {parts stack : List Segment} (clean : ∀ t ∈ stack, Clean t)
    (separators : ∀ s ∈ parts, ∀ c ∈ s, isSeparator c = false) :
    ∀ t ∈ parts.foldl push stack, Clean t := by
  induction parts generalizing stack with
  | nil => exact clean
  | cons s parts ih =>
    exact ih (push_clean clean (separators s List.mem_cons_self))
      fun t mem => separators t (List.mem_cons_of_mem _ mem)

theorem segments_clean (raw : List Char) : ∀ s ∈ segments raw, Clean s := by
  intro s mem
  exact foldl_push_clean (fun _ mem => absurd mem List.not_mem_nil)
    (fun _ mem => not_mem_of_mem_splitOnP mem) s (List.mem_reverse.mp mem)

theorem getLast?_intercalate {segs : List Segment} (clean : ∀ s ∈ segs, Clean s) :
    (['/'].intercalate segs).getLast? ≠ some '/' ∧
    (['/'].intercalate segs = [] ↔ segs = []) := by
  induction segs with
  | nil => simp [List.intercalate_nil]
  | cons s rest ih =>
    have first := clean s List.mem_cons_self
    cases rest with
    | nil =>
      rw [List.intercalate_singleton]
      refine ⟨fun last => ?_, by simp [first.ne_nil]⟩
      simpa [isSeparator] using first.separators '/' (List.mem_of_getLast? last)
    | cons t rest =>
      obtain ⟨last, empty⟩ := ih fun s mem => clean s (List.mem_cons_of_mem _ mem)
      have inner : ['/'].intercalate (t :: rest) ≠ [] := by simp [empty]
      rw [List.intercalate_cons_cons]
      refine ⟨?_, by simp⟩
      rw [List.getLast?_append, Option.or_of_isSome (by simpa using inner)]
      exact last

/-- The key of a file never ends with a separator. -/
theorem normalize_file_last (raw : String) :
    (normalize raw false).toList.getLast? ≠ some '/' := by
  simpa [normalize, render] using (getLast?_intercalate (segments_clean raw.toList)).1

/-- The key of a folder does, unless it is the root. -/
theorem normalize_folder_last {raw : String} (below : normalize raw true ≠ "") :
    (normalize raw true).toList.getLast? = some '/' := by
  have some' : segments raw.toList ≠ [] := fun none => below (by simp [normalize, render, none])
  simp [normalize, render, some']

theorem normalize_eq_empty (raw : String) (isFolder : Bool) :
    normalize raw isFolder = "" ↔ segments raw.toList = [] := by
  have empty := (getLast?_intercalate (segments_clean raw.toList)).2
  rw [← String.toList_inj]
  cases isFolder with
  | false => simpa [normalize, render] using empty
  | true =>
    simp only [normalize, render, String.toList_ofList, String.toList_empty, List.append_eq_nil_iff,
      empty]
    constructor
    · exact And.left
    · intro none
      simp [none]

/-- The keys of folders are no keys of files, except that of the root. -/
theorem normalize_ne {raw raw' : String} (below : normalize raw true ≠ "") :
    normalize raw true ≠ normalize raw' false := by
  intro same
  have last := normalize_folder_last below
  rw [same] at last
  exact normalize_file_last raw' last

/-- Below a root directory a key ends as it does alone. -/
theorem below_last (root : String) {key : String} (below' : key ≠ "") :
    (below root key).toList.getLast? = key.toList.getLast? := by
  have some' : key.toList ≠ [] := fun none => below' (String.toList_inj.mp none)
  have last (front : String) : (front ++ key).toList.getLast? = key.toList.getLast? := by
    rw [String.toList_append, List.getLast?_append, Option.or_of_isSome]
    simpa using some'
  simp only [below]
  split
  · rfl
  · split <;> exact last _

/-- The root folder below a root directory is the directory, as a folder. -/
theorem below_root (root : String) :
    below root "" = "" ∨ (below root "").toList.getLast? = some '/' := by
  simp only [below]
  split
  · exact .inl rfl
  · split
    · rename_i shut
      rw [String.append_empty]
      exact shut.imp (fun none => String.toList_inj.mp none) id
    · right
      simp

/-- A key never starts with a separator. -/
theorem head?_normalize (raw : String) (isFolder : Bool) :
    (normalize raw isFolder).toList.head? ≠ some '/' := by
  have clean := segments_clean raw.toList
  rw [normalize, String.toList_ofList, render]
  cases segs : segments raw.toList with
  | nil => simp [List.intercalate_nil]
  | cons s rest =>
    have first := clean s (segs ▸ List.mem_cons_self)
    obtain ⟨c, cs, rfl⟩ := List.exists_cons_of_ne_nil first.ne_nil
    have separator := first.separators c List.mem_cons_self
    intro head
    have same : c = '/' := by
      cases rest <;> simpa [List.intercalate_singleton, List.intercalate_cons_cons] using head
    rw [same] at separator
    cases separator

/-! ## Back from keys to segments -/

theorem render_folder (segs : List Segment) : render segs true = segs.flatMap (· ++ ['/']) := by
  induction segs with
  | nil => rfl
  | cons s rest ih =>
    rw [List.flatMap_cons, ← ih]
    cases rest with
    | nil => simp [render, List.intercalate_nil]
    | cons t rest =>
      simp [render, List.intercalate_cons_cons]

theorem splitOnP_render {segs : List Segment} (clean : ∀ s ∈ segs, Clean s) (text : List Char) :
    (render segs true ++ text).splitOnP isSeparator = segs ++ text.splitOnP isSeparator := by
  rw [render_folder]
  induction segs with
  | nil => rfl
  | cons s rest ih =>
    have first := clean s List.mem_cons_self
    rw [List.flatMap_cons, List.append_assoc, List.append_assoc, List.singleton_append,
      List.splitOnP_append_cons_of_forall_mem first.separators _ rfl,
      ih fun s mem => clean s (List.mem_cons_of_mem _ mem), List.cons_append]

theorem push_of_clean {s : Segment} (clean : Clean s) (stack : List Segment) :
    push stack s = s :: stack := by
  rw [push, if_neg (not_or.mpr ⟨clean.ne_nil, clean.ne_dot⟩), if_neg clean.ne_dots]

theorem foldl_push_of_clean {segs : List Segment} (clean : ∀ s ∈ segs, Clean s)
    (stack : List Segment) : segs.foldl push stack = segs.reverse ++ stack := by
  induction segs generalizing stack with
  | nil => rfl
  | cons s rest ih =>
    rw [List.foldl_cons, push_of_clean (clean s List.mem_cons_self),
      ih fun s mem => clean s (List.mem_cons_of_mem _ mem), List.reverse_cons, List.append_assoc]
    rfl

/-- A text behind the key of a folder leads on from there. -/
theorem segments_render_append {segs : List Segment} (clean : ∀ s ∈ segs, Clean s)
    (text : List Char) : segments (render segs true ++ text) =
      ((text.splitOnP isSeparator).foldl push segs.reverse).reverse := by
  rw [segments, splitOnP_render clean, List.foldl_append, foldl_push_of_clean clean,
    List.append_nil]

theorem render_file (front : List Segment) (last : Segment) :
    render (front ++ [last]) false = render front true ++ last := by
  induction front with
  | nil => simp [render, List.intercalate_singleton, List.intercalate_nil]
  | cons s rest ih =>
    have further : rest ++ [last] ≠ [] := by simp
    obtain ⟨t, others, same⟩ := List.exists_cons_of_ne_nil further
    rw [same] at ih
    simp only [render_folder, List.flatMap_cons] at ih ⊢
    rw [List.append_assoc, ← ih, List.cons_append, same]
    simp [render, List.intercalate_cons_cons]

theorem segments_render_file {front : List Segment} {last : Segment}
    (clean : ∀ s ∈ front, Clean s) (clean' : Clean last) :
    segments (render front true ++ last) = front ++ [last] := by
  rw [segments_render_append clean, List.splitOnP_eq_singleton clean'.separators,
    List.foldl_cons, push_of_clean clean', List.foldl_nil, List.reverse_cons, List.reverse_reverse]

/-- The segments of a key are those that it was made of. -/
theorem segments_render {segs : List Segment} (clean : ∀ s ∈ segs, Clean s) (isFolder : Bool) :
    segments (render segs isFolder) = segs := by
  cases isFolder with
  | true =>
    have led := segments_render_append clean []
    rw [List.append_nil] at led
    rw [led, List.splitOnP_nil]
    exact List.reverse_reverse _
  | false =>
    rcases List.eq_nil_or_concat segs with rfl | ⟨front, last, rfl⟩
    · rfl
    · rw [List.concat_eq_append] at clean ⊢
      rw [render_file]
      exact segments_render_file (fun s mem => clean s (List.mem_append_left _ mem))
        (clean last (by simp))

/-- A key leads where the text leads that it is the key of. -/
theorem segments_normalize (raw : String) (isFolder : Bool) :
    segments (normalize raw isFolder).toList = segments raw.toList := by
  rw [normalize, String.toList_ofList]
  exact segments_render (segments_clean raw.toList) isFolder

/-- Texts that lead to the same place have the same keys. -/
theorem normalize_congr {a b : String} (same : segments a.toList = segments b.toList)
    (isFolder : Bool) : normalize a isFolder = normalize b isFolder := by
  rw [normalize, same, normalize]

theorem segments_empty : segments "".toList = [] := rfl

/-- A segment below a folder leads one step further. -/
theorem segments_join (raw : String) {s : Segment} (clean : Clean s) :
    segments (join (normalize raw true) (String.ofList s)).toList = segments raw.toList ++ [s] := by
  have kept : s.dropWhile isSeparator = s := by
    cases s with
    | nil => rfl
    | cons c rest =>
      rw [List.dropWhile_cons_of_neg]
      rw [clean.separators c List.mem_cons_self]
      exact Bool.false_ne_true
  rw [join, String.toList_append, String.toList_ofList, String.toList_ofList, kept, normalize,
    String.toList_ofList, segments_render_file (segments_clean raw.toList) clean]

/-! ## How deep a key lies -/

/-- How many segments a key has. -/
def depth (key : String) : Nat := (segments key.toList).length

theorem length_foldl_push (parts stack : List Segment) :
    (parts.foldl push stack).length ≤ stack.length + (parts.map List.length).sum := by
  induction parts generalizing stack with
  | nil => simp
  | cons s parts ih =>
    have first : (push stack s).length ≤ stack.length + s.length := by
      simp only [push]
      split
      · exact Nat.le_add_right _ _
      · rename_i kept
        have some' : s.length ≠ 0 := fun none => kept (.inl (List.length_eq_zero_iff.mp none))
        split
        · simp only [List.length_tail]
          omega
        · simp only [List.length_cons]
          omega
    have rest := ih (push stack s)
    simp only [List.foldl_cons, List.map_cons, List.sum_cons]
    omega

theorem sum_length_splitOnP (cs : List Char) :
    ((cs.splitOnP isSeparator).map List.length).sum ≤ cs.length := by
  induction cs with
  | nil => simp
  | cons c cs ih =>
    rw [List.splitOnP_cons_eq_if_modifyHead]
    split
    · simp only [List.map_cons, List.length_nil, List.sum_cons, List.length_cons]
      omega
    · cases split' : cs.splitOnP isSeparator with
      | nil => exact absurd split' (List.splitOnP_ne_nil _ _)
      | cons first rest =>
        rw [split'] at ih
        simp only [List.map_cons, List.sum_cons, List.modifyHead_cons, List.length_cons] at ih ⊢
        omega

theorem depth_le_length (key : String) : depth key ≤ key.toList.length := by
  have folded := length_foldl_push (key.toList.splitOnP isSeparator) []
  have parts := sum_length_splitOnP key.toList
  simp only [depth, segments, List.length_reverse]
  simp only [List.length_nil] at folded
  omega

theorem length_le_below (root key : String) :
    key.toList.length ≤ (below root key).toList.length := by
  simp only [below]
  split
  · exact Nat.le_refl _
  · split <;> simp only [String.toList_append, List.length_append] <;> omega

end Docroot.Key
