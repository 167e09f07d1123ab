import Mathlib
import Docroot.Proofs.Growth
import Docroot.Proofs.KeyShape

/-!
Segments of keys and names on disk.

A path on disk is written as bytes and a key as text. What is ASCII in the one is ASCII in the
other, so separators and dots are the same in both: a name without separators is one segment of a
key, and the place of a key is reached by the names of the root directory and then by the key's
segments, one after the other.
-/

namespace Docroot

namespace Utf8

/-! ## Bytes of texts -/

/-- A text has at least as many bytes as characters. -/
theorem length_le_ofText (s : String) : s.toList.length ≤ (Utf8.ofText s).length := by
  have chars (cs : List Char) : cs.length ≤ (Utf8.encode cs).length := by
    induction cs with
    | nil => exact Nat.le_refl _
    | cons c cs ih =>
      have first := Char.utf8Size_pos c
      rw [Utf8.encode, List.flatMap_cons, List.length_append, String.length_utf8EncodeChar,
        List.length_cons, ← Utf8.encode]
      omega
  exact chars s.toList

/-- The ASCII bytes of a text are its ASCII characters. -/
theorem mem_encode {cs : List Char} {b : UInt8} (ascii : b.toNat < 0x80) (mem : b ∈ encode cs) :
    Char.ofNat b.toNat ∈ cs := by
  obtain ⟨c, there, mem⟩ := List.mem_flatMap.mp mem
  suffices same : c.val.toNat = b.toNat by
    rw [← same, ofNat_val]
    exact there
  have bound := toNat_val_lt c
  have small (n : Nat) (h : n < 256) : (UInt8.ofNat n).toNat = n := by
    simp [Nat.mod_eq_of_lt h]
  unfold String.utf8EncodeChar at mem
  generalize c.val.toNat = v at mem bound
  simp only at mem
  split at mem
  · rw [List.mem_singleton.mp mem]
    exact (small v (by omega)).symm
  · exfalso
    split at mem
    · have e₁ := small (v / 64 % 32 + 192) (by omega)
      have e₂ := small (v % 64 + 128) (by omega)
      grind
    · split at mem
      · have e₁ := small (v / 4096 % 16 + 224) (by omega)
        have e₂ := small (v / 64 % 64 + 128) (by omega)
        have e₃ := small (v % 64 + 128) (by omega)
        grind
      · have e₁ := small (v / 262144 % 8 + 240) (by omega)
        have e₂ := small (v / 4096 % 64 + 128) (by omega)
        have e₃ := small (v / 64 % 64 + 128) (by omega)
        have e₄ := small (v % 64 + 128) (by omega)
        grind

theorem ofText_append (a b : String) : ofText (a ++ b) = ofText a ++ ofText b := by
  rw [ofText, ofText, ofText, String.toList_append, encode, List.flatMap_append]
  rfl

theorem encode_append (cs ds : List Char) : encode (cs ++ ds) = encode cs ++ encode ds :=
  List.flatMap_append

theorem encode_eq_nil {cs : List Char} : encode cs = [] ↔ cs = [] := by
  cases cs <;> simp [encode]

/-- A text starts with `/` if its bytes do. -/
theorem head?_ofText (s : String) : (ofText s).head? = some 47 ↔ s.toList.head? = some '/' := by
  simp only [ofText]
  cases s.toList with
  | nil => simp [encode]
  | cons c cs =>
    have whole : encode (c :: cs) = encode [c] ++ encode cs := encode_append [c] cs
    have some' : encode [c] ≠ [] := by
      simp [encode]
    rw [whole, List.head?_append_of_ne_nil _ some', List.head?_cons, Option.some.injEq]
    constructor
    · intro first
      have there := mem_encode (b := 47) (by decide) (List.mem_of_mem_head? first)
      exact (List.mem_singleton.mp there).symm
    · rintro rfl
      decide

/-! ## Damaged text -/

theorem toNat_ofNat_of_valid {n : Nat} (valid : n < 0xD800 ∨ 0xDFFF < n ∧ n < 0x110000) :
    (Char.ofNat n).toNat = n := by
  rw [Char.toNat_ofNat, if_pos valid]

/-- Characters of several bytes are beyond ASCII. -/
theorem next2_beyond {a : UInt8} {rest : Bytes} {c : Char} (first : within 0xC2 0xDF a)
    (read : (next2 a rest).1 = some c) : 0x80 ≤ c.toNat := by
  simp only [within, Bool.and_eq_true, decide_eq_true_eq] at first
  cases rest with
  | nil => cases read
  | cons b rest =>
    simp only [next2] at read
    split at read
    · cases read
      rw [char2, toNat_ofNat_of_valid (by omega)]
      omega
    · cases read

theorem char3_beyond {a b c : UInt8} (first : within 0xE0 0xEF a)
    (second : within (secondOfThree a.toNat).1 (secondOfThree a.toNat).2 b) :
    0x80 ≤ (char3 a b c).toNat := by
  simp only [within, Bool.and_eq_true, decide_eq_true_eq] at first
  have bounds : 0x80 ≤ b.toNat ∧ b.toNat ≤ 0xBF ∧ (a.toNat = 0xE0 → 0xA0 ≤ b.toNat) ∧
      (a.toNat = 0xED → b.toNat ≤ 0x9F) := by
    grind [within, secondOfThree]
  rw [char3, toNat_ofNat_of_valid (by omega)]
  omega

theorem next3_beyond {a : UInt8} {rest : Bytes} {c : Char} (first : within 0xE0 0xEF a)
    (read : (next3 a rest).1 = some c) : 0x80 ≤ c.toNat := by
  fun_cases next3 a rest with
  | case1 b second c' rest third =>
    simp only [next3, second, third, if_true, Option.some.injEq] at read
    exact read ▸ char3_beyond first second
  | case2 b second c' rest third => simp [next3, second, third] at read
  | case3 b second => simp [next3, second] at read
  | case4 b rest second => simp [next3, second] at read
  | case5 => cases read

theorem char4_beyond {a b c d : UInt8} (first : within 0xF0 0xF4 a)
    (second : within (secondOfFour a.toNat).1 (secondOfFour a.toNat).2 b) :
    0x80 ≤ (char4 a b c d).toNat := by
  simp only [within, Bool.and_eq_true, decide_eq_true_eq] at first
  have bounds : 0x80 ≤ b.toNat ∧ b.toNat ≤ 0xBF ∧ (a.toNat = 0xF0 → 0x90 ≤ b.toNat) ∧
      (a.toNat = 0xF4 → b.toNat ≤ 0x8F) := by
    grind [within, secondOfFour]
  rw [char4, toNat_ofNat_of_valid (by omega)]
  omega

theorem next4_beyond {a : UInt8} {rest : Bytes} {c : Char} (first : within 0xF0 0xF4 a)
    (read : (next4 a rest).1 = some c) : 0x80 ≤ c.toNat := by
  fun_cases next4 a rest with
  | case1 b second c' third d rest fourth =>
    simp only [next4, second, third, fourth, if_true, Option.some.injEq] at read
    exact read ▸ char4_beyond first second
  | case2 b second c' third d rest fourth => simp [next4, second, third, fourth] at read
  | case3 b second c' third => simp [next4, second, third] at read
  | case4 b second c' rest third => simp [next4, second, third] at read
  | case5 b second => simp [next4, second] at read
  | case6 b rest second => simp [next4, second] at read
  | case7 => cases read

/-- An ASCII character is read from its own byte alone. -/
theorem next_ascii {a : UInt8} {rest : Bytes} {c : Char} (read : (next a rest).1 = some c)
    (ascii : c.toNat < 0x80) : a = UInt8.ofNat c.toNat ∧ (next a rest).2 = rest := by
  fun_cases next a rest with
  | case1 small =>
    simp only [next, small, if_true, Option.some.injEq] at read ⊢
    rw [← read, toNat_ofNat_of_valid (by omega), UInt8.ofNat_toNat]
    exact ⟨rfl, trivial⟩
  | case2 large first =>
    rw [next, if_neg large, if_pos first] at read
    exact absurd (next2_beyond first read) (Nat.not_le.mpr ascii)
  | case3 large no2 first =>
    rw [next, if_neg large, if_neg no2, if_pos first] at read
    exact absurd (next3_beyond first read) (Nat.not_le.mpr ascii)
  | case4 large no2 no3 first =>
    rw [next, if_neg large, if_neg no2, if_neg no3, if_pos first] at read
    exact absurd (next4_beyond first read) (Nat.not_le.mpr ascii)
  | case5 large no2 no3 no4 =>
    rw [next, if_neg large, if_neg no2, if_neg no3, if_neg no4] at read
    cases read

theorem mem_of_mem_next {a b : UInt8} {rest : Bytes} (mem : b ∈ (next a rest).2) : b ∈ rest := by
  unfold next next2 next3 next4 at mem
  grind

theorem mem_repair {bs : Bytes} {c : Char} (ascii : c.toNat < 0x80) (mem : c ∈ repair bs) :
    UInt8.ofNat c.toNat ∈ bs := by
  fun_induction repair bs with
  | case1 => cases mem
  | case2 a rest ih =>
    rcases List.mem_cons.mp mem with rfl | later
    · cases read : (next a rest).1 with
      | none =>
        rw [read] at ascii
        exact absurd ascii (by decide)
      | some c =>
        rw [read, Option.getD_some] at ascii
        rw [Option.getD_some, (next_ascii read ascii).1]
        exact List.mem_cons_self
    · exact List.mem_cons_of_mem _ (mem_of_mem_next (ih later))

/-- What is ASCII throughout needed no repair. -/
theorem repair_ascii {bs : Bytes} (ascii : ∀ c ∈ repair bs, c.toNat < 0x80) :
    bs = (repair bs).map fun c => UInt8.ofNat c.toNat := by
  fun_induction repair bs with
  | case1 => rfl
  | case2 a rest ih =>
    have first := ascii _ List.mem_cons_self
    cases read : (next a rest).1 with
    | none =>
      rw [read] at first
      exact absurd first (by decide)
    | some c =>
      rw [read, Option.getD_some] at first
      obtain ⟨byte, behind⟩ := next_ascii read first
      have rest' := ih fun c mem => ascii c (List.mem_cons_of_mem _ mem)
      rw [behind] at rest' ⊢
      rw [Option.getD_some, List.map_cons, ← byte, ← rest']

end Utf8

namespace Disk

open Utf8 (Bytes)

/-! ## Names -/

/-- A name that leads down into a folder: it is none of the names of the folder itself and of the
one around it, and holds no slash. All names on a real disk do. -/
structure Onward (n : Name) : Prop where
  ne_nil : n ≠ []
  ne_dot : n ≠ dot
  ne_dotDot : n ≠ dotDot
  slash : Disk.slash ∉ n

/-- A name that is one segment of a key as well, since it does not hold the other separator. -/
structure Plain (n : Name) : Prop extends Onward n where
  backslash : 92 ∉ n

theorem Plain.clean {n : Name} (plain : Plain n) : Key.Clean (Utf8.repair n) where
  ne_nil none := by
    cases n with
    | nil => exact plain.ne_nil rfl
    | cons a rest =>
      rw [Utf8.repair] at none
      cases none
  ne_dot same := by
    have bytes : n = (Utf8.repair n).map fun c => UInt8.ofNat c.toNat :=
      Utf8.repair_ascii (by simp [same])
    rw [same] at bytes
    exact plain.ne_dot bytes
  ne_dots same := by
    have bytes : n = (Utf8.repair n).map fun c => UInt8.ofNat c.toNat :=
      Utf8.repair_ascii (by simp [same])
    rw [same] at bytes
    exact plain.ne_dotDot bytes
  separators c mem := by
    rw [Bool.eq_false_iff]
    intro separator
    simp only [Key.isSeparator, Bool.or_eq_true, beq_iff_eq] at separator
    rcases separator with rfl | rfl
    · exact plain.slash (Utf8.mem_repair (by decide) mem)
    · exact plain.backslash (Utf8.mem_repair (by decide) mem)

/-- The segments of keys are written as plain names. -/
theorem Plain.of_clean {s : Key.Segment} (clean : Key.Clean s) : Plain (Utf8.encode s) where
  ne_nil none := clean.ne_nil (Utf8.encode_injective none)
  ne_dot same := by
    have written : Utf8.encode s = Utf8.encode ['.'] := same
    exact clean.ne_dot (Utf8.encode_injective written)
  ne_dotDot same := by
    have written : Utf8.encode s = Utf8.encode ['.', '.'] := same
    exact clean.ne_dots (Utf8.encode_injective written)
  slash mem := by
    have separator := clean.separators '/' (Utf8.mem_encode (by decide) mem)
    cases separator
  backslash mem := by
    have separator := clean.separators '\\' (Utf8.mem_encode (by decide) mem)
    cases separator

theorem namesOf_onward {n : Name} (onward : Onward n) : namesOf n = [n] := by
  rw [namesOf, List.splitOn_eq_singleton onward.slash]
  simp [onward.ne_nil]

theorem namesOf_render {segs : List Key.Segment} (clean : ∀ s ∈ segs, Key.Clean s)
    (text : List Char) : namesOf (Utf8.encode (Key.render segs true ++ text)) =
      segs.map Utf8.encode ++ namesOf (Utf8.encode text) := by
  rw [Key.render_folder]
  induction segs with
  | nil => rfl
  | cons s rest ih =>
    have first := (Plain.of_clean (clean s List.mem_cons_self)).toOnward
    have cut : Utf8.encode ((s :: rest).flatMap (· ++ ['/']) ++ text) =
        Utf8.encode s ++ slash :: Utf8.encode (rest.flatMap (· ++ ['/']) ++ text) := by
      rw [List.flatMap_cons, List.append_assoc, List.append_assoc, Utf8.encode_append,
        Utf8.encode_append]
      rfl
    rw [cut, namesOf_append, namesOf_onward first,
      ih fun s mem => clean s (List.mem_cons_of_mem _ mem)]
    rfl

/-- The names in a key are its segments. -/
theorem namesOf_key (raw : String) (isFolder : Bool) :
    namesOf (Utf8.ofText (Key.normalize raw isFolder)) =
      (Key.segments raw.toList).map Utf8.encode := by
  have clean := Key.segments_clean raw.toList
  rw [Utf8.ofText, Key.normalize, String.toList_ofList]
  cases isFolder with
  | true =>
    have names := namesOf_render clean []
    rw [List.append_nil] at names
    rw [names]
    exact List.append_nil _
  | false =>
    rcases List.eq_nil_or_concat (Key.segments raw.toList) with none | ⟨front, last, some'⟩
    · rw [none]
      rfl
    · rw [List.concat_eq_append] at some'
      rw [some'] at clean ⊢
      have last' := (Plain.of_clean (clean last (by simp))).toOnward
      rw [Key.render_file, namesOf_render fun s mem => clean s (List.mem_append_left _ mem),
        namesOf_onward last', List.map_append]
      rfl

/-- What a path lists are names in some folder. -/
theorem mem_of_list {d : Disk} {path : Utf8.Bytes} {names : List Name}
    (listed : d.list path = .ok names) {n : Name} (mem : n ∈ names) : ∃ l, n ∈ d.namesIn l := by
  obtain ⟨place, _, rfl⟩ := find_of_list listed
  cases place with
  | none => cases mem
  | some l => exact ⟨l, mem⟩

/-! ## Places of keys -/

/-- What stands between a root directory and a key. -/
def joint (root : String) : String :=
  if root.toList = [] ∨ root.toList.getLast? = some '/' then "" else "/"

/-- A key is put behind the root directory, and never takes its place. -/
theorem below_normalize (root raw : String) (isFolder : Bool) :
    Key.below root (Key.normalize raw isFolder) =
      root ++ joint root ++ Key.normalize raw isFolder := by
  rw [Key.below, if_neg (Key.head?_normalize raw isFolder), joint]
  split
  · rw [String.append_empty]
  · rfl

theorem namesOf_joint (root : String) (last : Bytes) :
    namesOf (Utf8.ofText (root ++ joint root) ++ last) =
      namesOf (Utf8.ofText root) ++ namesOf last := by
  rw [joint]
  split
  · rename_i shut
    rw [String.append_empty]
    rcases shut with none | ends
    · rw [Utf8.ofText, none]
      rfl
    · obtain ⟨front, same⟩ := List.getLast?_eq_some_iff.mp ends
      have cut : Utf8.ofText root = Utf8.encode front ++ slash :: [] := by
        rw [Utf8.ofText, same, Utf8.encode_append]
        rfl
      rw [cut, namesOf_append, List.append_assoc, List.cons_append, List.nil_append, namesOf_append]
      exact congrArg (· ++ namesOf last) (List.append_nil _).symm
  · have cut : Utf8.ofText (root ++ "/") ++ last = Utf8.ofText root ++ slash :: last := by
      rw [Utf8.ofText_append, List.append_assoc]
      rfl
    rw [cut, namesOf_append]

/-- The place of a key is reached by the names of the root directory and by the key's segments. -/
theorem namesOf_below (root raw : String) (isFolder : Bool) :
    namesOf (Utf8.ofText (Key.below root (Key.normalize raw isFolder))) =
      namesOf (Utf8.ofText root) ++ (Key.segments raw.toList).map Utf8.encode := by
  rw [below_normalize, Utf8.ofText_append, namesOf_joint, namesOf_key]

theorem isAbsolute_ofText (s : String) :
    isAbsolute (Utf8.ofText s) = (s.toList.head? == some '/') := by
  rw [Bool.eq_iff_iff, isAbsolute, beq_iff_eq, beq_iff_eq]
  exact Utf8.head?_ofText s

theorem isAbsolute_below (root raw : String) (isFolder : Bool) :
    isAbsolute (Utf8.ofText (Key.below root (Key.normalize raw isFolder))) =
      isAbsolute (Utf8.ofText root) := by
  rw [below_normalize, isAbsolute_ofText, isAbsolute_ofText, joint]
  cases chars : root.toList with
  | nil =>
    have relative := Key.head?_normalize raw isFolder
    simp only [String.toList_append, chars]
    simpa using relative
  | cons c cs =>
    simp only [String.toList_append, chars, List.cons_append, List.head?_cons]

end Disk

end Docroot
