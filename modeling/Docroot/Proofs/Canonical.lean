import Docroot.Proofs.KeyShape

/-!
Canonical keys.

A text is canonical if it is made of clean segments with a separator between any two of them, and
one behind the last if it is the key of a folder. Such a text tells its segments. The key of a text
depends on nothing but where the text leads, and leads there itself, so canonical texts are their
own keys and every key is canonical.
-/

namespace Docroot.Key

/-- The text is made of the given segments, as the key of a folder or of a file. -/
structure MadeOf (isFolder : Bool) (segs : List Segment) (key : String) : Prop where
  clean : ∀ s ∈ segs, Clean s
  text : key.toList = ['/'].intercalate segs ++ if isFolder = true ∧ segs ≠ [] then ['/'] else []

/-- The text is made of clean segments. -/
def Canonical (isFolder : Bool) (key : String) : Prop := ∃ segs, MadeOf isFolder segs key

variable {isFolder : Bool} {segs : List Segment} {key : String}

theorem madeOf_normalize (raw : String) (isFolder : Bool) :
    MadeOf isFolder (segments raw.toList) (normalize raw isFolder) where
  clean := segments_clean raw.toList
  text := by
    rw [normalize, String.toList_ofList, render]
    by_cases none : segments raw.toList = [] <;> simp [none]

theorem MadeOf.toList_eq (h : MadeOf isFolder segs key) : key.toList = render segs isFolder := by
  rw [h.text, render]
  by_cases none : segs = [] <;> simp [none]

/-- A canonical text tells its segments. -/
theorem MadeOf.segments_eq (h : MadeOf isFolder segs key) : segments key.toList = segs := by
  rw [h.toList_eq]
  exact segments_render h.clean isFolder

/-- A canonical text is its own key. -/
theorem MadeOf.normalize_eq (h : MadeOf isFolder segs key) : normalize key isFolder = key := by
  rw [normalize, h.segments_eq, ← h.toList_eq, String.ofList_toList]

theorem madeOf_iff : MadeOf isFolder segs key ↔
    normalize key isFolder = key ∧ segs = segments key.toList := by
  constructor
  · intro made
    exact ⟨made.normalize_eq, made.segments_eq.symm⟩
  · rintro ⟨fixed, rfl⟩
    have made := madeOf_normalize key isFolder
    rw [fixed] at made
    exact made

theorem canonical_iff : Canonical isFolder key ↔ normalize key isFolder = key := by
  constructor
  · rintro ⟨segs, made⟩
    exact made.normalize_eq
  · intro fixed
    exact ⟨_, madeOf_iff.mpr ⟨fixed, rfl⟩⟩

/-- To take a key of a key changes at most the separator at its end. -/
theorem normalize_normalize (raw : String) (other isFolder : Bool) :
    normalize (normalize raw other) isFolder = normalize raw isFolder :=
  normalize_congr (segments_normalize raw other) isFolder

/-- Texts have the same key if they lead to the same place. -/
theorem normalize_eq_iff (raw raw' : String) (isFolder : Bool) :
    normalize raw isFolder = normalize raw' isFolder ↔
      segments raw.toList = segments raw'.toList := by
  constructor
  · intro same
    have led := congrArg (fun key => segments key.toList) same
    simpa only [segments_normalize] using led
  · intro same
    exact normalize_congr same isFolder

/-- **Keys are exactly the canonical texts.** The key of any text, as a file or as a folder, is made
of clean segments, one separator between any two and one behind the last if it is a folder. There is
one way only in which a text is so made. The texts that are made so are the ones that are keys, and
the ones that are their own keys. A key has the keys of every text that it is a key of, and texts
that share their key as a folder share it as a file, and the other way round. -/
theorem keys_are_canonical :
    (∀ raw isFolder, Canonical isFolder (normalize raw isFolder)) ∧
    (∀ isFolder segs key, MadeOf isFolder segs key ↔
      Canonical isFolder key ∧ segs = segments key.toList) ∧
    (∀ isFolder key, Canonical isFolder key ↔ normalize key isFolder = key) ∧
    (∀ isFolder key, Canonical isFolder key ↔ ∃ raw, normalize raw isFolder = key) ∧
    (∀ raw other isFolder, normalize (normalize raw other) isFolder = normalize raw isFolder) ∧
    (∀ raw raw' isFolder other, normalize raw isFolder = normalize raw' isFolder ↔
      normalize raw other = normalize raw' other) := by
  refine ⟨?_, ?_, ?_, ?_, normalize_normalize, ?_⟩
  · intro raw isFolder
    exact ⟨_, madeOf_normalize raw isFolder⟩
  · intro isFolder segs key
    rw [canonical_iff, madeOf_iff]
  · intro isFolder key
    exact canonical_iff
  · intro isFolder key
    constructor
    · intro canonical
      exact ⟨key, canonical_iff.mp canonical⟩
    · rintro ⟨raw, rfl⟩
      exact ⟨_, madeOf_normalize raw isFolder⟩
  · intro raw raw' isFolder other
    rw [normalize_eq_iff, normalize_eq_iff]

/-- A file above the root, through both separators and a folder that is left again. -/
example : normalize "..\\a/.//b\\..\\c.txt/" false = "a/c.txt" := by decide +kernel

end Docroot.Key
