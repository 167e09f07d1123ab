/-!
Letter case and blank space in names.

Names are compared without regard to the case of ASCII letters; other letters keep their case.
Blank space is what Unicode calls white space.
-/
namespace Docroot

/-- The text with its ASCII capitals in lower case. -/
def lowerText (s : String) : String := String.ofList (s.toList.map Char.toLower)

/-- Equality up to the case of ASCII letters. -/
def sameName (a b : String) : Bool := a.toList.map Char.toLower == b.toList.map Char.toLower

/-- The characters with the Unicode property White_Space. -/
def isBlank (c : Char) : Bool :=
  let n := c.toNat
  (0x9 ≤ n && n ≤ 0xD) || n == 0x20 || n == 0x85 || n == 0xA0 || n == 0x1680 ||
    (0x2000 ≤ n && n ≤ 0x200A) || n == 0x2028 || n == 0x2029 || n == 0x202F || n == 0x205F ||
    n == 0x3000

/-- A text without the blank space at its ends. -/
def trimText (s : String) : String :=
  String.ofList (((s.toList.dropWhile isBlank).reverse.dropWhile isBlank).reverse)

theorem sameName_iff (a b : String) : sameName a b ↔ lowerText a = lowerText b := by
  simp [sameName, lowerText, ← String.toList_inj]

end Docroot
