/-!
Decimal numerals, plain and of a fixed least width.
-/
namespace Docroot.Decimal

def digits (n : Nat) : List Char := Nat.toDigits 10 n

/-- The numeral of `n`, with zeros in front up to `width` digits. -/
def padded (width n : Nat) : List Char :=
  List.replicate (width - (digits n).length) '0' ++ digits n

/-- A numeral with a sign, and at least `width` digits. -/
def signed (width : Nat) (n : Int) : List Char :=
  (if n < 0 then '-' else '+') :: padded width n.natAbs

def ofNat (n : Nat) : String := String.ofList (digits n)

/-- The numeral of an integer, with a sign only if it is negative. -/
def ofInt (n : Int) : String :=
  String.ofList ((if n < 0 then ['-'] else []) ++ digits n.natAbs)

end Docroot.Decimal
